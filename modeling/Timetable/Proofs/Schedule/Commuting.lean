import Timetable.Proofs.Schedule.Blocks

namespace Timetable

variable {R : Type}

namespace Table

variable {K V : Type} [Ord K] [Std.TransOrd K] [Std.LawfulEqOrd K] [DecidableEq K]
  {t : Table K V} {k l : K}

theorem insert_comm (h : k ≠ l) (v w : V) :
    (t.insert k v).insert l w = (t.insert l w).insert k v := by
  apply Std.ExtTreeMap.ext_getElem?
  intro m
  rw [getElem?_insert, getElem?_insert, getElem?_insert, getElem?_insert]
  by_cases hk : k = m
  · have hl : l ≠ m := fun hl => h (hk.trans hl.symm)
    rw [if_neg hl, if_pos hk, if_pos hk]
  · rw [if_neg hk, if_neg hk]

theorem adjust_comm {e f : V → V} (h : k = l → ∀ v, t[k]? = some v → e (f v) = f (e v)) :
    (t.adjust k e).adjust l f = (t.adjust l f).adjust k e := by
  apply Std.ExtTreeMap.ext_getElem?
  intro m
  rw [getElem?_adjust, getElem?_adjust, getElem?_adjust, getElem?_adjust]
  by_cases hk : k = m
  · by_cases hl : l = m
    · subst hk
      rw [if_pos hl, if_pos rfl, if_pos hl, if_pos rfl]
      cases hv : t[k]? with
      | none => rfl
      | some v => exact congrArg some (h hl.symm v hv).symm
    · rw [if_neg hl, if_pos hk, if_pos hk, if_neg hl]
  · rw [if_neg hk, if_neg hk]

end Table

namespace Trip

variable {s t u : Trip R}

/-- Trips with the id, the route, the block and the service of another. -/
structure VersionOf (s t : Trip R) : Prop where
  id : t.id = s.id
  route : t.route = s.route
  block : t.block = s.block
  service : t.service = s.service

theorem replaceIn_comm (h : t.id ≠ u.id) (ts : List (Trip R)) :
    u.replaceIn (t.replaceIn ts) = t.replaceIn (u.replaceIn ts) := by
  rw [replaceIn, replaceIn, List.map_map, replaceIn, replaceIn, List.map_map]
  apply List.map_congr_left
  intro s _
  rw [Function.comp_apply, Function.comp_apply]
  by_cases ht : s.id = t.id
  · have hu : s.id ≠ u.id := fun hu => h (ht.symm.trans hu)
    rw [if_pos ht, if_neg h, if_neg hu, if_pos ht]
  · rw [if_neg ht]
    by_cases hu : s.id = u.id
    · rw [if_pos hu, if_neg h.symm]
    · rw [if_neg hu, if_neg ht]

end Trip

/-- Trips of a block that are replaced one after the other leave the same block in either order. -/
theorem Block.Groups.replace_comm [Zero R] {id : Ident} {ts : List (Trip R)} {t u : Trip R}
    {b : Block R} (h : b.Groups id ts) (hn : (ts.map (·.id)).Nodup)
    (ht : ∀ s ∈ ts, s.id = t.id → s.service = t.service)
    (hu : ∀ s ∈ ts, s.id = u.id → s.service = u.service) (hne : t.id ≠ u.id) :
    (b.replace t).replace u = (b.replace u).replace t := by
  obtain ⟨services, _, _, rfl⟩ := h
  have hids (v : Trip R) : ((v.replaceIn ts).map (·.id)).Nodup := by
    rw [Trip.map_replaceIn fun _ _ he => he]
    exact hn
  -- neither replacement has put a trip of the other's id in
  have hafter {v w : Trip R} (hvw : v.id ≠ w.id)
      (hw : ∀ s ∈ ts, s.id = w.id → s.service = w.service) :
      ∀ s ∈ v.replaceIn ts, s.id = w.id → s.service = w.service := by
    intro s hs he
    rcases Trip.mem_replaceIn.1 hs with ⟨rfl, _⟩ | ⟨hs, _⟩
    · exact (hvw he).elim
    · exact hw s hs he
  rw [replace_grouped hn ht, replace_grouped (hids t) (hafter hne hu), replace_grouped hn hu,
    replace_grouped (hids u) (hafter hne.symm ht), Trip.replaceIn_comm hne]

/-- The trip that an edit gives other calls or another shape. -/
def Edit.amended? : Edit R → Option Ident
  | .deleteStopTime trip _ => some trip
  | .insertStopTime trip _ _ _ _ => some trip
  | .updateStopTime trip _ _ _ _ _ => some trip
  | .replaceStopTimes trip _ => some trip
  | .setTripShape trip _ => some trip
  | _ => none

def Edit.weight : Edit R → Nat
  | .setTripShape _ _ => 0
  | _ => 1

namespace Schedule

/-- The version of a trip that an edit of its calls or its shape makes, unless it declines. -/
def version? [Geometry R] (g : Schedule R) (e : Edit R) (t : Trip R) : Option (Trip R) :=
  match e with
  | .deleteStopTime _ stop => (Calls.delete? stop t.calls).map t.withCalls
  | .insertStopTime _ stop arrival departure distance => (g.stops[stop]?).map fun s =>
      t.withCalls
        (Calls.insert (g.spacing s.location) stop arrival departure distance t.calls)
  | .updateStopTime _ stop arrival departure newArrival newDeparture =>
    (Calls.retime? stop arrival departure newArrival newDeparture t.calls).map t.withCalls
  | .replaceStopTimes _ calls => some (t.withCalls calls)
  | .setTripShape _ shape => some { t with shape }
  | _ => none

section Amending

variable [Zero R] {g : Schedule R} {i j : Ident} {s t u v : Trip R} {m n : Nat}

/-- The schedule with a version of the trip of an id, counted as so many changes. -/
def amend (g : Schedule R) (id : Ident) (t : Trip R) (n : Nat) : Schedule R :=
  { g.revise id t with version := g.version + n }

@[simp] theorem getElem?_trips_amend (g : Schedule R) (id : Ident) (t : Trip R) (n : Nat)
    (k : Ident) :
    (g.amend id t n).trips[k]? = if id = k then some t else g.trips[k]? :=
  Table.getElem?_insert g.trips id k t

theorem Consistent.adjust_blocks_comm (hg : Consistent g) (hs : g.trips[i]? = some s)
    (ht : s.VersionOf t) (hu : g.trips[j]? = some u) (hv : u.VersionOf v) (hne : i ≠ j) :
    (g.blocks.adjust t.block (·.replace t)).adjust v.block (·.replace v) =
      (g.blocks.adjust v.block (·.replace v)).adjust t.block (·.replace t) := by
  apply Table.adjust_comm
  intro _ b hb
  have hstored {k : Ident} {p q : Trip R} (hp : g.trips[k]? = some p) (hq : p.VersionOf q) :
      ∀ r ∈ g.tripsOf t.block, r.id = q.id → r.service = q.service := by
    intro r hr he
    rw [mem_tripsOf hg.keyed, he, hq.id, hg.keyed k p hp, hp, Option.some.injEq] at hr
    rw [← hr.1, hq.service]
  have hids : v.id ≠ t.id := by
    rw [hv.id, ht.id, hg.keyed j u hu, hg.keyed i s hs]
    exact hne.symm
  exact (hg.groups hb).replace_comm (nodup_tripsOf hg.keyed t.block) (hstored hu hv)
    (hstored hs ht) hids

theorem Consistent.amend_comm (hg : Consistent g) (hs : g.trips[i]? = some s)
    (ht : s.VersionOf t) (hu : g.trips[j]? = some u) (hv : u.VersionOf v) (hne : i ≠ j) :
    (g.amend i t m).amend j v n = (g.amend j v n).amend i t m := by
  have htwice (i j : Ident) (t v : Trip R) (m n : Nat) : (g.amend i t m).amend j v n =
      { g with
        trips := (g.trips.insert i t).insert j v
        blocks := (g.blocks.adjust t.block (·.replace t)).adjust v.block (·.replace v)
        version := g.version + m + n } := rfl
  rw [htwice, htwice, Table.insert_comm hne, hg.adjust_blocks_comm hs ht hu hv hne,
    Nat.add_right_comm]

end Amending

variable [Geometry R] {g : Schedule R} {e : Edit R} {id : Ident}

theorem editTrip_eq_amend (g : Schedule R) (id : Ident) (f : Trip R → Option (Trip R)) :
    g.editTrip id f = match (g.trips[id]?).bind f with
      | some t => (g.amend id t 0, true)
      | none => (g, false) :=
  editTrip_eq g id f

theorem editCalls_eq_amend (g : Schedule R) (id : Ident)
    (f : List (Call R) → Option (List (Call R))) :
    g.editCalls id f = match (g.trips[id]?).bind fun t => (f t.calls).map t.withCalls with
      | some t => (g.amend id t 1, true)
      | none => (g, false) :=
  editCalls_eq g id f

/-- What an edit of a trip comes to: the version that it makes, if the trip is stored and the edit
does not decline. -/
theorem apply_amending (he : e.amended? = some id) :
    g.apply e = match (g.trips[id]?).bind (g.version? e) with
      | some t => (g.amend id t e.weight, .done true)
      | none => (g, .done false) := by
  have hanswer (r : Option (Trip R)) (n : Nat) :
      answering (R := R) .done (match r with
        | some t => (g.amend id t n, true)
        | none => (g, false)) = match r with
        | some t => (g.amend id t n, .done true)
        | none => (g, .done false) := by
    cases r <;> rfl
  cases e with
  | deleteStopTime trip stop =>
    cases he
    rw [apply, deleteStopTime, editCalls_eq_amend, hanswer]
    rfl
  | insertStopTime trip stop arrival departure distance =>
    cases he
    rw [apply, insertStopTime]
    cases hstop : g.stops[stop]? with
    | none =>
      have hnone : (g.trips[id]?).bind
          (g.version? (.insertStopTime id stop arrival departure distance)) = none := by
        rw [Option.bind_eq_none_iff]
        intro t _
        rw [version?, hstop, Option.map_none]
      rw [hnone]
      rfl
    | some s =>
      have hversion : g.version? (.insertStopTime id stop arrival departure distance) =
          fun t => some (t.withCalls
            (Calls.insert (g.spacing s.location) stop arrival departure distance t.calls)) := by
        funext t
        rw [version?, hstop, Option.map_some]
      simp only [hversion, editCalls_eq_amend, hanswer]
      rfl
  | updateStopTime trip stop arrival departure newArrival newDeparture =>
    cases he
    rw [apply, updateStopTime, editCalls_eq_amend, hanswer]
    rfl
  | replaceStopTimes trip calls =>
    cases he
    rw [apply, replaceStopTimes, editCalls_eq_amend, hanswer]
    rfl
  | setTripShape trip shape =>
    cases he
    rw [apply, setTripShape, editTrip_eq_amend, hanswer]
    rfl
  | _ => cases he

theorem versionOf_of_version? {t u : Trip R} (h : g.version? e t = some u) : t.VersionOf u := by
  have hcalls {o : Option (List (Call R))} (h : o.map t.withCalls = some u) : t.VersionOf u := by
    obtain ⟨calls, _, rfl⟩ := Option.map_eq_some_iff.1 h
    exact ⟨rfl, rfl, rfl, rfl⟩
  cases e with
  | deleteStopTime trip stop => exact hcalls h
  | insertStopTime trip stop arrival departure distance =>
    obtain ⟨s, _, rfl⟩ := Option.map_eq_some_iff.1 h
    exact ⟨rfl, rfl, rfl, rfl⟩
  | updateStopTime trip stop arrival departure newArrival newDeparture => exact hcalls h
  | replaceStopTimes trip calls =>
    cases h
    exact ⟨rfl, rfl, rfl, rfl⟩
  | setTripShape trip shape =>
    cases h
    exact ⟨rfl, rfl, rfl, rfl⟩
  | _ => cases h

@[simp] theorem version?_amend (g : Schedule R) (id : Ident) (t : Trip R) (n : Nat) (e : Edit R) :
    (g.amend id t n).version? e = g.version? e := by
  cases e <;> rfl

/-- In whatever order two edits are made that give other calls or another shape to two trips of a
reachable schedule, each replies the same, and the schedules that they lead to are the same, with
the trips in one order in every block. -/
theorem Reachable.edits_commute (h : g.Reachable) {a b : Edit R} {i j : Ident}
    (ha : a.amended? = some i) (hb : b.amended? = some j) (hne : i ≠ j) :
    let ab := (g.apply a).1.apply b
    let ba := (g.apply b).1.apply a
    ab.1 = ba.1 ∧ ab.2 = (g.apply b).2 ∧ ba.2 = (g.apply a).2 := by
  intro ab ba
  have hafter {e f : Edit R} {k l : Ident} (he : e.amended? = some k) (hf : f.amended? = some l)
      (hkl : k ≠ l) : (g.apply e).1.apply f =
        match (g.trips[l]?).bind (g.version? f) with
        | some u => ((g.apply e).1.amend l u f.weight, .done true)
        | none => ((g.apply e).1, .done false) := by
    rw [apply_amending hf, apply_amending he]
    cases (g.trips[k]?).bind (g.version? e) with
    | none => rfl
    | some t => simp [hkl]
  have hab : ab = _ := hafter ha hb hne
  have hba : ba = _ := hafter hb ha hne.symm
  rw [hab, hba, apply_amending ha, apply_amending hb]
  cases hi : (g.trips[i]?).bind (g.version? a) with
  | none =>
    cases (g.trips[j]?).bind (g.version? b) with
    | none => exact ⟨rfl, rfl, rfl⟩
    | some v => exact ⟨rfl, rfl, rfl⟩
  | some t =>
    cases hj : (g.trips[j]?).bind (g.version? b) with
    | none => exact ⟨rfl, rfl, rfl⟩
    | some v =>
      obtain ⟨s, hs, ht⟩ := Option.bind_eq_some_iff.1 hi
      obtain ⟨u, hu, hv⟩ := Option.bind_eq_some_iff.1 hj
      exact ⟨h.consistent.amend_comm hs (versionOf_of_version? ht) hu (versionOf_of_version? hv)
        hne, rfl, rfl⟩

/-- Two trips of one block that depart at one time, one of them with a shape. -/
def tiedDay : List (Edit Float) :=
  let call (stop : String) (time : Int) : Call Float :=
    { stop := ⟨"A", stop⟩, published := none, arrival := time, departure := time, distance := 0 }
  let trip (id : String) : Trip Float :=
    .ofCalls ⟨"A", id⟩ ⟨"A", "R"⟩ (some ⟨"A", "B"⟩) ⟨"A", "S"⟩ [call "X" 30, call "Y" 60]
  [.addAgency "A" "UTC", .addTrip (trip "T1") none, .addTrip (trip "T2") none,
    .setTripShape ⟨"A", "T2"⟩ (some ⟨"A", "P"⟩)]

theorem edits_commute_tiedDay :
    let g := empty.run tiedDay
    let a : Edit Float := .deleteStopTime ⟨"A", "T1"⟩ ⟨"A", "X"⟩
    let b : Edit Float := .updateStopTime ⟨"A", "T2"⟩ ⟨"A", "X"⟩ none (some 30) 45 60
    let ab := (g.apply a).1.apply b
    let ba := (g.apply b).1.apply a
    g.Reachable ∧ a.amended? = some ⟨"A", "T1"⟩ ∧ b.amended? = some ⟨"A", "T2"⟩ ∧
    ab.2.isFailure = false ∧ ba.2.isFailure = false ∧
    ab.1 = ba.1 ∧ ab.2 = (g.apply b).2 ∧ ba.2 = (g.apply a).2 := by
  intro g a b ab ba
  have hreachable : g.Reachable := ⟨tiedDay, rfl⟩
  exact ⟨hreachable, rfl, rfl, by decide +kernel, by decide +kernel,
    hreachable.edits_commute (a := a) (b := b) rfl rfl (by decide)⟩

end Schedule

end Timetable

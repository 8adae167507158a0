import Timetable.Proofs.Change.Shortening
import Timetable.Proofs.Schedule.Readmission

namespace Timetable

variable {R : Type}

namespace TripChanges

variable (c : TripChanges R) (id : Ident)

def about : TripChanges R where
  deleted := c.deleted.filter fun i => i = id
  modified := c.modified.filter fun m => m.trip = id
  added := c.added.filter fun t => t.id = id

@[simp] theorem about_delete (i : Ident) :
    (c.delete i).about id = if i = id then (c.about id).delete i else c.about id := by
  by_cases h : i = id
  · simp [about, delete, h]
  · simp [about, delete, h]

@[simp] theorem about_modify (m : TripModification R) :
    (c.modify m).about id = if m.trip = id then (c.about id).modify m else c.about id := by
  by_cases h : m.trip = id
  · subst h
    have hany : (c.about m.trip).modified.any (fun n => n.trip = m.trip) =
        c.modified.any fun n => n.trip = m.trip := by
      simp [about, List.any_filter]
    rw [if_pos rfl, modify, modify, hany]
    split
    · rfl
    · simp [about]
  · rw [if_neg h, modify]
    split
    · rfl
    · simp [about, h]

@[simp] theorem about_add (t : Trip R) :
    (c.add t).about id = if t.id = id then (c.about id).add t else c.about id := by
  by_cases h : t.id = id
  · simp [about, add, h]
  · simp [about, add, h]

@[simp] theorem about_cons_deleted (i : Ident) : about { c with deleted := i :: c.deleted } id =
    if i = id then { c.about id with deleted := i :: (c.about id).deleted } else c.about id := by
  by_cases h : i = id
  · simp [about, h]
  · simp [about, h]

@[simp] theorem about_cons_modified (m : TripModification R) :
    about { c with modified := m :: c.modified } id =
      if m.trip = id then { c.about id with modified := m :: (c.about id).modified }
      else c.about id := by
  by_cases h : m.trip = id
  · simp [about, h]
  · simp [about, h]

@[simp] theorem about_cons_added (t : Trip R) : about { c with added := t :: c.added } id =
    if t.id = id then { c.about id with added := t :: (c.about id).added } else c.about id := by
  by_cases h : t.id = id
  · simp [about, h]
  · simp [about, h]

theorem trip_of_mem_about {m : TripModification R} (h : m ∈ (c.about id).modified) :
    m.trip = id :=
  of_decide_eq_true (List.mem_filter.1 h).2

theorem modify_eq_self {c : TripChanges R} {m n : TripModification R} (hn : n ∈ c.modified)
    (he : n.trip = m.trip) : c.modify m = c := by
  rw [modify, if_pos]
  exact List.any_eq_true.2 ⟨n, hn, decide_eq_true he⟩

end TripChanges

namespace Schedule

/-- What a change set that leads back says of a trip, by what it was and what it is now. -/
inductive Recalls : Option (Trip R) → Option (Trip R) → TripChanges R → Prop
  | untouched (now : Option (Trip R)) : Recalls now now {}
  | modified (t : Trip R) (calls : List (Call R)) (m : TripModification R)
      (noted : m.stopTimes = t.stopTimes) :
      Recalls (some t) (some (t.withCalls calls)) { modified := [m] }
  | added (id : Ident) (t : Trip R) : Recalls none (some t) { deleted := [id] }
  | deleted (t : Trip R) (calls : t.calls ≠ []) : Recalls (some t) none { added := [t] }
  | replaced (id : Ident) (s t : Trip R) (calls : s.calls ≠ []) :
      Recalls (some s) (some t) { deleted := [id], added := [s] }

namespace Recalls

variable {was now : Option (Trip R)} {c : TripChanges R} {id : Ident} {t : Trip R}
  {m : TripModification R}

theorem eq_of_empty (h : Recalls was now {}) : now = was := by
  cases h with
  | untouched => rfl

theorem delete (h : Recalls was (some t) c) (hd : c.deleted = []) (hm : c.modified = [])
    (calls : ∀ u, was = some u → u.calls ≠ []) : Recalls was none (c.add t) := by
  cases h with
  | untouched => exact .deleted t (calls t rfl)
  | modified => cases hm
  | added => cases hd
  | replaced => cases hd

theorem modify (h : Recalls was (some t) c) (hd : c.deleted = [])
    (trip : ∀ n ∈ c.modified, n.trip = m.trip) (noted : m.stopTimes = t.stopTimes)
    (calls : List (Call R)) : Recalls was (some (t.withCalls calls)) (c.modify m) := by
  cases h with
  | untouched => exact .modified t calls m noted
  | modified u before n hn =>
    have hmem : n ∈ [n] := List.mem_singleton_self n
    rw [TripChanges.modify_eq_self hmem (trip n hmem)]
    exact .modified u calls n hn
  | added => cases hd
  | replaced => cases hd

theorem add (h : Recalls was none c) (id : Ident) (t : Trip R) :
    Recalls was (some t) (c.delete id) := by
  cases h with
  | untouched => exact .added id t
  | deleted s calls => exact .replaced id s t calls

theorem take_deleted (h : Recalls was now { c with deleted := id :: c.deleted }) :
    now ≠ none ∧ Recalls was none c := by
  obtain ⟨ds, ms, ts⟩ := c
  cases h with
  | added => exact ⟨nofun, .untouched none⟩
  | replaced _ s t calls => exact ⟨nofun, .deleted s calls⟩

theorem take_modified (h : Recalls was now { c with modified := m :: c.modified }) :
    c.modified = [] ∧ ∃ t, now = some t ∧
      Recalls was (some (t.withCalls (m.stopTimes.map (·.toCall)))) c := by
  obtain ⟨ds, ms, ts⟩ := c
  cases h with
  | modified t calls _ noted =>
    have hcalls : m.stopTimes.map (·.toCall) = t.calls := by simp [noted]
    rw [hcalls]
    exact ⟨rfl, t.withCalls calls, rfl, .untouched (some t)⟩

theorem take_added (h : Recalls was now { c with added := t :: c.added }) (hd : c.deleted = []) :
    now = none ∧ was = some t ∧ t.calls ≠ [] ∧ Recalls was (some t) c := by
  obtain ⟨ds, ms, ts⟩ := c
  cases h with
  | deleted _ calls => exact ⟨rfl, rfl, calls, .untouched (some t)⟩
  | replaced => cases hd

end Recalls

variable [Zero R]

section Noting

variable {g : Schedule R} {id : Ident} {t : Trip R} (c : TripChanges R)

theorem deleteNoting_eq (stored : g.trips[id]? = some t) :
    deleteNoting (g, c) id = ((g.deleteTrip id).1, c.add t) := by
  simp only [deleteNoting, stored, deleteTrip_eq g t stored]

theorem deleteNoting_absent (absent : g.trips[id]? = none) : deleteNoting (g, c) id = (g, c) := by
  simp only [deleteNoting, absent]

theorem modifyNoting_absent {m : TripModification R} (absent : g.trips[m.trip]? = none) :
    modifyNoting (g, c) m = (g, c) := by
  simp only [modifyNoting, absent]

theorem addNoting_eq (hv : g.validate t = .ok ()) (hn : t.id ∉ g.trips) :
    addNoting (g, c) t = ((g.addTrip t none).1, c.delete t.id) := by
  simp only [addNoting, addTrip_eq g t none hv hn]

theorem addNoting_cases (g : Schedule R) (t : Trip R) (c : TripChanges R) :
    addNoting (g, c) t = (g, c) ∨ g.validate t = .ok () ∧ t.id ∉ g.trips := by
  apply (addTrip_cases g t none).imp_left
  rintro ⟨reply, hreply, hrefused⟩
  rw [addNoting, hrefused]
  cases reply with
  | error e => rfl
  | ok yes =>
    cases yes with
    | true => exact (hreply rfl).elim
    | false => rfl

end Noting

/-- Change sets by which a schedule that came of a base leads back to it. -/
structure LeadsBack (base g : Schedule R) (c : TripChanges R) : Prop where
  steps : Steps base g
  recalls (id : Ident) : Recalls base.trips[id]? g.trips[id]? (c.about id)

namespace LeadsBack

variable {base g : Schedule R} {c : TripChanges R} {id : Ident} {t : Trip R}

theorem start (g : Schedule R) : LeadsBack g g .empty := ⟨.refl g, fun _ => .untouched _⟩

theorem trips_eq (h : LeadsBack base g .empty) : g.trips = base.trips := by
  apply Std.ExtTreeMap.ext_getElem?
  intro id
  exact (h.recalls id).eq_of_empty

/-- What is done to one trip and noted of it concerns no other. -/
theorem change {h : Schedule R} {d : TripChanges R} (hg : LeadsBack base g c) (id : Ident)
    (hs : Steps g h) (trips : ∀ k, id ≠ k → h.trips[k]? = g.trips[k]?)
    (about : ∀ k, id ≠ k → d.about k = c.about k)
    (recalls : Recalls base.trips[id]? h.trips[id]? (d.about id)) : LeadsBack base h d := by
  constructor
  · exact hg.steps.trans hs
  · intro k
    by_cases he : id = k
    · exact he ▸ recalls
    · rw [trips k he, about k he]
      exact hg.recalls k

section Forth

variable {s : Schedule R × TripChanges R}

theorem noting_delete (h : LeadsBack base s.1 s.2) (hb : Consistent base)
    (hd : s.2.deleted = []) (hm : s.2.modified = [])
    (calls : ∀ t, base.trips[id]? = some t → t.calls ≠ []) :
    LeadsBack base (deleteNoting s id).1 (deleteNoting s id).2 ∧
      (deleteNoting s id).2.deleted = [] ∧
      (deleteNoting s id).2.modified = [] := by
  obtain ⟨g, c⟩ := s
  cases hs : g.trips[id]? with
  | none =>
    rw [deleteNoting_absent c hs]
    exact ⟨h, hd, hm⟩
  | some t =>
    have hid : t.id = id := (hb.steps h.steps).keyed id t hs
    have hback : LeadsBack base (g.deleteTrip id).1 (c.add t) := by
      apply h.change id (steps_deleteTrip g id)
      · intro k he
        simp [he]
      · intro k he
        simp [hid, he]
      · have hrecalls := h.recalls id
        rw [hs] at hrecalls
        rw [trips_deleteTrip, Table.getElem?_erase, if_pos rfl, TripChanges.about_add, if_pos hid]
        apply hrecalls.delete _ _ calls
        · rw [TripChanges.about, hd, List.filter_nil]
        · rw [TripChanges.about, hm, List.filter_nil]
    rw [deleteNoting_eq c hs]
    exact ⟨hback, hd, hm⟩

theorem noting_modify (m : TripModification R) (h : LeadsBack base s.1 s.2)
    (hd : s.2.deleted = []) :
    LeadsBack base (modifyNoting s m).1 (modifyNoting s m).2 ∧
      (modifyNoting s m).2.deleted = [] := by
  obtain ⟨g, c⟩ := s
  cases hs : g.trips[m.trip]? with
  | none =>
    rw [modifyNoting_absent c hs]
    exact ⟨h, hd⟩
  | some t =>
    rw [Shortened.modifyNoting_eq hs]
    constructor
    · apply h.change m.trip (Step.replan m.trip t _ hs).steps
      · intro k he
        simp [he]
      · intro k he
        simp [he]
      · have hrecalls := h.recalls m.trip
        rw [hs] at hrecalls
        rw [getElem?_trips_revise, if_pos rfl, TripChanges.about_modify, if_pos rfl]
        apply hrecalls.modify
        · rw [TripChanges.about, hd, List.filter_nil]
        · exact fun n hn => c.trip_of_mem_about m.trip hn
        · rfl
    · rw [TripChanges.modify_eq]
      exact hd

theorem noting_add (h : LeadsBack base s.1 s.2) (t : Trip R) :
    LeadsBack base (addNoting s t).1 (addNoting s t).2 := by
  obtain ⟨g, c⟩ := s
  rcases addNoting_cases g t c with hrefused | ⟨hv, hn⟩
  · rw [hrefused]
    exact h
  · rw [addNoting_eq c hv hn]
    apply h.change t.id (steps_addTrip g t none)
    · intro k he
      simp [trips_addTrip hv hn, he]
    · intro k he
      simp [he]
    · have hrecalls := h.recalls t.id
      rw [Std.ExtTreeMap.getElem?_eq_none hn] at hrecalls
      rw [trips_addTrip hv hn, Table.getElem?_insert, if_pos rfl, TripChanges.about_delete,
        if_pos rfl]
      exact hrecalls.add t.id t

theorem noting_deletes (h : LeadsBack base s.1 s.2) (hb : Consistent base)
    (hd : s.2.deleted = []) (hm : s.2.modified = []) {ids : List Ident}
    (calls : ∀ id ∈ ids, ∀ t, base.trips[id]? = some t → t.calls ≠ []) :
    LeadsBack base (ids.foldl deleteNoting s).1 (ids.foldl deleteNoting s).2 ∧
      (ids.foldl deleteNoting s).2.deleted = [] := by
  induction ids generalizing s with
  | nil => exact ⟨h, hd⟩
  | cons id ids ih =>
    obtain ⟨hfirst, hrest⟩ := List.forall_mem_cons.1 calls
    obtain ⟨h, hd, hm⟩ := h.noting_delete hb hd hm hfirst
    exact ih h hd hm hrest

theorem noting_modifies (h : LeadsBack base s.1 s.2) (hd : s.2.deleted = [])
    (ms : List (TripModification R)) :
    LeadsBack base (ms.foldl modifyNoting s).1 (ms.foldl modifyNoting s).2 := by
  induction ms generalizing s with
  | nil => exact h
  | cons m ms ih =>
    obtain ⟨h, hd⟩ := h.noting_modify m hd
    exact ih h hd

theorem noting_adds (h : LeadsBack base s.1 s.2) (ts : List (Trip R)) :
    LeadsBack base (ts.foldl addNoting s).1 (ts.foldl addNoting s).2 := by
  induction ts generalizing s with
  | nil => exact h
  | cons t ts ih => exact ih (h.noting_add t)

/-- What is noted while a change set is applied leads back to where it was applied. -/
theorem of_applyTrips (hb : Consistent base) (c : TripChanges R)
    (calls : ∀ id ∈ c.deleted, ∀ t, base.trips[id]? = some t → t.calls ≠ []) :
    LeadsBack base (base.applyTrips c).1 (base.applyTrips c).2 := by
  have hstart : LeadsBack base ((base, .empty) : Schedule R × TripChanges R).1 .empty := start base
  obtain ⟨h, hd⟩ := hstart.noting_deletes hb rfl rfl calls
  exact (h.noting_modifies hd c.modified).noting_adds c.added

end Forth

section Back

theorem delete_noted (hb : Consistent base)
    (h : LeadsBack base g { c with deleted := id :: c.deleted }) :
    ∃ t, t.id = id ∧ g.trips[id]? = some t ∧ LeadsBack base (g.deleteTrip id).1 c := by
  have hid := h.recalls id
  rw [TripChanges.about_cons_deleted, if_pos rfl] at hid
  obtain ⟨hstored, hid⟩ := hid.take_deleted
  obtain ⟨t, ht⟩ := Option.ne_none_iff_exists'.1 hstored
  have hback : LeadsBack base (g.deleteTrip id).1 c := by
    apply h.change id (steps_deleteTrip g id)
    · intro k he
      simp [he]
    · intro k he
      simp [he]
    · simpa using hid
  exact ⟨t, (hb.steps h.steps).keyed id t ht, ht, hback⟩

theorem modify_noted {m : TripModification R}
    (h : LeadsBack base g { c with modified := m :: c.modified }) :
    m.trip ∉ c.modified.map (·.trip) ∧ ∃ t, g.trips[m.trip]? = some t ∧
      LeadsBack base (g.revise m.trip (t.withCalls (m.stopTimes.map (·.toCall)))).bump c := by
  have hid := h.recalls m.trip
  rw [TripChanges.about_cons_modified, if_pos rfl] at hid
  obtain ⟨hnone, t, ht, hid⟩ := hid.take_modified
  have hsingle : m.trip ∉ c.modified.map (·.trip) := by
    intro hmem
    obtain ⟨n, hn, he⟩ := List.mem_map.1 hmem
    exact List.filter_eq_nil_iff.1 hnone n hn (decide_eq_true he)
  have hback : LeadsBack base
      (g.revise m.trip (t.withCalls (m.stopTimes.map (·.toCall)))).bump c := by
    apply h.change m.trip (Step.replan m.trip t _ ht).steps
    · intro k he
      simp [he]
    · intro k he
      simp [he]
    · simpa using hid
  exact ⟨hsingle, t, ht, hback⟩

theorem add_noted (h : LeadsBack base g { c with added := t :: c.added }) (hb : Consistent base)
    (hf : Filed base) (hd : c.deleted = []) :
    g.validate t = .ok () ∧ t.id ∉ g.trips ∧ LeadsBack base (g.addTrip t none).1 c := by
  have hid := h.recalls t.id
  rw [TripChanges.about_cons_added, if_pos rfl] at hid
  obtain ⟨habsent, hstored, hcalls, hid⟩ := hid.take_added (by rw [TripChanges.about, hd]; rfl)
  have hv : g.validate t = .ok () := h.steps.validate hb hf hstored hcalls
  have hn : t.id ∉ g.trips := (getElem?_eq_none_iff _ _).1 habsent
  have hback : LeadsBack base (g.addTrip t none).1 c := by
    apply h.change t.id (steps_addTrip g t none)
    · intro k he
      simp [trips_addTrip hv hn, he]
    · intro k he
      simp [he]
    · simpa [trips_addTrip hv hn] using hid
  exact ⟨hv, hn, hback⟩

theorem delete_all {ids : List Ident} {ms : List (TripModification R)} {ts : List (Trip R)}
    (hb : Consistent base) (h : LeadsBack base g { deleted := ids, modified := ms, added := ts })
    (r : TripChanges R) :
    LeadsBack base (ids.foldl deleteNoting (g, r)).1 { modified := ms, added := ts } ∧
      ∃ us : List (Trip R), us.map (·.id) = ids ∧
        (ids.foldl deleteNoting (g, r)).2 = { r with added := r.added ++ us } := by
  induction ids generalizing g r with
  | nil => exact ⟨h, [], rfl, by simp⟩
  | cons id ids ih =>
    obtain ⟨t, hid, ht, h⟩ :=
      delete_noted (c := { deleted := ids, modified := ms, added := ts }) hb h
    obtain ⟨h, us, hids, hr⟩ := ih h (r.add t)
    rw [List.foldl_cons, deleteNoting_eq r ht]
    refine ⟨h, t :: us, ?_, ?_⟩
    · rw [List.map_cons, hid, hids]
    · rw [hr, TripChanges.add, List.append_assoc]
      rfl

theorem modify_all {ms : List (TripModification R)} {ts : List (Trip R)}
    (h : LeadsBack base g { modified := ms, added := ts }) (r : TripChanges R)
    (hr : ∀ m ∈ ms, m.trip ∉ r.modified.map (·.trip)) :
    LeadsBack base (ms.foldl modifyNoting (g, r)).1 { added := ts } ∧
      ∃ ns : List (TripModification R), ns.map (·.trip) = ms.map (·.trip) ∧
        (ms.foldl modifyNoting (g, r)).2 = { r with modified := r.modified ++ ns } := by
  induction ms generalizing g r with
  | nil => exact ⟨h, [], rfl, by simp⟩
  | cons m ms ih =>
    obtain ⟨hfirst, hrest⟩ := List.forall_mem_cons.1 hr
    obtain ⟨hm, t, ht, h⟩ := modify_noted (c := { modified := ms, added := ts }) h
    rw [List.foldl_cons, Shortened.modifyNoting_eq ht, TripChanges.modify_eq,
      TripModification.noteIn, if_neg hfirst]
    obtain ⟨h, ns, htrips, hnoted⟩ := ih h { r with
      modified := r.modified ++ [{ trip := m.trip, stopTimes := t.stopTimes }] } fun n hn hmem => by
        rw [List.map_append, List.mem_append, List.map_singleton, List.mem_singleton] at hmem
        rcases hmem with hmem | he
        · exact hrest n hn hmem
        · exact hm (List.mem_map.2 ⟨n, hn, he⟩)
    refine ⟨h, { trip := m.trip, stopTimes := t.stopTimes } :: ns, ?_, ?_⟩
    · rw [List.map_cons, htrips, List.map_cons]
    · rw [hnoted, List.append_assoc]
      rfl

theorem add_all {ts : List (Trip R)} (hb : Consistent base) (hf : Filed base)
    (h : LeadsBack base g { added := ts }) (r : TripChanges R) :
    LeadsBack base (ts.foldl addNoting (g, r)).1 .empty ∧
      (ts.foldl addNoting (g, r)).2 = { r with deleted := r.deleted ++ ts.map (·.id) } := by
  induction ts generalizing g r with
  | nil => exact ⟨h, by simp⟩
  | cons t ts ih =>
    obtain ⟨hv, hn, h⟩ := add_noted (c := { added := ts }) h hb hf rfl
    obtain ⟨h, hr⟩ := ih h (r.delete t.id)
    rw [List.foldl_cons, addNoting_eq r hv hn]
    refine ⟨h, ?_⟩
    rw [hr, TripChanges.delete, List.append_assoc]
    rfl

/-- All that is noted applies, each entry with a note of its own, and nothing is left to undo. -/
theorem applyTrips (h : LeadsBack base g c) (hb : Consistent base) (hf : Filed base) :
    let r := g.applyTrips c
    LeadsBack base r.1 .empty ∧ r.2.added.map (·.id) = c.deleted ∧
      r.2.modified.map (·.trip) = c.modified.map (·.trip) ∧
      r.2.deleted = c.added.map (·.id) := by
  intro r
  have hr : r = c.added.foldl addNoting
      (c.modified.foldl modifyNoting (c.deleted.foldl deleteNoting (g, .empty))) := rfl
  obtain ⟨h, us, hus, hdeleted⟩ := delete_all hb h .empty
  generalize c.deleted.foldl deleteNoting (g, .empty) = s at hr h hdeleted
  obtain ⟨g₁, r₁⟩ := s
  obtain rfl : r₁ = { added := us } := hdeleted
  obtain ⟨h, ns, hns, hmodified⟩ := h.modify_all { added := us } fun m _ => List.not_mem_nil
  generalize c.modified.foldl modifyNoting (g₁, { added := us }) = s at hr h hmodified
  obtain ⟨g₂, r₂⟩ := s
  obtain rfl : r₂ = { modified := ns, added := us } := hmodified
  obtain ⟨h, hadded⟩ := add_all hb hf h { modified := ns, added := us }
  rw [← hr] at h hadded
  rw [hadded]
  exact ⟨h, hus, hns, rfl⟩

end Back

end LeadsBack

section Restoration

variable {g h : Schedule R}

theorem Consistent.blocks_of_trips (hg : Consistent g) (hh : Consistent h)
    (trips : h.trips = g.trips) (block : Ident) :
    (block ∈ h.blocks ↔ block ∈ g.blocks) ∧ ∀ b c : Block R, g.blocks[block]? = some b →
      h.blocks[block]? = some c → c.configurations.Perm b.configurations := by
  constructor
  · rw [hh.mem_blocks, hg.mem_blocks, trips]
  · intro b c hb hc
    have hbefore := (hg.groups hb).configurations_perm
    have hafter := (hh.groups hc).configurations_perm
    rw [tripsOf_congr trips] at hafter
    exact (List.map_perm_map_iff fun _ _ => Option.some.inj).1 (hafter.trans hbefore.symm)

omit [Zero R] in
theorem Filed.routes_of_trips (hg : Filed g) (hh : Filed h) (trips : h.trips = g.trips)
    {route : Ident} {r s : Route} (hr : g.routes[route]? = some r)
    (hs : h.routes[route]? = some s) : s.trips.Perm r.trips := by
  obtain ⟨_, hbefore⟩ := hg.routes route r hr
  obtain ⟨_, hafter⟩ := hh.routes route s hs
  rw [routeOf?_congr trips] at hafter
  exact hafter.perm hbefore

end Restoration

/-- Whatever a change set of trips asks for, what is noted while it is applied undoes it, if no trip
without calls is deleted: all of what is noted applies, each entry leaving a note of its own, and
then every trip is what it was, every block has the configurations and every route the trips that it
had, in some order, and a route that came up meanwhile has no trips. -/
theorem Reachable.applyTrips_undone {R : Type} [Geometry R] {g : Schedule R} (h : g.Reachable)
    (c : TripChanges R)
    (calls : ∀ id ∈ c.deleted, ∀ t, g.trips[id]? = some t → t.calls ≠ []) :
    let done := g.applyTrips c
    let undone := done.1.applyTrips done.2
    undone.2.added.map (·.id) = done.2.deleted ∧
    undone.2.modified.map (·.trip) = done.2.modified.map (·.trip) ∧
    undone.2.deleted = done.2.added.map (·.id) ∧
    (∀ id : Ident, undone.1.trips[id]? = g.trips[id]?) ∧
    (∀ block, block ∈ undone.1.blocks ↔ block ∈ g.blocks) ∧
    (∀ (block : Ident) (b b' : Block R), g.blocks[block]? = some b →
      undone.1.blocks[block]? = some b' → b'.configurations.Perm b.configurations) ∧
    (∀ (route : Ident) (r : Route), g.routes[route]? = some r →
      ∃ r', undone.1.routes[route]? = some r' ∧ r'.trips.Perm r.trips) ∧
    ∀ (route : Ident) (r' : Route), route ∉ g.routes → undone.1.routes[route]? = some r' →
      r'.trips = [] := by
  intro done undone
  have hb := h.consistent
  have hf := h.filed
  obtain ⟨hundone, hdeleted, hmodified, hadded⟩ :=
    (LeadsBack.of_applyTrips hb c calls).applyTrips hb hf
  have htrips : undone.1.trips = g.trips := hundone.trips_eq
  have hsteps : Steps g undone.1 := hundone.steps
  have hb' : Consistent undone.1 := hb.steps hsteps
  have hf' : Filed undone.1 := hf.steps hb hsteps
  have hblocks := hb.blocks_of_trips hb' htrips
  have hkept : ∀ (route : Ident) (r : Route), g.routes[route]? = some r →
      ∃ r', undone.1.routes[route]? = some r' ∧ r'.trips.Perm r.trips := by
    intro route r hr
    have hmem : route ∈ undone.1.routes := hsteps.mem_routes (Table.mem_of_getElem? hr)
    obtain ⟨r', hr'⟩ := Table.exists_of_mem hmem
    exact ⟨r', hr', hf.routes_of_trips hf' htrips hr hr'⟩
  have hempty : ∀ (route : Ident) (r' : Route), route ∉ g.routes →
      undone.1.routes[route]? = some r' → r'.trips = [] := by
    -- a trip of the route would be a trip of `g`, whose routes are stored
    intro route r' hnew hr'
    obtain ⟨_, hlists⟩ := hf'.routes route r' hr'
    rw [List.eq_nil_iff_forall_not_mem]
    intro trip htrip
    rw [hlists.2, routeOf?_congr htrips] at htrip
    obtain ⟨t, ht, rfl⟩ := Option.map_eq_some_iff.1 htrip
    exact hnew (hb.routed trip t ht)
  exact ⟨hdeleted, hmodified, hadded, fun id => by rw [htrips], fun block => (hblocks block).1,
    fun block => (hblocks block).2, hkept, hempty⟩

/-- A trip is deleted and comes back on another route, with two modifications of one trip, and of
the three trips added one is stored already. -/
def rerouted : TripChanges Float :=
  let call (time : Int) : Call Float :=
    { stop := ⟨"A", "X"⟩, published := none, arrival := time, departure := time, distance := 0 }
  let trip (id : String) : Trip Float :=
    .ofCalls ⟨"A", id⟩ ⟨"A", "R'"⟩ none ⟨"A", "S"⟩ [call 0, call 10]
  .ofLists [⟨"A", "T2"⟩]
    [⟨⟨"A", "T1"⟩, (trip "T1").stopTimes⟩, ⟨⟨"A", "T1"⟩, []⟩]
    [trip "T2", trip "T1", trip "T3"]

theorem applyTrips_undone_rerouted :
    let g := empty.run shortenedDay
    let done := g.applyTrips rerouted
    let undone := done.1.applyTrips done.2
    g.Reachable ∧
    (∀ id ∈ rerouted.deleted, ∀ t, g.trips[id]? = some t → t.calls ≠ []) ∧
    undone.2.added.map (·.id) = done.2.deleted ∧
    undone.2.modified.map (·.trip) = done.2.modified.map (·.trip) ∧
    undone.2.deleted = done.2.added.map (·.id) ∧
    (∀ id : Ident, undone.1.trips[id]? = g.trips[id]?) ∧
    (∀ block, block ∈ undone.1.blocks ↔ block ∈ g.blocks) ∧
    (∀ (block : Ident) (b b' : Block Float), g.blocks[block]? = some b →
      undone.1.blocks[block]? = some b' → b'.configurations.Perm b.configurations) ∧
    (∀ (route : Ident) (r : Route), g.routes[route]? = some r →
      ∃ r', undone.1.routes[route]? = some r' ∧ r'.trips.Perm r.trips) ∧
    ∀ (route : Ident) (r' : Route), route ∉ g.routes → undone.1.routes[route]? = some r' →
      r'.trips = [] := by
  have hall : ∀ id ∈ rerouted.deleted,
      (empty.run shortenedDay).trips[id]?.all fun t => !t.calls.isEmpty := by
    decide +kernel
  have hcalls : ∀ id ∈ rerouted.deleted, ∀ t, (empty.run shortenedDay).trips[id]? = some t →
      t.calls ≠ [] := by
    intro id hid t ht hnil
    have hone := hall id hid
    rw [ht, Option.all_some, hnil] at hone
    cases hone
  have hreachable : (empty.run shortenedDay).Reachable := ⟨shortenedDay, rfl⟩
  have hundone := hreachable.applyTrips_undone rerouted hcalls
  -- from here on it would only cost time that schedule and change set can be evaluated
  generalize empty.run shortenedDay = g at *
  generalize rerouted = c at *
  exact ⟨hreachable, hcalls, hundone⟩

end Schedule

end Timetable

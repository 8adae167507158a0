import Timetable.Proofs.Schedule.Shapes

namespace Timetable

variable {R : Type}

theorem filter_key_ne {α K : Type} [DecidableEq K] (key : α → K) {before after : List α} {a : α}
    (h : ((before ++ a :: after).map key).Nodup) :
    (before ++ a :: after).filter (fun x => key x ≠ key a) = before ++ after := by
  have hperm : (before ++ a :: after).Perm (a :: (before ++ after)) := List.perm_middle
  have hne : ∀ x ∈ before ++ after, key x ≠ key a := by
    intro x hx he
    rw [(hperm.map key).nodup_iff, List.map_cons, List.nodup_cons] at h
    exact h.1 (he ▸ List.mem_map_of_mem hx)
  rw [List.filter_append, List.filter_cons_of_neg (by simp), ← List.filter_append,
    List.filter_eq_self.2 fun x hx => decide_eq_true (hne x hx)]

/-- A stop apart from its place among the others. -/
structure Site (R : Type) where
  id : Ident
  location : Location R

def Site.numbered (site : Site R) (index : Nat) : Stop R :=
  { id := site.id, location := site.location, index }

def Stop.movedTo (id : Ident) (location : Location R) (s : Stop R) : Stop R :=
  if s.id = id then { s with location } else s

/-- The stop one place further up, if it comes after a place. -/
def Stop.upFrom (index : Nat) (s : Stop R) : Stop R :=
  if index < s.index then { s with index := s.index - 1 } else s

@[simp] theorem Stop.id_upFrom (index : Nat) (s : Stop R) : (s.upFrom index).id = s.id := by
  rw [upFrom]
  split <;> rfl

namespace Sites

def numbered (sites : List (Site R)) (n : Nat) : List (Stop R) :=
  (sites.zipIdx n).map fun s => s.1.numbered s.2

/-- Lists a stop last, unless its id is listed. -/
def register (sites : List (Site R)) (s : NewStop R) : List (Site R) :=
  if s.id ∈ sites.map (·.id) then sites else sites ++ [⟨s.id, s.location⟩]

def edited (sites : List (Site R)) : Edit R → List (Site R)
  | .addStop s => register sites s
  | .addStops ss => ss.foldl register sites
  | .removeStop id => sites.filter fun s => s.id ≠ id
  | .moveStop id location => sites.map fun s => if s.id = id then { s with location } else s
  | _ => sites

def registered (edits : List (Edit R)) : List (Site R) := edits.foldl edited []

variable (sites : List (Site R)) (n : Nat)

@[simp] theorem numbered_cons (site : Site R) :
    numbered (site :: sites) n = site.numbered n :: numbered sites (n + 1) := rfl

@[simp] theorem numbered_append (sites' : List (Site R)) :
    numbered (sites ++ sites') n = numbered sites n ++ numbered sites' (n + sites.length) := by
  rw [numbered, List.zipIdx_append, List.map_append, ← numbered, ← numbered, Nat.add_comm]

@[simp] theorem map_id_numbered : (numbered sites n).map (·.id) = sites.map (·.id) := by
  induction sites generalizing n with
  | nil => rfl
  | cons site sites ih => rw [numbered_cons, List.map_cons, List.map_cons, ih]; rfl

@[simp] theorem map_index_numbered :
    (numbered sites n).map (·.index) = List.range' n sites.length := by
  induction sites generalizing n with
  | nil => rfl
  | cons site sites ih => rw [numbered_cons, List.map_cons, ih]; rfl

@[simp] theorem length_numbered : (numbered sites n).length = sites.length := by
  rw [numbered, List.length_map, List.length_zipIdx]

theorem numbered_moved (id : Ident) (location : Location R) :
    numbered (sites.map fun s => if s.id = id then { s with location } else s) n =
      (numbered sites n).map (Stop.movedTo id location) := by
  induction sites generalizing n with
  | nil => rfl
  | cons site sites ih =>
    rw [List.map_cons, numbered_cons, numbered_cons, List.map_cons, ih]
    congr 1
    unfold Stop.movedTo Site.numbered
    split <;> rfl

theorem mem_numbered {sites : List (Site R)} {n : Nat} {s : Stop R} (h : s ∈ numbered sites n) :
    n ≤ s.index ∧ s.index < n + sites.length := by
  have hindex : s.index ∈ (numbered sites n).map (·.index) := List.mem_map_of_mem h
  rw [map_index_numbered, List.mem_range'_1] at hindex
  exact hindex

theorem numbered_removed (before after : List (Site R)) :
    (numbered before 0 ++ numbered after (before.length + 1)).map (Stop.upFrom before.length) =
      numbered (before ++ after) 0 := by
  have hbefore : (numbered before 0).map (Stop.upFrom before.length) = numbered before 0 := by
    apply (List.map_congr_left fun s hs => ?_).trans (List.map_id _)
    have hindex := (mem_numbered hs).2
    exact if_neg (by omega)
  have hafter (n : Nat) (hn : before.length ≤ n) :
      (numbered after (n + 1)).map (Stop.upFrom before.length) = numbered after n := by
    induction after generalizing n with
    | nil => rfl
    | cons site after ih =>
      have hup : (site.numbered (n + 1)).upFrom before.length = site.numbered n :=
        if_pos (Nat.lt_succ_of_le hn)
      simp [ih (n + 1) (Nat.le_succ_of_le hn), hup]
  simp [hbefore, hafter before.length (Nat.le_refl _)]

theorem exists_append_of_mem_numbered {sites : List (Site R)} {n : Nat} {s : Stop R}
    (h : s ∈ numbered sites n) : ∃ before after,
      sites = before ++ ⟨s.id, s.location⟩ :: after ∧ s.index = n + before.length := by
  induction sites generalizing n with
  | nil => cases h
  | cons site sites ih =>
    rw [numbered_cons, List.mem_cons] at h
    rcases h with rfl | h
    · exact ⟨[], sites, rfl, rfl⟩
    · obtain ⟨before, after, rfl, hindex⟩ := ih h
      exact ⟨site :: before, after, rfl, by rw [hindex, List.length_cons]; omega⟩

theorem increasing_numbered : (numbered sites n).Pairwise fun a b => a.index < b.index := by
  rw [← List.pairwise_map, map_index_numbered]
  exact List.pairwise_lt_range'

end Sites

namespace Schedule

open Sites

theorem stops_apply [Geometry R] (g : Schedule R) (e : Edit R) (hadd : ∀ s, e ≠ .addStop s)
    (hadds : ∀ ss, e ≠ .addStops ss) (hremove : ∀ id, e ≠ .removeStop id)
    (hmove : ∀ id location, e ≠ .moveStop id location) : (g.apply e).1.stops = g.stops := by
  cases e with
  | addAgency id timezone => exact (sameGround_addAgency g id timezone).stops
  | addStop s => exact absurd rfl (hadd s)
  | addStops ss => exact absurd rfl (hadds ss)
  | removeStop id => exact absurd rfl (hremove id)
  | moveStop id location => exact absurd rfl (hmove id location)
  | nameStop id name => rfl
  | addRoute route collection => exact (sameGround_addRoute g route collection).stops
  | narrateCollection id n => rfl
  | addTrip t n => exact (sameGround_addTrip g t n).stops
  | updateTrip t n => exact (sameGround_updateTrip g t n).stops
  | deleteTrip id => exact (sameGround_deleteTrip g id).stops
  | narrateTrip id n => rfl
  | deleteStopTime trip stop => exact (sameGround_editCalls g trip _).stops
  | insertStopTime trip stop arrival departure distance =>
    exact (sameGround_insertStopTime g trip stop arrival departure distance).stops
  | updateStopTime trip stop arrival departure newArrival newDeparture =>
    exact (sameGround_editCalls g trip _).stops
  | replaceStopTimes trip calls => exact (sameGround_editCalls g trip _).stops
  | addShape s => rfl
  | removeShape id => rfl
  | setTripShape trip shape => exact (sameGround_editTrip g trip _).stops

/-- The stops of a schedule are those of a list of sites, numbered in its order. -/
structure Registers (g : Schedule R) (sites : List (Site R)) : Prop where
  keyed : g.stops.KeyedBy Stop.id
  stops : g.stops.values.Perm (numbered sites 0)

namespace Registers

variable {g h : Schedule R} {sites : List (Site R)}

theorem empty : Registers (empty : Schedule R) [] := ⟨.empty, .refl []⟩

theorem congr (hg : Registers g sites) (stops : h.stops = g.stops) : Registers h sites :=
  ⟨stops ▸ hg.keyed, stops ▸ hg.stops⟩

theorem allStops (hg : Registers g sites) : g.allStops = numbered sites 0 := by
  have hle : (fun a b : Stop R => decide (a.index ≤ b.index)) =
      fun a b => (compare a.index b.index).isLE := by
    funext a b
    rw [Bool.eq_iff_iff, Nat.isLE_compare, decide_eq_true_eq]
  rw [Schedule.allStops, hle]
  apply Table.mergeSort_eq_of_perm Stop.index hg.stops
  exact (increasing_numbered sites 0).imp Nat.compare_eq_lt.2

theorem mem_allStops (hg : Registers g sites) {s : Stop R} :
    s ∈ g.allStops ↔ g.stops[s.id]? = some s := by
  rw [hg.allStops, ← hg.stops.mem_iff, hg.keyed.mem_values]

theorem nodup (hg : Registers g sites) : (sites.map (·.id)).Nodup := by
  rw [← map_id_numbered sites 0, ← (hg.stops.map (·.id)).nodup_iff]
  exact hg.keyed.nodup_values

theorem mem_stops (hg : Registers g sites) {id : Ident} :
    id ∈ g.stops ↔ id ∈ sites.map (·.id) := by
  rw [← map_id_numbered sites 0, ← (hg.stops.map (·.id)).mem_iff, hg.keyed.map_values,
    Std.ExtTreeMap.mem_keys]

theorem size (hg : Registers g sites) : g.stops.size = sites.length := by
  rw [← length_numbered sites 0, ← hg.stops.length_eq, ← List.length_map (·.id),
    hg.keyed.map_values, Std.ExtTreeMap.length_keys]

theorem addStop (hg : Registers g sites) (s : NewStop R) :
    Registers (g.addStop s).1 (register sites s) := by
  rw [Schedule.addStop, register]
  by_cases h : s.id ∈ sites.map (·.id)
  · rw [if_pos h, if_pos (Std.ExtTreeMap.mem_iff_contains.1 (hg.mem_stops.2 h))]
    exact hg
  · have hnew : s.id ∉ g.stops := mt hg.mem_stops.1 h
    have hnone : g.stops[s.id]? = none := Std.ExtTreeMap.getElem?_eq_none hnew
    let stop : Stop R := { id := s.id, location := s.location, index := g.stops.size }
    have hadded : Registers { g with stops := g.stops.insert s.id stop }
        (sites ++ [⟨s.id, s.location⟩]) := by
      have hlast : numbered [⟨s.id, s.location⟩] (0 + sites.length) = [stop] := by
        rw [Nat.zero_add, ← hg.size]
        rfl
      refine ⟨hg.keyed.insert rfl, (Table.values_insert_perm stop hnone).trans ?_⟩
      rw [numbered_append, hlast]
      exact (hg.stops.cons stop).trans (List.perm_append_singleton stop _).symm
    rw [if_neg h, if_neg (mt Std.ExtTreeMap.mem_iff_contains.2 hnew)]
    cases s.name with
    | none => exact hadded
    | some name => exact hadded.congr rfl

theorem addStops (hg : Registers g sites) (ss : List (NewStop R)) :
    Registers (g.addStops ss).1 (ss.foldl register sites) := by
  induction ss generalizing g sites with
  | nil => exact hg
  | cons s ss ih => exact ih (hg.addStop s)

theorem ne_of_unstored (hg : Registers g sites) {id : Ident} (h : g.stops[id]? = none) :
    ∀ s ∈ sites, s.id ≠ id := by
  intro s hs he
  have hmem : id ∈ g.stops := hg.mem_stops.2 (he ▸ List.mem_map_of_mem hs)
  rw [Std.ExtTreeMap.mem_iff_isSome_getElem?, h] at hmem
  cases hmem

theorem removeStop (hg : Registers g sites) (id : Ident) :
    Registers (g.removeStop id).1 (sites.filter fun s => s.id ≠ id) := by
  rw [Schedule.removeStop]
  cases hstored : g.stops[id]? with
  | none =>
    rw [List.filter_eq_self.2 fun s hs => decide_eq_true (hg.ne_of_unstored hstored s hs)]
    exact hg
  | some removed =>
    obtain rfl : removed.id = id := hg.keyed id removed hstored
    have hmem : removed ∈ numbered sites 0 := hg.stops.mem_iff.1 (hg.keyed.mem_values.2 hstored)
    obtain ⟨before, after, rfl, hindex⟩ := exists_append_of_mem_numbered hmem
    rw [Nat.zero_add] at hindex
    have hstop : (⟨removed.id, removed.location⟩ : Site R).numbered before.length = removed := by
      rw [← hindex]
      rfl
    have hrest : (g.stops.erase removed.id).values.Perm
        (numbered before 0 ++ numbered after (before.length + 1)) := by
      apply List.Perm.cons_inv (a := removed)
      apply (Table.values_perm_erase hstored).symm.trans (hg.stops.trans _)
      rw [numbered_append, numbered_cons, Nat.zero_add, hstop]
      exact List.perm_middle
    refine ⟨hg.keyed.erase.map (Stop.id_upFrom removed.index), ?_⟩
    have hmap := Table.values_map (Stop.upFrom removed.index) (g.stops.erase removed.id)
    rw [filter_key_ne Site.id hg.nodup, ← numbered_removed, ← hindex]
    rw [← hindex] at hrest
    exact hmap ▸ hrest.map (Stop.upFrom removed.index)

theorem moveStop (hg : Registers g sites) (id : Ident) (location : Location R) :
    Registers (g.moveStop id location).1
      (sites.map fun s => if s.id = id then { s with location } else s) := by
  rw [Schedule.moveStop]
  cases hstored : g.stops[id]? with
  | none =>
    have hsame : (sites.map fun s => if s.id = id then { s with location } else s) = sites :=
      (List.map_congr_left fun s hs => if_neg (hg.ne_of_unstored hstored s hs)).trans
        (List.map_id _)
    rw [hsame]
    exact hg
  | some stop =>
    obtain rfl : stop.id = id := hg.keyed id stop hstored
    have hrest : (g.stops.erase stop.id).values.map (Stop.movedTo stop.id location) =
        (g.stops.erase stop.id).values := by
      apply (List.map_congr_left fun s hs => if_neg ?_).trans (List.map_id _)
      have hne := List.of_mem_filter ((hg.keyed.values_erase_perm stop.id).mem_iff.1 hs)
      exact of_decide_eq_true hne
    have hstop : stop.movedTo stop.id location = { stop with location } := if_pos rfl
    refine ⟨hg.keyed.insert rfl, (Table.values_insert_perm_erase _ _ _).trans ?_⟩
    rw [numbered_moved, ← hrest, ← hstop, ← List.map_cons]
    exact ((Table.values_perm_erase hstored).symm.trans hg.stops).map _

variable [Geometry R]

theorem apply (hg : Registers g sites) (e : Edit R) : Registers (g.apply e).1 (edited sites e) := by
  rw [edited.eq_def]
  split
  · exact hg.addStop _
  · exact hg.addStops _
  · exact hg.removeStop _
  · exact hg.moveStop _ _
  · next hadd hadds hremove hmove => exact hg.congr (stops_apply g e hadd hadds hremove hmove)

theorem run (hg : Registers g sites) (edits : List (Edit R)) :
    Registers (g.run edits) (edits.foldl edited sites) := by
  induction edits generalizing g sites with
  | nil => exact hg
  | cons e edits ih => exact ih (hg.apply e)

end Registers

end Schedule

end Timetable

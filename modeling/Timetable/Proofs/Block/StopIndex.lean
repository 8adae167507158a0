import Mathlib.Data.List.Dedup
import Timetable.Block.StopIndex
import Timetable.Proofs.Block.RunningOrder
import Timetable.Proofs.Table

namespace Timetable

variable {R : Type}

namespace Departure

/-- What a departure shows: the trip and its stop time. -/
def visit (d : Departure R) : Ident × StopTime R := (d.trip, d.stopTime.stopTime)

variable {a b c : Departure R}

theorem isBefore_iff :
    a.isBefore b ↔ a.time < b.time ∨ a.time = b.time ∧ a.trip.isAtMost b.trip := by
  simp only [isBefore, Bool.or_eq_true, Bool.and_eq_true, decide_eq_true_eq]

theorem isBefore_trans (hab : a.isBefore b) (hbc : b.isBefore c) : a.isBefore c := by
  rw [isBefore_iff] at hab hbc ⊢
  exact Ident.timed_trans hab hbc

theorem isBefore_total (a b : Departure R) : a.isBefore b || b.isBefore a := by
  rw [Bool.or_eq_true, isBefore_iff, isBefore_iff]
  exact Ident.timed_total a.time b.time a.trip b.trip

end Departure

namespace StopIndex

variable {stop : Ident} {ds : List (Departure R)} {i : StopIndex R}

theorem mem_ofDepartures : i ∈ ofDepartures stop ds ↔ ∃ services,
    (ds.filter fun d => d.services = services) ≠ [] ∧
      i = ⟨stop, services, (ds.filter fun d => d.services = services).mergeSort
        Departure.isBefore⟩ := by
  simp only [ofDepartures, List.mem_map, Prod.exists,
    Std.ExtTreeMap.mem_toList_iff_getElem?_eq_some, Table.getElem?_group]
  constructor
  · rintro ⟨services, es, ⟨hne, rfl⟩, rfl⟩
    exact ⟨services, hne, rfl⟩
  · rintro ⟨services, hne, rfl⟩
    exact ⟨services, _, ⟨hne, rfl⟩, rfl⟩

theorem increasing_ofDepartures (stop : Ident) (ds : List (Departure R)) :
    (ofDepartures stop ds).Pairwise fun i j => compare i.services j.services = .lt := by
  rw [ofDepartures, List.pairwise_map]
  exact Std.ExtTreeMap.ordered_keys_toList

theorem listAt_ofConfigurations [Zero R] [Add R] (cs : List (Configuration R)) (stop : Ident) :
    (ofConfigurations cs).listAt stop =
      ofDepartures stop ((cs.flatMap departuresOf).filter fun d => d.stop = stop) := by
  rw [← Table.listAt_group, ofConfigurations, Table.listAt, Table.listAt,
    Std.ExtTreeMap.getElem?_map]
  cases (Table.group (fun d => [d.stop]) (cs.flatMap departuresOf))[stop]? with
  | none => rfl
  | some ds => rfl

def groupsOf (ds : List (Departure R)) : List ((Ident × ServiceSet) × List (Departure R)) :=
  (ds.map fun d => (d.stop, d.services)).dedup.map fun key =>
    (key, ds.filter fun d => (d.stop, d.services) = key)

/-- The indices of a stop from groups in the order in which they come up: the departures of each
are sorted, and then the indices by their services. -/
def assemble (stop : Ident) (groups : List ((Ident × ServiceSet) × List (Departure R))) :
    List (StopIndex R) :=
  ((groups.filter fun e => e.1.1 = stop).map fun ((stop, services), ds) =>
    { stop, services, departures := ds.mergeSort Departure.isBefore : StopIndex R }).mergeSort
      fun i j => (compare i.services j.services).isLE

theorem nodup_groupsOf (ds : List (Departure R)) : (groupsOf ds).Nodup := by
  apply List.Nodup.of_map Prod.fst
  rw [groupsOf, List.map_map]
  exact (List.map_id _).symm ▸ List.nodup_dedup _

theorem mem_groupsOf {services : ServiceSet} {es : List (Departure R)} :
    ((stop, services), es) ∈ groupsOf ds ↔ es ≠ [] ∧
      ((ds.filter fun d => d.stop = stop).filter fun d => d.services = services) = es := by
  have hfilter : ((ds.filter fun d => d.stop = stop).filter fun d => d.services = services) =
      ds.filter fun d => (d.stop, d.services) = (stop, services) := by
    simp only [List.filter_filter, Prod.mk.injEq, Bool.decide_and, Bool.and_comm]
  rw [hfilter, groupsOf, List.mem_map]
  constructor
  · rintro ⟨key, hkey, he⟩
    cases he
    obtain ⟨d, hd, hkey⟩ := List.mem_map.1 (List.mem_dedup.1 hkey)
    exact ⟨List.ne_nil_of_mem (List.mem_filter.2 ⟨hd, decide_eq_true hkey⟩), rfl⟩
  · rintro ⟨hne, rfl⟩
    obtain ⟨d, hd⟩ := List.exists_mem_of_ne_nil _ hne
    obtain ⟨hd, hkey⟩ := List.mem_filter.1 hd
    rw [← of_decide_eq_true hkey]
    exact ⟨_, List.mem_dedup.2 (List.mem_map_of_mem hd), rfl⟩

variable {groups : List ((Ident × ServiceSet) × List (Departure R))}

theorem groups_at_perm (h : groups.Perm (groupsOf ds)) (stop : Ident) :
    ((groups.filter fun e => e.1.1 = stop).map fun e => (e.1.2, e.2)).Perm
      (Table.group (fun d => [d.services]) (ds.filter fun d => d.stop = stop)).toList := by
  have hnodup : ((groups.filter fun e => e.1.1 = stop).map fun e => (e.1.2, e.2)).Nodup := by
    apply List.Nodup.map_on _ ((h.nodup_iff.2 (nodup_groupsOf ds)).filter _)
    rintro ⟨⟨s, services⟩, es⟩ hs ⟨⟨s', services'⟩, es'⟩ hs' he
    obtain rfl : s = stop := of_decide_eq_true (List.mem_filter.1 hs).2
    obtain rfl : s' = s := of_decide_eq_true (List.mem_filter.1 hs').2
    cases he
    rfl
  apply (List.perm_ext_iff_of_nodup hnodup (Table.nodup_toList _)).2
  rintro ⟨services, es⟩
  rw [Std.ExtTreeMap.mem_toList_iff_getElem?_eq_some, Table.getElem?_group, ← mem_groupsOf,
    ← h.mem_iff, List.mem_map]
  constructor
  · rintro ⟨⟨⟨s, services'⟩, es'⟩, hs, he⟩
    obtain rfl : s = stop := of_decide_eq_true (List.mem_filter.1 hs).2
    cases he
    exact (List.mem_filter.1 hs).1
  · intro hs
    exact ⟨((stop, services), es), List.mem_filter.2 ⟨hs, decide_eq_true rfl⟩, rfl⟩

/-- In which order the groups come up does not show. -/
theorem assemble_eq (h : groups.Perm (groupsOf ds)) (stop : Ident) :
    assemble stop groups = ofDepartures stop (ds.filter fun d => d.stop = stop) := by
  apply Table.mergeSort_eq_of_perm StopIndex.services _ (increasing_ofDepartures stop _)
  have hindices := (groups_at_perm h stop).map fun e =>
    (⟨stop, e.1, e.2.mergeSort Departure.isBefore⟩ : StopIndex R)
  rw [List.map_map] at hindices
  rw [ofDepartures, ← List.map_congr_left]
  · exact hindices
  · rintro ⟨⟨s, services⟩, es⟩ hs
    obtain rfl : s = stop := of_decide_eq_true (List.mem_filter.1 hs).2
    rfl

end StopIndex

end Timetable

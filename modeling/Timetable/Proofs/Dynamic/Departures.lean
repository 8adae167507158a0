import Timetable.Proofs.BlockIndex.Departures
import Timetable.Proofs.Dynamic.Registration

namespace Timetable

variable {R : Type}

def StopIndex.covers (i : StopIndex R) (trip : Ident) : Bool :=
  i.departures.any fun d => d.trip = trip

namespace Dynamic

open Registration

section Kept

variable {is : List (StopIndex R)} {i : StopIndex R}

theorem addDepartures_concat (js is : List (StopIndex R)) (i : StopIndex R) :
    addDepartures js (is ++ [i]) =
      if (addDepartures js is).any fun j => j.firstTrip? = i.firstTrip? then addDepartures js is
      else addDepartures js is ++ [i] := by
  rw [addDepartures, List.foldl_append]
  rfl

theorem nodup_firstTrips (is : List (StopIndex R)) :
    ((addDepartures [] is).map (·.firstTrip?)).Nodup := by
  induction is using List.reverseRecOn with
  | nil => exact List.nodup_nil
  | append_singleton is i ih =>
    rw [addDepartures_concat]
    split
    · exact ih
    · next hnew =>
      rw [List.map_append, List.map_singleton, ← List.concat_eq_append, List.nodup_concat]
      refine ⟨fun hi => hnew ?_, ih⟩
      obtain ⟨j, hj, he⟩ := List.mem_map.1 hi
      exact List.any_eq_true.2 ⟨j, hj, decide_eq_true he⟩

theorem find?_addDepartures (is : List (StopIndex R)) (trip : Option Ident) :
    (addDepartures [] is).find? (fun j => j.firstTrip? = trip) =
      is.find? fun j => j.firstTrip? = trip := by
  induction is using List.reverseRecOn with
  | nil => rfl
  | append_singleton is i ih =>
    rw [addDepartures_concat, List.find?_append, ← ih]
    split
    · next hany =>
      by_cases hi : i.firstTrip? = trip
      · subst hi
        obtain ⟨j, hj⟩ := Option.isSome_iff_exists.1 (List.isSome_find?.trans hany)
        rw [hj, Option.some_or]
      · simp [hi]
    · exact List.find?_append

theorem mem_addDepartures :
    i ∈ addDepartures [] is ↔ is.find? (fun j => j.firstTrip? = i.firstTrip?) = some i := by
  rw [← find?_addDepartures]
  constructor
  · intro hi
    have hfound : ((addDepartures [] is).find? fun j => j.firstTrip? = i.firstTrip?).isSome :=
      List.find?_isSome.2 ⟨i, hi, decide_eq_true rfl⟩
    obtain ⟨j, hj⟩ := Option.isSome_iff_exists.1 hfound
    have he : j.firstTrip? = i.firstTrip? := by simpa using List.find?_some hj
    rw [hj, List.inj_on_of_nodup_map (nodup_firstTrips is) (List.mem_of_find?_eq_some hj) hi he]
  · exact List.mem_of_find?_eq_some

theorem nodup_addDepartures (is : List (StopIndex R)) : (addDepartures [] is).Nodup :=
  (nodup_firstTrips is).of_map _

end Kept

variable [Zero R] [Add R]

section At

variable (c : Configuration R) (stop : Ident)

def departuresAt : List (Departure R) :=
  (StopIndex.departuresOf c).filter fun d => d.stop = stop

def indexAt : StopIndex R :=
  ⟨stop, c.services, (departuresAt c stop).mergeSort Departure.isBefore⟩

def startAt? : Option Ident := (indexAt c stop).firstTrip?

end At

variable {c : Configuration R} {stop : Ident}

@[simp] theorem mem_indexAt {d : Departure R} :
    d ∈ (indexAt c stop).departures ↔ d ∈ departuresAt c stop :=
  (List.mergeSort_perm _ _).mem_iff

theorem configuration_of_mem {d : Departure R} (hd : d ∈ departuresAt c stop) :
    d.configuration = c := by
  obtain ⟨s, _, rfl⟩ := List.mem_map.1 (List.mem_filter.1 hd).1
  rfl

theorem exists_trip_of_mem {d : Departure R} (hd : d ∈ departuresAt c stop) :
    ∃ t ∈ c.members, d.visit ∈ t.visitsTo stop := by
  have hvisit := List.mem_map_of_mem (f := Departure.visit) hd
  rw [departuresAt, c.visits_departuresOf stop] at hvisit
  exact List.mem_flatMap.1 hvisit

theorem exists_departure {t : Trip R} (ht : t ∈ c.members) (hvisit : t.visitsTo stop ≠ []) :
    ∃ d ∈ departuresAt c stop, d.trip = t.id := by
  obtain ⟨v, hv⟩ := List.exists_mem_of_ne_nil _ hvisit
  have hmem : v ∈ c.members.flatMap (Trip.visitsTo stop) := List.mem_flatMap.2 ⟨t, ht, hv⟩
  rw [← c.visits_departuresOf stop] at hmem
  obtain ⟨d, hd, rfl⟩ := List.mem_map.1 hmem
  obtain ⟨s, _, he⟩ := List.mem_map.1 hv
  exact ⟨d, hd, (congrArg Prod.fst he).symm⟩

theorem exists_member {d : Departure R} (hd : d ∈ departuresAt c stop) :
    ∃ t ∈ c.members, t.id = d.trip := by
  obtain ⟨t, ht, hvisit⟩ := exists_trip_of_mem hd
  obtain ⟨s, _, he⟩ := List.mem_map.1 hvisit
  exact ⟨t, ht, congrArg Prod.fst he⟩

theorem filter_services (c : Configuration R) (stop : Ident) (services : ServiceSet) :
    (departuresAt c stop).filter (fun d => d.services = services) =
      if c.services = services then departuresAt c stop else [] := by
  have hown : ∀ d ∈ departuresAt c stop, d.services = c.services := by
    intro d hd
    exact Configuration.services_of_mem_departuresOf (List.mem_filter.1 hd).1
  split
  · next h => exact List.filter_eq_self.2 fun d hd => decide_eq_true ((hown d hd).trans h)
  · next h =>
    rw [List.filter_eq_nil_iff]
    intro d hd
    rwa [hown d hd, decide_eq_true_eq]

@[simp] theorem mem_indicesAt {i : StopIndex R} :
    i ∈ indicesAt c stop ↔ departuresAt c stop ≠ [] ∧ i = indexAt c stop := by
  have hds : ([c].flatMap StopIndex.departuresOf).filter (fun d => d.stop = stop) =
      departuresAt c stop := by
    rw [List.flatMap_singleton]
    rfl
  rw [indicesAt, StopIndex.listAt_ofConfigurations, hds, StopIndex.mem_ofDepartures]
  constructor
  · rintro ⟨services, hne, rfl⟩
    rw [filter_services] at hne ⊢
    split at hne
    · next h =>
      subst h
      rw [if_pos rfl]
      exact ⟨hne, rfl⟩
    · exact (hne rfl).elim
  · rintro ⟨hne, rfl⟩
    refine ⟨c.services, ?_⟩
    rw [filter_services, if_pos rfl]
    exact ⟨hne, rfl⟩

theorem indicesAt_eq (c : Configuration R) (stop : Ident) :
    indicesAt c stop = if departuresAt c stop = [] then [] else [indexAt c stop] := by
  split
  · next h => exact List.eq_nil_iff_forall_not_mem.2 fun i hi => (mem_indicesAt.1 hi).1 h
  · next h =>
    have hnodup : (indicesAt c stop).Nodup := by
      rw [indicesAt, StopIndex.listAt_ofConfigurations]
      apply (StopIndex.increasing_ofDepartures stop _).imp
      rintro i _ hlt rfl
      rw [Std.compare_self] at hlt
      cases hlt
    rw [← List.perm_singleton, List.perm_ext_iff_of_nodup hnodup (List.nodup_singleton _)]
    intro i
    rw [mem_indicesAt, List.mem_singleton, and_iff_right h]

theorem exists_startAt? (h : departuresAt c stop ≠ []) : ∃ trip, startAt? c stop = some trip := by
  obtain ⟨d, hd⟩ := List.exists_mem_of_ne_nil _ h
  have hne : (indexAt c stop).departures ≠ [] := List.ne_nil_of_mem (mem_indexAt.2 hd)
  rw [startAt?, StopIndex.firstTrip?, List.head?_eq_some_head hne, Option.map_some]
  exact ⟨_, rfl⟩

theorem exists_member_of_startAt? {trip : Ident} (h : startAt? c stop = some trip) :
    ∃ t ∈ c.members, t.id = trip := by
  obtain ⟨d, hd, rfl⟩ := Option.map_eq_some_iff.1 h
  exact exists_member (mem_indexAt.1 (List.mem_of_head? hd))

section Run

variable (rs : List (Registration R)) (stop : Ident)

/-- The first registration that starts at a stop with a trip. -/
def starting? (trip : Option Ident) : Option (Registration R) :=
  rs.find? fun r =>
    departuresAt r.configuration stop ≠ [] ∧ startAt? r.configuration stop = trip

def calling? (block : Ident) : Option (Registration R) :=
  rs.find? fun r => departuresAt r.configuration stop ≠ [] ∧ r.block = block

theorem listAt_byStop_registerAll : (registerAll rs).byStop.listAt stop =
    addDepartures [] (rs.flatMap fun r => indicesAt r.configuration stop) := by
  induction rs using List.reverseRecOn with
  | nil =>
    have hnone : (∅ : Table Ident (List (StopIndex R)))[stop]? = none :=
      Std.ExtTreeMap.getElem?_empty
    rw [registerAll, List.foldl_nil, empty, Table.listAt, hnone]
    rfl
  | append_singleton rs r ih =>
    rw [registerAll_append, listAt_byStop_accept, ih, List.flatMap_append, List.flatMap_singleton,
      addDepartures, addDepartures, addDepartures, List.foldl_append]

theorem find?_indices (trip : Option Ident) :
    (rs.flatMap fun r => indicesAt r.configuration stop).find? (fun i => i.firstTrip? = trip) =
      (starting? rs stop trip).map fun r => indexAt r.configuration stop := by
  rw [List.find?_flatMap, starting?, ← List.findSome?_guard, List.map_findSome?]
  congr 1
  funext r
  rw [indicesAt_eq]
  by_cases h : departuresAt r.configuration stop = []
  · simp [h, Option.guard]
  · by_cases htrip : (indexAt r.configuration stop).firstTrip? = trip
    · simp [h, htrip, Option.guard, startAt?]
    · simp [h, htrip, Option.guard, startAt?]

/-- A stop lists the first registration with each earliest trip. -/
theorem mem_listAt_byStop {i : StopIndex R} : i ∈ (registerAll rs).byStop.listAt stop ↔
    ∃ r, starting? rs stop i.firstTrip? = some r ∧ indexAt r.configuration stop = i := by
  rw [listAt_byStop_registerAll, mem_addDepartures, find?_indices, Option.map_eq_some_iff]

variable {rs stop}

theorem starting?_eq_some {trip : Option Ident} {r : Registration R}
    (h : starting? rs stop trip = some r) :
    r ∈ rs ∧ departuresAt r.configuration stop ≠ [] ∧ startAt? r.configuration stop = trip :=
  ⟨List.mem_of_find?_eq_some h, by simpa [starting?] using List.find?_some h⟩

theorem calling?_eq_some {block : Ident} {r : Registration R}
    (h : calling? rs stop block = some r) :
    r ∈ rs ∧ departuresAt r.configuration stop ≠ [] ∧ r.block = block :=
  ⟨List.mem_of_find?_eq_some h, by simpa [calling?] using List.find?_some h⟩

end Run

/-- Blocks have trips of their own. -/
def Separate (rs : List (Registration R)) : Prop :=
  ∀ r ∈ rs, ∀ s ∈ rs, ∀ t ∈ r.configuration.members, ∀ u ∈ s.configuration.members,
    t.id = u.id → r.block = s.block

/-- Indices of a stop that cover just what the running blocks have there. -/
structure Current (d : Dynamic R) (stop : Ident) (indices : List (StopIndex R)) : Prop where
  departures : (indices.flatMap (·.departures)).Perm
    (d.runs.values.flatMap fun run => departuresAt run.configuration stop)
  covered (block : Ident) (run : BlockRun R) : d.runs[block]? = some run →
    ∀ t ∈ run.configuration.members, t.visitsTo stop ≠ [] →
      ∃ i, indices.filter (·.covers t.id) = [i] ∧
        ∀ d ∈ i.departures, d.configuration = run.configuration
  lasting : ∀ i ∈ indices, ∀ x ∈ i.departures, ∃ run,
    d.runs[x.configuration.block]? = some run ∧ x.configuration = run.configuration ∧
      ∃ t ∈ run.configuration.members, x.visit ∈ t.visitsTo stop

/-- Each block, when it called at a stop, started there with the trip with which it would start
now, and when it first did, it ran as it does now. -/
structure Steady (rs : List (Registration R)) (stop : Ident) : Prop where
  starts : ∀ r ∈ rs, departuresAt r.configuration stop ≠ [] →
    ∀ s, latest? rs r.block = some s →
      startAt? s.configuration stop = startAt? r.configuration stop
  first (block : Ident) (r s : Registration R) : calling? rs stop block = some r →
    latest? rs block = some s → s.configuration = r.configuration

variable {rs : List (Registration R)}

theorem Separate.block_eq (hrs : Separate rs) {r s : Registration R} (hr : r ∈ rs) (hs : s ∈ rs)
    (hcalls : departuresAt r.configuration stop ≠ [])
    (h : startAt? s.configuration stop = startAt? r.configuration stop) : s.block = r.block := by
  obtain ⟨trip, htrip⟩ := exists_startAt? hcalls
  obtain ⟨t, ht, rfl⟩ := exists_member_of_startAt? htrip
  obtain ⟨u, hu, he⟩ := exists_member_of_startAt? (h.trans htrip)
  exact hrs s hs r hr u hu t ht he

theorem Separate.indexAt_mem (hrs : Separate rs) {block : Ident} {r : Registration R}
    (h : calling? rs stop block = some r) :
    indexAt r.configuration stop ∈ (registerAll rs).byStop.listAt stop := by
  obtain ⟨hr, hcalls, rfl⟩ := calling?_eq_some h
  refine (mem_listAt_byStop rs stop).2 ⟨r, find?_eq_some_of_imp h ?_ ?_, rfl⟩
  · exact decide_eq_true ⟨hcalls, rfl⟩
  · intro s hs hstart
    obtain ⟨hcalls', he⟩ := of_decide_eq_true hstart
    have hmem := (List.takeWhile_prefix _).subset hs
    exact decide_eq_true ⟨hcalls', hrs.block_eq hr hmem hcalls he⟩

theorem Current.steady (hrs : Separate rs)
    (h : Current (registerAll rs) stop ((registerAll rs).byStop.listAt stop)) :
    Steady rs stop := by
  -- what is listed of a block is of its latest registration
  have hlisted {q s : Registration R} (hcalls : departuresAt q.configuration stop ≠ [])
      (hmem : indexAt q.configuration stop ∈ (registerAll rs).byStop.listAt stop)
      (hs : latest? rs q.block = some s) : s.configuration = q.configuration := by
    obtain ⟨x, hx⟩ := List.exists_mem_of_ne_nil _ hcalls
    obtain ⟨run, hrun, he, _⟩ := h.lasting _ hmem x (mem_indexAt.2 hx)
    rw [configuration_of_mem hx] at hrun he
    have hrun' := (runs_registerAll rs q.block).symm.trans hrun
    rw [hs, Option.map_some, Option.some.injEq] at hrun'
    rw [he, ← hrun', configuration]
  constructor
  · intro r hr hcalls s hs
    have hstart : (starting? rs stop (startAt? r.configuration stop)).isSome :=
      List.find?_isSome.2 ⟨r, hr, decide_eq_true ⟨hcalls, rfl⟩⟩
    obtain ⟨q, hq⟩ := Option.isSome_iff_exists.1 hstart
    obtain ⟨hmem, hcalls', he⟩ := starting?_eq_some hq
    rw [← hrs.block_eq hr hmem hcalls he] at hs
    rw [← he] at hq ⊢
    rw [hlisted hcalls' ((mem_listAt_byStop rs stop).2 ⟨q, hq, rfl⟩) hs]
  · intro block r s hr hs
    obtain ⟨_, hcalls, rfl⟩ := calling?_eq_some hr
    exact hlisted hcalls (hrs.indexAt_mem hr) hs

theorem nodup_listAt_byStop (rs : List (Registration R)) (stop : Ident) :
    ((registerAll rs).byStop.listAt stop).Nodup := by
  rw [listAt_byStop_registerAll]
  exact nodup_addDepartures _

/-- What a stop lists are the indices of the latest registrations that call there. -/
theorem Steady.mem_listAt (hrs : Separate rs) (h : Steady rs stop) {i : StopIndex R} :
    i ∈ (registerAll rs).byStop.listAt stop ↔ ∃ block s, latest? rs block = some s ∧
      departuresAt s.configuration stop ≠ [] ∧ i = indexAt s.configuration stop := by
  constructor
  · intro hi
    obtain ⟨r, hr, rfl⟩ := (mem_listAt_byStop rs stop).1 hi
    obtain ⟨hmem, hcalls, _⟩ := starting?_eq_some hr
    obtain ⟨s, hs⟩ := exists_latest? hmem
    -- whoever calls for the block before starts with the same trip, so it would be listed instead
    have hfirst : calling? rs stop r.block = some r := by
      apply find?_eq_some_of_imp hr
      · exact decide_eq_true ⟨hcalls, rfl⟩
      · intro q hq hq'
        obtain ⟨hcalls', he⟩ := of_decide_eq_true hq'
        have hmem' := (List.takeWhile_prefix _).subset hq
        have hstart := h.starts q hmem' hcalls' s (he ▸ hs)
        exact decide_eq_true ⟨hcalls', hstart.symm.trans (h.starts r hmem hcalls s hs)⟩
    have he := h.first r.block r s hfirst hs
    exact ⟨r.block, s, hs, by rwa [he], by rw [he]⟩
  · rintro ⟨block, s, hs, hcalls, rfl⟩
    obtain ⟨hmem, rfl⟩ := mem_of_latest? hs
    have hcalling : (calling? rs stop s.block).isSome :=
      List.find?_isSome.2 ⟨s, hmem, decide_eq_true ⟨hcalls, rfl⟩⟩
    obtain ⟨r, hr⟩ := Option.isSome_iff_exists.1 hcalling
    rw [h.first s.block r s hr hs]
    exact hrs.indexAt_mem hr

theorem keyed_runs : (registerAll rs).runs.KeyedBy (·.configuration.block) := by
  intro block run hrun
  rw [runs_registerAll] at hrun
  obtain ⟨r, hr, rfl⟩ := Option.map_eq_some_iff.1 hrun
  exact (mem_of_latest? hr).2

theorem runs_of_latest? {s : Registration R} {block : Ident} (hs : latest? rs block = some s) :
    (registerAll rs).runs[s.block]? = some s.run := by
  rw [runs_registerAll, (mem_of_latest? hs).2, hs, Option.map_some]

theorem Steady.listAt_perm (hrs : Separate rs) (h : Steady rs stop) :
    ((registerAll rs).byStop.listAt stop).Perm
      ((registerAll rs).runs.values.flatMap fun run => indicesAt run.configuration stop) := by
  have hnodup := nodup_listAt_byStop rs stop
  have hruns : ((registerAll rs).runs.values.flatMap
      fun run => indicesAt run.configuration stop).Nodup := by
    rw [List.nodup_flatMap]
    constructor
    · intro run _
      rw [indicesAt_eq]
      split
      · exact List.nodup_nil
      · exact List.nodup_singleton _
    · apply (List.pairwise_map.1 keyed_runs.nodup_values).imp
      -- an index has departures, and each names the configuration that it is of
      intro run run' hne i hi hi'
      obtain ⟨hcalls, rfl⟩ := mem_indicesAt.1 hi
      obtain ⟨_, he⟩ := mem_indicesAt.1 hi'
      obtain ⟨d, hd⟩ := List.exists_mem_of_ne_nil _ hcalls
      have hd' := mem_indexAt.2 hd
      rw [he, mem_indexAt] at hd'
      rw [← configuration_of_mem hd, ← configuration_of_mem hd'] at hne
      exact hne rfl
  rw [List.perm_ext_iff_of_nodup hnodup hruns]
  intro i
  simp only [h.mem_listAt hrs, List.mem_flatMap, Table.mem_values, mem_indicesAt]
  constructor
  · rintro ⟨block, s, hs, hcalls, rfl⟩
    exact ⟨s.run, ⟨s.block, runs_of_latest? hs⟩, hcalls, rfl⟩
  · rintro ⟨run, ⟨block, hrun⟩, hcalls, rfl⟩
    rw [runs_registerAll] at hrun
    obtain ⟨s, hs, rfl⟩ := Option.map_eq_some_iff.1 hrun
    exact ⟨block, s, hs, hcalls, rfl⟩

theorem Steady.filter_covers (hrs : Separate rs) (h : Steady rs stop) {s : Registration R}
    {block : Ident} (hs : latest? rs block = some s) {t : Trip R} (ht : t ∈ s.configuration.members)
    (hvisit : t.visitsTo stop ≠ []) :
    ((registerAll rs).byStop.listAt stop).filter (·.covers t.id) =
      [indexAt s.configuration stop] := by
  obtain ⟨d, hd, htrip⟩ := exists_departure ht hvisit
  have hnodup := nodup_listAt_byStop rs stop
  rw [← List.perm_singleton, List.perm_ext_iff_of_nodup (hnodup.filter _) (List.nodup_singleton _)]
  intro i
  rw [List.mem_filter, List.mem_singleton, h.mem_listAt hrs]
  constructor
  · rintro ⟨⟨block', s', hs', _, rfl⟩, hcovers⟩
    obtain ⟨d', hd', he⟩ := List.any_eq_true.1 hcovers
    obtain ⟨u, hu, hid⟩ := exists_member (mem_indexAt.1 hd')
    obtain ⟨hmem, rfl⟩ := mem_of_latest? hs
    obtain ⟨hmem', rfl⟩ := mem_of_latest? hs'
    have hblock := hrs s hmem s' hmem' t ht u hu ((hid.trans (of_decide_eq_true he)).symm)
    rw [hblock, hs', Option.some.injEq] at hs
    rw [hs]
  · rintro rfl
    refine ⟨⟨block, s, hs, List.ne_nil_of_mem hd, rfl⟩, ?_⟩
    exact List.any_eq_true.2 ⟨d, mem_indexAt.2 hd, decide_eq_true htrip⟩

theorem Steady.current (hrs : Separate rs) (h : Steady rs stop) :
    Current (registerAll rs) stop ((registerAll rs).byStop.listAt stop) := by
  constructor
  · have hflat := (h.listAt_perm hrs).flatMap_right (·.departures)
    rw [List.flatMap_assoc] at hflat
    apply hflat.trans
    apply List.Perm.flatMap_left
    intro run _
    rw [indicesAt_eq]
    split
    · next hnone => rw [hnone, List.flatMap_nil]
    · rw [List.flatMap_singleton]
      exact List.mergeSort_perm _ _
  · intro block run hrun t ht hvisit
    rw [runs_registerAll] at hrun
    obtain ⟨s, hs, rfl⟩ := Option.map_eq_some_iff.1 hrun
    refine ⟨_, h.filter_covers hrs hs ht hvisit, fun d hd => ?_⟩
    exact configuration_of_mem (mem_indexAt.1 hd)
  · intro i hi x hx
    obtain ⟨block, s, hs, _, rfl⟩ := (h.mem_listAt hrs).1 hi
    rw [mem_indexAt] at hx
    rw [configuration_of_mem hx]
    exact ⟨s.run, runs_of_latest? hs, rfl, exists_trip_of_mem hx⟩

/-- Whatever is registered, in blocks that have trips of their own, the indices of a stop cover just
what the running blocks have there if and only if every block is steady there. -/
theorem departures_current_iff {rs : List (Registration R)} (hrs : Separate rs) (stop : Ident) :
    Current (registerAll rs) stop (((registerAll rs).departures? stop).getD []) ↔
      Steady rs stop :=
  ⟨Current.steady hrs, Steady.current hrs⟩

/-- A block of two trips is registered, then another block that calls at another stop, and then the
first again, with the trips the other way around as the one that was first is late. -/
def overtaken : List (Registration Float) :=
  [.ofTrips "B" [shuttle "T1" "B" "X" 480, shuttle "T2" "B" "X" 540],
    .ofTrips "C" [shuttle "T3" "C" "Z" 500],
    .ofTrips "B" [shuttle "T2" "B" "X" 540, shuttle "T1" "B" "X" 600]]

theorem separate_overtaken : Separate overtaken := by
  unfold Separate
  decide +kernel

theorem steady_overtaken : Steady overtaken ⟨"A", "Z"⟩ := by
  have honce : ∀ r ∈ overtaken, departuresAt r.configuration ⟨"A", "Z"⟩ ≠ [] →
      r = .ofTrips "C" [shuttle "T3" "C" "Z" 500] := by
    simp only [overtaken, List.forall_mem_cons]
    exact ⟨fun h => (h rfl).elim, fun _ => trivial, fun h => (h rfl).elim, List.forall_mem_nil _⟩
  constructor
  · intro r hr hcalls s hs
    rw [honce r hr hcalls] at hs ⊢
    cases hs
    rfl
  · intro block r s hr hs
    obtain ⟨hmem, hcalls, rfl⟩ := calling?_eq_some hr
    rw [honce r hmem hcalls] at hs ⊢
    cases hs
    rfl

theorem departures_current_iff_overtaken :
    Separate overtaken ∧ Steady overtaken ⟨"A", "Z"⟩ ∧
    Current (registerAll overtaken) ⟨"A", "Z"⟩
      (((registerAll overtaken).departures? ⟨"A", "Z"⟩).getD []) :=
  ⟨separate_overtaken, steady_overtaken,
    (departures_current_iff separate_overtaken _).2 steady_overtaken⟩

/-- The trip that is late is listed twice, at the time that it was to depart as well. Nothing is
wrong with the registrations: each configuration is the one that its trips are built into. -/
theorem departures_stale_overtaken :
    let stop : Ident := ⟨"A", "X"⟩
    let indices := ((registerAll overtaken).departures? stop).getD []
    Separate overtaken ∧
    (∀ r ∈ overtaken, Configuration.build? r.block r.configuration.services []
      r.configuration.members = some r.configuration) ∧
    (indices.filter (·.covers ⟨"A", "T1"⟩)).length = 2 ∧
    ¬Current (registerAll overtaken) stop indices := by
  intro stop indices
  have hordered : ∀ r ∈ overtaken, r.configuration.members.Pairwise fun t u => t.runsBefore u := by
    decide +kernel
  have hsorted : ∀ r ∈ overtaken, (departuresAt r.configuration stop).Pairwise
      fun a b => a.isBefore b := by
    decide +kernel
  have hindices : indices = addDepartures [] (overtaken.flatMap fun r =>
      if departuresAt r.configuration stop = [] then []
      else [⟨stop, r.configuration.services, departuresAt r.configuration stop⟩]) := by
    refine (listAt_byStop_registerAll overtaken stop).trans (congrArg _ ?_)
    apply List.flatMap_congr
    intro r hr
    rw [indicesAt_eq, indexAt, List.mergeSort_of_pairwise (hsorted r hr)]
  refine ⟨separate_overtaken, ?_, ?_, ?_⟩
  · intro r hr
    rw [Configuration.build?_eq_some, List.mergeSort_of_pairwise (hordered r hr)]
    revert r
    simp only [overtaken, List.forall_mem_cons]
    exact ⟨⟨List.cons_ne_nil _ _, rfl⟩, ⟨List.cons_ne_nil _ _, rfl⟩, ⟨List.cons_ne_nil _ _, rfl⟩,
      List.forall_mem_nil _⟩
  · rw [hindices]
    decide +kernel
  · intro h
    have hsteady := Current.steady separate_overtaken h
    have hsame := hsteady.first ⟨"A", "B"⟩ _ _ rfl rfl
    have hids := congrArg (fun c => c.legs.map (·.trip.id)) hsame
    revert hids
    decide +kernel

end Dynamic

end Timetable

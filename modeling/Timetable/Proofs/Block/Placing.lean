import Timetable.Proofs.Block.RunningOrder
import Timetable.Proofs.Table

namespace Timetable

variable {R : Type}

/-- Of the gaps listed for a trip the last one counts, as in a table into which they are put one
after the other. -/
theorem gapOf_eq [Zero R] (gaps : List (Ident × R)) (trip : Ident) :
    gapOf gaps trip = ((Table.ofEntries gaps)[trip]?).getD 0 := by
  induction gaps using List.reverseRecOn with
  | nil =>
    rw [Table.ofEntries, List.foldl_nil, Std.ExtTreeMap.getElem?_empty]
    rfl
  | append_singleton gaps g ih =>
    rw [Table.ofEntries_concat, Table.getElem?_insert, gapOf, List.reverse_append,
      List.reverse_singleton, List.singleton_append, List.find?_cons]
    by_cases hg : g.1 = trip
    · rw [decide_eq_true hg, if_pos hg]
      rfl
    · rw [decide_eq_false hg, if_neg hg, ← ih]
      rfl

namespace PlacedTrip

variable [Add R]

@[simp] theorem length_blockStopTimes (p : PlacedTrip R) :
    p.blockStopTimes.length = p.trip.calls.length := by
  simp [blockStopTimes]

@[simp] theorem stopTime_blockStopTimes (p : PlacedTrip R) :
    p.blockStopTimes.map (·.stopTime) = p.trip.stopTimes := by
  rw [blockStopTimes, List.map_map]
  exact List.map_id _

@[simp] theorem blockSequence_blockStopTimes (p : PlacedTrip R) :
    p.blockStopTimes.map (·.blockSequence) =
      List.range' p.firstStopTime p.trip.calls.length := by
  rw [List.range'_eq_map_range, ← Trip.sequence_stopTimes, List.map_map, blockStopTimes,
    List.map_map]
  rfl

end PlacedTrip

namespace Configuration

def callCount (legs : List (Leg R)) : Nat := (legs.flatMap (·.trip.calls)).length

@[simp] theorem callCount_cons (leg : Leg R) (legs : List (Leg R)) :
    callCount (leg :: legs) = leg.trip.calls.length + callCount legs := by
  rw [callCount, List.flatMap_cons, List.length_append, callCount]

@[simp] theorem callCount_append (legs legs' : List (Leg R)) :
    callCount (legs ++ legs') = callCount legs + callCount legs' := by
  rw [callCount, List.flatMap_append, List.length_append, callCount, callCount]

variable [Zero R] [Add R]

/-- The distance at which the last of some trips ends when they are driven one after the other,
each after its gap. -/
def reach (distance : R) (legs : List (Leg R)) : R :=
  legs.foldl (fun d leg => d + leg.gap + leg.trip.totalDistance) distance

section Places

variable (sequence stopTime : Nat) (distance : R) (legs : List (Leg R))

theorem getElem?_place (i : Nat) :
    (place sequence stopTime distance legs)[i]? = (legs[i]?).map fun leg =>
      { leg with
        sequence := sequence + i
        firstStopTime := stopTime + callCount (legs.take i)
        start := reach distance (legs.take i) + leg.gap } := by
  induction legs generalizing sequence stopTime distance i with
  | nil => rfl
  | cons leg legs ih =>
    cases i with
    | zero => rfl
    | succ i =>
      rw [place, List.getElem?_cons_succ, ih, List.getElem?_cons_succ, List.take_succ_cons,
        callCount_cons, Nat.add_assoc, Nat.add_assoc, Nat.add_comm 1 i]
      rfl

theorem blockSequence_place :
    ((place sequence stopTime distance legs).flatMap (·.blockStopTimes)).map (·.blockSequence) =
      List.range' stopTime (callCount legs) := by
  induction legs generalizing sequence stopTime distance with
  | nil => rfl
  | cons leg legs ih =>
    rw [place, List.flatMap_cons, List.map_append, ih, PlacedTrip.blockSequence_blockStopTimes,
      callCount_cons]
    exact List.range'_append_1

end Places

variable {c : Configuration R} {trip : Ident} {i k : Nat} {p : PlacedTrip R}

theorem getElem?_trips (c : Configuration R) (i : Nat) :
    c.trips[i]? = (c.legs[i]?).map fun leg =>
      { leg with
        sequence := i
        firstStopTime := callCount (c.legs.take i)
        start := reach 0 (c.legs.take i) + leg.gap } := by
  rw [trips, getElem?_place]
  simp only [Nat.zero_add]

@[simp] theorem toLeg_trips (c : Configuration R) : c.trips.map (·.toLeg) = c.legs :=
  toLeg_place 0 0 0 c.legs

@[simp] theorem trip_trips (c : Configuration R) : c.trips.map (·.trip) = c.members := by
  rw [members, ← toLeg_trips, List.map_map]
  rfl

theorem place_of_getElem? (h : c.trips[i]? = some p) :
    p.sequence = i ∧ c.legs[i]? = some p.toLeg ∧ p.firstStopTime = callCount (c.legs.take i) ∧
      p.start = reach 0 (c.legs.take i) + p.gap := by
  rw [getElem?_trips, Option.map_eq_some_iff] at h
  obtain ⟨leg, hleg, rfl⟩ := h
  exact ⟨rfl, hleg, rfl, rfl⟩

theorem getElem?_sequence (h : p ∈ c.trips) : c.trips[p.sequence]? = some p := by
  obtain ⟨i, hi⟩ := List.mem_iff_getElem?.1 h
  rwa [(place_of_getElem? hi).1]

@[simp] theorem stopTime_stopTimes (c : Configuration R) :
    c.stopTimes.map (·.stopTime) = c.members.flatMap (·.stopTimes) := by
  rw [stopTimes, List.map_flatMap, ← trip_trips, List.flatMap_map]
  simp

theorem blockSequence_stopTimes (c : Configuration R) :
    c.stopTimes.map (·.blockSequence) = List.range c.stopTimes.length := by
  have hcount : c.stopTimes.map (·.blockSequence) = List.range' 0 (callCount c.legs) :=
    blockSequence_place 0 0 0 c.legs
  have hlength := congrArg List.length hcount
  rw [List.length_map, List.length_range'] at hlength
  rw [hcount, hlength, List.range_eq_range']

theorem exists_of_mem_stopTimes {s : BlockStopTime R} (h : s ∈ c.stopTimes) :
    ∃ p, c.trips[s.tripSequence]? = some p ∧ s.trip = p.trip.id ∧
      s.stopTime ∈ p.trip.stopTimes ∧ s.blockSequence = p.firstStopTime + s.stopTime.sequence ∧
      s.distance = p.start + s.stopTime.distance := by
  obtain ⟨p, hp, hs⟩ := List.mem_flatMap.1 h
  obtain ⟨stopTime, hmem, rfl⟩ := List.mem_map.1 hs
  exact ⟨p, getElem?_sequence hp, rfl, hmem, rfl, rfl⟩

theorem blockSequence_of_getElem? {s : BlockStopTime R} (h : c.stopTimes[k]? = some s) :
    s.blockSequence = k := by
  obtain ⟨hk, rfl⟩ := List.getElem?_eq_some_iff.1 h
  have hcount := congrArg (·[k]?) c.blockSequence_stopTimes
  simpa [hk] using hcount

theorem callCount_take (c : Configuration R) (i : Nat) :
    callCount (c.legs.take i) = ((c.trips.take i).flatMap (·.blockStopTimes)).length := by
  rw [← toLeg_trips, ← List.map_take, callCount, List.length_flatMap, List.length_flatMap,
    List.map_map]
  simp [Function.comp_def]

theorem length_stopTimes (c : Configuration R) : c.stopTimes.length = callCount c.legs := by
  have hall := c.callCount_take c.trips.length
  rw [List.take_length, ← toLeg_trips, ← List.map_take, List.take_length, toLeg_trips] at hall
  exact hall.symm

theorem take_stopTimes (c : Configuration R) (i : Nat) :
    c.stopTimes.take (callCount (c.legs.take i)) =
      (c.trips.take i).flatMap (·.blockStopTimes) := by
  have hsplit : c.stopTimes = (c.trips.take i).flatMap (·.blockStopTimes) ++
      (c.trips.drop i).flatMap (·.blockStopTimes) := by
    rw [← List.flatMap_append, List.take_append_drop, stopTimes]
  rw [hsplit, callCount_take, List.take_left]

/-- Between the place of a trip and that of the next one stand the stop times of the trip. -/
theorem slice_stopTimes (h : c.trips[i]? = some p) :
    (c.stopTimes.take (callCount (c.legs.take (i + 1)))).drop (callCount (c.legs.take i)) =
      p.blockStopTimes := by
  rw [take_stopTimes, List.take_add_one, h, Option.toList_some, List.flatMap_append,
    callCount_take, List.drop_left, List.flatMap_singleton]

/-- The numbers between which the block's stop times are read for the first trip with an id: its
own first one and the first one of the next trip. -/
def stopTimeBounds? (c : Configuration R) (trip : Ident) : Option (Nat × Nat) := do
  let i ← c.tripIndex? trip
  let p ← c.trips[i]?
  some (p.firstStopTime, match c.trips[i + 1]? with
    | some next => next.firstStopTime
    | none => c.stopTimes.length)

theorem stopTimesOf?_eq_slice (c : Configuration R) (trip : Ident) :
    c.stopTimesOf? trip =
      (c.stopTimeBounds? trip).map fun b => (c.stopTimes.take b.2).drop b.1 := by
  rw [stopTimesOf?, stopTimeBounds?]
  cases c.tripIndex? trip with
  | none => rfl
  | some i =>
    simp only [Option.bind_eq_bind, Option.bind_some]
    cases c.trips[i]? <;> rfl

theorem exists_of_tripIndex? (h : c.tripIndex? trip = some i) : ∃ p, c.trips[i]? = some p := by
  obtain ⟨hi, _⟩ := List.findIdx?_eq_some_iff_getElem.1 h
  rw [getElem?_trips, List.getElem?_eq_getElem hi]
  exact ⟨_, rfl⟩

theorem stopTimeBounds?_eq (c : Configuration R) (trip : Ident) :
    c.stopTimeBounds? trip = (c.tripIndex? trip).map fun i =>
      (callCount (c.legs.take i), callCount (c.legs.take (i + 1))) := by
  rw [stopTimeBounds?]
  cases hi : c.tripIndex? trip with
  | none => rfl
  | some i =>
    obtain ⟨p, hp⟩ := exists_of_tripIndex? hi
    obtain ⟨_, _, hfirst, _⟩ := place_of_getElem? hp
    have hlast : (match c.trips[i + 1]? with
        | some next => next.firstStopTime
        | none => c.stopTimes.length) = callCount (c.legs.take (i + 1)) := by
      rw [getElem?_trips]
      cases hnext : c.legs[i + 1]? with
      | some leg => rfl
      | none =>
        rw [List.take_of_length_le (List.getElem?_eq_none_iff.1 hnext)]
        exact c.length_stopTimes
    simp [hp, hfirst, hlast]

theorem stopTimeBounds?_le {first last : Nat} (h : c.stopTimeBounds? trip = some (first, last)) :
    first ≤ last ∧ last ≤ c.stopTimes.length := by
  rw [stopTimeBounds?_eq, Option.map_eq_some_iff] at h
  obtain ⟨i, _, hi⟩ := h
  cases hi
  constructor
  · rw [List.take_add_one, callCount_append]
    exact Nat.le_add_right _ _
  · rw [length_stopTimes, ← congrArg callCount (List.take_append_drop (i + 1) c.legs),
      callCount_append]
    exact Nat.le_add_right _ _

theorem stopTimesOf?_eq (c : Configuration R) (trip : Ident) :
    c.stopTimesOf? trip =
      (c.trips.find? fun p => p.trip.id = trip).map (·.blockStopTimes) := by
  have hindex : c.trips.findIdx? (fun p => p.trip.id = trip) = c.tripIndex? trip := by
    rw [tripIndex?, ← toLeg_trips, List.findIdx?_map]
    rfl
  rw [stopTimesOf?_eq_slice, stopTimeBounds?_eq, List.find?_eq_bind_findIdx?_getElem?, hindex]
  cases hi : c.tripIndex? trip with
  | none => rfl
  | some i =>
    obtain ⟨p, hp⟩ := exists_of_tripIndex? hi
    rw [Option.map_some, Option.map_some, slice_stopTimes hp, Option.bind_some, hp, Option.map_some]

theorem stopTimesOf?_eq_none : c.stopTimesOf? trip = none ↔ ∀ t ∈ c.members, t.id ≠ trip := by
  rw [stopTimesOf?_eq, Option.map_eq_none_iff, List.find?_eq_none, ← trip_trips]
  simp only [List.mem_map, decide_eq_true_eq, forall_exists_index, and_imp,
    forall_apply_eq_imp_iff₂, ne_eq]

/-- Whatever trips a configuration is built of and however they are listed, it has them in the
order in which they are due and then of their ids, numbered from zero. The stop times before a trip
are as many as the calls of the trips before it, and it starts where their gaps and lengths and its
own gap lead, taken in their order. The block's stop times are those of its trips, one trip after
the other, numbered from zero, each with the place and the id of its trip and its distance from where
the trip starts. So what is read for an id lies within them: nothing if no trip has the id, and
otherwise the stop times of the first trip that has it. -/
theorem build?_placed (block : Ident) (services : ServiceSet) (gaps : List (Ident × R))
    {ts : List (Trip R)} (h : ts ≠ []) :
    ∃ c, build? block services gaps ts = some c ∧ c.block = block ∧ c.services = services ∧
      c.members.Perm ts ∧
      c.members.Pairwise (fun s t => s.due < t.due ∨ s.due = t.due ∧ s.id.isAtMost t.id) ∧
      c.trips.map (·.toLeg) = c.legs ∧
      (∀ i (p : PlacedTrip R), c.trips[i]? = some p →
        p.gap = ((Table.ofEntries gaps)[p.trip.id]?).getD 0 ∧
        p.sequence = i ∧ p.firstStopTime = callCount (c.legs.take i) ∧
        p.start = reach 0 (c.legs.take i) + p.gap) ∧
      c.stopTimes.map (·.stopTime) = c.members.flatMap (·.stopTimes) ∧
      (∀ k (s : BlockStopTime R), c.stopTimes[k]? = some s → s.blockSequence = k ∧
        ∃ p, c.trips[s.tripSequence]? = some p ∧ s.trip = p.trip.id ∧
          s.stopTime ∈ p.trip.stopTimes ∧ k = p.firstStopTime + s.stopTime.sequence ∧
          s.distance = p.start + s.stopTime.distance) ∧
      ∀ trip,
        c.stopTimesOf? trip =
          (c.stopTimeBounds? trip).map (fun b => (c.stopTimes.take b.2).drop b.1) ∧
        (∀ first last, c.stopTimeBounds? trip = some (first, last) →
          first ≤ last ∧ last ≤ c.stopTimes.length) ∧
        (c.stopTimesOf? trip = none ↔ ∀ t ∈ ts, t.id ≠ trip) ∧
        c.stopTimesOf? trip =
          (c.trips.find? fun p => p.trip.id = trip).map (·.blockStopTimes) := by
  obtain ⟨c, hc⟩ := Option.ne_none_iff_exists'.1 (mt build?_eq_none.1 h)
  have hperm := members_perm hc
  refine ⟨c, hc, block_of_build? hc, services_of_build? hc, hperm, ?_, c.toLeg_trips, ?_,
    c.stopTime_stopTimes, ?_, ?_⟩
  · exact (pairwise_members hc).imp Trip.runsBefore_iff.1
  · intro i p hp
    obtain ⟨hsequence, hleg, hfirst, hstart⟩ := place_of_getElem? hp
    obtain ⟨_, rfl⟩ := build?_eq_some.1 hc
    obtain ⟨t, _, ht⟩ := List.mem_map.1 (List.mem_of_getElem? hleg)
    have hgap : p.gap = gapOf gaps p.trip.id := by rw [← ht]
    exact ⟨hgap.trans (gapOf_eq gaps p.trip.id), hsequence, hfirst, hstart⟩
  · intro k s hs
    have hk := blockSequence_of_getElem? hs
    obtain ⟨p, hp, htrip, hmem, hsequence, hdistance⟩ :=
      exists_of_mem_stopTimes (List.mem_of_getElem? hs)
    exact ⟨hk, p, hp, htrip, hmem, hk.symm.trans hsequence, hdistance⟩
  · intro trip
    refine ⟨c.stopTimesOf?_eq_slice trip, fun _ _ => stopTimeBounds?_le, ?_,
      c.stopTimesOf?_eq trip⟩
    rw [stopTimesOf?_eq_none]
    simp only [hperm.mem_iff]

/-- A trip listed twice, with a later one before it and one without calls between. -/
def repeatedTrip : List (Trip Float) :=
  let call (stop : String) (time : Int) (distance : Float) : Call Float :=
    { stop := ⟨"A", stop⟩, published := none, arrival := time, departure := time, distance }
  let trip (id : String) (calls : List (Call Float)) : Trip Float :=
    .ofCalls ⟨"A", id⟩ ⟨"A", "R"⟩ (some ⟨"A", "B"⟩) ⟨"A", "S"⟩ calls
  [trip "T2" [call "X" 60 0], trip "T1" [call "X" 30 0, call "Y" 45 80], trip "T3" [],
    trip "T1" [call "Y" 30 0]]

theorem build?_placed_repeatedTrip :
    let ts := repeatedTrip
    let gaps : List (Ident × Float) := [(⟨"A", "T1"⟩, 40), (⟨"A", "T9"⟩, 70)]
    ts ≠ [] ∧ ∃ c, build? ⟨"A", "B"⟩ (.single ⟨"A", "S"⟩) gaps ts = some c ∧
      c.members.Perm ts ∧
      c.members.Pairwise (fun s t => s.due < t.due ∨ s.due = t.due ∧ s.id.isAtMost t.id) ∧
      c.stopTimes.map (·.stopTime) = c.members.flatMap (·.stopTimes) ∧
      c.stopTimesOf? ⟨"A", "T9"⟩ = none ∧ c.stopTimesOf? ⟨"A", "T1"⟩ ≠ none := by
  intro ts gaps
  have hts : ts ≠ [] := List.cons_ne_nil _ _
  obtain ⟨c, hc, _, _, hperm, hordered, _, _, hstops, _, hread⟩ :=
    build?_placed ⟨"A", "B"⟩ (.single ⟨"A", "S"⟩) gaps hts
  have hstranger : ∀ t ∈ ts, t.id ≠ ⟨"A", "T9"⟩ := by decide
  have hmember : ¬∀ t ∈ ts, t.id ≠ ⟨"A", "T1"⟩ := by decide
  exact ⟨hts, c, hc, hperm, hordered, hstops, (hread _).2.2.1.2 hstranger,
    fun hnone => hmember ((hread _).2.2.1.1 hnone)⟩

end Configuration

end Timetable

import Timetable.Proofs.Geo.Box
import Timetable.Proofs.Schedule.Refusal
import Timetable.Proofs.Schedule.Stops
import Timetable.Schedule.Chart

namespace Timetable

open Schedule Sites

variable {R : Type}

namespace Charted

variable {g : Schedule R} {sites : List (Site R)}

theorem recharted_ofSchedule {r : Schedule R × Reply R} (hguard : Guarded g r) :
    (ofSchedule g).recharted r = (ofSchedule r.1, r.2) := by
  rw [recharted]
  split
  · next hfail => rw [ofSchedule, ofSchedule, hguard hfail]
  · rfl

/-- Moving up the later stops one by one moves up each of them once. -/
theorem removeStop_ofSchedule (hg : g.stops.KeyedBy Stop.id) (id : Ident) :
    (ofSchedule g).removeStop id =
      (ofSchedule (g.removeStop id).1, .done (g.removeStop id).2) := by
  rw [removeStop, Schedule.removeStop, ofSchedule]
  cases g.stops[id]? with
  | none => rfl
  | some removed =>
    have hup := (hg.erase (k := id)).foldl_insert
      (f := fun s => { s with index := s.index - 1 }) (fun _ => rfl)
      fun s => removed.index < s.index
    simp only [decide_eq_true_eq] at hup
    dsimp only
    rw [hup]

variable [Geometry R]

theorem apply_ofSchedule (hg : Registers g sites) (e : Edit R) :
    (ofSchedule g).apply e = (ofSchedule (g.apply e).1, (g.apply e).2) := by
  rw [apply.eq_def]
  split
  · exact removeStop_ofSchedule hg.keyed _
  · exact recharted_ofSchedule (guarded_addStop g _)
  · exact recharted_ofSchedule (guarded_addStops g _)
  · exact recharted_ofSchedule (guarded_moveStop g _ _)
  · next hremove hadd hadds hmove =>
    have hstops := stops_apply g e hadd hadds hremove hmove
    have hall : (g.apply e).1.allStops = g.allStops := by rw [allStops, hstops, allStops]
    rw [ofSchedule, ofSchedule, hall]

theorem run_ofSchedule (hg : Registers g sites) (edits : List (Edit R)) :
    (ofSchedule g).run edits = ofSchedule (g.run edits) := by
  induction edits generalizing g sites with
  | nil => rfl
  | cons e edits ih =>
    have hstep := congrArg Prod.fst (apply_ofSchedule hg e)
    exact (congrArg (fun c : Charted R => c.run edits) hstep).trans (ih (hg.apply e))

theorem run_empty (edits : List (Edit R)) :
    (empty : Charted R).run edits = ofSchedule (Schedule.empty.run edits) := by
  have hempty : (empty : Charted R) = ofSchedule .empty := by
    rw [ofSchedule, Registers.empty.allStops]
    rfl
  rw [hempty]
  exact run_ofSchedule .empty edits

theorem stopsIn_perm (g : Schedule R) {locate : List (Stop R) → Box R → List (Stop R)}
    {box : Box R} (hlocate : ∀ stops,
      (locate stops box).Perm (stops.filter fun s => box.contains s.location)) :
    ((ofSchedule g).stopsIn locate box).Perm (g.stopsIn box) := by
  have hall : g.allStops.Perm g.stops.values := List.mergeSort_perm _ _
  exact (hlocate g.allStops).trans (hall.filter _)

/-- Whatever was edited, the stops are listed in the order of their registration, numbered from zero
without holes, and each at its place when one is moved. With a look-up that finds exactly the stops
of a list in a box, those that the chart has between two corners in any order are found, each once
and as it is stored. -/
theorem stops_listed_and_found [Scalar.Ordered R] (locate : List (Stop R) → Box R → List (Stop R))
    (hlocate : ∀ stops (a b : Location R), (locate stops (.ofCorners a b)).Perm
      (stops.filter fun s => (Box.ofCorners a b).contains s.location))
    (edits : List (Edit R)) :
    let c := (empty : Charted R).run edits
    let g := Schedule.empty.run edits
    c.schedule = g ∧
    g.allStops = numbered (registered edits) 0 ∧
    g.allStops.map (·.index) = List.range g.allStops.length ∧
    (∀ s, s ∈ g.allStops ↔ g.stops[s.id]? = some s) ∧
    (∀ id location,
      (g.moveStop id location).1.allStops = g.allStops.map (Stop.movedTo id location)) ∧
    ∀ a b, let found := c.stopsIn locate (.ofCorners a b)
      found.Perm (g.stopsIn (.ofCorners a b)) ∧ (found.map (·.id)).Nodup ∧
      ∀ s, s ∈ found ↔ g.stops[s.id]? = some s ∧
        Scalar.Between a.lat b.lat s.location.lat ∧ Scalar.Between a.lon b.lon s.location.lon := by
  intro c g
  have hg : Registers g (registered edits) := Registers.empty.run edits
  have hc : c = ofSchedule g := run_empty edits
  refine ⟨congrArg schedule hc, hg.allStops, ?_, fun s => hg.mem_allStops, fun id location => ?_,
    fun a b => ?_⟩
  · simp [hg.allStops, List.range_eq_range']
  · rw [(hg.moveStop id location).allStops, numbered_moved, hg.allStops]
  · have hperm : (c.stopsIn locate (.ofCorners a b)).Perm (g.stopsIn (.ofCorners a b)) :=
      hc ▸ stopsIn_perm g (hlocate · a b)
    refine ⟨hperm, ?_, fun s => ?_⟩
    · rw [(hperm.map (·.id)).nodup_iff]
      exact hg.keyed.nodup_values.sublist (List.filter_sublist.map _)
    · rw [hperm.mem_iff, Schedule.stopsIn, List.mem_filter, hg.keyed.mem_values,
        Box.contains_ofCorners]

/-- One stop is registered, three more of which one is new twice, one is moved, and the first is
removed and registered again. -/
def resurveyedDay : List (Edit Float) :=
  let stop (id : String) (lat : Float) : NewStop Float := ⟨⟨"A", id⟩, ⟨lat, lat⟩, none⟩
  [.addStop (stop "X" 1), .addStops [stop "Y" 2, stop "X" 9, stop "Z" 3, stop "Z" 4],
    .moveStop ⟨"A", "Y"⟩ ⟨5, 5⟩, .removeStop ⟨"A", "X"⟩, .addStop (stop "X" 0)]

theorem stops_listed_and_found_resurveyedDay :
    let locate (stops : List (Stop Float)) (box : Box Float) :=
      (stops.filter fun s => box.contains s.location).reverse
    let c := (empty : Charted Float).run resurveyedDay
    let g := Schedule.empty.run resurveyedDay
    (∀ stops (a b : Location Float), (locate stops (.ofCorners a b)).Perm
      (stops.filter fun s => (Box.ofCorners a b).contains s.location)) ∧
    (registered resurveyedDay).map (·.id.name) = ["Y", "Z", "X"] ∧
    g.allStops = numbered (registered resurveyedDay) 0 ∧
    ∀ a b, let found := c.stopsIn locate (.ofCorners a b)
      found.Perm (g.stopsIn (.ofCorners a b)) ∧ (found.map (·.id)).Nodup ∧
      ∀ s, s ∈ found ↔ g.stops[s.id]? = some s ∧
        Scalar.Between a.lat b.lat s.location.lat ∧ Scalar.Between a.lon b.lon s.location.lon := by
  intro locate c g
  have hlocate : ∀ stops (a b : Location Float), (locate stops (.ofCorners a b)).Perm
      (stops.filter fun s => (Box.ofCorners a b).contains s.location) :=
    fun stops a b => List.reverse_perm _
  obtain ⟨_, hlisted, _, _, _, hfound⟩ := stops_listed_and_found locate hlocate resurveyedDay
  exact ⟨hlocate, by decide +kernel, hlisted, hfound⟩

end Charted

end Timetable

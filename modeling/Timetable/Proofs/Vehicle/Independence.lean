import Timetable.Proofs.Schedule.Blocks
import Timetable.Proofs.Vehicle.Known

namespace Timetable.Tracker

variable {R : Type}

def run (v : View R) (t : Tracker) (events : List Event) : Tracker := events.foldl (step v) t

section Run

variable (v : View R) (t : Tracker)

@[simp] theorem capacity_run (events : List Event) :
    (t.run v events).history.capacity = t.history.capacity := by
  induction events generalizing t with
  | nil => rfl
  | cons event events ih => exact (ih (t.step v event)).trans (capacity_step v t event)

theorem known_run (events : List Event) (vehicle : Ident) :
    (t.run v events).known vehicle =
      (events.flatMap (·.signals vehicle)).foldl (Known.receive v t.history.capacity)
        (t.known vehicle) := by
  induction events generalizing t with
  | nil => rfl
  | cons event events ih =>
    rw [List.flatMap_cons, List.foldl_append, ← known_step, ← capacity_step v t event]
    exact ih (t.step v event)

theorem run_reports (rs : List VehicleReport) :
    t.run v (rs.map .report) = rs.foldl (fun t r => (t.handle v r).1) t := by
  rw [run, List.foldl_map]
  rfl

end Run

/-- A tracker is what it knows about the vehicles. -/
theorem eq_of_known {t u : Tracker} (known : ∀ vehicle, t.known vehicle = u.known vehicle)
    (capacity : t.history.capacity = u.history.capacity) : t = u := by
  have hreports : t.reports = u.reports :=
    Std.ExtTreeMap.ext_getElem? fun vehicle => congrArg Known.report (known vehicle)
  have hlocations : t.locations = u.locations :=
    Std.ExtTreeMap.ext_getElem? fun vehicle => congrArg Known.location (known vehicle)
  have htrails : t.history.trails = u.history.trails :=
    Std.ExtTreeMap.ext_getElem? fun vehicle => congrArg Known.trail (known vehicle)
  have hoccupancies : t.occupancies = u.occupancies :=
    Std.ExtTreeMap.ext_getElem? fun vehicle => congrArg Known.occupancy (known vehicle)
  obtain ⟨reports, locations, ⟨capacity, trails⟩, occupancies⟩ := t
  subst hreports hlocations htrails hoccupancies capacity
  rfl

section Ineffective

variable {v : View R} {r : VehicleReport}

theorem handle_of_untimed (h : r.time = 0) (t : Tracker) :
    t.handle v r = (t, .error .missingTime) := by
  rw [handle, if_pos h]

theorem handle_of_timed (h : r.time ≠ 0) (t : Tracker) : (t.handle v r).2 = .ok () := by
  rw [handle, if_neg h]

theorem handle_of_unnamed (h : r.vehicle = none) (t : Tracker) : (t.handle v r).1 = t := by
  rw [handle_fst]
  split
  · rfl
  · have hassigned : (withBlock v r).vehicle = none := (vehicle_withBlock v r).trans h
    rw [assign, hassigned, store, h]

end Ineffective

section Batch

variable (v : View R) (t : Tracker) (rs : List VehicleReport)

theorem fst_handleAll : (t.handleAll v rs).1 =
    t.run v ((rs.filter fun r => r.time ≠ 0).map .report) := by
  rw [handleAll_fst, run_reports]
  induction rs generalizing t with
  | nil => rfl
  | cons r rs ih =>
    rw [List.foldl_cons, ih, List.filter_cons]
    by_cases hr : r.time = 0
    · rw [handle_of_untimed hr, if_neg (by simpa using hr)]
    · rw [if_pos (by simpa using hr), List.foldl_cons]

theorem snd_handleAll : (t.handleAll v rs).2 =
    if ∃ r ∈ rs, r.time = 0 then .error .missingTime else .ok () := by
  induction rs generalizing t with
  | nil =>
    rw [if_neg fun h => List.not_mem_nil h.choose_spec.1]
    rfl
  | cons r rs ih =>
    by_cases hr : r.time = 0
    · rw [handleAll, handle_of_untimed hr, if_pos ⟨r, List.mem_cons_self, hr⟩]
    · have hrest : (∃ s ∈ r :: rs, s.time = 0) ↔ ∃ s ∈ rs, s.time = 0 := by
        rw [List.exists_mem_cons_iff]
        exact or_iff_right hr
      simp only [handleAll, handle_of_timed hr, ih, hrest]

end Batch

/-- Runs that say the same about every vehicle, however the vehicles take turns in them and
whatever is reported in one batch, lead to the same tracker, and so to the same status, history,
location and occupancy of every vehicle and to the same vehicles on every block. A report without a
time or without a vehicle changes nothing. A batch is refused exactly if one of its reports has no
time, and the others are handled one after the other as if they had come alone. -/
theorem vehicles_independent (v : View R) (t : Tracker) {events events' : List Event}
    (same : ∀ vehicle,
      events.flatMap (·.signals vehicle) = events'.flatMap (·.signals vehicle)) :
    t.run v events = t.run v events' ∧
    (∀ (u : Tracker) (r : VehicleReport), r.time = 0 ∨ r.vehicle = none →
      (u.handle v r).1 = u) ∧
    ∀ (u : Tracker) (rs : List VehicleReport),
      u.handleAll v rs = (u.run v ((rs.filter fun r => r.time ≠ 0).map .report),
        if ∃ r ∈ rs, r.time = 0 then .error .missingTime else .ok ()) := by
  refine ⟨eq_of_known (fun vehicle => ?_) ?_, fun u r hr => ?_, fun u rs =>
    Prod.ext (fst_handleAll v u rs) (snd_handleAll v u rs)⟩
  · rw [known_run, known_run, same]
  · simp
  · rcases hr with hr | hr
    · rw [handle_of_untimed hr]
    · exact handle_of_unnamed hr u

/-- Two buses that take turns: in batches, one of which has a report without a time, and each on its
own. -/
def turns : List Event × List Event :=
  let assigned (bus : String) : VehicleReport :=
    { vehicle := some ⟨"A", bus⟩, trip := some ⟨"feed", "T1"⟩, serviceDate := some default, time := 1 }
  let direct (bus : String) : VehicleReport :=
    { vehicle := some ⟨"A", bus⟩, block := some ⟨"A", "B"⟩, serviceDate := some default, time := 2 }
  let untimed (bus : String) : VehicleReport := { vehicle := some ⟨"A", bus⟩ }
  let crowded (bus : String) : OccupancyReport :=
    { vehicle := ⟨"A", bus⟩, route := none, direction := none, status := .full, timestamp := 1 }
  ([.reports [assigned "1", untimed "2", assigned "2"], .occupancy (crowded "1"),
    .reset ⟨"A", "2"⟩, .reports [direct "2", direct "1"]],
   [.report (untimed "2"), .report (assigned "2"), .reset ⟨"A", "2"⟩, .report (assigned "1"),
    .report (direct "2"), .occupancy (crowded "1"), .report (direct "1")])

theorem vehicles_independent_turns :
    let v := (Schedule.empty.run Schedule.shortenedDay).view
    let t := ofCapacity 2
    (∀ vehicle,
      turns.1.flatMap (·.signals vehicle) = turns.2.flatMap (·.signals vehicle)) ∧
    t.run v turns.1 = t.run v turns.2 ∧
    ((t.run v turns.1).history.reports ⟨"A", "1"⟩).length = 2 ∧
    ((t.run v turns.1).history.reports ⟨"A", "2"⟩).length = 1 ∧
    (t.run v turns.1).vehiclesOn ⟨"A", "B"⟩ = [⟨"A", "1"⟩, ⟨"A", "2"⟩] := by
  intro v t
  have hsame : ∀ vehicle,
      turns.1.flatMap (·.signals vehicle) = turns.2.flatMap (·.signals vehicle) := by
    intro vehicle
    by_cases h1 : (⟨"A", "1"⟩ : Ident) = vehicle
    · subst h1
      rfl
    · by_cases h2 : (⟨"A", "2"⟩ : Ident) = vehicle
      · subst h2
        rfl
      · simp [turns, Event.signals, h1, h2]
  exact ⟨hsame, (vehicles_independent v t hsame).1, by decide +kernel, by decide +kernel,
    by decide +kernel⟩

end Timetable.Tracker

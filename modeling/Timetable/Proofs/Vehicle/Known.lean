import Timetable.Proofs.Table
import Timetable.Vehicle.Tracker

namespace Timetable

variable {R : Type}

/-- The entries of one vehicle in the tables of a tracker. -/
structure Known where
  report : Option VehicleReport
  location : Option BlockLocation
  trail : Option Trail
  occupancy : Option OccupancyReport

/-- The report that counts once another has come in. -/
def OccupancyReport.over (r : OccupancyReport) : Option OccupancyReport → OccupancyReport
  | some current => if current.timestamp ≤ r.timestamp then r else current
  | none => r

@[simp] theorem Occupancies.getElem?_add (t : Occupancies) (r : OccupancyReport) (vehicle : Ident) :
    (t.add r)[vehicle]? =
      if r.vehicle = vehicle then some (r.over t[vehicle]?) else t[vehicle]? := by
  rw [add]
  cases hc : t[r.vehicle]? with
  | none =>
    rw [Table.getElem?_insert]
    split
    · next he => rw [← he, hc, OccupancyReport.over]
    · rfl
  | some current =>
    by_cases hlater : current.timestamp ≤ r.timestamp
    · simp only [hlater, if_true]
      rw [Table.getElem?_insert]
      split
      · next he => rw [← he, hc, OccupancyReport.over, if_pos hlater]
      · rfl
    · simp only [hlater, if_false]
      split
      · next he => rw [← he, hc, OccupancyReport.over, if_neg hlater]
      · rfl

inductive Signal where
  | report (r : VehicleReport)
  | reset
  | occupancy (r : OccupancyReport)
  | resetOccupancy

namespace Known

def none : Known := ⟨.none, .none, .none, .none⟩

def reportsOn (k : Known) (block : Ident) : List VehicleReport :=
  match k.trail with
  | some t => if t.block = block then t.reports else []
  | .none => []

def assign (capacity : Nat) (k : Known) (r : VehicleReport) : Known :=
  match r.block, r.serviceDate with
  | some block, some serviceDate =>
    { k with
      location := some { block, serviceDate, report := r }
      trail := some { block, reports := History.addBounded capacity (k.reportsOn block) r } }
  | _, _ => { k with location := .none, trail := .none }

/-- What is known after a signal, with trips looked up in a view and so many reports kept. -/
def receive (v : View R) (capacity : Nat) (k : Known) : Signal → Known
  | .report r =>
    if r.time = 0 then k else assign capacity { k with report := some r } (Tracker.withBlock v r)
  | .reset => { k with report := .none, location := .none, trail := .none }
  | .occupancy r => { k with occupancy := some (r.over k.occupancy) }
  | .resetOccupancy => { k with occupancy := .none }

end Known

namespace Tracker

def known (t : Tracker) (vehicle : Ident) : Known :=
  { report := t.reports[vehicle]?
    location := t.locations[vehicle]?
    trail := t.history.trails[vehicle]?
    occupancy := t.occupancies[vehicle]? }

@[simp] theorem known_ofCapacity (capacity : Nat) (vehicle : Ident) :
    (ofCapacity capacity).known vehicle = .none := by
  simp only [known, ofCapacity, History.ofCapacity, Std.ExtTreeMap.getElem?_empty]
  rfl

def Event.signals (vehicle : Ident) : Event → List Signal
  | .report r => if r.vehicle = some vehicle then [.report r] else []
  | .reports rs => (rs.filter fun r => r.vehicle = some vehicle).map .report
  | .reset other => if other = vehicle then [.reset] else []
  | .occupancy r => if r.vehicle = vehicle then [.occupancy r] else []
  | .resetOccupancy other => if other = vehicle then [.resetOccupancy] else []

section Parts

variable (v : View R) (t : Tracker) (r : VehicleReport) (vehicle other : Ident)

@[simp] theorem vehicle_withBlock : (withBlock v r).vehicle = r.vehicle := by
  rw [withBlock]
  split <;> rfl

theorem handle_fst : (t.handle v r).1 =
    if r.time = 0 then t else (t.store r).assign (withBlock v r) := by
  rw [handle]
  split <;> rfl

theorem handleAll_fst (rs : List VehicleReport) :
    (t.handleAll v rs).1 = rs.foldl (fun t r => (t.handle v r).1) t := by
  induction rs generalizing t with
  | nil => rfl
  | cons r rs ih =>
    rw [List.foldl_cons, ← ih, handleAll]
    cases h : (t.handle v r).2 <;> simp only [h]

@[simp] theorem known_detach : (t.detach other).known vehicle =
    if other = vehicle then { t.known vehicle with location := none, trail := none }
    else t.known vehicle := by
  simp only [known, detach, History.clear, Table.getElem?_erase]
  split <;> rfl

@[simp] theorem known_store : (t.store r).known vehicle =
    if r.vehicle = some vehicle then { t.known vehicle with report := some r }
    else t.known vehicle := by
  rw [store]
  cases r.vehicle with
  | none => rfl
  | some other =>
    simp only [known, Table.getElem?_insert, Option.some.injEq]
    split <;> rfl

theorem known_locate {r : VehicleReport} (hr : r.vehicle = some other) (block : Ident)
    (serviceDate : Date) : (t.locate other block serviceDate r).known vehicle =
      if other = vehicle then
        let reports := History.addBounded t.history.capacity ((t.known vehicle).reportsOn block) r
        { t.known vehicle with
          location := some { block, serviceDate, report := r }, trail := some { block, reports } }
      else t.known vehicle := by
  simp only [known, locate, History.add, hr, Table.getElem?_insert]
  split
  · next he =>
    subst he
    rfl
  · rfl

@[simp] theorem known_assign : (t.assign r).known vehicle =
    if r.vehicle = some vehicle then (t.known vehicle).assign t.history.capacity r
    else t.known vehicle := by
  rw [assign, Known.assign]
  cases hr : r.vehicle with
  | none => rfl
  | some other =>
    simp only [Option.some.injEq]
    cases r.block with
    | none => exact known_detach t vehicle other
    | some block =>
      cases r.serviceDate with
      | none => exact known_detach t vehicle other
      | some serviceDate => exact known_locate t vehicle other hr block serviceDate

@[simp] theorem capacity_assign : (t.assign r).history.capacity = t.history.capacity := by
  rw [assign]
  cases hr : r.vehicle with
  | none => rfl
  | some other =>
    cases r.block with
    | none => rfl
    | some block =>
      cases r.serviceDate with
      | none => rfl
      | some serviceDate => simp only [locate, History.add, hr]

@[simp] theorem capacity_store : (t.store r).history.capacity = t.history.capacity := by
  rw [store]
  cases r.vehicle <;> rfl

@[simp] theorem capacity_handle : (t.handle v r).1.history.capacity = t.history.capacity := by
  rw [handle_fst]
  split
  · rfl
  · simp

@[simp] theorem known_handle : (t.handle v r).1.known vehicle =
    if r.vehicle = some vehicle then (t.known vehicle).receive v t.history.capacity (.report r)
    else t.known vehicle := by
  rw [handle_fst, Known.receive]
  split
  · rw [ite_self]
  · rw [known_assign, vehicle_withBlock, known_store, capacity_store]
    split <;> rfl

end Parts

@[simp] theorem capacity_step (v : View R) (t : Tracker) (event : Event) :
    (t.step v event).history.capacity = t.history.capacity := by
  cases event with
  | report r => exact capacity_handle v t r
  | reports rs =>
    rw [step, handleAll_fst]
    induction rs generalizing t with
    | nil => rfl
    | cons r rs ih => simp [ih]
  | reset _ => rfl
  | occupancy _ => rfl
  | resetOccupancy _ => rfl

@[simp] theorem known_handleOccupancy (t : Tracker) (r : OccupancyReport) (vehicle : Ident) :
    (t.handleOccupancy r).known vehicle =
      if r.vehicle = vehicle then
        { t.known vehicle with occupancy := some (r.over (t.known vehicle).occupancy) }
      else t.known vehicle := by
  simp only [known, handleOccupancy, Occupancies.getElem?_add]
  split <;> rfl

@[simp] theorem known_reset (t : Tracker) (vehicle other : Ident) : (t.reset other).known vehicle =
    if other = vehicle then
      { t.known vehicle with report := none, location := none, trail := none }
    else t.known vehicle := by
  rw [reset, known_detach]
  simp only [known, Table.getElem?_erase]
  split <;> rfl

@[simp] theorem known_resetOccupancy (t : Tracker) (vehicle other : Ident) :
    (t.resetOccupancy other).known vehicle =
      if other = vehicle then { t.known vehicle with occupancy := none }
      else t.known vehicle := by
  simp only [known, resetOccupancy, Occupancies.clear, Table.getElem?_erase]
  split <;> rfl

/-- Of an event a vehicle is concerned by what the event says about it, and by nothing else. -/
theorem known_step (v : View R) (t : Tracker) (event : Event) (vehicle : Ident) :
    (t.step v event).known vehicle =
      (event.signals vehicle).foldl (Known.receive v t.history.capacity) (t.known vehicle) := by
  cases event with
  | report r =>
    rw [step, known_handle, Event.signals]
    split <;> rfl
  | reports rs =>
    rw [step, handleAll_fst, Event.signals]
    induction rs generalizing t with
    | nil => rfl
    | cons r rs ih =>
      rw [List.foldl_cons, ih, capacity_handle, known_handle]
      by_cases hr : r.vehicle = some vehicle
      · rw [if_pos hr, List.filter_cons, if_pos (decide_eq_true hr)]
        rfl
      · rw [if_neg hr, List.filter_cons, if_neg (by simpa using hr)]
  | reset other =>
    rw [step, known_reset, Event.signals]
    split <;> rfl
  | occupancy r =>
    rw [step, known_handleOccupancy, Event.signals]
    split <;> rfl
  | resetOccupancy other =>
    rw [step, known_resetOccupancy, Event.signals]
    split <;> rfl

end Tracker

end Timetable

import Timetable.Proofs.Schedule.Filing
import Timetable.Proofs.Schedule.Refusal
import Timetable.Proofs.Trip.Edit

namespace Timetable

variable {R : Type}

/-- An edit that takes the only call of a stored trip, or leaves the trip none. -/
def Edit.Empties (g : Schedule R) (trip : Ident) (e : Edit R) : Prop :=
  e = .replaceStopTimes trip [] ∨
    ∃ t c, g.trips[trip]? = some t ∧ t.calls = [c] ∧ e = .deleteStopTime trip c.stop

namespace Schedule

/-- Schedules the later of which has a trip without calls only if the earlier one had. -/
def KeepsCalls (id : Ident) (g h : Schedule R) : Prop :=
  ∀ t, h.trips[id]? = some t → t.calls = [] → ∃ s, g.trips[id]? = some s ∧ s.calls = []

namespace KeepsCalls

variable {f g h : Schedule R} {id trip : Ident} {t : Trip R}

theorem of_trips (trips : h.trips = g.trips) : KeepsCalls id g h := by
  intro t ht hcalls
  rw [trips] at ht
  exact ⟨t, ht, hcalls⟩

theorem trans (hfg : KeepsCalls id f g) (hgh : KeepsCalls id g h) : KeepsCalls id f h := by
  intro t ht hcalls
  obtain ⟨s, hs, hcalls⟩ := hgh t ht hcalls
  exact hfg s hs hcalls

theorem insert (trips : h.trips = g.trips.insert trip t)
    (calls : trip = id → t.calls = [] → ∃ s, g.trips[id]? = some s ∧ s.calls = []) :
    KeepsCalls id g h := by
  intro u hu hcalls
  rw [trips, Table.getElem?_insert] at hu
  split at hu
  · next he =>
    cases hu
    exact calls he hcalls
  · exact ⟨u, hu, hcalls⟩

theorem erase (trips : h.trips = g.trips.erase trip) : KeepsCalls id g h := by
  intro u hu hcalls
  rw [trips, Table.getElem?_erase] at hu
  split at hu
  · cases hu
  · exact ⟨u, hu, hcalls⟩

end KeepsCalls

section Aside

variable (g : Schedule R)

@[simp] theorem trips_addAgency (id timezone : String) :
    (g.addAgency id timezone).1.trips = g.trips := by
  rw [addAgency]
  split <;> rfl

@[simp] theorem trips_addStop (s : NewStop R) : (g.addStop s).1.trips = g.trips := by
  rw [addStop]
  split
  · rfl
  · cases s.name <;> rfl

@[simp] theorem trips_addStops (ss : List (NewStop R)) : (g.addStops ss).1.trips = g.trips := by
  induction ss generalizing g with
  | nil => rfl
  | cons s ss ih => exact (ih _).trans (trips_addStop g s)

@[simp] theorem trips_removeStop (id : Ident) : (g.removeStop id).1.trips = g.trips := by
  rw [removeStop]
  split <;> rfl

@[simp] theorem trips_moveStop (id : Ident) (location : Location R) :
    (g.moveStop id location).1.trips = g.trips := by
  rw [moveStop]
  split <;> rfl

@[simp] theorem trips_addRoute (route collection : Ident) :
    (g.addRoute route collection).1.trips = g.trips := by
  rw [addRoute]
  split
  · rfl
  · split
    · rfl
    · exact trips_fileRoute g route collection

end Aside

section Trips

variable [Zero R] (g : Schedule R) (id trip : Ident) (t : Trip R) (n : Option TripNarrative)

theorem keepsCalls_deleteTrip : KeepsCalls id g (g.deleteTrip trip).1 :=
  .erase (trips_deleteTrip g trip)

theorem keepsCalls_addTrip : KeepsCalls id g (g.addTrip t n).1 := by
  rcases addTrip_cases g t n with ⟨reply, _, hrefused⟩ | ⟨hv, hn⟩
  · rw [hrefused]
    exact .of_trips rfl
  · apply KeepsCalls.insert (trips_addTrip hv hn)
    intro _ hcalls
    exact (((validate_eq_ok g t).1 hv).1 hcalls).elim

theorem keepsCalls_updateTrip : KeepsCalls id g (g.updateTrip t n).1 := by
  rw [updateTrip]
  split
  · exact .of_trips rfl
  · exact (keepsCalls_deleteTrip g id t.id).trans (keepsCalls_addTrip _ id t n)

theorem keepsCalls_setTripShape (shape : Option Ident) :
    KeepsCalls id g (g.setTripShape trip shape).1 := by
  rw [setTripShape, editTrip_eq]
  cases h : g.trips[trip]? with
  | none => exact .of_trips rfl
  | some t =>
    apply KeepsCalls.insert (t := { t with shape }) rfl
    rintro rfl hcalls
    exact ⟨t, h, hcalls⟩

variable {id trip}

theorem keepsCalls_editCalls {f : List (Call R) → Option (List (Call R))}
    (hf : trip = id → ∀ t, g.trips[trip]? = some t → f t.calls ≠ some []) :
    KeepsCalls id g (g.editCalls trip f).1 := by
  rw [editCalls_eq]
  cases h : (g.trips[trip]?).bind fun t => (f t.calls).map t.withCalls with
  | none => exact .of_trips rfl
  | some u =>
    obtain ⟨t, ht, hu⟩ := Option.bind_eq_some_iff.1 h
    obtain ⟨calls, hcalls, rfl⟩ := Option.map_eq_some_iff.1 hu
    apply KeepsCalls.insert (t := t.withCalls calls) rfl
    rintro he rfl
    exact (hf he t ht hcalls).elim

end Trips

/-- A trip that was stored once can be stored again, if it has calls. -/
theorem Steps.validate [Zero R] {g h : Schedule R} (hs : Steps g h)
    (hc : Consistent g) (hg : Filed g) {t : Trip R} (stored : g.trips[t.id]? = some t)
    (calls : t.calls ≠ []) :
    h.validate t = .ok () := by
  have hagency : h.hasAgency t.id.agency := by
    rw [hasAgency_iff]
    exact hs.mem_agencyIds (hg.run t.id (Table.mem_of_getElem? stored))
  have hroute : t.route ∈ h.routes := hs.mem_routes (hc.routed t.id t stored)
  rw [validate_eq_ok]
  exact ⟨calls, hagency, .inl hroute⟩

variable [Geometry R] {g : Schedule R}

theorem keepsCalls_insertStopTime (g : Schedule R) (id trip stop : Ident)
    (arrival departure : Int) (distance : Option R) :
    KeepsCalls id g (g.insertStopTime trip stop arrival departure distance).1 := by
  rw [insertStopTime]
  split
  · exact .of_trips rfl
  · apply keepsCalls_editCalls
    intro _ t _ h
    exact Calls.insert_ne_nil (Option.some.inj h)

theorem keepsCalls_apply {id : Ident} {e : Edit R} (he : ¬e.Empties g id) :
    KeepsCalls id g (g.apply e).1 := by
  cases e with
  | addAgency a timezone => exact .of_trips (trips_addAgency g a timezone)
  | addStop stop => exact .of_trips (trips_addStop g stop)
  | addStops stops => exact .of_trips (trips_addStops g stops)
  | removeStop stop => exact .of_trips (trips_removeStop g stop)
  | moveStop stop location => exact .of_trips (trips_moveStop g stop location)
  | nameStop stop name => exact .of_trips rfl
  | addRoute route collection => exact .of_trips (trips_addRoute g route collection)
  | narrateCollection collection n => exact .of_trips rfl
  | addTrip t n => exact keepsCalls_addTrip g id t n
  | updateTrip t n => exact keepsCalls_updateTrip g id t n
  | deleteTrip trip => exact keepsCalls_deleteTrip g id trip
  | narrateTrip trip n => exact .of_trips rfl
  | deleteStopTime trip stop =>
    apply keepsCalls_editCalls
    rintro rfl t ht h
    obtain ⟨c, hcalls, rfl⟩ := Calls.delete?_eq_nil h
    exact he (.inr ⟨t, c, ht, hcalls, rfl⟩)
  | insertStopTime trip stop arrival departure distance =>
    exact keepsCalls_insertStopTime g id trip stop arrival departure distance
  | updateStopTime trip stop arrival departure newArrival newDeparture =>
    apply keepsCalls_editCalls
    exact fun _ t _ => Calls.retime?_ne_nil
  | replaceStopTimes trip calls =>
    apply keepsCalls_editCalls
    rintro rfl t _ h
    cases h
    exact he (.inl rfl)
  | addShape s => exact .of_trips rfl
  | removeShape shape => exact .of_trips rfl
  | setTripShape trip shape => exact keepsCalls_setTripShape g id trip shape

theorem addTrip_deleteTrip (hc : Consistent g) (hf : Filed g) {id : Ident} {t : Trip R}
    (stored : g.trips[id]? = some t) (n : Option TripNarrative) :
    (t.calls ≠ [] → ((g.deleteTrip id).1.addTrip t n).2 = .ok true ∧
      ((g.deleteTrip id).1.addTrip t n).1.trips = g.trips) ∧
    (t.calls = [] →
      (g.deleteTrip id).1.addTrip t n = ((g.deleteTrip id).1, .error (.emptyTrip id))) := by
  obtain rfl : t.id = id := hc.keyed id t stored
  constructor
  · intro hcalls
    have hv : (g.deleteTrip t.id).1.validate t = .ok () :=
      (steps_deleteTrip g t.id).validate hc hf stored hcalls
    have hn : t.id ∉ (g.deleteTrip t.id).1.trips := by
      rw [trips_deleteTrip]
      simp
    rw [trips_addTrip hv hn, trips_deleteTrip, Table.insert_erase, Table.insert_self stored,
      addTrip_eq _ t n hv hn]
    exact ⟨rfl, rfl⟩
  · intro hcalls
    have hv : (g.deleteTrip t.id).1.validate t = .error (.emptyTrip t.id) := by
      rw [validate, hcalls]
      rfl
    rw [addTrip, hv]

/-- However a schedule came about, the agency of a stored trip is registered and its route is
stored, so the trip is valid if and only if it has calls; then it can be deleted and added again,
which gives the trips that there were, and otherwise it is refused for having none. A trip is left
without calls by an edit that takes its only one or replaces them by none, and by no other. -/
theorem Reachable.readmission (h : g.Reachable) :
    (∀ (id : Ident) (t : Trip R), g.trips[id]? = some t →
      g.hasAgency t.id.agency ∧ t.route ∈ g.routes ∧
      (g.validate t = .ok () ↔ t.calls ≠ []) ∧
      ∀ n : Option TripNarrative,
        let again := (g.deleteTrip id).1.addTrip t n
        (t.calls ≠ [] → again.2 = .ok true ∧ again.1.trips = g.trips) ∧
        (t.calls = [] → again = ((g.deleteTrip id).1, .error (.emptyTrip id)))) ∧
    ∀ (e : Edit R) (id : Ident) (t : Trip R), (g.apply e).1.trips[id]? = some t → t.calls = [] →
      (∃ s, g.trips[id]? = some s ∧ s.calls = []) ∨ e.Empties g id := by
  have hc := h.consistent
  have hf := h.filed
  constructor
  · intro id t stored
    have hagency : g.hasAgency t.id.agency := by
      rw [hasAgency_iff, hc.keyed id t stored]
      exact hf.run id (Table.mem_of_getElem? stored)
    have hroute := hc.routed id t stored
    refine ⟨hagency, hroute, ?_, addTrip_deleteTrip hc hf stored⟩
    rw [validate_eq_ok]
    exact ⟨fun hv => hv.1, fun hcalls => ⟨hcalls, hagency, .inl hroute⟩⟩
  · intro e id t ht hcalls
    by_cases he : e.Empties g id
    · exact .inr he
    · exact .inl (keepsCalls_apply he t ht hcalls)

def emptiedDay : List (Edit Float) :=
  let call : Call Float :=
    { stop := ⟨"A", "X"⟩, published := none, arrival := 0, departure := 0, distance := 0 }
  [.addAgency "A" "UTC", .addTrip (.ofCalls ⟨"A", "T1"⟩ ⟨"A", "R"⟩ none ⟨"A", "S"⟩ [call]) none,
    .addTrip (.ofCalls ⟨"A", "T2"⟩ ⟨"A", "R"⟩ none ⟨"A", "S"⟩ [call]) none,
    .deleteStopTime ⟨"A", "T1"⟩ ⟨"A", "X"⟩]

theorem readmission_emptiedDay :
    let g := empty.run emptiedDay
    g.Reachable ∧
    (∀ (id : Ident) (t : Trip Float), g.trips[id]? = some t →
      g.hasAgency t.id.agency ∧ t.route ∈ g.routes ∧
      (g.validate t = .ok () ↔ t.calls ≠ []) ∧
      ∀ n : Option TripNarrative,
        let again := (g.deleteTrip id).1.addTrip t n
        (t.calls ≠ [] → again.2 = .ok true ∧ again.1.trips = g.trips) ∧
        (t.calls = [] → again = ((g.deleteTrip id).1, .error (.emptyTrip id)))) ∧
    ∀ (e : Edit Float) (id : Ident) (t : Trip Float),
      (g.apply e).1.trips[id]? = some t → t.calls = [] →
      (∃ s, g.trips[id]? = some s ∧ s.calls = []) ∨ e.Empties g id :=
  ⟨⟨emptiedDay, rfl⟩, Reachable.readmission ⟨emptiedDay, rfl⟩⟩

/-- The trip without calls stays stored, but it is not valid, and once it is deleted it cannot be
added again. -/
theorem not_readmitted_emptiedDay :
    let g := empty.run emptiedDay
    let id : Ident := ⟨"A", "T1"⟩
    g.Reachable ∧ ∃ t, g.trips[id]? = some t ∧ g.validate t = .error (.emptyTrip id) ∧
      (g.deleteTrip id).1.addTrip t none = ((g.deleteTrip id).1, .error (.emptyTrip id)) := by
  intro g id
  have hreachable : g.Reachable := ⟨emptiedDay, rfl⟩
  have hempty : (g.trips[id]?).any (·.calls.isEmpty) := by decide +kernel
  cases stored : g.trips[id]? with
  | none =>
    rw [stored] at hempty
    cases hempty
  | some t =>
    rw [stored, Option.any_some, List.isEmpty_iff] at hempty
    have hid : t.id = id := hreachable.consistent.keyed id t stored
    have hinvalid : g.validate t = .error (.emptyTrip id) := by
      rw [validate, hempty, hid]
      rfl
    have hagain := addTrip_deleteTrip hreachable.consistent hreachable.filed stored none
    exact ⟨hreachable, t, rfl, hinvalid, hagain.2 hempty⟩

end Schedule

end Timetable

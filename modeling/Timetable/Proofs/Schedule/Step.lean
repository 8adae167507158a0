import Mathlib.Logic.Relation
import Timetable.Schedule.Edit

namespace Timetable.Schedule

variable {R : Type}

/-- Two schedules of the same trips, blocks, routes, collections and agencies. -/
structure SameService (g h : Schedule R) : Prop where
  trips : h.trips = g.trips
  blocks : h.blocks = g.blocks
  routes : h.routes = g.routes
  collections : h.collections = g.collections
  agencies : h.agencies = g.agencies

section Moves

variable [Zero R]

/-- The schedule with a new trip, listed under its route and in its block. -/
def enter (g : Schedule R) (t : Trip R) : Schedule R :=
  ((editRouteTrips { g with trips := g.trips.insert t.id t } t.route (· ++ [t.id])).attach t).bump

def withdraw (g : Schedule R) (id : Ident) (t : Trip R) : Schedule R :=
  (editRouteTrips (detach { g with trips := g.trips.erase id } t) t.route
    (·.filter (· ≠ id))).bump

def revise (g : Schedule R) (id : Ident) (t : Trip R) : Schedule R :=
  reattach { g with trips := g.trips.insert id t } t

end Moves

/-- The elementary steps. -/
inductive Step [Zero R] (g : Schedule R) : Schedule R → Prop
  | aside {h : Schedule R} (same : SameService g h) (later : g.version ≤ h.version) : Step g h
  | agency (id timezone : String) (new : ¬g.hasAgency id) :
      Step g { g with agencies := g.agencies ++ [{ id, timezone, collections := [] }] }
  | route (route collection : Ident) (known : g.hasAgency collection.agency)
      (new : route ∉ g.routes) : Step g (g.fileRoute route collection)
  | enter (t : Trip R) (calls : t.calls ≠ []) (known : g.hasAgency t.id.agency)
      (routed : t.route ∈ g.routes) (new : g.trips[t.id]? = none) : Step g (g.enter t)
  | withdraw (id : Ident) (t : Trip R) (stored : g.trips[id]? = some t) : Step g (g.withdraw id t)
  | replan (id : Ident) (t : Trip R) (calls : List (Call R)) (stored : g.trips[id]? = some t) :
      Step g (g.revise id (t.withCalls calls)).bump
  | reshape (id : Ident) (t : Trip R) (shape : Option Ident) (stored : g.trips[id]? = some t) :
      Step g (g.revise id { t with shape })

def Steps [Zero R] : Schedule R → Schedule R → Prop := Relation.ReflTransGen Step

theorem SameService.refl (g : Schedule R) : SameService g g := ⟨rfl, rfl, rfl, rfl, rfl⟩

theorem Steps.refl [Zero R] (g : Schedule R) : Steps g g := Relation.ReflTransGen.refl

theorem Steps.trans [Zero R] {f g h : Schedule R} (hfg : Steps f g) (hgh : Steps g h) :
    Steps f h :=
  Relation.ReflTransGen.trans hfg hgh

theorem Step.steps [Zero R] {g h : Schedule R} (hs : Step g h) : Steps g h :=
  Relation.ReflTransGen.single hs

theorem Steps.induction [Zero R] {P : Schedule R → Prop} {g h : Schedule R}
    (step : ∀ f g, P f → Step f g → P g) (hs : Steps g h) (hg : P g) : P h := by
  induction hs with
  | refl => exact hg
  | tail _ hstep ih => exact step _ _ ih hstep

section Aside

variable [Zero R] (g : Schedule R)

theorem steps_aside {h : Schedule R} (same : SameService g h) (later : g.version ≤ h.version) :
    Steps g h :=
  (Step.aside same later).steps

theorem steps_addAgency (id timezone : String) : Steps g (g.addAgency id timezone).1 := by
  rw [addAgency]
  split
  · exact .refl g
  · next h => exact (Step.agency id timezone h).steps

theorem steps_addStop (s : NewStop R) : Steps g (g.addStop s).1 := by
  rw [addStop]
  split
  · exact .refl g
  · cases hn : s.name with
    | none => exact steps_aside g ⟨rfl, rfl, rfl, rfl, rfl⟩ (Nat.le_refl _)
    | some name => exact steps_aside g ⟨rfl, rfl, rfl, rfl, rfl⟩ (Nat.le_refl _)

theorem steps_addStops (ss : List (NewStop R)) : Steps g (g.addStops ss).1 := by
  induction ss generalizing g with
  | nil => exact .refl g
  | cons s ss ih => exact (steps_addStop g s).trans (ih _)

theorem steps_removeStop (id : Ident) : Steps g (g.removeStop id).1 := by
  rw [removeStop]
  split
  · exact .refl g
  · exact steps_aside g ⟨rfl, rfl, rfl, rfl, rfl⟩ (Nat.le_succ _)

theorem steps_moveStop (id : Ident) (location : Location R) :
    Steps g (g.moveStop id location).1 := by
  rw [moveStop]
  split
  · exact .refl g
  · exact steps_aside g ⟨rfl, rfl, rfl, rfl, rfl⟩ (Nat.le_refl _)

end Aside

section Routes

variable (g : Schedule R) (route collection : Ident)

theorem any_id_linkCollection (id : String) :
    (g.linkCollection collection).agencies.any (fun a => a.id = id) =
      g.agencies.any fun a => a.id = id := by
  rw [linkCollection, List.any_map]
  congr 1
  funext a
  rw [Function.comp_apply]
  split <;> rfl

theorem hasAgency_eq_any (id : String) :
    g.hasAgency id = g.agencies.any fun a => a.id = id := by
  rw [hasAgency, agency?, Bool.eq_iff_iff, List.find?_isSome, List.any_eq_true]

theorem fileRoute_eq : g.fileRoute route collection =
    { g with
      routes := g.routes.insert route { id := route, collection, trips := [] }
      collections := g.collections.insert collection (match g.collections[collection]? with
        | some c => { c with routes := c.routes ++ [route] }
        | none => { id := collection, routes := [route] })
      agencies := match g.collections[collection]? with
        | some _ => g.agencies
        | none => (g.linkCollection collection).agencies } := by
  cases h : g.collections[collection]? with
  | none => simp only [fileRoute, h, linkCollection]
  | some c => simp only [fileRoute, h]

@[simp] theorem hasAgency_fileRoute (id : String) :
    (g.fileRoute route collection).hasAgency id = g.hasAgency id := by
  rw [hasAgency_eq_any, hasAgency_eq_any, fileRoute_eq]
  cases g.collections[collection]? with
  | none => exact any_id_linkCollection g collection id
  | some c => rfl

/-- The schedule with a route; a new one is filed under a collection of its own name. -/
def withRoute : Schedule R := if route ∈ g.routes then g else g.fileRoute route route

@[simp] theorem trips_withRoute : (g.withRoute route).trips = g.trips := by
  rw [withRoute]
  split
  · rfl
  · rw [fileRoute_eq]

theorem mem_routes_withRoute : route ∈ (g.withRoute route).routes := by
  rw [withRoute]
  split
  · next h => exact h
  · rw [fileRoute_eq]
    exact Std.ExtTreeMap.mem_insert_self

@[simp] theorem hasAgency_withRoute (id : String) :
    (g.withRoute route).hasAgency id = g.hasAgency id := by
  rw [withRoute]
  split
  · rfl
  · exact hasAgency_fileRoute g route route id

theorem withRoute_with_trips (trips : Table Ident (Trip R)) :
    withRoute { g with trips } route = { g.withRoute route with trips } := by
  unfold withRoute
  split
  · rfl
  · rw [fileRoute_eq, fileRoute_eq]
    rfl

theorem ensureRoute_eq (h : route ∈ g.routes ∨ g.hasAgency route.agency) :
    g.ensureRoute route = (g.withRoute route, .ok ()) := by
  rw [ensureRoute, withRoute]
  by_cases hr : route ∈ g.routes
  · simp [hr]
  · simp [hr, addRoute, h.resolve_left hr]

theorem steps_addRoute [Zero R] : Steps g (g.addRoute route collection).1 := by
  rw [addRoute]
  split
  · exact .refl g
  · next hknown =>
    split
    · exact .refl g
    · next hnew =>
      have hnew : route ∉ g.routes := by simpa using hnew
      exact (Step.route route collection (by simpa using hknown) hnew).steps

theorem steps_withRoute [Zero R] (h : route ∈ g.routes ∨ g.hasAgency route.agency) :
    Steps g (g.withRoute route) := by
  rw [withRoute]
  split
  · exact .refl g
  · next hr => exact (Step.route route route (h.resolve_left hr) hr).steps

end Routes

section Trips

variable (g : Schedule R) (t : Trip R) (n : Option TripNarrative)

theorem validate_eq_ok : g.validate t = .ok () ↔ t.calls ≠ [] ∧ g.hasAgency t.id.agency ∧
    (t.route ∈ g.routes ∨ g.hasAgency t.route.agency) := by
  rw [validate]
  by_cases hc : t.calls = []
  · simp [hc]
  · by_cases ha : g.hasAgency t.id.agency
    · by_cases hr : t.route ∈ g.routes
      · have hcontains := Std.ExtTreeMap.mem_iff_contains.1 hr
        simp [hc, ha, hr, hcontains]
      · by_cases hra : g.hasAgency t.route.agency <;> simp [hc, ha, hr, hra]
    · simp [hc, ha]

def narrated (id : Ident) : Schedule R :=
  match n with
  | some n => g.narrateTrip id n
  | none => g

variable [Zero R]

theorem addTrip_eq (hv : g.validate t = .ok ()) (hn : t.id ∉ g.trips) :
    g.addTrip t n = (narrated ((g.withRoute t.route).enter t) n t.id, .ok true) := by
  -- the trip is stored before its route comes up, which makes no difference to the route
  have hroute := ensureRoute_eq { g with trips := g.trips.insert t.id t } t.route
    ((validate_eq_ok g t).1 hv).2.2
  rw [withRoute_with_trips] at hroute
  have hcontains : g.trips.contains t.id = false := by
    rwa [Std.ExtTreeMap.mem_iff_contains, Bool.not_eq_true] at hn
  simp only [addTrip, hv, hcontains, hroute, enter, trips_withRoute, narrated]
  cases n <;> rfl

/-- A trip that is not added leaves the schedule as it is, and one that is added is valid and
new. -/
theorem addTrip_cases : (∃ reply, reply ≠ .ok true ∧ g.addTrip t n = (g, reply)) ∨
    g.validate t = .ok () ∧ t.id ∉ g.trips := by
  cases hv : g.validate t with
  | error e =>
    left
    exact ⟨.error e, nofun, by rw [addTrip, hv]⟩
  | ok =>
    by_cases hn : t.id ∈ g.trips
    · left
      exact ⟨.ok false, nofun, by simp [addTrip, hv, hn]⟩
    · right
      exact ⟨rfl, hn⟩

theorem steps_addTrip : Steps g (g.addTrip t n).1 := by
  rcases addTrip_cases g t n with ⟨reply, _, hrefused⟩ | ⟨hv, hn⟩
  · rw [hrefused]
    exact .refl g
  · obtain ⟨hcalls, hknown, hroute⟩ := (validate_eq_ok g t).1 hv
    rw [addTrip_eq g t n hv hn]
    refine (steps_withRoute g t.route hroute).trans ?_
    refine (Step.enter t hcalls ?_ ?_ ?_).steps.trans ?_
    · simpa using hknown
    · exact mem_routes_withRoute g t.route
    · rw [trips_withRoute]
      exact Std.ExtTreeMap.getElem?_eq_none hn
    · cases n with
      | none => exact .refl _
      | some n => exact steps_aside _ ⟨rfl, rfl, rfl, rfl, rfl⟩ (Nat.le_refl _)

theorem deleteTrip_eq {id : Ident} (h : g.trips[id]? = some t) :
    g.deleteTrip id =
      ({ g.withdraw id t with tripNarratives := (g.withdraw id t).tripNarratives.erase id },
        true) := by
  simp only [deleteTrip, h]
  rfl

theorem steps_deleteTrip (id : Ident) : Steps g (g.deleteTrip id).1 := by
  cases h : g.trips[id]? with
  | none =>
    have hrefused : g.deleteTrip id = (g, false) := by simp only [deleteTrip, h]
    rw [hrefused]
    exact .refl g
  | some t =>
    rw [deleteTrip_eq g t h]
    exact (Step.withdraw id t h).steps.trans
      (steps_aside _ ⟨rfl, rfl, rfl, rfl, rfl⟩ (Nat.le_refl _))

theorem steps_updateTrip : Steps g (g.updateTrip t n).1 := by
  rw [updateTrip]
  split
  · exact .refl g
  · exact (steps_deleteTrip g t.id).trans (steps_addTrip _ t n)

end Trips

section Calls

variable [Zero R] (g : Schedule R) (id : Ident)

theorem editTrip_eq (f : Trip R → Option (Trip R)) :
    g.editTrip id f =
      match (g.trips[id]?).bind f with
      | some t => (g.revise id t, true)
      | none => (g, false) := by
  rw [editTrip]
  cases h : g.trips[id]? with
  | none => rfl
  | some t =>
    simp only [Option.bind_some]
    cases f t <;> rfl

theorem editCalls_eq (f : List (Call R) → Option (List (Call R))) :
    g.editCalls id f =
      match (g.trips[id]?).bind fun t => (f t.calls).map t.withCalls with
      | some t => ((g.revise id t).bump, true)
      | none => (g, false) := by
  rw [editCalls, editTrip_eq]
  cases (g.trips[id]?).bind fun t => (f t.calls).map t.withCalls <;> rfl

theorem steps_editCalls (f : List (Call R) → Option (List (Call R))) :
    Steps g (g.editCalls id f).1 := by
  rw [editCalls_eq]
  cases h : (g.trips[id]?).bind fun t => (f t.calls).map t.withCalls with
  | none => exact .refl g
  | some u =>
    obtain ⟨t, ht, hf⟩ := Option.bind_eq_some_iff.1 h
    obtain ⟨calls, _, rfl⟩ := Option.map_eq_some_iff.1 hf
    exact (Step.replan id t calls ht).steps

theorem steps_setTripShape (shape : Option Ident) : Steps g (g.setTripShape id shape).1 := by
  rw [setTripShape, editTrip_eq]
  cases h : g.trips[id]? with
  | none => exact .refl g
  | some t => exact (Step.reshape id t shape h).steps

end Calls

section Edits

variable [Geometry R]

theorem steps_insertStopTime (g : Schedule R) (trip stop : Ident) (arrival departure : Int)
    (distance : Option R) :
    Steps g (g.insertStopTime trip stop arrival departure distance).1 := by
  rw [insertStopTime]
  split
  · exact .refl g
  · exact steps_editCalls g trip _

/-- Whatever an edit replies, it takes the schedule through steps. -/
theorem steps_apply (g : Schedule R) (e : Edit R) : Steps g (g.apply e).1 := by
  cases e with
  | addAgency id timezone => exact steps_addAgency g id timezone
  | addStop stop => exact steps_addStop g stop
  | addStops stops => exact steps_addStops g stops
  | removeStop id => exact steps_removeStop g id
  | moveStop id location => exact steps_moveStop g id location
  | nameStop id name => exact steps_aside g ⟨rfl, rfl, rfl, rfl, rfl⟩ (Nat.le_refl _)
  | addRoute route collection => exact steps_addRoute g route collection
  | narrateCollection id n => exact steps_aside g ⟨rfl, rfl, rfl, rfl, rfl⟩ (Nat.le_refl _)
  | addTrip t n => exact steps_addTrip g t n
  | updateTrip t n => exact steps_updateTrip g t n
  | deleteTrip id => exact steps_deleteTrip g id
  | narrateTrip id n => exact steps_aside g ⟨rfl, rfl, rfl, rfl, rfl⟩ (Nat.le_refl _)
  | deleteStopTime trip stop => exact steps_editCalls g trip _
  | insertStopTime trip stop arrival departure distance =>
    exact steps_insertStopTime g trip stop arrival departure distance
  | updateStopTime trip stop arrival departure newArrival newDeparture =>
    exact steps_editCalls g trip _
  | replaceStopTimes trip calls => exact steps_editCalls g trip _
  | addShape s => exact steps_aside g ⟨rfl, rfl, rfl, rfl, rfl⟩ (Nat.le_refl _)
  | removeShape id => exact steps_aside g ⟨rfl, rfl, rfl, rfl, rfl⟩ (Nat.le_refl _)
  | setTripShape trip shape => exact steps_setTripShape g trip shape

/-- What holds of the empty schedule and is kept by every step holds of every reachable one. -/
theorem Reachable.of_step {P : Schedule R → Prop} (base : P empty)
    (step : ∀ f g, P f → Step f g → P g) {g : Schedule R} (h : g.Reachable) : P g :=
  h.induction base fun g e hg => (steps_apply g e).induction step hg

theorem Reachable.steps {g : Schedule R} (h : g.Reachable) : Steps empty g :=
  h.induction (Steps.refl empty) fun f e hf => hf.trans (steps_apply f e)

end Edits

end Timetable.Schedule

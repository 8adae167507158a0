import Timetable.Proofs.Schedule.Filing
import Timetable.Proofs.Schedule.Shapes

namespace Timetable

variable {R : Type}

def Edit.adds : Edit R → Bool
  | .addAgency .. | .addStop .. | .addStops .. | .addRoute .. | .addTrip .. | .addShape .. => true
  | _ => false

namespace Schedule

/-- Whatever one schedule has the other has as well, and its routes are in the same collections. -/
structure Grows (g h : Schedule R) : Prop where
  trips (id : Ident) : id ∈ g.trips → id ∈ h.trips
  stops (id : Ident) : id ∈ g.stops → id ∈ h.stops
  shapes (id : Ident) : id ∈ g.shapes → id ∈ h.shapes
  routes (route id : Ident) : g.collectionOf? route = some id → h.collectionOf? route = some id

namespace Grows

variable {f g h : Schedule R}

theorem of_eq (trips : h.trips = g.trips) (stops : h.stops = g.stops) (shapes : h.shapes = g.shapes)
    (routes : h.routes = g.routes) : Grows g h where
  trips id hid := by rwa [trips]
  stops id hid := by rwa [stops]
  shapes id hid := by rwa [shapes]
  routes route id hid := by rwa [collectionOf?_congr routes]

theorem refl (g : Schedule R) : Grows g g := of_eq rfl rfl rfl rfl

theorem trans (hfg : Grows f g) (hgh : Grows g h) : Grows f h where
  trips id hid := hgh.trips id (hfg.trips id hid)
  stops id hid := hgh.stops id (hfg.stops id hid)
  shapes id hid := hgh.shapes id (hfg.shapes id hid)
  routes route id hid := hgh.routes route id (hfg.routes route id hid)

theorem of_sameGround (hs : SameGround g h) (trips : ∀ id, id ∈ g.trips → id ∈ h.trips)
    (routes : ∀ route id, g.collectionOf? route = some id → h.collectionOf? route = some id) :
    Grows g h where
  trips := trips
  stops id hid := by rwa [hs.stops]
  shapes id hid := by rwa [hs.shapes]
  routes := routes

end Grows

section Additions

variable (g : Schedule R)

theorem grows_addAgency (id timezone : String) : Grows g (g.addAgency id timezone).1 := by
  rw [addAgency]
  split
  · exact .refl g
  · exact .of_eq rfl rfl rfl rfl

theorem grows_addStop (s : NewStop R) : Grows g (g.addStop s).1 := by
  have hstop (stop : Stop R) : Grows g { g with stops := g.stops.insert s.id stop } :=
    { trips := fun _ => id
      stops := fun _ hid => Table.mem_insert_iff.2 (.inr hid)
      shapes := fun _ => id
      routes := fun _ _ => id }
  rw [addStop]
  split
  · exact .refl g
  · cases s.name with
    | none => exact hstop _
    | some name => exact (hstop _).trans (.of_eq rfl rfl rfl rfl)

theorem grows_addStops (ss : List (NewStop R)) : Grows g (g.addStops ss).1 := by
  induction ss generalizing g with
  | nil => exact .refl g
  | cons s ss ih => exact (grows_addStop g s).trans (ih _)

theorem grows_fileRoute {route : Ident} (new : route ∉ g.routes) (collection : Ident) :
    Grows g (g.fileRoute route collection) := by
  apply Grows.of_sameGround (sameGround_fileRoute g route collection)
  · intro id hid
    simpa using hid
  · intro r id hr
    rw [collectionOf?_fileRoute, if_neg]
    · exact hr
    · rintro rfl
      rw [collectionOf?, Std.ExtTreeMap.getElem?_eq_none new] at hr
      cases hr

theorem grows_addRoute (route collection : Ident) : Grows g (g.addRoute route collection).1 := by
  rw [addRoute]
  split
  · exact .refl g
  · split
    · exact .refl g
    · next hnew => exact grows_fileRoute g (by simpa using hnew) collection

theorem grows_addShape [Geometry R] (s : Shape R) : Grows g (g.addShape s).1 where
  trips _ := id
  stops _ := id
  shapes _ hid := Table.mem_insert_iff.2 (.inr hid)
  routes _ _ := id

variable [Zero R]

theorem grows_addTrip (t : Trip R) (n : Option TripNarrative) : Grows g (g.addTrip t n).1 := by
  have hground := sameGround_addTrip g t n
  rcases addTrip_cases g t n with ⟨reply, _, hrefused⟩ | ⟨hv, hn⟩
  · rw [hrefused]
    exact .refl g
  · have hroute : Grows g (g.withRoute t.route) := by
      rw [withRoute]
      split
      · exact .refl g
      · next hnew => exact grows_fileRoute g hnew t.route
    rw [addTrip_eq g t n hv hn] at hground ⊢
    have htrips : (narrated ((g.withRoute t.route).enter t) n t.id).trips =
        (g.withRoute t.route).trips.insert t.id t := by cases n <;> rfl
    have hroutes : (narrated ((g.withRoute t.route).enter t) n t.id).routes =
        ((g.withRoute t.route).editRouteTrips t.route (· ++ [t.id])).routes := by cases n <;> rfl
    apply Grows.of_sameGround hground
    · intro id hid
      rw [htrips]
      exact Table.mem_insert_iff.2 (.inr (hroute.trips id hid))
    · intro r id hr
      rw [collectionOf?_congr hroutes, collectionOf?_editRouteTrips]
      exact hroute.routes r id hr

end Additions

variable [Geometry R]

theorem grows_apply (g : Schedule R) {e : Edit R} (he : e.adds) : Grows g (g.apply e).1 := by
  cases e with
  | addAgency id timezone => exact grows_addAgency g id timezone
  | addStop stop => exact grows_addStop g stop
  | addStops stops => exact grows_addStops g stops
  | addRoute route collection => exact grows_addRoute g route collection
  | addTrip t n => exact grows_addTrip g t n
  | addShape s => exact grows_addShape g s
  | _ => cases he

theorem grows_run (g : Schedule R) {edits : List (Edit R)} (h : ∀ e ∈ edits, e.adds) :
    Grows g (g.run edits) := by
  induction edits generalizing g with
  | nil => exact .refl g
  | cons e edits ih =>
    rw [List.forall_mem_cons] at h
    exact (grows_apply g h.1).trans (ih _ h.2)

end Schedule

end Timetable

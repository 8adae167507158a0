import Timetable.Proofs.Schedule.Consistency

namespace Timetable

variable {R : Type}

namespace Shape

@[simp] theorem measuredBy_measuredBy [Scalar R] (distance : Location R → Location R → R)
    (s : Shape R) : (s.measuredBy distance).measuredBy distance = s.measuredBy distance := by
  cases hs : s.isMeasured with
  | true =>
    have hkeep : s.measuredBy distance = s := by rw [measuredBy, hs, if_pos rfl]
    rw [hkeep, hkeep]
  | false =>
    have hfill : s.measuredBy distance = { s with distances := travelled distance 0 s.points } := by
      rw [measuredBy, hs]
      rfl
    -- measured once more, the distances are kept or come out of the same points
    rw [hfill, measuredBy]
    split
    · rfl
    · rfl

variable [Geometry R] (s : Shape R)

@[simp] theorem measured_measured : s.measured.measured = s.measured :=
  measuredBy_measuredBy Geometry.distance s

@[simp] theorem id_measured : s.measured.id = s.id := by
  rw [measured, measuredBy]
  split
  · rfl
  · rfl

end Shape

namespace Schedule

/-- Two schedules of the same stops and shapes, with the same names of stops. -/
structure SameGround (g h : Schedule R) : Prop where
  stops : h.stops = g.stops
  stopNames : h.stopNames = g.stopNames
  shapes : h.shapes = g.shapes

namespace SameGround

theorem refl (g : Schedule R) : SameGround g g := ⟨rfl, rfl, rfl⟩

theorem trans {f g h : Schedule R} (hfg : SameGround f g) (hgh : SameGround g h) :
    SameGround f h :=
  ⟨hgh.stops.trans hfg.stops, hgh.stopNames.trans hfg.stopNames, hgh.shapes.trans hfg.shapes⟩

end SameGround

section Aside

variable (g : Schedule R)

theorem sameGround_addAgency (id timezone : String) : SameGround g (g.addAgency id timezone).1 := by
  rw [addAgency]
  split
  · exact .refl g
  · exact ⟨rfl, rfl, rfl⟩

theorem sameGround_fileRoute (route collection : Ident) :
    SameGround g (g.fileRoute route collection) := by
  rw [fileRoute_eq]
  exact ⟨rfl, rfl, rfl⟩

theorem sameGround_addRoute (route collection : Ident) :
    SameGround g (g.addRoute route collection).1 := by
  rw [addRoute]
  split
  · exact .refl g
  · split
    · exact .refl g
    · exact sameGround_fileRoute g route collection

end Aside

section Trips

variable [Zero R] (g : Schedule R)

theorem sameGround_addTrip (t : Trip R) (n : Option TripNarrative) :
    SameGround g (g.addTrip t n).1 := by
  rcases addTrip_cases g t n with ⟨reply, _, hrefused⟩ | ⟨hv, hn⟩
  · rw [hrefused]
    exact .refl g
  · have hroute : SameGround g (g.withRoute t.route) := by
      rw [withRoute]
      split
      · exact .refl g
      · exact sameGround_fileRoute g t.route t.route
    rw [addTrip_eq g t n hv hn]
    cases n with
    | none => exact hroute.trans ⟨rfl, rfl, rfl⟩
    | some n => exact hroute.trans ⟨rfl, rfl, rfl⟩

theorem sameGround_deleteTrip (id : Ident) : SameGround g (g.deleteTrip id).1 := by
  cases h : g.trips[id]? with
  | none =>
    rw [deleteTrip, h]
    exact .refl g
  | some t =>
    obtain ⟨blocks, hd, _⟩ := detach_eq { g with trips := g.trips.erase id } t
    rw [deleteTrip_eq g t h, withdraw, hd]
    exact ⟨rfl, rfl, rfl⟩

theorem sameGround_updateTrip (t : Trip R) (n : Option TripNarrative) :
    SameGround g (g.updateTrip t n).1 := by
  rw [updateTrip]
  split
  · exact .refl g
  · exact (sameGround_deleteTrip g t.id).trans (sameGround_addTrip _ t n)

theorem sameGround_editTrip (id : Ident) (f : Trip R → Option (Trip R)) :
    SameGround g (g.editTrip id f).1 := by
  rw [editTrip_eq]
  split
  · exact ⟨rfl, rfl, rfl⟩
  · exact .refl g

theorem sameGround_editCalls (id : Ident) (f : List (Call R) → Option (List (Call R))) :
    SameGround g (g.editCalls id f).1 := by
  rw [editCalls_eq]
  split
  · exact ⟨rfl, rfl, rfl⟩
  · exact .refl g

end Trips

section Stops

variable (g : Schedule R)

@[simp] theorem shapes_addStop (s : NewStop R) : (g.addStop s).1.shapes = g.shapes := by
  rw [addStop]
  split
  · rfl
  · cases s.name <;> rfl

@[simp] theorem shapes_addStops (ss : List (NewStop R)) : (g.addStops ss).1.shapes = g.shapes := by
  induction ss generalizing g with
  | nil => rfl
  | cons s ss ih => exact (ih _).trans (shapes_addStop g s)

@[simp] theorem shapes_removeStop (id : Ident) : (g.removeStop id).1.shapes = g.shapes := by
  rw [removeStop]
  split <;> rfl

@[simp] theorem shapes_moveStop (id : Ident) (location : Location R) :
    (g.moveStop id location).1.shapes = g.shapes := by
  rw [moveStop]
  split <;> rfl

end Stops

variable [Geometry R]

theorem sameGround_insertStopTime (g : Schedule R) (trip stop : Ident) (arrival departure : Int)
    (distance : Option R) :
    SameGround g (g.insertStopTime trip stop arrival departure distance).1 := by
  rw [insertStopTime]
  split
  · exact .refl g
  · exact sameGround_editCalls g trip _

/-- Schedules whose shapes are filed under their own ids and measured. -/
structure Drawn (g : Schedule R) : Prop where
  keyed : g.shapes.KeyedBy Shape.id
  measured (id : Ident) (s : Shape R) : g.shapes[id]? = some s → s.measured = s

namespace Drawn

variable {g h : Schedule R}

theorem empty : Drawn (empty : Schedule R) where
  keyed := .empty
  measured id s h := by
    have hnone : (Schedule.empty : Schedule R).shapes[id]? = none := Std.ExtTreeMap.getElem?_empty
    rw [hnone] at h
    cases h

theorem congr (hg : Drawn g) (shapes : h.shapes = g.shapes) : Drawn h where
  keyed := shapes ▸ hg.keyed
  measured := shapes ▸ hg.measured

theorem addShape (hg : Drawn g) (s : Shape R) : Drawn (g.addShape s).1 where
  keyed := hg.keyed.insert s.id_measured
  measured id u h := by
    rw [Schedule.addShape, Table.getElem?_insert] at h
    split at h
    · cases h
      exact s.measured_measured
    · exact hg.measured id u h

theorem removeShape (hg : Drawn g) (id : Ident) : Drawn (g.removeShape id).1 where
  keyed := hg.keyed.erase
  measured k s h := by
    rw [Schedule.removeShape, Table.getElem?_erase] at h
    split at h
    · cases h
    · exact hg.measured k s h

theorem apply (hg : Drawn g) (e : Edit R) : Drawn (g.apply e).1 := by
  cases e with
  | addAgency id timezone => exact hg.congr (sameGround_addAgency g id timezone).shapes
  | addStop stop => exact hg.congr (shapes_addStop g stop)
  | addStops stops => exact hg.congr (shapes_addStops g stops)
  | removeStop id => exact hg.congr (shapes_removeStop g id)
  | moveStop id location => exact hg.congr (shapes_moveStop g id location)
  | nameStop id name => exact hg.congr rfl
  | addRoute route collection => exact hg.congr (sameGround_addRoute g route collection).shapes
  | narrateCollection id n => exact hg.congr rfl
  | addTrip t n => exact hg.congr (sameGround_addTrip g t n).shapes
  | updateTrip t n => exact hg.congr (sameGround_updateTrip g t n).shapes
  | deleteTrip id => exact hg.congr (sameGround_deleteTrip g id).shapes
  | narrateTrip id n => exact hg.congr rfl
  | deleteStopTime trip stop => exact hg.congr (sameGround_editCalls g trip _).shapes
  | insertStopTime trip stop arrival departure distance =>
    exact hg.congr (sameGround_insertStopTime g trip stop arrival departure distance).shapes
  | updateStopTime trip stop arrival departure newArrival newDeparture =>
    exact hg.congr (sameGround_editCalls g trip _).shapes
  | replaceStopTimes trip calls => exact hg.congr (sameGround_editCalls g trip _).shapes
  | addShape s => exact hg.addShape s
  | removeShape id => exact hg.removeShape id
  | setTripShape trip shape => exact hg.congr (sameGround_editTrip g trip _).shapes

end Drawn

theorem Reachable.drawn {g : Schedule R} (h : g.Reachable) : Drawn g :=
  h.induction .empty fun _ e hg => hg.apply e

end Schedule

end Timetable

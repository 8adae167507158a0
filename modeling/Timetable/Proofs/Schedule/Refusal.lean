import Timetable.Proofs.Schedule.Blocks

namespace Timetable.Schedule

variable {R : Type}

/-- Outcomes that reply of a failure only if the schedule is what it was. -/
def Guarded (g : Schedule R) (r : Schedule R × Reply R) : Prop := r.2.isFailure → r.1 = g

theorem Guarded.unchanged (g : Schedule R) (reply : Reply R) : Guarded g (g, reply) := fun _ => rfl

theorem Guarded.success {g : Schedule R} {r : Schedule R × Reply R} (h : r.2.isFailure = false) :
    Guarded g r := by
  intro hfail
  rw [h] at hfail
  cases hfail

section Aside

variable (g : Schedule R)

theorem guarded_addAgency (id timezone : String) :
    Guarded g (answering .done (g.addAgency id timezone)) := by
  rw [addAgency]
  split
  · exact .unchanged g _
  · exact .success rfl

theorem guarded_addStop (s : NewStop R) : Guarded g (answering .done (g.addStop s)) := by
  rw [addStop]
  split
  · exact .unchanged g _
  · cases hn : s.name with
    | none => exact .success rfl
    | some name => exact .success rfl

theorem guarded_addStops (ss : List (NewStop R)) :
    Guarded g (answering .count (g.addStops ss)) := by
  induction ss with
  | nil => exact .unchanged g _
  | cons s ss ih =>
    have hfirst := guarded_addStop g s
    rw [addStops]
    generalize g.addStop s = r at hfirst
    obtain ⟨g', new⟩ := r
    cases new with
    | true => exact .success rfl
    | false =>
      obtain rfl : g' = g := hfirst rfl
      exact ih

theorem guarded_removeStop (id : Ident) : Guarded g (answering .done (g.removeStop id)) := by
  rw [removeStop]
  split
  · exact .unchanged g _
  · exact .success rfl

theorem guarded_moveStop (id : Ident) (location : Location R) :
    Guarded g (answering .former (g.moveStop id location)) := by
  rw [moveStop]
  split
  · exact .unchanged g _
  · exact .success rfl

theorem guarded_removeShape (id : Ident) : Guarded g (answering .done (g.removeShape id)) := by
  by_cases h : id ∈ g.shapes
  · apply Guarded.success
    simp [removeShape, answering, Reply.isFailure, h]
  · rw [removeShape, Table.erase_eq_self (Std.ExtTreeMap.getElem?_eq_none h)]
    exact .unchanged g _

theorem guarded_addRoute (route collection : Ident) :
    Guarded g (answering .ofExcept (g.addRoute route collection)) := by
  rw [addRoute]
  split
  · exact .unchanged g _
  · split
    · exact .unchanged g _
    · exact .success rfl

end Aside

section Trips

variable (g : Schedule R) (t : Trip R) (n : Option TripNarrative)

theorem validate_congr {g h : Schedule R} {t : Trip R} (agencies : h.agencies = g.agencies)
    (routes : ∀ r, r ∈ h.routes ↔ r ∈ g.routes) (hv : g.validate t = .ok ()) :
    h.validate t = .ok () := by
  have hagency (id : String) : h.hasAgency id = g.hasAgency id := by
    rw [hasAgency, agency?, agencies, hasAgency, agency?]
  rw [validate_eq_ok] at hv ⊢
  rwa [hagency, hagency, routes]

variable [Zero R]

@[simp] theorem agencies_deleteTrip (id : Ident) : (g.deleteTrip id).1.agencies = g.agencies := by
  cases h : g.trips[id]? with
  | none => simp only [deleteTrip, h]
  | some t =>
    obtain ⟨blocks, hd, _⟩ := detach_eq { g with trips := g.trips.erase id } t
    rw [deleteTrip_eq g t h, withdraw, hd]
    rfl

@[simp] theorem mem_routes_deleteTrip (id : Ident) {r : Ident} :
    r ∈ (g.deleteTrip id).1.routes ↔ r ∈ g.routes := by
  cases h : g.trips[id]? with
  | none => simp only [deleteTrip, h]
  | some t =>
    rw [deleteTrip_eq g t h]
    exact mem_routes_withdraw

@[simp] theorem trips_deleteTrip (id : Ident) : (g.deleteTrip id).1.trips = g.trips.erase id := by
  cases h : g.trips[id]? with
  | none => simp only [deleteTrip, h, Table.erase_eq_self]
  | some t =>
    rw [deleteTrip_eq g t h]
    exact trips_withdraw g id t

variable {g t n} in
theorem trips_addTrip (hv : g.validate t = .ok ()) (hn : t.id ∉ g.trips) :
    (g.addTrip t n).1.trips = g.trips.insert t.id t := by
  have htrips : ((g.withRoute t.route).enter t).trips =
      (g.withRoute t.route).trips.insert t.id t := rfl
  rw [addTrip_eq g t n hv hn, ← trips_withRoute g t.route, ← htrips]
  cases n <;> rfl

/-- A trip that is valid before the old one goes is valid after that and new, so it is added. -/
theorem updateTrip_done (hv : g.validate t = .ok ()) : (g.updateTrip t n).2 = .ok true := by
  have hvalid : (g.deleteTrip t.id).1.validate t = .ok () :=
    validate_congr (agencies_deleteTrip g t.id) (fun r => mem_routes_deleteTrip g t.id) hv
  have hnew : t.id ∉ (g.deleteTrip t.id).1.trips := by
    rw [trips_deleteTrip]
    simp
  simp only [updateTrip, hv, addTrip_eq _ t n hvalid hnew]

theorem guarded_addTrip : Guarded g (answering .ofExcept (g.addTrip t n)) := by
  rcases addTrip_cases g t n with ⟨reply, _, hrefused⟩ | ⟨hv, hn⟩
  · rw [hrefused]
    exact .unchanged g _
  · rw [addTrip_eq g t n hv hn]
    exact .success rfl

theorem guarded_updateTrip : Guarded g (answering .ofExcept (g.updateTrip t n)) := by
  cases hv : g.validate t with
  | error e =>
    rw [updateTrip, hv]
    exact .unchanged g _
  | ok =>
    apply Guarded.success
    rw [answering, updateTrip_done g t n hv]
    rfl

theorem guarded_deleteTrip (id : Ident) : Guarded g (answering .done (g.deleteTrip id)) := by
  cases h : g.trips[id]? with
  | none =>
    rw [deleteTrip, h]
    exact .unchanged g _
  | some t =>
    rw [deleteTrip_eq g t h]
    exact .success rfl

theorem guarded_editTrip (id : Ident) (f : Trip R → Option (Trip R)) :
    Guarded g (answering .done (g.editTrip id f)) := by
  rw [editTrip_eq]
  split
  · exact .success rfl
  · exact .unchanged g _

theorem guarded_editCalls (id : Ident) (f : List (Call R) → Option (List (Call R))) :
    Guarded g (answering .done (g.editCalls id f)) := by
  rw [editCalls_eq]
  split
  · exact .success rfl
  · exact .unchanged g _

end Trips

section Edits

variable [Geometry R] (g : Schedule R)

theorem guarded_insertStopTime (trip stop : Ident) (arrival departure : Int)
    (distance : Option R) :
    Guarded g (answering .done (g.insertStopTime trip stop arrival departure distance)) := by
  rw [insertStopTime]
  split
  · exact .unchanged g _
  · exact guarded_editCalls g trip _

/-- Storing a shape always stores it: its reply tells whether the id was new. -/
theorem guarded_apply (e : Edit R) (he : ∀ s, e ≠ .addShape s) : Guarded g (g.apply e) := by
  cases e with
  | addAgency id timezone => exact guarded_addAgency g id timezone
  | addStop stop => exact guarded_addStop g stop
  | addStops stops => exact guarded_addStops g stops
  | removeStop id => exact guarded_removeStop g id
  | moveStop id location => exact guarded_moveStop g id location
  | nameStop id name => exact .success rfl
  | addRoute route collection => exact guarded_addRoute g route collection
  | narrateCollection id n => exact .success rfl
  | addTrip t n => exact guarded_addTrip g t n
  | updateTrip t n => exact guarded_updateTrip g t n
  | deleteTrip id => exact guarded_deleteTrip g id
  | narrateTrip id n => exact .success rfl
  | deleteStopTime trip stop => exact guarded_editCalls g trip _
  | insertStopTime trip stop arrival departure distance =>
    exact guarded_insertStopTime g trip stop arrival departure distance
  | updateStopTime trip stop arrival departure newArrival newDeparture =>
    exact guarded_editCalls g trip _
  | replaceStopTimes trip calls => exact guarded_editCalls g trip _
  | addShape s => exact (he s rfl).elim
  | removeShape id => exact guarded_removeShape g id
  | setTripShape trip shape => exact guarded_editTrip g trip _

/-- An edit other than the storing of a shape that replies that it did nothing, or why it was
refused, leaves the whole schedule as it was, its version and its narratives too. Once a trip is
valid nothing goes wrong with it any more: its route is there or can be made even after the trip is
stored, it is refused only if its id is taken, and in place of an old version it is always
stored. -/
theorem refused_edit_changes_nothing (g : Schedule R) :
    (∀ e : Edit R, (∀ s, e ≠ .addShape s) → (g.apply e).2.isFailure → (g.apply e).1 = g) ∧
    (∀ t : Trip R, g.validate t = .ok () → ∃ h,
      ensureRoute { g with trips := g.trips.insert t.id t } t.route = (h, .ok ())) ∧
    (∀ (t : Trip R) (n : Option TripNarrative), g.validate t = .ok () →
      (g.addTrip t n).2 = .ok (!g.trips.contains t.id)) ∧
    ∀ (t : Trip R) (n : Option TripNarrative), g.validate t = .ok () →
      (g.updateTrip t n).2 = .ok true := by
  have hroute : ∀ t : Trip R, g.validate t = .ok () → ∃ h,
      ensureRoute { g with trips := g.trips.insert t.id t } t.route = (h, .ok ()) := by
    intro t hv
    obtain ⟨_, _, hknown⟩ := (validate_eq_ok g t).1 hv
    exact ⟨_, ensureRoute_eq { g with trips := g.trips.insert t.id t } t.route hknown⟩
  have hadd : ∀ (t : Trip R) (n : Option TripNarrative), g.validate t = .ok () →
      (g.addTrip t n).2 = .ok (!g.trips.contains t.id) := by
    intro t n hv
    by_cases hn : t.id ∈ g.trips
    · simp [addTrip, hv, hn]
    · have hcontains : g.trips.contains t.id = false := by
        rwa [Std.ExtTreeMap.mem_iff_contains, Bool.not_eq_true] at hn
      rw [addTrip_eq g t n hv hn, hcontains]
      rfl
  exact ⟨guarded_apply g, hroute, hadd, fun t n => updateTrip_done g t n⟩

end Edits

theorem refused_edit_changes_nothing_shortenedDay :
    let g := empty.run shortenedDay
    let call : Call Float :=
      { stop := ⟨"A", "X"⟩, published := none, arrival := 0, departure := 0, distance := 0 }
    let t : Trip Float := .ofCalls ⟨"A", "T2"⟩ ⟨"A", "R'"⟩ none ⟨"A", "S"⟩ [call]
    g.validate t = .ok () ∧
    (g.apply (.addTrip t none)).2.isFailure ∧ (g.apply (.addTrip t none)).1 = g ∧
    (∃ h, ensureRoute { g with trips := g.trips.insert t.id t } t.route = (h, .ok ())) ∧
    (g.addTrip t none).2 = .ok (!g.trips.contains t.id) ∧
    (g.updateTrip t none).2 = .ok true := by
  intro g call t
  obtain ⟨hunchanged, hroute, hadd, hupdate⟩ := refused_edit_changes_nothing g
  have hvalid : g.validate t = .ok () := by
    rw [validate_eq_ok]
    exact ⟨List.cons_ne_nil _ _, by decide +kernel, .inr (by decide +kernel)⟩
  have hfail : (g.apply (.addTrip t none)).2.isFailure := by decide +kernel
  exact ⟨hvalid, hfail, hunchanged _ nofun hfail, hroute t hvalid, hadd t none hvalid,
    hupdate t none hvalid⟩

end Timetable.Schedule

import Timetable.Proofs.Change.Undoing

namespace Timetable.Schedule

variable {R : Type} [Zero R]

theorem tripNarratives_deleteTrip (g : Schedule R) (id : Ident) (stored : id ∈ g.trips) :
    (g.deleteTrip id).1.tripNarratives = g.tripNarratives.erase id := by
  obtain ⟨t, ht⟩ := Table.exists_of_mem stored
  obtain ⟨blocks, hd, _⟩ := detach_eq { g with trips := g.trips.erase id } t
  rw [deleteTrip_eq g t ht, withdraw, hd]
  rfl

theorem tripNarratives_addTrip {g : Schedule R} {t : Trip R} (hv : g.validate t = .ok ())
    (hn : t.id ∉ g.trips) : (g.addTrip t none).1.tripNarratives = g.tripNarratives := by
  have hroute : (g.withRoute t.route).tripNarratives = g.tripNarratives := by
    rw [withRoute]
    split
    · rfl
    · rw [fileRoute_eq]
  rw [addTrip_eq g t none hv hn, ← hroute]
  rfl

section Deletes

variable (s : Schedule R × TripChanges R) (ids : List Ident) (id : Ident)

@[simp] theorem deleted_deleteNoting (i : Ident) : (deleteNoting s i).2.deleted = s.2.deleted := by
  obtain ⟨g, c⟩ := s
  cases h : g.trips[i]? with
  | none => rw [deleteNoting_absent c h]
  | some t =>
    rw [deleteNoting_eq c h]
    rfl

@[simp] theorem trips_deleteNoting (i : Ident) :
    (deleteNoting s i).1.trips = s.1.trips.erase i := by
  obtain ⟨g, c⟩ := s
  cases h : g.trips[i]? with
  | none => rw [deleteNoting_absent c h, Table.erase_eq_self h]
  | some t => simp [deleteNoting_eq c h]

@[simp] theorem mem_trips_deleteNoting (i : Ident) :
    id ∈ (deleteNoting s i).1.trips ↔ id ∈ s.1.trips ∧ i ≠ id := by
  simp [and_comm]

theorem tripNarratives_deleteNoting (i : Ident) : (deleteNoting s i).1.tripNarratives[id]? =
    if i = id ∧ id ∈ s.1.trips then none else s.1.tripNarratives[id]? := by
  obtain ⟨g, c⟩ := s
  cases h : g.trips[i]? with
  | none =>
    have habsent : i ∉ g.trips := (getElem?_eq_none_iff _ _).1 h
    rw [deleteNoting_absent c h, if_neg]
    rintro ⟨rfl, hmem⟩
    exact habsent hmem
  | some t =>
    have hstored : i ∈ g.trips := Table.mem_of_getElem? h
    rw [deleteNoting_eq c h, tripNarratives_deleteTrip g i hstored, Table.getElem?_erase]
    by_cases he : i = id
    · subst he
      simp [hstored]
    · simp [he]

@[simp] theorem deleted_deletes : (ids.foldl deleteNoting s).2.deleted = s.2.deleted := by
  induction ids generalizing s with
  | nil => rfl
  | cons i ids ih => simp [ih]

@[simp] theorem mem_trips_deletes :
    id ∈ (ids.foldl deleteNoting s).1.trips ↔ id ∈ s.1.trips ∧ id ∉ ids := by
  induction ids generalizing s with
  | nil => simp
  | cons i ids ih =>
    rw [List.foldl_cons, ih, mem_trips_deleteNoting, List.mem_cons, not_or, and_assoc,
      ne_comm]

theorem tripNarratives_deletes : (ids.foldl deleteNoting s).1.tripNarratives[id]? =
    if id ∈ ids ∧ id ∈ s.1.trips then none else s.1.tripNarratives[id]? := by
  induction ids generalizing s with
  | nil => simp
  | cons i ids ih =>
    simp only [List.foldl_cons, ih, mem_trips_deleteNoting, tripNarratives_deleteNoting]
    by_cases he : i = id
    · simp [he]
    · simp [he, Ne.symm he]

end Deletes

section Modifies

variable (s : Schedule R × TripChanges R) (ms : List (TripModification R)) (id : Ident)

theorem modifies_keep :
    (ms.foldl modifyNoting s).1.tripNarratives = s.1.tripNarratives ∧
    (id ∈ (ms.foldl modifyNoting s).1.trips ↔ id ∈ s.1.trips) ∧
    (ms.foldl modifyNoting s).2.deleted = s.2.deleted := by
  induction ms generalizing s with
  | nil => exact ⟨rfl, .rfl, rfl⟩
  | cons m ms ih =>
    obtain ⟨hnarratives, htrips, hdeleted⟩ := ih (modifyNoting s m)
    rw [List.foldl_cons, hnarratives, htrips, hdeleted]
    obtain ⟨g, c⟩ := s
    cases h : g.trips[m.trip]? with
    | none =>
      rw [modifyNoting_absent c h]
      exact ⟨rfl, .rfl, rfl⟩
    | some t =>
      have hstored : m.trip ∈ g.trips := Table.mem_of_getElem? h
      rw [Shortened.modifyNoting_eq h, TripChanges.modify_eq]
      exact ⟨rfl, Table.mem_insert_of_mem hstored, rfl⟩

end Modifies

section Adds

variable (s : Schedule R × TripChanges R) (ts : List (Trip R)) (id : Ident)

@[simp] theorem tripNarratives_adds :
    (ts.foldl addNoting s).1.tripNarratives = s.1.tripNarratives := by
  induction ts generalizing s with
  | nil => rfl
  | cons t ts ih =>
    obtain ⟨g, c⟩ := s
    rw [List.foldl_cons, ih]
    rcases addNoting_cases g t c with hrefused | ⟨hv, hn⟩
    · rw [hrefused]
    · rw [addNoting_eq c hv hn, tripNarratives_addTrip hv hn]

theorem mem_trips_adds (h : id ∈ s.1.trips) : id ∈ (ts.foldl addNoting s).1.trips := by
  induction ts generalizing s with
  | nil => exact h
  | cons t ts ih =>
    obtain ⟨g, c⟩ := s
    apply ih
    rcases addNoting_cases g t c with hrefused | ⟨hv, hn⟩
    · rwa [hrefused]
    · rw [addNoting_eq c hv hn, trips_addTrip hv hn]
      exact Table.mem_insert_iff.2 (.inr h)

theorem mem_deleted_addTrips (g : Schedule R) (c : TripChanges R) (h : c.deleted = []) :
    id ∈ (ts.foldl addNoting (g, c)).2.deleted ↔
      id ∈ (ts.foldl addNoting (g, c)).1.trips ∧ id ∉ g.trips := by
  induction ts using List.reverseRecOn with
  | nil => simp [h]
  | append_singleton ts t ih =>
    have hkept := mem_trips_adds (g, c) ts t.id
    rw [List.foldl_append, List.foldl_cons, List.foldl_nil]
    generalize ts.foldl addNoting (g, c) = s at ih hkept ⊢
    obtain ⟨g', c'⟩ := s
    rcases addNoting_cases g' t c' with hrefused | ⟨hv, hn⟩
    · rwa [hrefused]
    · have hnew : t.id ∉ g.trips := fun hmem => hn (hkept hmem)
      rw [addNoting_eq c' hv hn, trips_addTrip hv hn, TripChanges.delete, List.mem_append,
        List.mem_singleton, Table.mem_insert_iff, ih]
      by_cases he : t.id = id
      · subst he
        simp [hnew]
      · simp [he, Ne.symm he]

end Adds

section Apply

variable (g : Schedule R) (c : TripChanges R) (id : Ident)

theorem tripNarratives_applyTrips : (g.applyTrips c).1.tripNarratives[id]? =
    if id ∈ c.deleted ∧ id ∈ g.trips then none else g.tripNarratives[id]? := by
  simp [applyTrips, (modifies_keep _ c.modified id).1, tripNarratives_deletes]

/-- A trip that is noted for deletion is there, and either it is new or the change set has deleted
another one of its id. -/
theorem mem_deleted_applyTrips : id ∈ (g.applyTrips c).2.deleted ↔
    id ∈ (g.applyTrips c).1.trips ∧ (id ∈ g.trips → id ∈ c.deleted) := by
  have hbefore := mem_trips_deletes (g, .empty) c.deleted id
  have hempty := deleted_deletes (g, .empty) c.deleted
  rw [applyTrips]
  generalize c.deleted.foldl deleteNoting (g, .empty) = s at hbefore hempty ⊢
  obtain ⟨_, htrips, hdeleted⟩ := modifies_keep s c.modified id
  rw [← htrips] at hbefore
  rw [hempty] at hdeleted
  generalize c.modified.foldl modifyNoting s = s at hbefore hdeleted ⊢
  rw [mem_deleted_addTrips c.added id s.1 s.2 hdeleted, hbefore]
  simp

theorem tripNarratives_undone :
    let done := g.applyTrips c
    let undone := done.1.applyTrips done.2
    undone.1.tripNarratives[id]? =
      if id ∈ g.trips ∧ id ∈ c.deleted ∨ id ∈ done.1.trips ∧ id ∉ g.trips then none
      else g.tripNarratives[id]? := by
  intro done undone
  have hundone : undone.1.tripNarratives[id]? = _ := tripNarratives_applyTrips done.1 done.2 id
  have hnoted : id ∈ done.2.deleted ↔ _ := mem_deleted_applyTrips g c id
  have hdone : done.1.tripNarratives[id]? = _ := tripNarratives_applyTrips g c id
  simp only [hundone, hnoted, hdone]
  by_cases hstored : id ∈ g.trips
  · by_cases hdeleted : id ∈ c.deleted
    · simp [hstored, hdeleted]
    · simp [hstored, hdeleted]
  · by_cases hnew : id ∈ done.1.trips
    · simp [hstored, hnew, done]
    · simp [hstored, hnew, done]

end Apply

/-- Whatever a change set of trips asks for, what is noted while it is applied invents no narrative,
and leaves a trip the narrative that it had, or none, if and only if there was none, or the set
deletes no trip of the id that was there and brings up none that was not. -/
theorem applyTrips_narratives_undone_iff (g : Schedule R) (c : TripChanges R) (id : Ident) :
    let done := g.applyTrips c
    let undone := done.1.applyTrips done.2
    (undone.1.tripNarratives[id]? = none ∨ undone.1.tripNarratives[id]? = g.tripNarratives[id]?) ∧
    (undone.1.tripNarratives[id]? = g.tripNarratives[id]? ↔ (id ∈ g.tripNarratives →
      (id ∈ g.trips → id ∉ c.deleted) ∧ (id ∈ done.1.trips → id ∈ g.trips))) := by
  intro done undone
  have hundone : undone.1.tripNarratives[id]? = _ := tripNarratives_undone g c id
  rw [hundone]
  split
  · next hlost =>
    have hnot : ¬((id ∈ g.trips → id ∉ c.deleted) ∧ (id ∈ done.1.trips → id ∈ g.trips)) := by
      rintro ⟨hundeleted, hold⟩
      rcases hlost with ⟨hstored, hdeleted⟩ | ⟨hcome, hnew⟩
      · exact hundeleted hstored hdeleted
      · exact hnew (hold hcome)
    rw [imp_iff_not hnot]
    exact ⟨.inl rfl, eq_comm.trans (getElem?_eq_none_iff _ _)⟩
  · next hkept =>
    rw [not_or, not_and, not_and_not_right] at hkept
    exact ⟨.inr rfl, iff_of_true rfl fun _ => hkept⟩

def narratedDay : List (Edit Float) :=
  let call : Call Float :=
    { stop := ⟨"A", "X"⟩, published := none, arrival := 0, departure := 0, distance := 0 }
  [.addAgency "A" "UTC",
    .addTrip (.ofCalls ⟨"A", "T"⟩ ⟨"A", "R"⟩ none ⟨"A", "S"⟩ [call])
      (some { headsign := some "X" })]

/-- The trip comes back without its narrative. -/
theorem applyTrips_silences_narratedDay :
    let id : Ident := ⟨"A", "T"⟩
    let g := empty.run narratedDay
    let c : TripChanges Float := { deleted := [id] }
    let done := g.applyTrips c
    let undone := done.1.applyTrips done.2
    g.Reachable ∧
    (∀ i ∈ c.deleted, ∃ t, g.trips[i]? = some t ∧ t.calls ≠ []) ∧
    id ∈ undone.1.trips ∧
    g.tripNarratives[id]? = some { headsign := some "X" } ∧
    undone.1.tripNarratives[id]? = none ∧
    ¬∀ i : Ident, undone.1.tripNarratives[i]? = g.tripNarratives[i]? := by
  intro id g c done undone
  have hstored : (g.trips[id]?).any fun t => !t.calls.isEmpty := by decide +kernel
  have hback : id ∈ undone.1.trips := by decide +kernel
  have hbefore : g.tripNarratives[id]? = some { headsign := some "X" } := by decide +kernel
  have hafter : undone.1.tripNarratives[id]? = none := by decide +kernel
  have hcalls : ∀ i ∈ c.deleted, ∃ t, g.trips[i]? = some t ∧ t.calls ≠ [] := by
    intro i hi
    obtain rfl : i = id := List.mem_singleton.1 hi
    obtain ⟨t, ht, hne⟩ := (Option.any_eq_true _ _).1 hstored
    refine ⟨t, ht, fun hnil => ?_⟩
    rw [hnil] at hne
    cases hne
  refine ⟨⟨narratedDay, rfl⟩, hcalls, hback, hbefore, hafter, fun h => ?_⟩
  rw [h id, hbefore] at hafter
  cases hafter

end Timetable.Schedule

import Timetable.Proofs.Schedule.Growth
import Timetable.Resolve

namespace Timetable

variable {R : Type}

namespace Resolver

def has (r : Resolver R) : EntityKind → Ident → Bool
  | .trip, id => (r.view.trip? id).isSome
  | .stop, id => (r.view.stop? id).isSome
  | .route, id => (r.view.route? id).isSome
  | .shape, id => (r.view.shape? id).isSome
  | .service, id => r.hasDates id

/-- The preference at which a bare id is found, and the id of the entity there: that under the first
candidate agency which has one, or after all candidates that which the bare id writes. -/
inductive Matches (r : Resolver R) (kind : EntityKind) (bare : String) : Nat → Ident → Prop
  | candidate {before after : List String} {agency : String}
      (split : r.candidates = before ++ agency :: after)
      (vain : ∀ other ∈ before, ¬r.has kind ⟨other, bare⟩)
      (found : r.has kind ⟨agency, bare⟩) : Matches r kind bare before.length ⟨agency, bare⟩
  | written {id : Ident} (named : kind ≠ .service)
      (vain : ∀ agency ∈ r.candidates, ¬r.has kind ⟨agency, bare⟩)
      (reads : Ident.parse? bare = some id) (found : r.has kind id) :
      Matches r kind bare r.candidates.length id

section Lookup

variable {r : Resolver R} {kind : EntityKind} {id : Ident}

theorem isSome_lookup : (r.lookup kind id).isSome = r.has kind id := by
  cases kind with
  | trip | stop | route | shape => exact Option.isSome_map
  | service =>
    rw [lookup, has]
    cases r.hasDates id <;> rfl

theorem lookup_eq_none (h : ¬r.has kind id) : r.lookup kind id = none := by
  rw [← isSome_lookup] at h
  simpa using h

theorem lookup_self (hk : kind ≠ .route) (h : r.has kind id) : r.lookup kind id = some id := by
  cases kind with
  | trip | stop | shape =>
    obtain ⟨x, hx⟩ := Option.isSome_iff_exists.1 h
    rw [lookup, hx, Option.map_some]
  | route => exact (hk rfl).elim
  | service => exact if_pos h

end Lookup

variable {r r' : Resolver R} {kind : EntityKind} {bare : String} {n : Nat} {id : Ident}

namespace Matches

theorem has (h : r.Matches kind bare n id) : r.has kind id := by
  cases h with
  | candidate _ _ found => exact found
  | written _ _ _ found => exact found

theorem resolve_eq (h : r.Matches kind bare n id) {x : Ident} (hx : r.lookup kind id = some x) :
    r.resolve kind bare = x := by
  cases h with
  | @candidate before after agency split vain found =>
    have hunder : r.underCandidate kind bare = some x := by
      rw [underCandidate, List.findSome?_eq_some_iff]
      exact ⟨before, agency, after, split, hx, fun other ho => lookup_eq_none (vain other ho)⟩
    rw [resolve, hunder, Option.some_or, Option.getD_some]
  | written named vain reads found =>
    have hunder : r.underCandidate kind bare = none := by
      rw [underCandidate, List.findSome?_eq_none_iff]
      exact fun agency ha => lookup_eq_none (vain agency ha)
    rw [resolve, hunder, asWritten, if_neg named, reads, Option.bind_some, hx, Option.none_or,
      Option.getD_some]

end Matches

section Existence

theorem matches_or_vain {before after : List String} (split : r.candidates = before ++ after) :
    (∃ m < before.length, ∃ id, r.Matches kind bare m id) ∨
      ∀ agency ∈ before, ¬r.has kind ⟨agency, bare⟩ := by
  cases hfind : before.find? fun agency => r.has kind ⟨agency, bare⟩ with
  | none => exact .inr (List.find?_eq_none.1 hfind)
  | some first =>
    left
    obtain ⟨found, tried, rest, rfl, hvain⟩ := List.find?_eq_some_iff_append.1 hfind
    have hfirst : r.candidates = tried ++ first :: (rest ++ after) := by
      rw [split, List.append_assoc, List.cons_append]
    have hvain : ∀ other ∈ tried, ¬r.has kind ⟨other, bare⟩ :=
      fun other ho => by simpa using hvain other ho
    exact ⟨tried.length, by simp, _, .candidate hfirst hvain found⟩

theorem exists_matches_iff : (∃ n id, r.Matches kind bare n id) ↔
    (∃ agency ∈ r.candidates, r.has kind ⟨agency, bare⟩) ∨
      kind ≠ .service ∧ ∃ id, Ident.parse? bare = some id ∧ r.has kind id := by
  constructor
  · rintro ⟨n, id, h⟩
    cases h with
    | @candidate before after agency split vain found =>
      exact .inl ⟨agency, split ▸ List.mem_append_right _ List.mem_cons_self, found⟩
    | written named vain reads found => exact .inr ⟨named, id, reads, found⟩
  · intro h
    rcases matches_or_vain (List.append_nil _).symm with ⟨m, -, id, hm⟩ | hvain
    · exact ⟨m, id, hm⟩
    · rcases h with ⟨agency, ha, found⟩ | ⟨named, id, reads, found⟩
      · exact (hvain agency ha found).elim
      · exact ⟨_, id, .written named hvain reads found⟩

theorem resolve_of_not_matches (h : ¬∃ n id, r.Matches kind bare n id) :
    r.resolve kind bare = ⟨r.defaultAgency, bare⟩ := by
  rw [exists_matches_iff, not_or] at h
  have hunder : r.underCandidate kind bare = none := by
    rw [underCandidate, List.findSome?_eq_none_iff]
    exact fun agency ha => lookup_eq_none fun hf => h.1 ⟨agency, ha, hf⟩
  have hwritten : r.asWritten kind bare = none := by
    rw [asWritten]
    split
    · rfl
    · next named =>
      rw [Option.bind_eq_none_iff]
      exact fun id reads => lookup_eq_none fun hf => h.2 ⟨named, id, reads, hf⟩
  rw [resolve, hunder, hwritten, Option.none_or, Option.getD_none]

end Existence

/-- What would be found after some candidates have been tried in vain is found there, or one of them
has the entity. -/
theorem matches_up_to {before after : List String} (split : r.candidates = before ++ after)
    (h : (∀ agency ∈ before, ¬r.has kind ⟨agency, bare⟩) → r.Matches kind bare before.length id) :
    ∃ m ≤ before.length, ∃ id', r.Matches kind bare m id' ∧ (m = before.length → id' = id) := by
  rcases matches_or_vain split with ⟨m, hm, id', hmatches⟩ | hvain
  · exact ⟨m, Nat.le_of_lt hm, id', hmatches, fun he => (Nat.ne_of_lt hm he).elim⟩
  · exact ⟨_, Nat.le_refl _, id, h hvain, fun _ => rfl⟩

/-- Where there are more entities a bare id is found at the same preference or at an earlier one. -/
theorem Matches.mono (h : r.Matches kind bare n id) (hc : r'.candidates = r.candidates)
    (more : ∀ id, r.has kind id → r'.has kind id) :
    ∃ m ≤ n, ∃ id', r'.Matches kind bare m id' ∧ (m = n → id' = id) := by
  cases h with
  | candidate split vain found =>
    rw [← hc] at split
    exact matches_up_to split fun hvain => .candidate split hvain (more _ found)
  | written named vain reads found =>
    rw [← hc]
    exact matches_up_to (List.append_nil _).symm fun hvain =>
      .written named hvain reads (more _ found)

section Scheduled

variable {g h : Schedule R}

theorem Matches.collection (hm : r.Matches .route bare n id) (hg : g.Filed)
    (hview : r.view = g.view) : ∃ c, g.collections[r.resolve .route bare]? = some c ∧
      c.id = r.resolve .route bare ∧ c.routes.count id = 1 := by
  have hlookup : r.lookup .route id = g.collectionOf? id := by
    rw [lookup, hview]
    rfl
  have hsome : (r.lookup .route id).isSome := isSome_lookup.trans hm.has
  obtain ⟨collection, hcollection⟩ := Option.isSome_iff_exists.1 hsome
  rw [hm.resolve_eq hcollection]
  rw [hlookup] at hcollection
  obtain ⟨c, hc⟩ := Table.exists_of_mem (hg.collected id collection hcollection)
  obtain ⟨hid, -, hroutes⟩ := hg.collections collection c hc
  exact ⟨c, hc, hid, hroutes.count_eq_one hcollection⟩

theorem lookup_of_grows (hgrows : g.Grows h) (hview : r.view = g.view) (hview' : r'.view = h.view)
    (hdates : r'.hasDates = r.hasDates) {x : Ident} (hx : r.lookup kind id = some x) :
    r'.lookup kind id = some x := by
  have hkeep {V : Type} {t u : Table Ident V} (hmem : id ∈ t → id ∈ u)
      (ht : t[id]?.map (fun _ => id) = some x) : u[id]?.map (fun _ => id) = some x := by
    obtain ⟨v, hv, rfl⟩ := Option.map_eq_some_iff.1 ht
    obtain ⟨w, hw⟩ := Table.exists_of_mem (hmem (Table.mem_of_getElem? hv))
    rw [hw, Option.map_some]
  unfold lookup at hx ⊢
  rw [hview] at hx
  rw [hview', hdates]
  cases kind with
  | trip => exact hkeep (hgrows.trips id) hx
  | stop => exact hkeep (hgrows.stops id) hx
  | route => exact hgrows.routes id x hx
  | shape => exact hkeep (hgrows.shapes id) hx
  | service => exact hx

theorem has_of_grows (hgrows : g.Grows h) (hview : r.view = g.view) (hview' : r'.view = h.view)
    (hdates : r'.hasDates = r.hasDates) (hid : r.has kind id) : r'.has kind id := by
  rw [← isSome_lookup, Option.isSome_iff_exists] at hid ⊢
  exact hid.imp fun _ => lookup_of_grows hgrows hview hview' hdates

theorem Matches.grown (hm : r.Matches kind bare n id) (hgrows : g.Grows h)
    (hc : r'.candidates = r.candidates) (hview : r.view = g.view) (hview' : r'.view = h.view)
    (hdates : r'.hasDates = r.hasDates) : ∃ m ≤ n, ∃ id', r'.Matches kind bare m id' ∧
      (m = n → id' = id ∧ r'.resolve kind bare = r.resolve kind bare) := by
  obtain ⟨m, hle, id', hm', hsame⟩ :=
    hm.mono hc fun _ => has_of_grows hgrows hview hview' hdates
  refine ⟨m, hle, id', hm', fun he => ⟨hsame he, ?_⟩⟩
  obtain rfl := hsame he
  obtain ⟨x, hx⟩ := Option.isSome_iff_exists.1 (isSome_lookup.trans hm.has)
  rw [hm.resolve_eq hx, hm'.resolve_eq (lookup_of_grows hgrows hview hview' hdates hx)]

end Scheduled

/-- A bare id is found if some candidate agency has the entity, or else if it is written like the id
of one. A trip, stop, shape or service is resolved to the id found, a route of a schedule to the
collection that lists it, and what is not found to an id of the default agency. Where entities are
added and the candidates stay, what was found is found at the same preference or at an earlier one,
and at the same preference it is the same; in a schedule so is the collection of a route. -/
theorem resolve_by_preference [Geometry R] (r : Resolver R) (bare : String) :
    (∀ kind, (∃ n id, r.Matches kind bare n id) ↔
      (∃ agency ∈ r.candidates, r.has kind ⟨agency, bare⟩) ∨
        kind ≠ .service ∧ ∃ id, Ident.parse? bare = some id ∧ r.has kind id) ∧
    (∀ kind n id, kind ≠ .route → r.Matches kind bare n id →
      r.resolve kind bare = id ∧ r.has kind id) ∧
    (∀ g : Schedule R, g.Reachable → r.view = g.view → ∀ n id, r.Matches .route bare n id →
      ∃ c, g.collections[r.resolve .route bare]? = some c ∧ c.id = r.resolve .route bare ∧
        c.routes.count id = 1) ∧
    (∀ kind, (¬∃ n id, r.Matches kind bare n id) →
      r.resolve kind bare = ⟨r.defaultAgency, bare⟩) ∧
    ∀ r' : Resolver R, r'.candidates = r.candidates → ∀ kind n id, r.Matches kind bare n id →
      ((∀ id, r.has kind id → r'.has kind id) →
        ∃ m ≤ n, ∃ id', r'.Matches kind bare m id' ∧ (m = n → id' = id)) ∧
      ∀ (g : Schedule R) (edits : List (Edit R)), (∀ e ∈ edits, e.adds) → r.view = g.view →
        r'.view = (g.run edits).view → r'.hasDates = r.hasDates →
        ∃ m ≤ n, ∃ id', r'.Matches kind bare m id' ∧
          (m = n → id' = id ∧ r'.resolve kind bare = r.resolve kind bare) := by
  refine ⟨fun kind => exists_matches_iff, fun kind n id hk hm => ⟨?_, hm.has⟩,
    fun g hg hview n id hm => hm.collection hg.filed hview, fun kind => resolve_of_not_matches,
    fun r' hc kind n id hm => ⟨hm.mono hc, fun g edits hadds hview hview' hdates => ?_⟩⟩
  · exact hm.resolve_eq (lookup_self hk hm.has)
  · exact hm.grown (Schedule.grows_run g hadds) hc hview hview' hdates

section Border

/-- A route and a trip of one name in the second of two agencies. -/
def borderDay : List (Edit Float) :=
  let trip : Trip Float := .ofCalls ⟨"2", "R"⟩ ⟨"2", "R"⟩ none ⟨"2", "S"⟩
    [{ stop := ⟨"2", "X"⟩, published := none, arrival := 0, departure := 0, distance := 0 }]
  [.addAgency "1" "UTC", .addAgency "2" "UTC", .addRoute ⟨"2", "R"⟩ ⟨"2", "C"⟩,
    .addTrip trip none]

/-- A route of the first agency whose name is written like the id of the other one. -/
def borderRoute : List (Edit Float) := [.addRoute ⟨"1", "2_R"⟩ ⟨"1", "D"⟩]

def ofFirstAgency (g : Schedule Float) : Resolver Float :=
  { view := g.view, hasDates := fun _ => false, configured := ["1"] }

theorem resolve_by_preference_borderDay :
    let g := Schedule.empty.run borderDay
    let r := ofFirstAgency g
    let r' := ofFirstAgency (g.run borderRoute)
    g.Reachable ∧ (∀ e ∈ borderRoute, e.adds) ∧ r'.candidates = r.candidates ∧
    (∀ id, r.has .route id → r'.has .route id) ∧
    r.Matches .trip "2_R" 1 ⟨"2", "R"⟩ ∧ r.resolve .trip "2_R" = ⟨"2", "R"⟩ ∧
    r.Matches .route "2_R" 1 ⟨"2", "R"⟩ ∧
    (∃ c, g.collections[r.resolve .route "2_R"]? = some c ∧ c.id = r.resolve .route "2_R" ∧
      c.routes.count ⟨"2", "R"⟩ = 1) ∧
    (∃ m ≤ 1, ∃ id, r'.Matches .route "2_R" m id ∧ (m = 1 → id = ⟨"2", "R"⟩)) ∧
    (∃ m ≤ 1, ∃ id, r'.Matches .trip "2_R" m id ∧
      (m = 1 → id = ⟨"2", "R"⟩ ∧ r'.resolve .trip "2_R" = r.resolve .trip "2_R")) ∧
    r'.resolve .route "2_R" = ⟨"1", "D"⟩ ∧ r.resolve .stop "2_R" = ⟨"1", "2_R"⟩ := by
  intro g r r'
  have hreachable : g.Reachable := ⟨borderDay, rfl⟩
  have hadds : ∀ e ∈ borderRoute, e.adds := by decide
  have hmore : ∀ id, r.has .route id → r'.has .route id :=
    fun _ => has_of_grows (Schedule.grows_run g hadds) rfl rfl rfl
  have htrip : r.Matches .trip "2_R" 1 ⟨"2", "R"⟩ :=
    .written (by decide) (by decide +kernel) (by decide +kernel) (by decide +kernel)
  have hroute : r.Matches .route "2_R" 1 ⟨"2", "R"⟩ :=
    .written (by decide) (by decide +kernel) (by decide +kernel) (by decide +kernel)
  obtain ⟨hexists, hfound, hcollection, hmissing, hgrown⟩ := resolve_by_preference r "2_R"
  have hstops : g.stops = ∅ := by
    apply Std.ExtTreeMap.isEmpty_iff.1
    decide +kernel
  have hnone : ¬∃ n id, r.Matches .stop "2_R" n id := by
    rintro ⟨n, id, h⟩
    have hid : (g.stops[id]?).isSome := h.has
    rw [hstops, Std.ExtTreeMap.getElem?_empty] at hid
    cases hid
  refine ⟨hreachable, hadds, rfl, hmore, htrip, (hfound .trip 1 _ (by decide) htrip).1, hroute,
    hcollection g hreachable rfl 1 _ hroute, (hgrown r' rfl .route 1 _ hroute).1 hmore,
    (hgrown r' rfl .trip 1 _ htrip).2 g borderRoute hadds rfl rfl rfl, by decide +kernel,
    hmissing .stop hnone⟩

end Border

end Resolver

end Timetable

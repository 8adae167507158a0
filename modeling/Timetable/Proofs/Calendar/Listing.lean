import Timetable.Proofs.Calendar.Service
import Timetable.Resolve

namespace Timetable

namespace Calendar

/-- The calendar of services, with further ones inserted one after the other. -/
def made (given inserted : List Service) : Calendar :=
  inserted.foldl (fun c s => (c.insert s).1) (ofServices given)

section Made

variable (given inserted : List Service)

theorem services_made : (made given inserted).services =
    (given ++ inserted).foldl (fun t s => t.insert s.id s) ∅ := by
  induction inserted using List.reverseRecOn with
  | nil => rw [made, List.foldl_nil, ofServices, Table.ofEntries, List.foldl_map, List.append_nil]
  | append_singleton inserted s ih =>
    rw [made, List.foldl_append, ← List.append_assoc, List.foldl_append, ← ih]
    rfl

theorem service?_made (id : Ident) : (made given inserted).service? id =
    (given ++ inserted).reverse.find? fun s => s.id = id := by
  rw [service?, services_made, Table.getElem?_foldl_insert Service.id,
    Std.ExtTreeMap.getElem?_empty, Option.or_none]

theorem keyedBy_made : Table.KeyedBy Service.id (made given inserted).services := by
  intro id s h
  have hs : (made given inserted).service? id = some s := h
  rw [service?_made] at hs
  simpa using List.find?_some hs

end Made

variable {c : Calendar} {id : Ident} {d : Date}

theorem isActive_iff : c.isActive id d ↔ ∃ s, c.service? id = some s ∧ s.runsOn d := by
  unfold isActive
  split
  · next s h => simp [h]
  · next h => simp [h]

@[simp] theorem mem_servicesOn : id ∈ c.servicesOn d ↔ c.isActive id d := by
  rw [isActive_iff, servicesOn, List.mem_map]
  constructor
  · rintro ⟨⟨id, s⟩, he, rfl⟩
    obtain ⟨hmem, hruns⟩ := List.mem_filter.1 he
    exact ⟨s, Std.ExtTreeMap.mem_toList_iff_getElem?_eq_some.1 hmem, hruns⟩
  · rintro ⟨s, hs, hruns⟩
    have hmem := Std.ExtTreeMap.mem_toList_iff_getElem?_eq_some.2 hs
    exact ⟨(id, s), List.mem_filter.2 ⟨hmem, hruns⟩, rfl⟩

theorem increasing_servicesOn (c : Calendar) (d : Date) :
    (c.servicesOn d).Pairwise fun i j => compare i j = .lt := by
  rw [servicesOn, List.pairwise_map]
  exact Std.ExtTreeMap.ordered_keys_toList.filter _

/-- The list of a date is what sorting gives, in whatever order the services are gone through. -/
theorem sort_running (hc : Table.KeyedBy Service.id c.services) {services : List Service}
    (hperm : services.Perm c.services.values) (d : Date) :
    Ident.sort ((services.filter (·.runsOn d)).map (·.id)) = c.servicesOn d := by
  have hlist : (c.services.values.filter (·.runsOn d)).map (·.id) = c.servicesOn d := by
    rw [servicesOn, Table.values_eq_map, List.filter_map, List.map_map]
    apply List.map_congr_left
    rintro ⟨id, s⟩ he
    exact hc id s (Std.ExtTreeMap.mem_toList_iff_getElem?_eq_some.1 (List.mem_of_mem_filter he))
  apply Table.mergeSort_eq_of_perm (K := Ident) id
  · rw [← hlist]
    exact (hperm.filter _).map _
  · exact increasing_servicesOn c d

def Dated (c : Calendar) : Prop := ∀ id s, c.service? id = some s → s.Dated

theorem dated_made {given inserted : List Service} (h : ∀ s ∈ given ++ inserted, s.Dated) :
    (made given inserted).Dated := by
  intro id s hs
  rw [service?_made] at hs
  exact h s (List.mem_reverse.1 (List.mem_of_find?_eq_some hs))

/-- Whether a service is listed for a date within the calendar. -/
def Lists (c : Calendar) (id : Ident) : Prop := ∃ d, d.Known ∧ id ∈ c.servicesOn d

namespace Dated

theorem hasDates_iff_active (hc : c.Dated) (id : Ident) :
    c.hasDates id ↔ ∃ d, d.Known ∧ c.isActive id d := by
  simp only [isActive_iff]
  unfold hasDates
  split
  · next s h => simp [h, (hc id s h).hasAnyDate_iff]
  · next h => simp [h]

theorem hasDates_iff (hc : c.Dated) (id : Ident) : c.hasDates id ↔ c.Lists id := by
  rw [hc.hasDates_iff_active, Lists]
  simp

variable {R : Type} {r : Resolver R}

theorem lookup_service (hc : c.Dated) (hr : r.hasDates = c.hasDates) (i j : Ident) :
    r.lookup .service i = some j ↔ i = j ∧ c.Lists i := by
  rw [Resolver.lookup, hr, ← hc.hasDates_iff]
  split
  · next h => simp [h]
  · next h => simp [h]

theorem underCandidate_service (hc : c.Dated) (hr : r.hasDates = c.hasDates) (bare : String)
    (id : Ident) : r.underCandidate .service bare = some id ↔
      ∃ before agency after, r.candidates = before ++ agency :: after ∧ ⟨agency, bare⟩ = id ∧
        c.Lists ⟨agency, bare⟩ ∧ ∀ other ∈ before, ¬c.Lists ⟨other, bare⟩ := by
  have hnone (i : Ident) : r.lookup .service i = none ↔ ¬c.Lists i := by
    rw [Option.eq_none_iff_forall_not_mem]
    simp [hc.lookup_service hr]
  rw [Resolver.underCandidate, List.findSome?_eq_some_iff]
  simp only [hc.lookup_service hr, hnone, and_assoc]

end Dated

/-- In a calendar made of any services a date lists exactly those that run on it, increasing, where
of two services of one id the later counts. If the services are dated, one has dates if it runs on
some date, that is if some date lists it, and bare ids stand for listed services or for a service of
the default agency. -/
theorem hasDates_iff_listed (given inserted : List Service) :
    let c := made given inserted
    (∀ id, c.service? id = (given ++ inserted).reverse.find? fun s => s.id = id) ∧
    (∀ d, (c.servicesOn d).Pairwise (fun i j => compare i j = .lt) ∧
      (∀ id, id ∈ c.servicesOn d ↔ c.isActive id d) ∧
      ∀ services : List Service, services.Perm c.services.values →
        Ident.sort ((services.filter (·.runsOn d)).map (·.id)) = c.servicesOn d) ∧
    (c.Dated → (∀ id, (c.hasDates id ↔ ∃ d, d.Known ∧ c.isActive id d) ∧
        (c.hasDates id ↔ c.Lists id)) ∧
      ∀ {R : Type} (r : Resolver R), r.hasDates = c.hasDates → ∀ bare,
        r.resolve .service bare =
          (r.underCandidate .service bare).getD ⟨r.defaultAgency, bare⟩ ∧
        ∀ id, r.underCandidate .service bare = some id ↔
          ∃ before agency after, r.candidates = before ++ agency :: after ∧ ⟨agency, bare⟩ = id ∧
            c.Lists ⟨agency, bare⟩ ∧ ∀ other ∈ before, ¬c.Lists ⟨other, bare⟩) := by
  intro c
  refine ⟨service?_made given inserted, fun d => ⟨increasing_servicesOn c d,
    fun _ => mem_servicesOn, fun services hperm => ?_⟩, fun hc => ⟨fun id => ?_, ?_⟩⟩
  · exact sort_running (keyedBy_made given inserted) hperm d
  · exact ⟨hc.hasDates_iff_active id, hc.hasDates_iff id⟩
  · intro R r hr bare
    refine ⟨?_, hc.underCandidate_service hr bare⟩
    rw [Resolver.resolve, Resolver.asWritten, if_pos rfl, Option.or_none]

/-- A day of January 2024, which begins on a Monday. -/
def january (day : Nat) : Date := ⟨Date.daysBeforeYear 2024 + day - 1⟩

/-- A daily service, one on Mondays of another agency, and one whose range is inverted. -/
def winter : List Service :=
  [.weekly ⟨"A", "W"⟩ (january 1) (january 14) .everyDay,
    .weekly ⟨"B", "W"⟩ (january 1) (january 14) (.ofDays [.monday]),
    .weekly ⟨"B", "X"⟩ (january 14) (january 1) .everyDay]

/-- In place of the daily service one whose dates are all removed, and one of a single date. -/
def changes : List Service :=
  [((Service.weekly ⟨"A", "W"⟩ (january 1) (january 14) (.ofDays [.monday])).withException
      (january 8) .removed).withException (january 1) .removed,
    .onDates ⟨"A", "X"⟩ [january 20]]

theorem hasDates_iff_listed_winter :
    let c := made winter changes
    let r : Resolver Float :=
      { view := Schedule.empty.view, hasDates := c.hasDates, configured := ["A", "B"] }
    c.Dated ∧ (¬∃ d, d.Known ∧ c.isActive ⟨"A", "W"⟩ d) ∧ ¬c.Lists ⟨"B", "X"⟩ ∧
      c.Lists ⟨"A", "X"⟩ ∧ c.servicesOn (january 8) = [⟨"B", "W"⟩] ∧
      r.resolve .service "W" = ⟨"B", "W"⟩ := by
  intro c r
  have hdated : c.Dated := by
    apply dated_made
    have hweekly {first last : Nat} (hfirst : Date.first ≤ january first)
        (hlast : january last < Date.last) (agency name : String) (days : Weekdays) :
        (Service.weekly ⟨agency, name⟩ (january first) (january last) days).Dated :=
      .weekly _ hfirst hlast days
    simp only [winter, changes, List.cons_append, List.nil_append, List.forall_mem_cons]
    refine ⟨hweekly (by decide) (by decide) _ _ _, hweekly (by decide) (by decide) _ _ _,
      hweekly (by decide) (by decide) _ _ _, ?_, ?_, fun _ h => (List.not_mem_nil h).elim⟩
    · exact ((hweekly (by decide) (by decide) _ _ _).withException (by decide) _).withException
        (by decide) _
    · exact .onDates _ fun d hd => by
        obtain rfl := List.mem_singleton.1 hd
        decide
  obtain ⟨hany, hresolve⟩ := (hasDates_iff_listed winter changes).2.2 hdated
  have hnone : ¬c.hasDates ⟨"A", "W"⟩ := by decide +kernel
  have hlisted : c.Lists ⟨"B", "W"⟩ := (hany _).2.1 (by decide +kernel)
  obtain ⟨hbare, hunder⟩ := hresolve r rfl "W"
  refine ⟨hdated, (hany _).1.not.1 hnone, (hany _).2.not.1 (by decide +kernel),
    (hany _).2.1 (by decide +kernel), by decide +kernel, ?_⟩
  have hfirst : r.underCandidate .service "W" = some ⟨"B", "W"⟩ := by
    apply (hunder _).2
    refine ⟨["A"], "B", [], rfl, rfl, hlisted, fun other hother => ?_⟩
    obtain rfl := List.mem_singleton.1 hother
    exact (hany _).2.not.1 hnone
  rw [hbare, hfirst, Option.getD_some]

end Calendar

end Timetable

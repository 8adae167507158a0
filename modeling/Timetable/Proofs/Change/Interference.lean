import Timetable.Proofs.Change.Patching
import Timetable.Proofs.Dynamic.Registration
import Timetable.Proofs.Schedule.Filing

namespace Timetable

variable {R : Type}

namespace Resolver

variable (r : Resolver R) (bare : String)

/-- The ids that a bare id may stand for, in the order in which they are tried. -/
def preferences : List Ident :=
  r.candidates.map (fun agency => ⟨agency, bare⟩) ++ (Ident.parse? bare).toList

def hasTrip (id : Ident) : Bool := (r.view.trip? id).isSome

theorem lookup_trip : r.lookup .trip = Option.guard r.hasTrip := by
  funext id
  rw [lookup, Option.guard, hasTrip]
  cases r.view.trip? id <;> rfl

theorem resolve_trip : r.resolve .trip bare =
    ((r.preferences bare).find? r.hasTrip).getD ⟨r.defaultAgency, bare⟩ := by
  have hunder : r.underCandidate .trip bare =
      (r.candidates.map fun agency => (⟨agency, bare⟩ : Ident)).find? r.hasTrip := by
    rw [underCandidate, lookup_trip, ← List.findSome?_guard, List.findSome?_map]
    rfl
  have hwritten : r.asWritten .trip bare = (Ident.parse? bare).toList.find? r.hasTrip := by
    rw [asWritten, if_neg (by decide), lookup_trip]
    cases Ident.parse? bare with
    | none => rfl
    | some id =>
      rw [Option.bind_some, Option.toList_some, List.find?_singleton]
      rfl
  rw [resolve, hunder, hwritten, preferences, List.find?_append]

end Resolver

/-- Schedules with the trips and agencies of another, whatever the trips are. -/
structure Schedule.SameIds (g h : Schedule R) : Prop where
  trips (id : Ident) : id ∈ h.trips ↔ id ∈ g.trips
  agencies : h.agencyIds = g.agencyIds

namespace Patched

variable [Zero R] {p : Patched R} {trip : Ident}

theorem deleteStopTime_of_not_mem (h : trip ∉ p.schedule.trips) (stop : Ident) :
    p.deleteStopTime trip stop = (p, false) := by
  rw [deleteStopTime_eq, Std.ExtTreeMap.getElem?_eq_none h]
  rfl

theorem sameIds_deleteStopTime {g : Schedule R} (h : g.SameIds p.schedule) (trip stop : Ident) :
    g.SameIds (p.deleteStopTime trip stop).1.schedule := by
  rw [deleteStopTime_eq]
  cases hq : (p.schedule.trips[trip]?).bind fun t =>
    (Calls.delete? stop t.calls).map (p.replanning trip t) with
  | none => exact h
  | some q =>
    obtain ⟨t, stored, hq⟩ := Option.bind_eq_some_iff.1 hq
    obtain ⟨calls, _, rfl⟩ := Option.map_eq_some_iff.1 hq
    refine ⟨fun id => ?_, h.agencies⟩
    rw [← h.trips id]
    exact Table.mem_insert_of_mem (Table.mem_of_getElem? stored)

end Patched

namespace Engine

open Patched Schedule

section Resolving

variable {e : Engine R} {g h : Schedule R} {bare : String} {id : Ident}

theorem hasTrip_resolverOver :
    (e.resolverOver g).hasTrip id ↔ id ∈ g.trips ∨ id ∈ e.dynamic.trips := by
  have hor : (e.resolverOver g).view.trip? id = (g.trips[id]?).or e.dynamic.trips[id]? := rfl
  rw [Resolver.hasTrip, hor, Option.isSome_or, Bool.or_eq_true,
    ← Std.ExtTreeMap.mem_iff_isSome_getElem?, ← Std.ExtTreeMap.mem_iff_isSome_getElem?]

theorem resolve_congr (hgh : g.SameIds h) :
    (e.resolverOver h).resolve .trip bare = (e.resolverOver g).resolve .trip bare := by
  have hhas : (e.resolverOver h).hasTrip = (e.resolverOver g).hasTrip := by
    funext id
    rw [Bool.eq_iff_iff, hasTrip_resolverOver, hasTrip_resolverOver, hgh.trips]
  have hcandidates : (e.resolverOver h).candidates = (e.resolverOver g).candidates := by
    rw [Resolver.candidates, Resolver.candidates]
    exact congrArg (fun ids => if e.settings.agencies.isEmpty then ids else e.settings.agencies)
      hgh.agencies
  rw [Resolver.resolve_trip, Resolver.resolve_trip, hhas, Resolver.preferences,
    Resolver.preferences, Resolver.defaultAgency, Resolver.defaultAgency, hcandidates]

theorem candidates_ne_nil (hg : g.Filed) (hid : id ∈ g.trips) :
    (e.resolverOver g).candidates ≠ [] := by
  have hagencies : (e.resolverOver g).view.agencies ≠ [] := List.ne_nil_of_mem (hg.run id hid)
  rw [Resolver.candidates]
  split
  · exact hagencies
  · next hconfigured => simpa using hconfigured

theorem find?_of_resolve_mem (hg : g.Filed)
    (hmem : (e.resolverOver g).resolve .trip bare ∈ g.trips) :
    ((e.resolverOver g).preferences bare).find? (e.resolverOver g).hasTrip =
      some ((e.resolverOver g).resolve .trip bare) := by
  rw [Resolver.resolve_trip] at hmem ⊢
  cases hfind : ((e.resolverOver g).preferences bare).find? (e.resolverOver g).hasTrip with
  | some id => rfl
  | none =>
    rw [hfind, Option.getD_none] at hmem
    have hdefault : ⟨(e.resolverOver g).defaultAgency, bare⟩ ∈
        (e.resolverOver g).preferences bare := by
      obtain ⟨agency, agencies, hcons⟩ := List.exists_cons_of_ne_nil (candidates_ne_nil hg hmem)
      rw [Resolver.preferences, Resolver.defaultAgency, hcons]
      exact List.mem_append_left _ List.mem_cons_self
    rw [List.find?_eq_none] at hfind
    exact (hfind _ hdefault (hasTrip_resolverOver.2 (.inl hmem))).elim

end Resolving

section Registering

variable [Geometry R] {e : Engine R} {runs : List (BlockRun R)}

theorem foldl_register (runs : List (BlockRun R)) (e : Engine R) : runs.foldl register e =
    { e with dynamic := runs.foldl (fun d run => d.register e.schedule run) e.dynamic } := by
  induction runs generalizing e with
  | nil => rfl
  | cons run runs ih => rw [List.foldl_cons, ih, List.foldl_cons]; rfl

theorem mem_trips_foldl_register {g : Schedule R} {d : Dynamic R} {id : Ident} :
    id ∈ (runs.foldl (fun d run => d.register g run) d).trips ↔
      id ∈ d.trips ∨ ∃ run ∈ runs, ∃ t ∈ run.configuration.members, t.id = id := by
  induction runs generalizing d with
  | nil => simp
  | cons run runs ih =>
    rw [List.foldl_cons, ih, List.exists_mem_cons_iff, ← or_assoc]
    exact or_congr_left (Dynamic.mem_trips_accept d ⟨g, run⟩)

theorem hasTrip_register {id : Ident} : (runs.foldl register e).resolver.hasTrip id ↔
    e.resolver.hasTrip id ∨ ∃ run ∈ runs, ∃ t ∈ run.configuration.members, t.id = id := by
  rw [foldl_register, resolver, resolver, hasTrip_resolverOver, hasTrip_resolverOver,
    mem_trips_foldl_register, or_assoc]

/-- If a bare id stands for a scheduled trip, none of the ids that are tried in vain before is one
of a registered trip. -/
def Unobstructed (e : Engine R) (runs : List (BlockRun R)) (bare : String) : Prop :=
  e.resolver.resolve .trip bare ∈ e.schedule.trips →
    ∀ run ∈ runs, ∀ t ∈ run.configuration.members,
      t.id ∉ (e.resolver.preferences bare).takeWhile (!e.resolver.hasTrip ·)

theorem resolve_register (hg : e.schedule.Filed) {bare : String} (h : e.Unobstructed runs bare)
    (hmem : e.resolver.resolve .trip bare ∈ e.schedule.trips ∨
      (runs.foldl register e).resolver.resolve .trip bare ∈ e.schedule.trips) :
    (runs.foldl register e).resolver.resolve .trip bare = e.resolver.resolve .trip bare := by
  have hschedule : (runs.foldl register e).schedule = e.schedule := by rw [foldl_register]
  have hpreferences : (runs.foldl register e).resolver.preferences bare =
      e.resolver.preferences bare := by
    rw [foldl_register]
    rfl
  -- where one side resolves to a scheduled trip, the other finds no other id first
  rcases hmem with hmem | hmem
  · have hfound := find?_of_resolve_mem hg hmem
    have hfound' : (e.resolver.preferences bare).find? (runs.foldl register e).resolver.hasTrip =
        some (e.resolver.resolve .trip bare) := by
      apply find?_eq_some_of_imp hfound
      · exact hasTrip_register.2 (.inl (List.find?_some hfound))
      · intro id hid hhas
        rcases hasTrip_register.1 hhas with hhas | ⟨run, hrun, t, ht, rfl⟩
        · exact hhas
        · exact (h hmem run hrun t ht hid).elim
    rw [Resolver.resolve_trip, hpreferences, hfound', Option.getD_some]
  · have hfound' := find?_of_resolve_mem (hschedule ▸ hg) (hschedule ▸ hmem)
    rw [← resolver, hpreferences] at hfound'
    have hfound : (e.resolver.preferences bare).find? e.resolver.hasTrip =
        some ((runs.foldl register e).resolver.resolve .trip bare) := by
      apply find?_eq_some_of_imp hfound'
      · exact hasTrip_resolverOver.2 (.inl hmem)
      · exact fun id _ hhas => hasTrip_register.2 (.inl hhas)
    rw [e.resolver.resolve_trip, hfound, Option.getD_some]

/-- A deletion does the same before and after the registrations, if they are not in its way. -/
theorem parallel_register (hg : e.schedule.Filed) {pair : String × String}
    (h : e.Unobstructed runs pair.1) : Parallel e.bareIds (runs.foldl register e).bareIds
      (fun p q => q = p ∧ SameIds e.schedule p.schedule) pair := by
  rintro _ p ⟨rfl, hp⟩
  have hstop : (runs.foldl register e).bareIds.stop p.schedule pair.2 =
      e.bareIds.stop p.schedule pair.2 := by
    rw [foldl_register]
    rfl
  have htrip (f : Engine R) (hf : f.schedule = e.schedule) :
      f.bareIds.trip p.schedule pair.1 = f.resolver.resolve .trip pair.1 := by
    rw [resolver, hf]
    exact resolve_congr hp
  rw [hstop, htrip e rfl, htrip _ (by rw [foldl_register])]
  by_cases hmem : e.resolver.resolve .trip pair.1 ∈ e.schedule.trips ∨
      (runs.foldl register e).resolver.resolve .trip pair.1 ∈ e.schedule.trips
  · rw [resolve_register hg h hmem]
    exact ⟨⟨rfl, sameIds_deleteStopTime hp _ _⟩, rfl⟩
  · rw [not_or, ← hp.trips, ← hp.trips] at hmem
    rw [deleteStopTime_of_not_mem hmem.1, deleteStopTime_of_not_mem hmem.2]
    exact ⟨⟨rfl, hp⟩, rfl⟩

theorem applyChanges_with_dynamic {d : Dynamic R} {cs : List ServiceChange}
    (h : e.patched.applyChanges { e with dynamic := d }.bareIds e.today cs =
      e.patched.applyChanges e.bareIds e.today cs) :
    { e with dynamic := d }.applyChanges cs =
      ({ (e.applyChanges cs).1 with dynamic := d }, (e.applyChanges cs).2) := by
  simp only [applyChanges, Patcher.applyChanges]
  have h' : Patched.applyChanges { e with dynamic := d }.bareIds
      (today { e with dynamic := d }) ⟨e.schedule, e.patcher.pending⟩ cs =
        Patched.applyChanges e.bareIds e.today ⟨e.schedule, e.patcher.pending⟩ cs := h
  rw [h', refreshAfter, refreshAfter]
  split <;> rfl

/-- Changes come to the same with and without some registrations, as long as those are not in the
way of the trips that the changes name: to the same report and schedule, and to the same of all else
but the registered service, which stays as it is. -/
theorem applyChanges_register (e : Engine R) (h : e.schedule.Reachable) (runs : List (BlockRun R))
    (cs : List ServiceChange)
    (hclear : ∀ c ∈ cs, ∀ pair ∈ c.deletions e.today, e.Unobstructed runs pair.1) :
    let e' := runs.foldl register e
    e'.applyChanges cs = ({ (e.applyChanges cs).1 with dynamic := e'.dynamic },
      (e.applyChanges cs).2) := by
  intro e'
  have hsame : e.patched.applyChanges e'.bareIds e.today cs =
      e.patched.applyChanges e.bareIds e.today cs := by
    have hstart : e.patched = e.patched ∧ SameIds e.schedule e.schedule :=
      ⟨rfl, fun _ => Iff.rfl, rfl⟩
    obtain ⟨hpatched, hreport⟩ := Parallel.applyChanges
      (fun c hc pair hpair => parallel_register h.filed (hclear c hc pair hpair)) hstart
    exact Prod.ext hpatched.1 hreport
  have he' : e' = _ := foldl_register runs e
  rw [he'] at hsame ⊢
  exact applyChanges_with_dynamic hsame

end Registering

def sharedDay : List (Edit Float) :=
  [.addAgency "P" "UTC", .addAgency "A" "UTC",
    .addStop { id := ⟨"A", "X"⟩, location := ⟨0, 0⟩, name := none },
    .addTrip (Registration.shuttle "T1" "B" "X" 60) none]

def sharedDayEngine : Engine Float := start default ⟨∅⟩ default (Schedule.empty.run sharedDay)

def running (name : String) : BlockRun Float :=
  let trip := { Registration.shuttle name "D" "X" 90 with id := ⟨"P", name⟩ }
  (Registration.ofTrips "D" [trip]).run

theorem applyChanges_register_sharedDay :
    let e := sharedDayEngine
    let runs := [running "T2"]
    let cs := [cut "T1" "X", cut "T2" "X"]
    let e' := runs.foldl register e
    e.schedule.Reachable ∧
    (∀ c ∈ cs, ∀ pair ∈ c.deletions e.today, e.Unobstructed runs pair.1) ∧
    e'.applyChanges cs = ({ (e.applyChanges cs).1 with dynamic := e'.dynamic },
      (e.applyChanges cs).2) ∧
    (e.applyChanges cs).2 = { submitted := 2, applied := 1, failed := 1, mutations := 1 } := by
  intro e runs cs e'
  have hreachable : e.schedule.Reachable := ⟨sharedDay, rfl⟩
  have hclear : ∀ c ∈ cs, ∀ pair ∈ c.deletions e.today, e.Unobstructed runs pair.1 := by
    unfold Unobstructed
    decide +kernel
  exact ⟨hreachable, hclear, applyChanges_register e hreachable runs cs hclear,
    by decide +kernel⟩

/-- A running trip that has the name of a scheduled one, under an agency that is tried before, is
found in its place, and as it is not scheduled nothing is deleted. -/
theorem applyChanges_obstructed_sharedDay :
    let e := sharedDayEngine
    let e' := [running "T1"].foldl register e
    let cs := [cut "T1" "X"]
    e.schedule.Reachable ∧
    (e.applyChanges cs).2 = { submitted := 1, applied := 1, mutations := 1 } ∧
    (e'.applyChanges cs).2 = { submitted := 1, failed := 1 } ∧
    (e.applyChanges cs).1.schedule.callCount ⟨"A", "T1"⟩ = 0 ∧
    (e'.applyChanges cs).1.schedule.callCount ⟨"A", "T1"⟩ = 1 := by
  intro e e' cs
  exact ⟨⟨sharedDay, rfl⟩, by decide +kernel, by decide +kernel, by decide +kernel,
    by decide +kernel⟩

end Engine

end Timetable

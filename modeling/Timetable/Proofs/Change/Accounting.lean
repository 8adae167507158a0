import Timetable.Proofs.Change.Interference
import Timetable.Proofs.Change.Report

namespace Timetable.Engine

open Schedule Patched

variable {R : Type} {e : Engine R}

theorem resolve_stop_congr {g h : Schedule R} (stops : h.stops = g.stops)
    (agencies : h.agencyIds = g.agencyIds) (bare : String) :
    (e.resolverOver h).resolve .stop bare = (e.resolverOver g).resolve .stop bare := by
  have hlookup : (e.resolverOver h).lookup .stop = (e.resolverOver g).lookup .stop := by
    funext id
    exact congrArg (fun stops : Table Ident (Stop R) => (stops[id]?).map fun _ => id) stops
  have hcandidates : (e.resolverOver h).candidates = (e.resolverOver g).candidates :=
    congrArg (fun ids => if e.settings.agencies.isEmpty then ids else e.settings.agencies) agencies
  rw [Resolver.resolve, Resolver.resolve, Resolver.underCandidate, Resolver.underCandidate,
    Resolver.asWritten, Resolver.asWritten, Resolver.defaultAgency, Resolver.defaultAgency, hlookup,
    hcandidates]

/-- The trips and stops that the deletions of a batch name, by the ids that theirs stand for. -/
def named (e : Engine R) (cs : List ServiceChange) : List (Ident × Ident) :=
  (cs.flatMap (·.deletions e.today)).map
    (.map (e.resolver.resolve .trip) (e.resolver.resolve .stop))

section Naming

variable [Zero R]

/-- Schedules under deletions in which bare ids stand for what they stand for in a base. -/
structure Naming (base : Schedule R) (p : Patched R) : Prop where
  ids : base.SameIds p.schedule
  stops : p.schedule.stops = base.stops

theorem Naming.deleteStopTime {base : Schedule R} {p : Patched R} (h : Naming base p)
    (trip stop : Ident) : Naming base (p.deleteStopTime trip stop).1 := by
  refine ⟨sameIds_deleteStopTime h.ids trip stop, ?_⟩
  rcases p.deleteStopTime_cases trip stop with ⟨t, calls, _, _, hp⟩ | ⟨_, hp⟩
  · rw [hp]
    exact h.stops
  · rw [hp]
    exact h.stops

end Naming

variable [Geometry R]

/-- While a batch is applied its bare ids stand for what they stood for at first. -/
theorem applyChanges_fixed (e : Engine R) (u : PendingUndo R) (cs : List ServiceChange) :
    Patched.applyChanges e.bareIds e.today ⟨e.schedule, u⟩ cs =
      Patched.applyChanges (.fixed (e.resolver.resolve .trip) (e.resolver.resolve .stop)) e.today
        ⟨e.schedule, u⟩ cs := by
  let fixed : BareIds R := .fixed (e.resolver.resolve .trip) (e.resolver.resolve .stop)
  -- deletions keep all that ids are resolved by, so both readings go on in step
  have hparallel : ∀ c ∈ cs, ∀ pair ∈ c.deletions e.today,
      Parallel e.bareIds fixed (fun p q => q = p ∧ Naming e.schedule p) pair := by
    rintro c _ pair _ _ p ⟨rfl, hp⟩
    have htrip : e.bareIds.trip p.schedule pair.1 = e.resolver.resolve .trip pair.1 :=
      resolve_congr hp.ids
    have hstop : e.bareIds.stop p.schedule pair.2 = e.resolver.resolve .stop pair.2 :=
      resolve_stop_congr hp.stops hp.ids.agencies pair.2
    rw [htrip, hstop]
    exact ⟨⟨rfl, hp.deleteStopTime _ _⟩, rfl⟩
  have hstart : (⟨e.schedule, u⟩ : Patched R) = ⟨e.schedule, u⟩ ∧
      Naming e.schedule ⟨e.schedule, u⟩ :=
    ⟨rfl, ⟨fun _ => Iff.rfl, rfl⟩, rfl⟩
  obtain ⟨hpatched, hreport⟩ := Parallel.applyChanges hparallel hstart
  exact (Prod.ext hpatched.1 hreport).symm

theorem fst_applyChanges_eq (e : Engine R) (u : PendingUndo R) (cs : List ServiceChange) :
    (Patched.applyChanges e.bareIds e.today ⟨e.schedule, u⟩ cs).1 =
      deleteAll ⟨e.schedule, u⟩ (e.named cs) := by
  rw [applyChanges_fixed, fst_applyChanges, named]

theorem applyChanges_def (e : Engine R) (cs : List ServiceChange) :
    let r := e.patched.applyChanges e.bareIds e.today cs
    e.applyChanges cs = (refreshAfter { e with
      patcher := { e.patcher with pending := r.1.pending }, schedule := r.1.schedule }
        r.2.mutations, r.2) :=
  rfl

theorem schedule_applyChanges (e : Engine R) (cs : List ServiceChange) :
    (e.applyChanges cs).1.schedule =
      (e.patched.applyChanges e.bareIds e.today cs).1.schedule := by
  obtain ⟨index, hr⟩ := e.applyChanges_eq cs
  rw [hr]

theorem applyChanges_filter (e : Engine R) (cs : List ServiceChange) :
    let r := e.applyChanges cs
    let s := e.applyChanges (cs.filter (·.isCarriedOut e.today))
    s.1 = r.1 ∧ s.2.applied = r.2.applied ∧ s.2.mutations = r.2.mutations := by
  have halike := Patched.applyChanges_filter e.bareIds e.today e.patched cs
  refine ⟨?_, halike.applied, halike.mutations⟩
  rw [applyChanges_def, applyChanges_def, halike.patched, halike.mutations]

/-- However a batch of changes looks, its report accounts for every change. For each mutation that
it counts the trips have one call less and the schedule one version more, and each change that was
applied made at least one. The schedule is what the deletions that are named by the changes carried
out make of it, and so nothing but calls is gone: of the calls of a trip at a stop the first ones, as
many as are named, while all others stay as they are, in their order. The changes that are not
carried out might as well not have come. -/
theorem applyChanges_accounted (e : Engine R) (h : e.schedule.Reachable)
    (cs : List ServiceChange) :
    let g := e.schedule
    let g' := (e.applyChanges cs).1.schedule
    let report := (e.applyChanges cs).2
    let carriedOut := cs.filter (·.isCarriedOut e.today)
    report.submitted = cs.length ∧
    report.applied + report.failed + report.notApplicable = report.submitted ∧
    report.applied ≤ report.mutations ∧
    g'.callTotal + report.mutations = g.callTotal ∧
    g'.version = g.version + report.mutations ∧
    g' = g.run ((e.named cs).map fun d => .deleteStopTime d.1 d.2) ∧
    { g' with trips := g.trips, blocks := g.blocks, version := g.version } = g ∧
    (∀ block : Ident,
      (g'.blocks[block]?).map Block.outline = (g.blocks[block]?).map Block.outline) ∧
    (∀ id : Ident, id ∈ g'.trips ↔ id ∈ g.trips) ∧
    (∀ (id : Ident) (t : Trip R), g.trips[id]? = some t →
      ∃ kept, g'.trips[id]? = some (t.withCalls kept) ∧ kept.Sublist t.calls ∧
        ∀ stop, kept.filter (fun c => c.stop = stop) =
          (t.calls.filter fun c => c.stop = stop).drop ((e.named cs).count (id, stop))) ∧
    (e.applyChanges carriedOut).1 = (e.applyChanges cs).1 ∧
    (e.applyChanges carriedOut).2.applied = report.applied ∧
    (e.applyChanges carriedOut).2.mutations = report.mutations := by
  intro g g' report carriedOut
  have happly : g' = (e.patched.applyChanges e.bareIds e.today cs).1.schedule :=
    schedule_applyChanges e cs
  have hdelete : g' = (e.patched.deleteAll (e.named cs)).schedule :=
    happly.trans (congrArg Patched.schedule (fst_applyChanges_eq e e.patcher.pending cs))
  obtain ⟨hsubmitted, ⟨hhandled, happlied⟩, hversion, hcalls⟩ :=
    accounts_applyChanges e.bareIds e.today e.patched cs
  rw [← happly] at hversion hcalls
  have hstart : Framed g e.patched.schedule := ⟨rfl, h.consistent, fun _ => rfl⟩
  have hframed : Framed g g' := by
    rw [hdelete]
    exact framed_deleteAll hstart _
  refine ⟨hsubmitted, hhandled.trans hsubmitted.symm, happlied, hcalls, hversion, ?_, hframed.rest,
    hframed.outline, fun id => ?_, fun id t ht => ?_, e.applyChanges_filter cs⟩
  · rw [hdelete, schedule_deleteAll]
    rfl
  · rw [hdelete]
    exact mem_trips_deleteAll e.patched _ id
  · refine ⟨Calls.without (stopsOf id (e.named cs)) t.calls, ?_, Calls.without_sublist _ _,
      fun stop => ?_⟩
    · have hstored : e.patched.schedule.trips[id]? = some t := ht
      rw [hdelete, trips_deleteAll, hstored, Option.map_some]
    · rw [Calls.filter_without, count_stopsOf]

/-- Two deletions that succeed among changes that are not supported, malformed or of another day, and
one that comes too late. -/
def mixedBatch : List ServiceChange :=
  [{ cut "T1" "Y" with table := .stops }, cut "T1" "Y", { cut "T2" "X" with dates := [] },
    { cut "T2" "X" with dates := [{ date := some ⟨1⟩ }] }, cut "T2" "X", cut "T2" "X"]

theorem applyChanges_accounted_mixedBatch :
    let e := shortenedDayEngine
    let cs := mixedBatch
    let g := e.schedule
    let g' := (e.applyChanges cs).1.schedule
    g.Reachable ∧
    (e.applyChanges cs).2 =
      { submitted := 6, applied := 2, failed := 3, notApplicable := 1, mutations := 2 } ∧
    e.named cs = [(⟨"A", "T1"⟩, ⟨"A", "Y"⟩), (⟨"A", "T2"⟩, ⟨"A", "X"⟩), (⟨"A", "T2"⟩, ⟨"A", "X"⟩)] ∧
    g'.callTotal + (e.applyChanges cs).2.mutations = g.callTotal ∧
    g'.version = g.version + (e.applyChanges cs).2.mutations ∧
    g' = g.run ((e.named cs).map fun d => .deleteStopTime d.1 d.2) ∧
    (e.applyChanges (cs.filter (·.isCarriedOut e.today))).1 = (e.applyChanges cs).1 := by
  intro e cs g g'
  have hreachable : g.Reachable := ⟨shortenedDay, rfl⟩
  obtain ⟨_, _, _, hcalls, hversion, hrun, _, _, _, _, hfilter, _, _⟩ :=
    applyChanges_accounted e hreachable cs
  exact ⟨hreachable, by decide +kernel, by decide +kernel, hcalls, hversion, hrun, hfilter⟩

end Timetable.Engine

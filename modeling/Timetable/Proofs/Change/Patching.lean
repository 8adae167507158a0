import Timetable.Engine
import Timetable.Proofs.Change.Shortening

namespace Timetable.Engine

open Schedule Patched

variable {R : Type} [Geometry R]

inductive PatchCall where
  | change (c : ServiceChange)
  | changes (cs : List ServiceChange)
  | feed (f : ChangeFeed)
  | revert

def patch (e : Engine R) (now : Instant) : PatchCall → Engine R
  | .change c => ({ e with now }.applyChange c).1
  | .changes cs => ({ e with now }.applyChanges cs).1
  | .feed f => ({ e with now }.applyFeed f).1
  | .revert => ({ e with now }.revert).1

def patchAll (e : Engine R) (calls : List (Instant × PatchCall)) : Engine R :=
  calls.foldl (fun e call => e.patch call.1 call.2) e

def patched (e : Engine R) : Patched R := ⟨e.schedule, e.patcher.pending⟩

section Specification

variable (e : Engine R)

theorem refreshAfter_eq (n : Nat) : ∃ index, e.refreshAfter n = { e with index } := by
  rw [refreshAfter]
  split
  · exact ⟨_, rfl⟩
  · exact ⟨e.index, rfl⟩

theorem applyChanges_eq (cs : List ServiceChange) :
    let r := e.patched.applyChanges e.bareIds e.today cs
    ∃ index, e.applyChanges cs = ({ e with
      patcher := { e.patcher with pending := r.1.pending }, schedule := r.1.schedule, index },
      r.2) := by
  intro r
  obtain ⟨index, hindex⟩ := refreshAfter_eq
    { e with patcher := { e.patcher with pending := r.1.pending }, schedule := r.1.schedule }
    r.2.mutations
  exact ⟨index, Prod.ext hindex rfl⟩

theorem revert_eq :
    let r := e.schedule.undo e.patcher.pending
    ∃ index, e.revert =
      ({ e with patcher := { e.patcher with pending := {} }, schedule := r.1, index }, r.2) := by
  intro r
  obtain ⟨index, hindex⟩ := refreshAfter_eq
    { e with patcher := { e.patcher with pending := {} }, schedule := r.1 } r.2
  exact ⟨index, Prod.ext hindex rfl⟩

variable {e} {f : ChangeFeed}

theorem applyFeed_skipped (h : ¬e.patcher.accepts e.now f) : e.applyFeed f = (e, none) := by
  rw [applyFeed, Patcher.applyFeed, if_neg h]

theorem applyFeed_accepted (h : e.patcher.accepts e.now f) :
    let g := (e.schedule.undo e.patcher.pending).1
    let r := Patched.applyChanges e.bareIds e.today ⟨g, {}⟩ f.changes
    ∃ patcher index, patcher.pending = r.1.pending ∧
      e.applyFeed f = ({ e with patcher, schedule := r.1.schedule, index }, some r.2) := by
  intro g r
  let patcher : Patcher R :=
    { lastTimestamp := some f.timestamp, reapplyDate := e.now.date.next?, pending := r.1.pending }
  obtain ⟨index, hindex⟩ := refreshAfter_eq { e with patcher, schedule := r.1.schedule }
    ((e.schedule.undo e.patcher.pending).2 + r.2.mutations)
  refine ⟨patcher, index, rfl, ?_⟩
  rw [applyFeed, Patcher.applyFeed, if_pos h]
  exact Prod.ext hindex rfl

end Specification

/-- Engines under whose patches the base lies, with all that bare ids resolve by as in the base. -/
structure OnTopOf (base e : Engine R) : Prop where
  patched : e.patched.OnTopOf base.schedule
  settings : e.settings = base.settings
  calendar : e.calendar = base.calendar
  dynamic : e.dynamic = base.dynamic

namespace OnTopOf

variable {base e : Engine R}

theorem start (hb : Consistent base.schedule) (hp : base.patcher.pending = {}) :
    OnTopOf base base :=
  ⟨by rw [Engine.patched, hp]; exact .start hb base.schedule.version, rfl, rfl, rfl⟩

theorem at_instant (h : OnTopOf base e) (now : Instant) : OnTopOf base { e with now } :=
  ⟨h.patched, h.settings, h.calendar, h.dynamic⟩

theorem applyChanges (h : OnTopOf base e) (cs : List ServiceChange) :
    OnTopOf base (e.applyChanges cs).1 := by
  obtain ⟨index, hr⟩ := e.applyChanges_eq cs
  rw [hr]
  exact ⟨h.patched.applyChanges _ _ cs, h.settings, h.calendar, h.dynamic⟩

theorem undo (h : OnTopOf base e) (hb : Consistent base.schedule) :
    e.schedule.undo e.patcher.pending =
      ({ base.schedule with version := (e.schedule.undo e.patcher.pending).1.version },
        (shortenedTrips base.schedule e.schedule).length) :=
  Patched.OnTopOf.undo h.patched hb

theorem revert (h : OnTopOf base e) (hb : Consistent base.schedule) :
    OnTopOf base e.revert.1 := by
  obtain ⟨index, hr⟩ := e.revert_eq
  rw [hr, h.undo hb]
  exact ⟨.start hb _, h.settings, h.calendar, h.dynamic⟩

theorem applyFeed (h : OnTopOf base e) (hb : Consistent base.schedule) (f : ChangeFeed) :
    OnTopOf base (e.applyFeed f).1 := by
  by_cases ha : e.patcher.accepts e.now f
  · obtain ⟨patcher, index, hpending, hr⟩ := applyFeed_accepted ha
    have hpatched := (Patched.OnTopOf.start hb
      (e.schedule.undo e.patcher.pending).1.version).applyChanges e.bareIds e.today f.changes
    rw [h.undo hb] at hr hpending
    rw [hr]
    refine ⟨?_, h.settings, h.calendar, h.dynamic⟩
    rw [Engine.patched, hpending]
    exact hpatched
  · rwa [applyFeed_skipped ha]

theorem patch (h : OnTopOf base e) (hb : Consistent base.schedule) (now : Instant)
    (call : PatchCall) : OnTopOf base (e.patch now call) := by
  cases call with
  | change c => exact (h.at_instant now).applyChanges [c]
  | changes cs => exact (h.at_instant now).applyChanges cs
  | feed f => exact (h.at_instant now).applyFeed hb f
  | revert => exact (h.at_instant now).revert hb

theorem patchAll (h : OnTopOf base e) (hb : Consistent base.schedule)
    (calls : List (Instant × PatchCall)) : OnTopOf base (e.patchAll calls) := by
  induction calls generalizing e with
  | nil => exact h
  | cons call calls ih => exact ih (h.patch hb call.1 call.2)

end OnTopOf

/-- Whatever the patcher was asked for since nothing was pending, taking back what is pending gives
the schedule of that time, but for the version. Until then the stop times of exactly the trips that
have lost some are pending, as they were at that time; so many edits are taken back, and nothing is
left pending. -/
theorem revert_restores (e : Engine R) (h : e.schedule.Reachable) (hp : e.patcher.pending = {})
    (calls : List (Instant × PatchCall)) :
    let e' := e.patchAll calls
    let ms := e'.patcher.pending.trips.modified
    e'.revert.1.schedule = { e.schedule with version := e'.revert.1.schedule.version } ∧
    e'.revert.1.patcher.pending = {} ∧
    e'.revert.2 = (shortenedTrips e.schedule e'.schedule).length ∧
    e'.patcher.pending = { trips := { modified := ms } } ∧
    (ms.map (·.trip)).Perm (shortenedTrips e.schedule e'.schedule) ∧
    (∀ m ∈ ms, ∃ t, e.schedule.trips[m.trip]? = some t ∧ m.stopTimes = t.stopTimes) ∧
    (∀ (id : Ident) (t : Trip R), e.schedule.trips[id]? = some t →
      ∃ calls, e'.schedule.trips[id]? = some (t.withCalls calls) ∧ calls.Sublist t.calls) := by
  intro e' ms
  have hb := h.consistent
  have he : OnTopOf e e' := (OnTopOf.start hb hp).patchAll hb calls
  obtain ⟨index, hr⟩ := e'.revert_eq
  obtain ⟨ns, hpending, hns⟩ := he.patched
  have hms : ms = ns := congrArg (fun u : PendingUndo R => u.trips.modified) hpending
  rw [hr, he.undo hb]
  refine ⟨rfl, rfl, rfl, ?_, ?_, fun m hm => ?_, fun id t ht => hns.sublist ht⟩
  · rw [hms]
    exact hpending
  · rw [hms]
    exact hns.trips_perm
  · obtain ⟨t, _, hbase, htimes, _⟩ := hns.noted m (hms ▸ hm)
    exact ⟨t, hbase, htimes⟩

/-- The deletion of a stop time on the first date. -/
def cut (trip stop : String) : ServiceChange :=
  { table := .stopTimes, kind := .delete, entities := [{ trip := some trip, stop := some stop }]
    dates := [{ date := some default }] }

def shortenedDayEngine : Engine Float :=
  start default ⟨∅⟩ default (Schedule.empty.run shortenedDay)

/-- A feed with a deletion that succeeds and one that does not, and one change made twice. -/
def feedAndChanges : List (Instant × PatchCall) :=
  [(default, .feed { timestamp := 0, changes := [cut "T1" "Y", cut "T2" "Q"] }),
    (default, .change (cut "T2" "X")), (default, .change (cut "T2" "X"))]

theorem revert_restores_feedAndChanges :
    let e := shortenedDayEngine
    let e' := e.patchAll feedAndChanges
    e.schedule.Reachable ∧ e.patcher.pending = {} ∧
    e'.revert.1.schedule = { e.schedule with version := e'.revert.1.schedule.version } ∧
    e'.revert.1.patcher.pending = {} ∧
    (e'.patcher.pending.trips.modified.map (·.trip)).Perm
      (shortenedTrips e.schedule e'.schedule) ∧
    shortenedTrips e.schedule e'.schedule = [⟨"A", "T1"⟩, ⟨"A", "T2"⟩] := by
  have hreachable : shortenedDayEngine.schedule.Reachable := ⟨shortenedDay, rfl⟩
  obtain ⟨hschedule, hpending, _, _, hperm, _, _⟩ :=
    revert_restores shortenedDayEngine hreachable rfl feedAndChanges
  exact ⟨hreachable, rfl, hschedule, hpending, hperm, by decide +kernel⟩

end Timetable.Engine

import Timetable.Proofs.Change.Patching

namespace Timetable

variable {R : Type}

namespace Patched

/-- Schedules that differ in the version alone, with the same pending. -/
def SameButVersion (p q : Patched R) : Prop :=
  ∃ version, q = { p with schedule := { p.schedule with version } }

theorem SameButVersion.deleteStopTime [Zero R] {p q : Patched R} (h : p.SameButVersion q)
    (trip stop : Ident) :
    (p.deleteStopTime trip stop).1.SameButVersion (q.deleteStopTime trip stop).1 ∧
      (q.deleteStopTime trip stop).2 = (p.deleteStopTime trip stop).2 := by
  obtain ⟨version, rfl⟩ := h
  rw [deleteStopTime_eq, deleteStopTime_eq]
  cases p.schedule.trips[trip]? with
  | none => exact ⟨⟨version, rfl⟩, rfl⟩
  | some t =>
    rw [Option.bind_some, Option.bind_some]
    cases Calls.delete? stop t.calls with
    | none => exact ⟨⟨version, rfl⟩, rfl⟩
    | some calls => exact ⟨⟨version + 1, rfl⟩, rfl⟩

end Patched

namespace Engine

open Schedule Patched

variable [Geometry R]

theorem lockstep_sameButVersion (e : Engine R) : Lockstep e.bareIds SameButVersion where
  trip h := by
    obtain ⟨version, rfl⟩ := h
    rfl
  stop h := by
    obtain ⟨version, rfl⟩ := h
    rfl
  step trip stop h := h.deleteStopTime trip stop

theorem OnTopOf.bareIds_eq {base e : Engine R} (h : OnTopOf base e) :
    e.bareIds = base.bareIds := by
  have hresolver : e.resolverOver = base.resolverOver := by
    funext g
    rw [resolverOver, h.settings, h.calendar, h.dynamic, resolverOver]
  rw [bareIds, hresolver, bareIds]

theorem OnTopOf.applyFeed_accepted {base e : Engine R} (h : OnTopOf base e)
    (hb : Consistent base.schedule) {f : ChangeFeed} (ha : e.patcher.accepts e.now f) :
    let r := Patched.applyChanges base.bareIds e.today ⟨base.schedule, {}⟩ f.changes
    r.1.SameButVersion (e.applyFeed f).1.patched ∧ (e.applyFeed f).2 = some r.2 := by
  obtain ⟨patcher, index, hpending, hr⟩ := Engine.applyFeed_accepted ha
  rw [h.undo hb, h.bareIds_eq] at hr hpending
  have hundone : SameButVersion ⟨base.schedule, {}⟩
      ⟨{ base.schedule with version := (e.schedule.undo e.patcher.pending).1.version }, {}⟩ :=
    ⟨_, rfl⟩
  obtain ⟨hsame, hreport⟩ :=
    base.lockstep_sameButVersion.applyChanges e.today f.changes hundone
  rw [hr, Engine.patched, hpending]
  exact ⟨hsame, congrArg some hreport⟩

/-- Whatever the patcher was asked for since nothing was pending, a feed that is not skipped leads
to the schedule, but for the version, to the report and to the pending edits to which its changes
lead when a new patcher applies them to the schedule of that time. -/
theorem applyFeed_replaces (e : Engine R) (h : e.schedule.Reachable) (hp : e.patcher.pending = {})
    (calls : List (Instant × PatchCall)) (now : Instant) (f : ChangeFeed)
    (ha : (e.patchAll calls).patcher.accepts now f) :
    let r := ({ e.patchAll calls with now }).applyFeed f
    let fresh := ({ e with now, patcher := {} }).applyChanges f.changes
    r.1.schedule = { fresh.1.schedule with version := r.1.schedule.version } ∧
    r.2 = some fresh.2 ∧
    r.1.patcher.pending = fresh.1.patcher.pending := by
  intro r fresh
  have hb := h.consistent
  have he : OnTopOf e { e.patchAll calls with now } :=
    ((OnTopOf.start hb hp).patchAll hb calls).at_instant now
  obtain ⟨⟨version, hsame⟩, hreport⟩ := he.applyFeed_accepted hb ha
  obtain ⟨index, hfresh⟩ := applyChanges_eq { e with now, patcher := {} } f.changes
  have hschedule : r.1.schedule = { fresh.1.schedule with version } := by
    rw [show fresh = _ from hfresh]
    exact congrArg Patched.schedule hsame
  refine ⟨by rw [hschedule], ?_, ?_⟩
  · rw [show fresh = _ from hfresh]
    exact hreport
  · rw [show fresh = _ from hfresh]
    exact congrArg Patched.pending hsame

theorem applyFeed_replaces_feedAndChanges :
    let e := shortenedDayEngine
    let e' := e.patchAll feedAndChanges
    let f : ChangeFeed := { timestamp := 1, changes := [cut "T2" "X"] }
    let r := ({ e' with now := default }).applyFeed f
    let fresh := ({ e with now := default, patcher := {} }).applyChanges f.changes
    e.schedule.Reachable ∧ e.patcher.pending = {} ∧ e'.patcher.accepts default f ∧
    r.1.schedule = { fresh.1.schedule with version := r.1.schedule.version } ∧
    r.2 = some { submitted := 1, applied := 1, mutations := 1 } ∧
    r.1.patcher.pending = fresh.1.patcher.pending := by
  have hreachable : shortenedDayEngine.schedule.Reachable := ⟨shortenedDay, rfl⟩
  have haccepts : (shortenedDayEngine.patchAll feedAndChanges).patcher.accepts default
      { timestamp := 1, changes := [cut "T2" "X"] } := by
    decide +kernel
  obtain ⟨hschedule, hreport, hpending⟩ :=
    applyFeed_replaces shortenedDayEngine hreachable rfl feedAndChanges default _ haccepts
  exact ⟨hreachable, rfl, haccepts, hschedule, hreport.trans (by decide +kernel), hpending⟩

end Engine

end Timetable

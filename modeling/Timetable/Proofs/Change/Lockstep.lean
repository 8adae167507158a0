import Timetable.Change.Patch
import Timetable.Proofs.Schedule.Step
import Timetable.Proofs.Trip.Edit

namespace Timetable

variable {R : Type}

/-- The stop times that a change deletes on a date, if it is carried out at all. -/
def ServiceChange.deletions (c : ServiceChange) (today : Date) : List (String × String) :=
  if c.isValid && c.holdsOn today then
    match c.operation with
    | .deleteStopTimes pairs => pairs
    | _ => []
  else []

namespace Patched

variable [Zero R]

/-- Other calls for a stored trip, with a note of those that it had. -/
def replanning (p : Patched R) (trip : Ident) (t : Trip R) (calls : List (Call R)) : Patched R :=
  { schedule := (p.schedule.revise trip (t.withCalls calls)).bump
    pending := { p.pending with
      trips := p.pending.trips.modify { trip, stopTimes := t.stopTimes } } }

theorem deleteStopTime_eq (p : Patched R) (trip stop : Ident) :
    p.deleteStopTime trip stop =
      match (p.schedule.trips[trip]?).bind fun t =>
        (Calls.delete? stop t.calls).map (p.replanning trip t) with
      | some q => (q, true)
      | none => (p, false) := by
  rw [deleteStopTime]
  cases h : p.schedule.trips[trip]? with
  | none => rfl
  | some t =>
    simp only [Schedule.deleteStopTime, Schedule.editCalls_eq, h, Option.bind_some]
    cases Calls.delete? stop t.calls <;> rfl

/-- Relations between patched schedules that a deletion by bare ids keeps and in which it succeeds on
both sides or on neither, where each side has its own reading of bare ids. -/
def Parallel (ids ids' : BareIds R) (Rel : Patched R → Patched R → Prop)
    (pair : String × String) : Prop :=
  ∀ p q, Rel p q →
    let p' := p.deleteStopTime (ids.trip p.schedule pair.1) (ids.stop p.schedule pair.2)
    let q' := q.deleteStopTime (ids'.trip q.schedule pair.1) (ids'.stop q.schedule pair.2)
    Rel p'.1 q'.1 ∧ q'.2 = p'.2

namespace Parallel

variable {ids ids' : BareIds R} {Rel : Patched R → Patched R → Prop} {p q : Patched R}

theorem deleteStopTimes {pairs : List (String × String)}
    (h : ∀ pair ∈ pairs, Parallel ids ids' Rel pair) (hpq : Rel p q) :
    Rel (p.deleteStopTimes ids pairs).1 (q.deleteStopTimes ids' pairs).1 ∧
      (q.deleteStopTimes ids' pairs).2 = (p.deleteStopTimes ids pairs).2 := by
  induction pairs generalizing p q with
  | nil => exact ⟨hpq, rfl⟩
  | cons pair pairs ih =>
    obtain ⟨hpair, hpairs⟩ := List.forall_mem_cons.1 h
    obtain ⟨trip, stop⟩ := pair
    obtain ⟨hrel, hfound⟩ := hpair p q hpq
    obtain ⟨hrest, hcount⟩ := ih hpairs hrel
    exact ⟨hrest, by simp only [Patched.deleteStopTimes, hfound, hcount]⟩

theorem applyChange {today : Date} {c : ServiceChange}
    (h : ∀ pair ∈ c.deletions today, Parallel ids ids' Rel pair) (hpq : Rel p q) :
    Rel (p.applyChange ids today c).1 (q.applyChange ids' today c).1 ∧
      (q.applyChange ids' today c).2 = (p.applyChange ids today c).2 := by
  rw [Patched.applyChange, Patched.applyChange]
  split
  · exact ⟨hpq, rfl⟩
  · next hvalid =>
    split
    · exact ⟨hpq, rfl⟩
    · next hholds =>
      split
      · next pairs hop =>
        rw [Bool.not_eq_true', Bool.not_eq_false] at hvalid hholds
        have hpairs : c.deletions today = pairs := by
          rw [ServiceChange.deletions, hvalid, hholds, hop]
          rfl
        rw [hpairs] at h
        have hdeleted := deleteStopTimes h hpq
        revert hdeleted
        rcases p.deleteStopTimes ids pairs with ⟨p', n⟩
        rcases q.deleteStopTimes ids' pairs with ⟨q', m⟩
        rintro ⟨hrel, rfl⟩
        cases m with
        | zero => exact ⟨hrel, rfl⟩
        | succ m => exact ⟨hrel, rfl⟩
      · exact ⟨hpq, rfl⟩

theorem applyChanges {today : Date} {cs : List ServiceChange}
    (h : ∀ c ∈ cs, ∀ pair ∈ c.deletions today, Parallel ids ids' Rel pair) (hpq : Rel p q) :
    Rel (p.applyChanges ids today cs).1 (q.applyChanges ids' today cs).1 ∧
      (q.applyChanges ids' today cs).2 = (p.applyChanges ids today cs).2 := by
  rw [Patched.applyChanges, Patched.applyChanges]
  generalize ({ submitted := cs.length } : PatchReport) = report
  induction cs generalizing p q report with
  | nil => exact ⟨hpq, rfl⟩
  | cons c cs ih =>
    obtain ⟨hc, hcs⟩ := List.forall_mem_cons.1 h
    obtain ⟨hrel, houtcome⟩ := applyChange hc hpq
    rw [List.foldl_cons, List.foldl_cons]
    simp only [houtcome]
    exact ih hcs hrel _

end Parallel

/-- Relations between patched schedules in which bare ids resolve alike, kept by every deletion on
both sides, which succeeds on both or on neither. -/
structure Lockstep (ids : BareIds R) (Rel : Patched R → Patched R → Prop) : Prop where
  trip {p q : Patched R} : Rel p q → ids.trip q.schedule = ids.trip p.schedule
  stop {p q : Patched R} : Rel p q → ids.stop q.schedule = ids.stop p.schedule
  step {p q : Patched R} (trip stop : Ident) : Rel p q →
    Rel (p.deleteStopTime trip stop).1 (q.deleteStopTime trip stop).1 ∧
      (q.deleteStopTime trip stop).2 = (p.deleteStopTime trip stop).2

theorem Lockstep.applyChanges {ids : BareIds R} {Rel : Patched R → Patched R → Prop}
    {p q : Patched R} (h : Lockstep ids Rel) (today : Date) (cs : List ServiceChange)
    (hpq : Rel p q) :
    Rel (p.applyChanges ids today cs).1 (q.applyChanges ids today cs).1 ∧
      (q.applyChanges ids today cs).2 = (p.applyChanges ids today cs).2 := by
  refine Parallel.applyChanges (fun c _ pair _ p q hpq => ?_) hpq
  rw [h.trip hpq, h.stop hpq]
  exact h.step _ _ hpq

/-- What every deletion keeps is kept by batches of changes. -/
theorem applyChanges_of_step {P : Patched R → Prop}
    (step : ∀ p trip stop, P p → P (p.deleteStopTime trip stop).1) (ids : BareIds R)
    (today : Date) (cs : List ServiceChange) {p : Patched R} (hp : P p) :
    P (p.applyChanges ids today cs).1 := by
  have hstep : Lockstep ids fun p q : Patched R => q = p ∧ P p :=
    { trip := fun h => by rw [h.1]
      stop := fun h => by rw [h.1]
      step := fun trip stop h => by
        obtain ⟨rfl, hp⟩ := h
        exact ⟨⟨rfl, step _ trip stop hp⟩, rfl⟩ }
  exact (hstep.applyChanges today cs ⟨rfl, hp⟩).1.2

end Patched

end Timetable

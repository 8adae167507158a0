import Timetable.Proofs.Change.Deletion

namespace Timetable

variable {R : Type}

section Outcomes

variable {c : ServiceChange} {today : Date}

/-- Whether a change is well formed, holds on a date and asks for deletions. -/
def ServiceChange.isCarriedOut (c : ServiceChange) (today : Date) : Bool :=
  c.isValid && c.holdsOn today &&
    match c.operation with
    | .deleteStopTimes _ => true
    | _ => false

theorem ServiceChange.deletions_eq_nil (h : ¬c.isCarriedOut today) : c.deletions today = [] := by
  rw [deletions]
  split
  · next hvalid =>
    rw [isCarriedOut, hvalid, Bool.true_and] at h
    split
    · next pairs hop =>
      rw [hop] at h
      exact (h rfl).elim
    · rfl
  · rfl

/-- What becomes of a change that deletes so many stop times. -/
def ServiceChange.outcome (c : ServiceChange) (today : Date) : Nat → PatchOutcome
  | 0 => if c.isValid && !c.holdsOn today then .notApplicable else .failed
  | n + 1 => .applied (n + 1)

namespace PatchReport

variable {n : Nat}

/-- A report in which so many changes are accounted for, each that was applied with at least one
mutation. -/
structure Balanced (n : Nat) (r : PatchReport) : Prop where
  handled : r.applied + r.failed + r.notApplicable = n
  applied_le : r.applied ≤ r.mutations

theorem Balanced.add {r : PatchReport} (h : r.Balanced n) (c : ServiceChange) (today : Date)
    (deleted : Nat) : (r.add (c.outcome today deleted)).Balanced (n + 1) := by
  have hhandled := h.handled
  have happlied := h.applied_le
  cases deleted with
  | zero =>
    rw [ServiceChange.outcome]
    split
    · exact ⟨by simp only [PatchReport.add]; omega, happlied⟩
    · exact ⟨by simp only [PatchReport.add]; omega, happlied⟩
  | succ m =>
    rw [ServiceChange.outcome]
    exact ⟨by simp only [PatchReport.add]; omega, by simp only [PatchReport.add]; omega⟩

@[simp] theorem mutations_add (r : PatchReport) (c : ServiceChange) (today : Date) (deleted : Nat) :
    (r.add (c.outcome today deleted)).mutations = r.mutations + deleted := by
  cases deleted with
  | zero =>
    rw [ServiceChange.outcome]
    split <;> rfl
  | succ m => rfl

@[simp] theorem submitted_add (r : PatchReport) (o : PatchOutcome) :
    (r.add o).submitted = r.submitted := by
  cases o <;> rfl

end PatchReport

end Outcomes

namespace Patched

open Schedule

variable [Zero R] (ids : BareIds R) (today : Date)

theorem applyChange_eq (p : Patched R) (c : ServiceChange) :
    p.applyChange ids today c = ((p.deleteStopTimes ids (c.deletions today)).1,
      c.outcome today (p.deleteStopTimes ids (c.deletions today)).2) := by
  rw [applyChange, ServiceChange.deletions]
  cases hvalid : c.isValid with
  | false => simp [deleteStopTimes, ServiceChange.outcome, hvalid]
  | true =>
    cases hholds : c.holdsOn today with
    | false => simp [deleteStopTimes, ServiceChange.outcome, hvalid, hholds]
    | true =>
      simp only [Bool.not_true, Bool.false_eq_true, if_false, Bool.and_self, if_true]
      cases c.operation with
      | deleteStopTimes pairs =>
        simp only
        rcases p.deleteStopTimes ids pairs with ⟨q, n⟩
        cases n <;> simp [ServiceChange.outcome, hvalid, hholds]
      | _ => simp [deleteStopTimes, ServiceChange.outcome, hvalid, hholds]

def applyNext (r : Patched R × PatchReport) (c : ServiceChange) : Patched R × PatchReport :=
  let q := r.1.deleteStopTimes ids (c.deletions today)
  (q.1, r.2.add (c.outcome today q.2))

theorem applyChanges_eq_foldl (p : Patched R) (cs : List ServiceChange) :
    p.applyChanges ids today cs =
      cs.foldl (applyNext ids today) (p, { submitted := cs.length }) := by
  rw [applyChanges]
  congr 1
  funext r c
  simp only [applyChange_eq]
  rfl

/-- A schedule and a report that account for the first `n` changes of a batch. -/
structure Accounts (base : Schedule R) (submitted n : Nat) (r : Patched R × PatchReport) :
    Prop where
  submitted : r.2.submitted = submitted
  balanced : r.2.Balanced n
  lost : Lost r.2.mutations base r.1.schedule

variable {base : Schedule R} {submitted n : Nat} {r : Patched R × PatchReport}

theorem Accounts.applyNext (h : Accounts base submitted n r) (c : ServiceChange) :
    Accounts base submitted (n + 1) (applyNext ids today r c) where
  submitted := (PatchReport.submitted_add _ _).trans h.submitted
  balanced := h.balanced.add c today _
  lost := by
    rw [Patched.applyNext, PatchReport.mutations_add]
    exact h.lost.trans (lost_deleteStopTimes ids r.1 _)

theorem Accounts.foldl (h : Accounts base submitted n r) (cs : List ServiceChange) :
    Accounts base submitted (n + cs.length) (cs.foldl (Patched.applyNext ids today) r) := by
  induction cs generalizing r n with
  | nil => exact h
  | cons c cs ih =>
    rw [List.length_cons, Nat.add_comm cs.length, ← Nat.add_assoc]
    exact ih (h.applyNext ids today c)

theorem accounts_applyChanges (p : Patched R) (cs : List ServiceChange) :
    Accounts p.schedule cs.length cs.length (p.applyChanges ids today cs) := by
  have hstart : Accounts p.schedule cs.length 0 (p, { submitted := cs.length }) :=
    ⟨rfl, ⟨rfl, Nat.le_refl 0⟩, .none p.schedule⟩
  have hrun := hstart.foldl ids today cs
  rw [Nat.zero_add] at hrun
  rwa [applyChanges_eq_foldl]

section Fixed

variable (trip stop : String → Ident)

theorem fst_deleteStopTimes (p : Patched R) (pairs : List (String × String)) :
    (p.deleteStopTimes (.fixed trip stop) pairs).1 = p.deleteAll (pairs.map (.map trip stop)) := by
  induction pairs generalizing p with
  | nil => rfl
  | cons pair pairs ih =>
    rw [deleteStopTimes_cons]
    exact ih _

theorem fst_applyChanges (p : Patched R) (cs : List ServiceChange) :
    (p.applyChanges (.fixed trip stop) today cs).1 =
      p.deleteAll ((cs.flatMap (·.deletions today)).map (.map trip stop)) := by
  rw [applyChanges_eq_foldl]
  generalize ({ submitted := cs.length } : PatchReport) = report
  induction cs generalizing p report with
  | nil => rfl
  | cons c cs ih =>
    rw [List.foldl_cons, applyNext, ih, List.flatMap_cons, List.map_append, deleteAll_append,
      fst_deleteStopTimes]

end Fixed

/-- Schedules with reports that differ in no more than how many changes came and did nothing. -/
structure Alike (r s : Patched R × PatchReport) : Prop where
  patched : s.1 = r.1
  applied : s.2.applied = r.2.applied
  mutations : s.2.mutations = r.2.mutations

namespace Alike

variable {s : Patched R × PatchReport} {c : ServiceChange}

theorem applyNext (h : Alike r s) (c : ServiceChange) :
    Alike (applyNext ids today r c) (Patched.applyNext ids today s c) := by
  have hpatched := h.patched
  rw [Patched.applyNext, Patched.applyNext, hpatched]
  generalize r.1.deleteStopTimes ids (c.deletions today) = q
  refine ⟨rfl, ?_, ?_⟩
  · cases c.outcome today q.2 with
    | applied n => exact congrArg (· + 1) h.applied
    | failed => exact h.applied
    | notApplicable => exact h.applied
  · simp [h.mutations]

theorem skip (h : Alike r s) (hc : ¬c.isCarriedOut today) :
    Alike (Patched.applyNext ids today r c) s := by
  rw [Patched.applyNext, ServiceChange.deletions_eq_nil hc]
  refine ⟨h.patched, h.applied.trans ?_, h.mutations.trans ?_⟩
  · rw [deleteStopTimes, ServiceChange.outcome]
    split <;> rfl
  · rw [PatchReport.mutations_add]
    rfl

theorem filter (h : Alike r s) (cs : List ServiceChange) :
    Alike (cs.foldl (Patched.applyNext ids today) r)
      ((cs.filter (·.isCarriedOut today)).foldl (Patched.applyNext ids today) s) := by
  induction cs generalizing r s with
  | nil => exact h
  | cons c cs ih =>
    rw [List.filter_cons, List.foldl_cons]
    split
    · rw [List.foldl_cons]
      exact ih (h.applyNext ids today c)
    · next hc => exact ih (h.skip ids today hc)

end Alike

theorem applyChanges_filter (p : Patched R) (cs : List ServiceChange) :
    Alike (p.applyChanges ids today cs)
      (p.applyChanges ids today (cs.filter (·.isCarriedOut today))) := by
  rw [applyChanges_eq_foldl, applyChanges_eq_foldl]
  have hstart : Alike (p, { submitted := cs.length })
    (p, { submitted := (cs.filter (·.isCarriedOut today)).length }) := ⟨rfl, rfl, rfl⟩
  exact hstart.filter ids today cs

end Patched

end Timetable

import Mathlib.Data.List.Chain
import Timetable.Proofs.Change.Patching

namespace Timetable

theorem Date.next?_eq_some {d d' : Date} : d.next? = some d' ↔ d < last ∧ ⟨d.number + 1⟩ = d' := by
  rw [next?, ite_eq_iff]
  simp

namespace Instant

instance : LE Instant :=
  ⟨fun i j => i.date < j.date ∨ i.date = j.date ∧ i.nanosecond ≤ j.nanosecond⟩

def midnight (d : Date) : Instant := ⟨d, 0⟩

theorem isAfterStartOf_iff {i : Instant} {d : Date} :
    i.isAfterStartOf d = true ↔ ¬i ≤ midnight d := by
  have hle : i ≤ midnight d ↔ i.date.number < d.number ∨ i.date = d ∧ i.nanosecond ≤ 0 := Iff.rfl
  have hlt : d < i.date ↔ d.number < i.date.number := Iff.rfl
  have heq : i.date = d ↔ i.date.number = d.number := ⟨congrArg Date.number, by
    intro h
    cases hd : i.date
    cases d
    rw [hd] at h
    exact congrArg Date.mk h⟩
  rw [hle, isAfterStartOf, Bool.or_eq_true, Bool.and_eq_true, decide_eq_true_eq,
    decide_eq_true_eq, decide_eq_true_eq, hlt, heq]
  omega

theorem date_lt_of_isAfterStartOf {i : Instant} {d d' : Date} (h : i.isAfterStartOf d')
    (hnext : d.next? = some d') : d < i.date := by
  obtain ⟨_, rfl⟩ := Date.next?_eq_some.1 hnext
  rw [isAfterStartOf, Bool.or_eq_true, Bool.and_eq_true, decide_eq_true_eq, decide_eq_true_eq] at h
  have hnumber : d.number + 1 ≤ i.date.number := by
    rcases h with hlt | ⟨heq, _⟩
    · exact Int.le_of_lt hlt
    · exact Int.le_of_eq (congrArg Date.number heq).symm
  exact Int.lt_of_lt_of_le (Int.lt_succ d.number) hnumber

end Instant

/-- A feed that comes while the clock shows an instant. -/
structure FeedCall where
  now : Instant
  feed : ChangeFeed

namespace FeedCall

/-- The order in which feeds are applied: by their times, and on different days for one time. -/
def Precedes (last c : FeedCall) : Prop :=
  last.feed.timestamp < c.feed.timestamp ∨
    last.feed.timestamp = c.feed.timestamp ∧ last.now.date < c.now.date

/-- Whether a feed is to be applied when `last` was the last one that was. -/
def Due (c : FeedCall) : Option FeedCall → Prop
  | none => c.feed.changes ≠ []
  | some last => last.feed.timestamp < c.feed.timestamp ∨
    last.feed.timestamp = c.feed.timestamp ∧
      ∃ d, last.now.date.next? = some d ∧ ¬c.now ≤ .midnight d

theorem Due.precedes {last c : FeedCall} (h : c.Due (some last)) : last.Precedes c := by
  rcases h with hlater | ⟨hsame, d, hnext, hpast⟩
  · exact .inl hlater
  · exact .inr ⟨hsame, Instant.date_lt_of_isAfterStartOf (Instant.isAfterStartOf_iff.2 hpast) hnext⟩

end FeedCall

variable {R : Type}

/-- The patcher remembers of all feeds the last one that was applied. -/
structure Patcher.Remembers (p : Patcher R) (last : Option FeedCall) : Prop where
  timestamp : p.lastTimestamp = last.map (·.feed.timestamp)
  reapply : p.reapplyDate = last.bind (·.now.date.next?)

theorem Patcher.Remembers.accepts_iff {p : Patcher R} {last : Option FeedCall}
    (h : p.Remembers last) (c : FeedCall) : p.accepts c.now c.feed ↔ c.Due last := by
  rw [accepts, h.timestamp, h.reapply]
  cases last with
  | none => simp [FeedCall.Due]
  | some last =>
    simp only [Option.map_some, Option.bind_some, Bool.or_eq_true, Bool.and_eq_true,
      decide_eq_true_eq, Option.any_eq_true, Instant.isAfterStartOf_iff, FeedCall.Due]

namespace Engine

variable [Geometry R]

def receive (e : Engine R) (c : FeedCall) : Engine R × Option PatchReport :=
  { e with now := c.now }.applyFeed c.feed

def receiveAll (e : Engine R) (cs : List FeedCall) : Engine R :=
  cs.foldl (fun e c => (e.receive c).1) e

def answers (e : Engine R) : List FeedCall → List (Option PatchReport)
  | [] => []
  | c :: cs => (e.receive c).2 :: (e.receive c).1.answers cs

def appliedFeeds (e : Engine R) : List FeedCall → List FeedCall
  | [] => []
  | c :: cs =>
    if (e.receive c).2.isSome then c :: (e.receive c).1.appliedFeeds cs
    else (e.receive c).1.appliedFeeds cs

variable {e : Engine R} {last : Option FeedCall}

@[simp] theorem refreshAfter_patcher (e : Engine R) (n : Nat) :
    (e.refreshAfter n).patcher = e.patcher := by
  obtain ⟨_, hindex⟩ := refreshAfter_eq e n
  rw [hindex]

theorem receive_applied {c : FeedCall} (h : e.patcher.accepts c.now c.feed) :
    (e.receive c).2.isSome ∧ (e.receive c).1.patcher.Remembers (some c) := by
  rw [receive, applyFeed, Patcher.applyFeed, if_pos h]
  refine ⟨rfl, ?_, ?_⟩ <;> rw [refreshAfter_patcher] <;> rfl

theorem receive_refused {c : FeedCall} (h : ¬e.patcher.accepts c.now c.feed) :
    e.receive c = ({ e with now := c.now }, none) :=
  applyFeed_skipped h

theorem receive_skipped {c : FeedCall} (h : (e.receive c).2 = none) :
    (e.receive c).1 = { e with now := c.now } := by
  by_cases ha : e.patcher.accepts c.now c.feed
  · have happlied := (receive_applied ha).1
    rw [h] at happlied
    cases happlied
  · rw [receive_refused ha]

theorem answers_at_instant (e : Engine R) (now : Instant) (cs : List FeedCall) :
    { e with now }.answers cs = e.answers cs := by
  cases cs <;> rfl

section Remembering

variable (h : e.patcher.Remembers last)
include h

theorem receive_answered_iff (c : FeedCall) : (e.receive c).2.isSome ↔ c.Due last := by
  rw [← h.accepts_iff c]
  by_cases ha : e.patcher.accepts c.now c.feed
  · exact iff_of_true (receive_applied ha).1 ha
  · rw [receive_refused ha]
    exact iff_of_false Bool.false_ne_true ha

theorem remembers_receive (c : FeedCall) :
    (e.receive c).1.patcher.Remembers (if (e.receive c).2.isSome then some c else last) := by
  by_cases ha : e.patcher.accepts c.now c.feed
  · rw [if_pos (receive_applied ha).1]
    exact (receive_applied ha).2
  · rw [receive_refused ha]
    exact h

theorem remembers_receiveAll (cs : List FeedCall) :
    (e.receiveAll cs).patcher.Remembers ((e.appliedFeeds cs).getLast?.or last) := by
  induction cs generalizing e last with
  | nil => exact h
  | cons c cs ih =>
    have hrun := ih (remembers_receive h c)
    rw [appliedFeeds]
    split at hrun
    next hanswered =>
      rw [if_pos hanswered, List.getLast?_cons]
      cases hlast : ((e.receive c).1.appliedFeeds cs).getLast? <;> rw [hlast] at hrun <;> exact hrun
    next hskipped =>
      rw [if_neg hskipped]
      exact hrun

theorem appliedFeeds_due (cs : List FeedCall) :
    (∀ c ∈ (e.appliedFeeds cs).head?, c.Due last) ∧
    (e.appliedFeeds cs).IsChain fun before c => c.Due (some before) := by
  induction cs generalizing e last with
  | nil => exact ⟨nofun, .nil⟩
  | cons c cs ih =>
    have hrest := ih (remembers_receive h c)
    rw [appliedFeeds]
    split at hrest
    next hanswered =>
      rw [if_pos hanswered]
      refine ⟨fun d hd => ?_, List.isChain_cons.2 hrest⟩
      cases hd
      exact (receive_answered_iff h c).1 hanswered
    next hskipped =>
      rw [if_neg hskipped]
      exact hrest

end Remembering

/-- However often feeds come to a patcher that has not applied any, whatever they hold and the
clock shows: the first that is applied is not empty, and each further one is newer than the one
before or of the same time and applied on a later date. One that is skipped changes nothing, and all
that come later are treated as if it had not come. If it is of the time of the last that was applied
then the midnight after that application has not passed, or no date follows. -/
theorem feeds_applied_in_order (e : Engine R) (fresh : e.patcher = {}) (cs : List FeedCall) :
    (∀ c ∈ (e.appliedFeeds cs).head?, c.feed.changes ≠ []) ∧
    (e.appliedFeeds cs).IsChain FeedCall.Precedes ∧
    ∀ before c after, cs = before ++ c :: after →
      let e' := e.receiveAll before
      (e'.receive c).2 = none →
        (e'.receive c).1 = { e' with now := c.now } ∧
        (e'.receive c).1.answers after = e'.answers after ∧
        ∀ last ∈ (e.appliedFeeds before).getLast?, c.feed.timestamp = last.feed.timestamp →
          ∀ d, last.now.date.next? = some d → c.now ≤ .midnight d := by
  have he : e.patcher.Remembers none := by
    constructor <;> rw [fresh] <;> rfl
  obtain ⟨hfirst, hchain⟩ := appliedFeeds_due he cs
  refine ⟨hfirst, hchain.imp fun _ _ => FeedCall.Due.precedes, fun before c after _ => ?_⟩
  intro e' hskipped
  have hunchanged : (e'.receive c).1 = { e' with now := c.now } := receive_skipped hskipped
  refine ⟨hunchanged, ?_, fun last hlast hsame d hnext => ?_⟩
  · rw [hunchanged, answers_at_instant]
  · have hlast : e'.patcher.Remembers (some last) := by
      have hrun := remembers_receiveAll he before
      rwa [hlast] at hrun
    by_contra hpast
    have hdue : c.Due (some last) := .inr ⟨hsame.symm, d, hnext, hpast⟩
    have hanswered := (receive_answered_iff hlast c).2 hdue
    rw [hskipped] at hanswered
    cases hanswered

/-- An empty feed, a deletion, the same again and an older one on that day, and the same once more
on the next. -/
def feedsOfTwoDays : List FeedCall :=
  let feed : ChangeFeed := { timestamp := 100, changes := [cut "T1" "Y"] }
  [⟨default, { timestamp := 100 }⟩, ⟨default, feed⟩, ⟨default, feed⟩,
    ⟨default, { feed with timestamp := 50 }⟩, ⟨⟨⟨1⟩, 1⟩, feed⟩]

theorem feeds_applied_in_order_feedsOfTwoDays :
    let e := shortenedDayEngine
    let cs := feedsOfTwoDays
    e.patcher = {} ∧
    (e.answers cs).map Option.isSome = [false, true, false, false, true] ∧
    (∀ c ∈ (e.appliedFeeds cs).head?, c.feed.changes ≠ []) ∧
    (e.appliedFeeds cs).IsChain FeedCall.Precedes ∧
    ∀ before c after, cs = before ++ c :: after →
      let e' := e.receiveAll before
      (e'.receive c).2 = none →
        (e'.receive c).1 = { e' with now := c.now } ∧
        (e'.receive c).1.answers after = e'.answers after ∧
        ∀ last ∈ (e.appliedFeeds before).getLast?, c.feed.timestamp = last.feed.timestamp →
          ∀ d, last.now.date.next? = some d → c.now ≤ .midnight d :=
  ⟨rfl, by decide +kernel, feeds_applied_in_order shortenedDayEngine rfl feedsOfTwoDays⟩

end Engine

end Timetable

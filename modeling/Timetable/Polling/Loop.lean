import Timetable.Polling

namespace Timetable.Polling

/-- A task, and when and how it is told to stop. -/
structure Plan where
  delay : Nat
  script : List Cycle
  stop : Nat
  how : Stop
  deriving Repr

/-- The cycle of a number, also beyond the script. -/
def Plan.cycle (p : Plan) (n : Nat) : Cycle := p.script.getD n .idle

inductive Phase where
  | starting
  /-- Waits for a cycle to end. -/
  | awaiting (cycle : Nat)
  /-- Waits for a time to come, or for the signal. -/
  | sleeping (wake : Nat)
  | stopped
  deriving DecidableEq, Repr

/-- Where whoever stops the task is. -/
inductive Owner where
  | holding
  /-- Has given the signal and waits for the loop to stop. -/
  | joining
  /-- Went on at a time. -/
  | gone (time : Nat)
  deriving DecidableEq, Repr

/-- Whoever shuts a task down waits for the loop, whoever drops it goes on. -/
def Owner.ofStop (now : Nat) : Stop → Owner
  | .shutdown => .joining
  | .drop => .gone now

structure Run where
  span : Span
  ended : Bool
  deriving DecidableEq, Repr

structure World where
  now : Nat := 0
  phase : Phase := .starting
  runs : List Run := []
  /-- How the cycles ended that the loop has waited for. -/
  noted : List Outcome := []
  signalled : Bool := false
  owner : Owner := .holding
  deriving Repr

namespace World

def startNext (p : Plan) (w : World) : World :=
  let n := w.runs.length
  { w with phase := .awaiting n, runs := w.runs ++ [⟨(p.cycle n).span w.now, false⟩] }

def signal (p : Plan) (w : World) : World :=
  { w with signalled := true, owner := .ofStop w.now p.how }

/-- Notes how a cycle ended, and goes on waiting unless the signal has come. -/
def note (p : Plan) (w : World) (n : Nat) : World :=
  { w with
    phase := if w.signalled then .stopped else .sleeping (w.now + p.delay)
    noted := w.noted ++ [(p.cycle n).outcome] }

end World

/-- What can happen at an instant. Where several things can, any of them may come first; a loop that
is to wake and to hear the signal does either. -/
inductive Action (p : Plan) (w : World) : World → Prop where
  | begins : w.phase = .starting → Action p w (w.startNext p)
  | ends {n : Nat} {span : Span} : w.runs[n]? = some ⟨span, false⟩ → span.finish ≤ w.now →
    Action p w { w with runs := w.runs.set n ⟨span, true⟩ }
  | resumes {n : Nat} {span : Span} : w.phase = .awaiting n → w.runs[n]? = some ⟨span, true⟩ →
    Action p w (w.note p n)
  | wakes {wake : Nat} : w.phase = .sleeping wake → wake ≤ w.now → Action p w (w.startNext p)
  | hears {wake : Nat} : w.phase = .sleeping wake → w.signalled →
    Action p w { w with phase := .stopped }
  | signals : w.owner = .holding → p.stop ≤ w.now → Action p w (w.signal p)
  | returns : w.owner = .joining → w.phase = .stopped →
    Action p w { w with owner := .gone w.now }

/-- Worlds in which nothing can happen before the clock goes on. -/
def World.Quiet (p : Plan) (w : World) : Prop := ∀ w', ¬Action p w w'

inductive Step (p : Plan) (w : World) : World → Prop where
  | act {w' : World} : Action p w w' → Step p w w'
  | tick : w.Quiet p → Step p w { w with now := w.now + 1 }

end Timetable.Polling

namespace Timetable.Polling

inductive Outcome where
  | ok
  | error
  | crash
  deriving DecidableEq, Repr

/-- What a cycle does: how many milliseconds it takes, and how it ends. -/
structure Cycle where
  duration : Nat
  outcome : Outcome
  deriving DecidableEq, Repr

/-- The cycles after those of a script: they take no time and end well. -/
def Cycle.idle : Cycle := { duration := 0, outcome := .ok }

structure Span where
  start : Nat
  finish : Nat
  deriving DecidableEq, Repr

def Cycle.span (c : Cycle) (now : Nat) : Span := { start := now, finish := now + c.duration }

/-- Idle cycles from now on, until the signal at `stop` comes while one runs or during the wait for
the next. -/
def idleSpans (delay stop now : Nat) : List Span :=
  if _h : delay = 0 ∨ stop ≤ now + delay then [Cycle.idle.span now]
  else Cycle.idle.span now :: idleSpans delay stop (now + delay)
termination_by stop - now

/-- The cycles of a script, and then idle ones, that start from now on. -/
def spansFrom (delay stop : Nat) : List Cycle → Nat → List Span
  | [], now => idleSpans delay stop now
  | c :: script, now =>
    let span := c.span now
    if stop ≤ span.finish + delay then [span]
    else span :: spansFrom delay stop script (span.finish + delay)

/-- The cycles that run when the signal comes at `stop`. Only the first may start after it. -/
def spans (delay stop : Nat) (script : List Cycle) : List Span := spansFrom delay stop script 0

inductive Stop where
  /-- Waits for the cycle under way. -/
  | shutdown
  /-- Does not wait. -/
  | drop
  deriving DecidableEq, Repr

def finishedBefore (time : Nat) (spans : List Span) : Nat := spans.countP fun s => s.finish < time

def startedBefore (time : Nat) (spans : List Span) : List Span :=
  spans.filter fun s => s.start < time

/-- What is seen by whoever stops a task and then waits a while. -/
structure Sighting where
  /-- When the cycles started. -/
  starts : List Nat
  /-- When whoever stopped the task goes on. -/
  stopped : Nat
  finishedAtStop : Nat
  finished : Nat
  deriving DecidableEq, Repr

/-- What is seen of the cycles of a task that is told to stop at `stop`, `after` milliseconds after
whoever stopped it goes on. What is seen at an instant is what happened before it. -/
def sighting (how : Stop) (stop after : Nat) (spans : List Span) : Sighting :=
  match how with
  | .shutdown =>
    { starts := spans.map (·.start)
      stopped := spans.foldl (fun t s => max t s.finish) stop
      finishedAtStop := spans.length
      finished := spans.length }
  | .drop =>
    { starts := (startedBefore (stop + after) spans).map (·.start)
      stopped := stop
      finishedAtStop := finishedBefore stop spans
      finished := finishedBefore (stop + after) spans }

end Timetable.Polling

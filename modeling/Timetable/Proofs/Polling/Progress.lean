import Mathlib.Logic.Function.Iterate
import Mathlib.Logic.Relation
import Mathlib.Tactic.Choose
import Timetable.Polling.Loop

namespace Timetable.Polling

variable {p : Plan} {w w' : World}

section Ranks

/-- How much the loop has to do before the clock can go on; a cycle that is to start counts for its
task as well. -/
def Phase.rank (now : Nat) : Phase → Nat
  | .starting => 4
  | .awaiting _ => 2
  | .sleeping wake => if wake ≤ now then 4 else 1
  | .stopped => 0

def Owner.rank : Owner → Nat
  | .holding => 2
  | .joining => 1
  | .gone _ => 0

def World.rank (w : World) : Nat :=
  w.runs.countP (!·.ended) + w.phase.rank w.now + w.owner.rank

theorem countP_set_ended {runs : List Run} {n : Nat} {span : Span}
    (h : runs[n]? = some ⟨span, false⟩) :
    (runs.set n ⟨span, true⟩).countP (!·.ended) + 1 = runs.countP (!·.ended) := by
  induction runs generalizing n with
  | nil => cases h
  | cons run runs ih =>
    cases n with
    | zero =>
      obtain rfl : run = ⟨span, false⟩ := Option.some.inj h
      simp
    | succ n =>
      rw [List.set_cons_succ, List.countP_cons, List.countP_cons, ← ih h]
      omega

theorem rank_startNext (h : w.phase.rank w.now = 4) : (w.startNext p).rank < w.rank := by
  have hawaiting : (Phase.awaiting w.runs.length).rank w.now = 2 := rfl
  simp only [World.rank, World.startNext, h, hawaiting, List.countP_append, List.countP_singleton,
    Bool.not_false, if_true]
  omega

/-- Whatever happens leaves less to happen before the clock can go on. -/
theorem Action.rank_lt (hdelay : 0 < p.delay) (h : Action p w w') : w'.rank < w.rank := by
  cases h with
  | begins hphase => exact rank_startNext (by rw [hphase]; rfl)
  | ends hrun _ =>
    have hcount := countP_set_ended hrun
    simp only [World.rank]
    omega
  | resumes hphase _ =>
    have hawaiting (n : Nat) : (Phase.awaiting n).rank w.now = 2 := rfl
    have hasleep : (Phase.sleeping (w.now + p.delay)).rank w.now = 1 := if_neg (by omega)
    have hstopped : Phase.stopped.rank w.now = 0 := rfl
    simp only [World.rank, World.note, hphase, hawaiting]
    split <;> omega
  | wakes hphase hdue => exact rank_startNext (by rw [hphase, Phase.rank, if_pos hdue])
  | hears hphase _ =>
    simp only [World.rank, hphase, Phase.rank]
    split <;> omega
  | signals howner _ =>
    simp only [World.rank, World.signal, howner]
    cases p.how <;> simp [Owner.ofStop, Owner.rank]
  | returns howner _ =>
    simp only [World.rank, howner, Owner.rank]
    omega

theorem Action.now_eq (h : Action p w w') : w'.now = w.now := by
  cases h <;> rfl

end Ranks

def Plan.Steps (p : Plan) : World → World → Prop := Relation.ReflTransGen (Step p)

def Plan.Reaches (p : Plan) (w : World) : Prop := p.Steps {} w

/-- Steps without an end, from a world on. -/
structure Course (p : Plan) (w : World) (worlds : Nat → World) : Prop where
  first : worlds 0 = w
  step (n : Nat) : Step p (worlds n) (worlds (n + 1))

theorem exists_course (p : Plan) (w : World) : ∃ worlds, Course p w worlds := by
  have hnext (v : World) : ∃ v', Step p v v' := by
    by_cases hquiet : v.Quiet p
    · exact ⟨_, .tick hquiet⟩
    · simp only [World.Quiet, not_forall, not_not] at hquiet
      obtain ⟨v', haction⟩ := hquiet
      exact ⟨v', .act haction⟩
  choose next hstep using hnext
  refine ⟨fun n => next^[n] w, rfl, fun n => ?_⟩
  rw [Function.iterate_succ_apply']
  exact hstep _

namespace Course

variable {worlds : Nat → World}

theorem steps (h : Course p w worlds) (n : Nat) : p.Steps w (worlds n) := by
  induction n with
  | zero =>
    rw [h.first]
    exact .refl
  | succ n ih => exact ih.tail (h.step n)

theorem shift (h : Course p w worlds) (n : Nat) :
    Course p (worlds n) fun k => worlds (n + k) where
  first := rfl
  step k := h.step (n + k)

/-- As there is less and less to do, the clock goes on sooner or later. -/
theorem exists_quiet {w : World} {worlds : Nat → World} (h : Course p w worlds)
    (hdelay : 0 < p.delay) : ∃ n, (worlds n).now = w.now ∧ (worlds n).Quiet p := by
  by_cases hquiet : w.Quiet p
  · exact ⟨0, by rw [h.first], by rwa [h.first]⟩
  · have hfirst := h.step 0
    rw [h.first] at hfirst
    have haction : Action p w (worlds 1) := by
      generalize worlds (0 + 1) = v at hfirst
      cases hfirst with
      | act haction => exact haction
      | tick hnothing => exact (hquiet hnothing).elim
    -- the rest of the course starts from a world of smaller rank
    have hless := haction.rank_lt hdelay
    obtain ⟨n, hnow, hquiet⟩ := exists_quiet (h.shift 1) hdelay
    exact ⟨1 + n, hnow.trans haction.now_eq, hquiet⟩
termination_by w.rank

theorem exists_at (h : Course p w worlds) (hdelay : 0 < p.delay) {time : Nat}
    (hle : w.now ≤ time) : ∃ n, (worlds n).now = time ∧ (worlds n).Quiet p := by
  induction hle with
  | refl => exact h.exists_quiet hdelay
  | step _ ih =>
    obtain ⟨n, hnow, hquiet⟩ := ih
    have htick := h.step n
    generalize hv : worlds (n + 1) = v at htick
    cases htick with
    | act haction => exact (hquiet _ haction).elim
    | tick _ =>
      obtain ⟨k, hnow', hquiet'⟩ := (h.shift (n + 1)).exists_quiet hdelay
      refine ⟨n + 1 + k, ?_, hquiet'⟩
      rw [hnow', hv, ← hnow]

end Course

end Timetable.Polling

import Timetable.Proofs.Polling.Progress
import Timetable.Proofs.Polling.Spans

namespace Timetable.Polling

def Span.run (s : Span) (time : Nat) : Run := ⟨s, s.finish ≤ time⟩

namespace Plan

variable (p : Plan)

def done (n : Nat) : List Run := (List.range n).map fun k => ⟨p.span k, true⟩

def outcomes (n : Nat) : List Outcome := (List.range n).map fun k => (p.cycle k).outcome

@[simp] theorem length_done (n : Nat) : (p.done n).length = n := by
  rw [done, List.length_map, List.length_range]

theorem done_succ (n : Nat) : p.done (n + 1) = p.done n ++ [⟨p.span n, true⟩] := by
  rw [done, List.range_succ, List.map_append]
  rfl

theorem outcomes_succ (n : Nat) :
    p.outcomes (n + 1) = p.outcomes n ++ [(p.cycle n).outcome] := by
  rw [outcomes, List.range_succ, List.map_append]
  rfl

variable {p} {n time : Nat}

theorem ended_of_mem_done {r : Run} (h : r ∈ p.done n) : r.ended = true := by
  obtain ⟨k, _, rfl⟩ := List.mem_map.1 h
  rfl

@[simp] theorem map_span_done : (p.done n).map (·.span) = (List.range n).map p.span := by
  rw [done, List.map_map]
  rfl

@[simp] theorem countP_open_done : (p.done n).countP (!·.ended) = 0 := by
  rw [List.countP_eq_zero]
  intro r hr
  rw [ended_of_mem_done hr]
  exact nofun

@[simp] theorem countP_ended_done : (p.done n).countP (·.ended) = n := by
  simp [List.countP_eq_length.2 fun _ hr => ended_of_mem_done hr]

theorem map_run_spans (h : ∀ k < n, (p.span k).finish ≤ time) :
    ((List.range n).map p.span).map (·.run time) = p.done n := by
  rw [List.map_map, done]
  apply List.map_congr_left
  intro k hk
  rw [Function.comp_apply, Span.run, decide_eq_true (h k (List.mem_range.1 hk))]

end Plan

/-- Where the loop may be at a time, with the cycles that it has started and noted by then. -/
inductive Position (p : Plan) (now : Nat) : Phase → List Run → List Outcome → Prop where
  | starting : now = 0 → Position p now .starting [] []
  | awaiting (n : Nat) (ended : Bool) : p.start n < p.stop → p.start n ≤ now →
    now ≤ (p.span n).finish → (ended → (p.span n).finish ≤ now) →
    Position p now (.awaiting n) (p.done n ++ [⟨p.span n, ended⟩]) (p.outcomes n)
  | sleeping (n : Nat) : p.start n < p.stop → (p.span n).finish ≤ now →
    now ≤ p.start (n + 1) → now ≤ p.stop →
    Position p now (.sleeping (p.start (n + 1))) (p.done (n + 1)) (p.outcomes (n + 1))
  | stopped (n : Nat) : p.Last n → (p.span n).finish ≤ now →
    Position p now .stopped (p.done (n + 1)) (p.outcomes (n + 1))

/-- Where whoever stops the task may be, before the signal and after. -/
inductive Standing (p : Plan) (now : Nat) (phase : Phase) : Bool → Owner → Prop where
  | holding : now ≤ p.stop → phase ≠ .stopped → Standing p now phase false .holding
  | joining : p.how = .shutdown → p.stop ≤ now → (phase = .stopped → now = p.released) →
    Standing p now phase true .joining
  | gone : p.stop ≤ p.released → p.released ≤ now → (p.how = .shutdown → phase = .stopped) →
    Standing p now phase true (.gone p.released)

/-- What is so while nothing can happen. -/
structure Idle (p : Plan) (now : Nat) (phase : Phase) (runs : List Run) (signalled : Bool)
    (owner : Owner) : Prop where
  begun : phase ≠ .starting
  running {n : Nat} {span : Span} : runs[n]? = some ⟨span, false⟩ → now < span.finish
  awaiting {n : Nat} {span : Span} : phase = .awaiting n → runs[n]? ≠ some ⟨span, true⟩
  sleeping {wake : Nat} : phase = .sleeping wake → now < wake ∧ signalled = false
  holding : owner = .holding → now < p.stop
  joining : owner = .joining → phase ≠ .stopped

theorem World.Quiet.idle {p : Plan} {w : World} (h : w.Quiet p) :
    Idle p w.now w.phase w.runs w.signalled w.owner where
  begun hphase := h _ (.begins hphase)
  running hrun := Nat.lt_of_not_le fun hdue => h _ (.ends hrun hdue)
  awaiting hphase hrun := h _ (.resumes hphase hrun)
  sleeping hphase := by
    refine ⟨Nat.lt_of_not_le fun hdue => h _ (.wakes hphase hdue), ?_⟩
    rw [← Bool.not_eq_true]
    exact fun hsignal => h _ (.hears hphase hsignal)
  holding howner := Nat.lt_of_not_le fun hdue => h _ (.signals howner hdue)
  joining howner hphase := h _ (.returns howner hphase)

section Loop

variable {p : Plan} {now n : Nat} {phase : Phase} {runs : List Run} {noted : List Outcome}
  {signalled : Bool} {owner : Owner} {span : Span}

namespace Position

section Starting

variable (hstop : ∀ n, p.stop ≠ p.start n)

include hstop

theorem begins (h : Position p now .starting runs noted) :
    Position p now (.awaiting runs.length)
      (runs ++ [⟨(p.cycle runs.length).span now, false⟩]) noted := by
  cases h with
  | starting hnow =>
    subst hnow
    exact .awaiting 0 false (Nat.pos_of_ne_zero (hstop 0)) (Nat.le_refl 0) (Nat.zero_le _) nofun

theorem wakes {wake : Nat} (h : Position p now (.sleeping wake) runs noted) (hdue : wake ≤ now) :
    Position p now (.awaiting runs.length)
      (runs ++ [⟨(p.cycle runs.length).span now, false⟩]) noted := by
  cases h with
  | sleeping n hbefore hfinish hwake hearly =>
    obtain rfl : now = p.start (n + 1) := Nat.le_antisymm hwake hdue
    rw [p.length_done]
    exact .awaiting (n + 1) false (Nat.lt_of_le_of_ne hearly (hstop (n + 1)).symm)
      (Nat.le_refl _) (p.start_le_finish _) nofun

end Starting

theorem ends (h : Position p now phase runs noted) (hrun : runs[n]? = some ⟨span, false⟩)
    (hdue : span.finish ≤ now) : Position p now phase (runs.set n ⟨span, true⟩) noted := by
  have hopen {k : Nat} (hmem : (⟨span, false⟩ : Run) ∈ p.done k) : False :=
    Bool.noConfusion (Plan.ended_of_mem_done hmem)
  cases h with
  | starting _ => cases hrun
  | sleeping k _ _ _ _ => exact (hopen (List.mem_of_getElem? hrun)).elim
  | stopped k _ _ => exact (hopen (List.mem_of_getElem? hrun)).elim
  | awaiting k ended hbefore hstart hfinish _ =>
    -- all cycles before the last one have ended
    have hlt : ¬n < k := by
      intro hlt
      rw [List.getElem?_append_left (by rwa [p.length_done])] at hrun
      exact hopen (List.mem_of_getElem? hrun)
    rw [List.getElem?_append_right (by rw [p.length_done]; omega), p.length_done,
      List.getElem?_singleton] at hrun
    split at hrun
    · obtain rfl : n = k := by omega
      obtain rfl : p.span n = span := congrArg Run.span (Option.some.inj hrun)
      rw [List.set_append_right _ _ (by rw [p.length_done]), p.length_done, Nat.sub_self]
      exact .awaiting n true hbefore hstart hfinish fun _ => hdue
    · cases hrun

section Resuming

variable (h : Position p now (.awaiting n) runs noted) (hrun : runs[n]? = some ⟨span, true⟩)

include h hrun

theorem awaited : p.start n < p.stop ∧ now = (p.span n).finish ∧ runs = p.done (n + 1) ∧
    noted ++ [(p.cycle n).outcome] = p.outcomes (n + 1) := by
  cases h with
  | awaiting _ ended hbefore hstart hfinish hended =>
    rw [List.getElem?_append_right (by rw [p.length_done]), p.length_done, Nat.sub_self,
      List.getElem?_cons_zero, Option.some.injEq, Run.mk.injEq] at hrun
    obtain ⟨rfl, rfl⟩ := hrun
    exact ⟨hbefore, Nat.le_antisymm hfinish (hended rfl), (p.done_succ n).symm,
      (p.outcomes_succ n).symm⟩

theorem sleeps (hearly : now ≤ p.stop) :
    Position p now (.sleeping (now + p.delay)) runs (noted ++ [(p.cycle n).outcome]) := by
  obtain ⟨hbefore, rfl, rfl, hnoted⟩ := h.awaited hrun
  rw [hnoted, ← p.start_succ]
  exact .sleeping n hbefore (Nat.le_refl _) (Nat.le_add_right _ _) hearly

theorem stops (hdelay : 0 < p.delay) (hlate : p.stop ≤ now) :
    Position p now .stopped runs (noted ++ [(p.cycle n).outcome]) ∧
      (p.how = .shutdown → now = p.released) := by
  obtain ⟨hbefore, rfl, rfl, hnoted⟩ := h.awaited hrun
  have hlast : p.Last n := ⟨hbefore, Nat.le_trans hlate (Nat.le_add_right _ _)⟩
  rw [hnoted]
  refine ⟨.stopped n hlast (Nat.le_refl _), fun hhow => ?_⟩
  rw [hlast.released_shutdown hdelay hhow, Nat.max_eq_right hlate]

end Resuming

theorem hears {wake : Nat} (h : Position p now (.sleeping wake) runs noted)
    (hdelay : 0 < p.delay) (hlate : p.stop ≤ now) :
    Position p now .stopped runs noted ∧ (p.how = .shutdown → now = p.released) := by
  cases h with
  | sleeping n hbefore hfinish hwake hearly =>
    obtain rfl : now = p.stop := Nat.le_antisymm hearly hlate
    have hlast : p.Last n := ⟨hbefore, hwake⟩
    refine ⟨.stopped n hlast hfinish, fun hhow => ?_⟩
    rw [hlast.released_shutdown hdelay hhow, Nat.max_eq_left hfinish]

end Position

namespace Standing

theorem stop_le (h : Standing p now phase true owner) : p.stop ≤ now := by
  cases h with
  | joining _ hlate _ => exact hlate
  | gone hstop hreleased _ => exact Nat.le_trans hstop hreleased

theorem le_stop (h : Standing p now phase false owner) : now ≤ p.stop := by
  cases h with
  | holding hearly _ => exact hearly

theorem goes_on (h : Standing p now phase signalled owner) {phase' : Phase}
    (hphase : phase ≠ .stopped) (hphase' : phase' ≠ .stopped) :
    Standing p now phase' signalled owner := by
  cases h with
  | holding hearly _ => exact .holding hearly hphase'
  | joining hhow hlate _ => exact .joining hhow hlate fun he => (hphase' he).elim
  | gone hstop hreleased hback => exact .gone hstop hreleased fun he => (hphase (hback he)).elim

theorem stops (h : Standing p now phase true owner)
    (hnow : p.how = .shutdown → now = p.released) : Standing p now .stopped true owner := by
  cases h with
  | joining hhow hlate _ => exact .joining hhow hlate fun _ => hnow hhow
  | gone hstop hreleased _ => exact .gone hstop hreleased fun _ => rfl

theorem signals (h : Standing p now phase signalled .holding) (hdue : p.stop ≤ now) :
    Standing p now phase true (.ofStop now p.how) := by
  cases h with
  | holding hearly hphase =>
    obtain rfl : now = p.stop := Nat.le_antisymm hearly hdue
    cases hhow : p.how with
    | shutdown => exact .joining hhow (Nat.le_refl _) fun he => (hphase he).elim
    | drop =>
      have hreleased := Plan.released_drop hhow
      have hgone : Standing p p.stop phase true (.gone p.released) :=
        .gone (Nat.le_of_eq hreleased.symm) (Nat.le_of_eq hreleased) fun he =>
          nomatch hhow.symm.trans he
      rwa [hreleased] at hgone

theorem returns (h : Standing p now .stopped signalled .joining) :
    Standing p now .stopped signalled (.gone now) := by
  cases h with
  | joining hhow hlate hnow =>
    obtain rfl := hnow rfl
    exact .gone hlate (Nat.le_refl _) fun _ => rfl

theorem tick (h : Standing p now phase signalled owner)
    (hidle : Idle p now phase runs signalled owner) :
    Standing p (now + 1) phase signalled owner := by
  cases h with
  | holding _ hphase => exact .holding (hidle.holding rfl) hphase
  | joining hhow hlate _ =>
    exact .joining hhow (Nat.le_succ_of_le hlate) fun he => (hidle.joining rfl he).elim
  | gone hstop hreleased hback => exact .gone hstop (Nat.le_succ_of_le hreleased) hback

end Standing

section Idling

variable (h : Position p now phase runs noted) (hstanding : Standing p now phase signalled owner)
  (hidle : Idle p now phase runs signalled owner)

include h hstanding hidle

/-- Without anything to do the loop waits for a cycle that goes on, or sleeps before the signal
comes, or has stopped. -/
theorem Position.of_idle :
    (∃ n, p.start n < p.stop ∧ p.start n ≤ now ∧ now < (p.span n).finish ∧
      phase = .awaiting n ∧ runs = p.done n ++ [⟨p.span n, false⟩] ∧ noted = p.outcomes n) ∨
    (∃ n, p.start n < p.stop ∧ (p.span n).finish ≤ now ∧ now < p.start (n + 1) ∧ now < p.stop ∧
      phase = .sleeping (p.start (n + 1)) ∧ runs = p.done (n + 1) ∧ noted = p.outcomes (n + 1)) ∨
    (∃ n, p.Last n ∧ (p.span n).finish ≤ now ∧
      phase = .stopped ∧ runs = p.done (n + 1) ∧ noted = p.outcomes (n + 1)) := by
  cases h with
  | starting _ => exact (hidle.begun rfl).elim
  | awaiting n ended hbefore hstart hfinish hended =>
    have hrun : (p.done n ++ [⟨p.span n, ended⟩])[n]? = some ⟨p.span n, ended⟩ := by
      rw [List.getElem?_append_right (by rw [p.length_done]), p.length_done, Nat.sub_self]
      rfl
    cases ended with
    | false => exact .inl ⟨n, hbefore, hstart, hidle.running hrun, rfl, rfl, rfl⟩
    | true => exact (hidle.awaiting rfl hrun).elim
  | sleeping n hbefore hfinish _ hearly =>
    obtain ⟨hwake, rfl⟩ := hidle.sleeping rfl
    cases hstanding with
    | holding _ _ =>
      exact .inr (.inl ⟨n, hbefore, hfinish, hwake, hidle.holding rfl, rfl, rfl, rfl⟩)
  | stopped n hlast hfinish => exact .inr (.inr ⟨n, hlast, hfinish, rfl, rfl, rfl⟩)

theorem Position.tick : Position p (now + 1) phase runs noted := by
  rcases h.of_idle hstanding hidle with
    ⟨n, hbefore, hstart, hfinish, rfl, rfl, rfl⟩ |
    ⟨n, hbefore, hfinish, hwake, hearly, rfl, rfl, rfl⟩ | ⟨n, hlast, hfinish, rfl, rfl, rfl⟩
  · exact .awaiting n false hbefore (Nat.le_succ_of_le hstart) hfinish nofun
  · exact .sleeping n hbefore (Nat.le_succ_of_le hfinish) hwake hearly
  · exact .stopped n hlast (Nat.le_succ_of_le hfinish)

end Idling

end Loop

structure Sound (p : Plan) (w : World) : Prop where
  position : Position p w.now w.phase w.runs w.noted
  standing : Standing p w.now w.phase w.signalled w.owner

namespace Sound

variable {p : Plan} {w w' : World}

theorem initial (p : Plan) : Sound p {} := ⟨.starting rfl, .holding (Nat.zero_le _) nofun⟩

section Steps

variable (hdelay : 0 < p.delay) (hstop : ∀ n, p.stop ≠ p.start n)

include hdelay hstop

/-- Whatever happens, the world stays sound. -/
theorem act (h : Sound p w) (haction : Action p w w') : Sound p w' := by
  obtain ⟨hposition, hstanding⟩ := h
  cases haction with
  | begins hphase =>
    rw [hphase] at hposition hstanding
    exact ⟨hposition.begins hstop, hstanding.goes_on (by simp) (by simp [World.startNext])⟩
  | ends hrun hdue => exact ⟨hposition.ends hrun hdue, hstanding⟩
  | resumes hphase hrun =>
    rw [hphase] at hposition hstanding
    cases hsignal : w.signalled with
    | false =>
      rw [hsignal] at hstanding
      constructor <;> simp only [World.note, hsignal, Bool.false_eq_true, if_false]
      · exact hposition.sleeps hrun hstanding.le_stop
      · exact hstanding.goes_on (by simp) (by simp)
    | true =>
      rw [hsignal] at hstanding
      obtain ⟨hstopped, hnow⟩ := hposition.stops hrun hdelay hstanding.stop_le
      constructor <;> simp only [World.note, hsignal, if_true]
      · exact hstopped
      · exact hstanding.stops hnow
  | wakes hphase hdue =>
    rw [hphase] at hposition hstanding
    exact ⟨hposition.wakes hstop hdue, hstanding.goes_on (by simp) (by simp [World.startNext])⟩
  | hears hphase hsignal =>
    rw [hphase] at hposition
    rw [hsignal] at hstanding
    obtain ⟨hstopped, hnow⟩ := hposition.hears hdelay hstanding.stop_le
    exact ⟨hstopped, hsignal ▸ hstanding.stops hnow⟩
  | signals howner hdue =>
    rw [howner] at hstanding
    exact ⟨hposition, hstanding.signals hdue⟩
  | returns howner hphase =>
    rw [howner, hphase] at hstanding
    exact ⟨hposition, hphase ▸ hstanding.returns⟩

end Steps

theorem tick (h : Sound p w) (hquiet : w.Quiet p) : Sound p { w with now := w.now + 1 } :=
  ⟨h.position.tick h.standing hquiet.idle, h.standing.tick hquiet.idle⟩

theorem of_reaches (hdelay : 0 < p.delay) (hstop : ∀ n, p.stop ≠ p.start n)
    (h : p.Reaches w) : Sound p w := by
  induction h with
  | refl => exact .initial p
  | tail _ hstep ih =>
    cases hstep with
    | act haction => exact ih.act hdelay hstop haction
    | tick hquiet => exact ih.tick hquiet

end Sound

end Timetable.Polling

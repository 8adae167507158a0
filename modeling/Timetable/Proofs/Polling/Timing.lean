import Timetable.Proofs.Polling.Loop

namespace Timetable.Polling

variable {p : Plan} {w w' : World}

def Plan.ownerAt (p : Plan) (time : Nat) : Owner :=
  if time < p.stop then .holding else if time < p.released then .joining else .gone p.released

section Reached

variable {now : Nat} {phase : Phase} {runs : List Run} {noted : List Outcome}

theorem Position.spans_prefix (h : Position p now phase runs noted) (hdelay : 0 < p.delay) :
    runs.map (·.span) <+: p.spans := by
  have htake {n : Nat} (hbefore : p.start n < p.stop) :
      (p.done (n + 1)).map (·.span) <+: p.spans := by
    rw [Plan.map_span_done, ← Plan.take_spans hdelay hbefore]
    exact List.take_prefix _ _
  cases h with
  | starting _ => exact List.nil_prefix
  | awaiting n ended hbefore _ _ _ =>
    have hdone := htake hbefore
    rw [p.done_succ, List.map_append] at hdone
    rwa [List.map_append]
  | sleeping n hbefore _ _ _ => exact htake hbefore
  | stopped n hlast _ => exact htake hlast.before

theorem Position.countP_open_le (h : Position p now phase runs noted) :
    runs.countP (!·.ended) ≤ 1 := by
  cases h with
  | starting _ => exact Nat.zero_le _
  | awaiting n ended _ _ _ _ =>
    rw [List.countP_append, Plan.countP_open_done, Nat.zero_add]
    exact List.countP_le_length
  | sleeping n _ _ _ _ =>
    rw [Plan.countP_open_done]
    exact Nat.zero_le 1
  | stopped n _ _ =>
    rw [Plan.countP_open_done]
    exact Nat.zero_le 1

theorem Standing.owner_eq {signalled : Bool} {owner : Owner}
    (hstanding : Standing p now phase signalled owner) (h : Position p now phase runs noted)
    (hidle : Idle p now phase runs signalled owner) (hdelay : 0 < p.delay) :
    owner = p.ownerAt now := by
  rw [Plan.ownerAt]
  have hposition := h.of_idle hstanding hidle
  cases hstanding with
  | holding _ _ => rw [if_pos (hidle.holding rfl)]
  | gone hstop hreleased _ =>
    rw [if_neg (Nat.not_lt_of_ge (Nat.le_trans hstop hreleased)),
      if_neg (Nat.not_lt_of_ge hreleased)]
  | joining hhow hlate _ =>
    rw [if_neg (Nat.not_lt_of_ge hlate), if_pos]
    rcases hposition with
      ⟨n, hbefore, _, hfinish, _⟩ | ⟨n, _, _, _, hearly, _⟩ | ⟨n, _, _, hphase, _⟩
    · -- the loop waits for the last cycle
      have hlast : p.Last n := ⟨hbefore, by rw [p.start_succ]; omega⟩
      rw [hlast.released_shutdown hdelay hhow]
      exact Nat.lt_of_lt_of_le hfinish (Nat.le_max_right _ _)
    · exact (Nat.not_lt_of_ge hlate hearly).elim
    · exact (hidle.joining rfl hphase).elim

theorem Position.runs_of_stopped (h : Position p now .stopped runs noted) (hdelay : 0 < p.delay) :
    runs = p.spans.map fun s => ⟨s, true⟩ := by
  cases h with
  | stopped n hlast _ =>
    rw [hlast.spans_eq hdelay, List.map_map]
    rfl

theorem Standing.of_gone {signalled : Bool} {time : Nat}
    (h : Standing p now phase signalled (.gone time)) :
    time = p.released ∧ (p.how = .shutdown → phase = .stopped) := by
  cases h with
  | gone _ _ hback => exact ⟨rfl, hback⟩

end Reached

namespace Sound

section Quiet

variable (h : Sound p w) (hquiet : w.Quiet p)

include h hquiet

theorem runs_eq (hdelay : 0 < p.delay) :
    w.runs = (p.spans.filter (·.start ≤ w.now)).map (·.run w.now) := by
  have hdone {n : Nat} (hfinish : (p.span n).finish ≤ w.now) :
      ((List.range (n + 1)).map p.span).map (·.run w.now) = p.done (n + 1) :=
    Plan.map_run_spans fun _ hk =>
      Nat.le_trans (Plan.finish_le (Nat.le_of_lt_succ hk)) hfinish
  have hstarted {n : Nat} (hfinish : (p.span n).finish ≤ w.now) : p.start n ≤ w.now :=
    Nat.le_trans (p.start_le_finish n) hfinish
  rcases h.position.of_idle h.standing hquiet.idle with
    ⟨n, hbefore, hstart, hfinish, _, hruns, _⟩ |
    ⟨n, hbefore, hfinish, hwake, _, _, hruns, _⟩ | ⟨n, hlast, hfinish, _, hruns, _⟩
  · have hnext : w.now < p.start (n + 1) := by
      rw [p.start_succ]
      omega
    have hrun : (p.span n).run w.now = ⟨p.span n, false⟩ := by
      rw [Span.run, decide_eq_false (Nat.not_le_of_gt hfinish)]
    rw [hruns, Plan.filter_spans hdelay hbefore hstart (.inl hnext), List.range_succ,
      List.map_append, List.map_append, Plan.map_run_spans, List.map_singleton,
      List.map_singleton, hrun]
    intro k hk
    have hnext := Plan.finish_add_delay_le (p := p) hk
    omega
  · rw [hruns, Plan.filter_spans hdelay hbefore (hstarted hfinish) (.inl hwake), hdone hfinish]
  · rw [hruns, Plan.filter_spans hdelay hlast.before (hstarted hfinish) (.inr hlast.after),
      hdone hfinish]

theorem noted_eq : w.noted = p.outcomes (w.runs.countP (·.ended)) := by
  rcases h.position.of_idle h.standing hquiet.idle with
    ⟨n, _, _, _, _, hruns, hnoted⟩ | ⟨n, _, _, _, _, _, hruns, hnoted⟩ | ⟨n, _, _, _, hruns, hnoted⟩
  · simp [hnoted, hruns]
  · simp [hnoted, hruns]
  · simp [hnoted, hruns]

theorem owner_eq (hdelay : 0 < p.delay) : w.owner = p.ownerAt w.now :=
  h.standing.owner_eq h.position hquiet.idle hdelay

theorem starts_eq (hdelay : 0 < p.delay) : w.runs.map (·.span.start) =
    (startedBefore (w.now + 1) p.spans).map (·.start) := by
  rw [h.runs_eq hquiet hdelay, List.map_map, startedBefore]
  simp only [Nat.lt_succ_iff]
  rfl

theorem countP_ended_eq (hdelay : 0 < p.delay) (hstop : 0 < p.stop) :
    w.runs.countP (·.ended) = finishedBefore (w.now + 1) p.spans := by
  rw [h.runs_eq hquiet hdelay, List.countP_map, List.countP_filter, finishedBefore]
  apply List.countP_congr
  intro s hs
  have hgrow := Plan.start_le_finish_of_mem hdelay hstop hs
  simp only [Function.comp_apply, Span.run, Bool.and_eq_true, decide_eq_true_eq]
  omega

end Quiet

theorem of_gone (h : Sound p w) {time : Nat} (howner : w.owner = .gone time)
    (hdelay : 0 < p.delay) :
    time = p.released ∧ (p.how = .shutdown → w.runs = p.spans.map fun s => ⟨s, true⟩) := by
  obtain ⟨hposition, hstanding⟩ := h
  rw [howner] at hstanding
  obtain ⟨htime, hback⟩ := hstanding.of_gone
  refine ⟨htime, fun hhow => ?_⟩
  rw [hback hhow] at hposition
  exact hposition.runs_of_stopped hdelay

end Sound

/-- What is seen of the cycles in the world in which the signal comes or whoever stops the task goes
on, and in a later one. -/
def World.sighting (w w' : World) (stopped : Nat) : Sighting where
  starts := w'.runs.map (·.span.start)
  stopped := stopped
  finishedAtStop := w.runs.countP (·.ended)
  finished := w'.runs.countP (·.ended)

section Sightings

variable (hdelay : 0 < p.delay) (hstop : ∀ n, p.stop ≠ p.start n) {after : Nat}

include hdelay hstop

theorem Plan.sighting_drop (hhow : p.how = .drop) (hw : p.Reaches w) (hquiet : w.Quiet p)
    (hnow : w.now + 1 = p.stop) (hw' : p.Reaches w') (hquiet' : w'.Quiet p)
    (hnow' : w'.now + 1 = p.stop + after) :
    sighting p.how p.stop after p.spans = w.sighting w' p.stop := by
  have hpositive : 0 < p.stop := Nat.pos_of_ne_zero (hstop 0)
  have hsound := Sound.of_reaches hdelay hstop hw
  have hsound' := Sound.of_reaches hdelay hstop hw'
  rw [World.sighting, hsound'.starts_eq hquiet' hdelay,
    hsound.countP_ended_eq hquiet hdelay hpositive,
    hsound'.countP_ended_eq hquiet' hdelay hpositive, hnow, hnow', hhow]
  rfl

theorem Plan.sighting_shutdown (hhow : p.how = .shutdown) (hw : p.Reaches w) {time : Nat}
    (howner : w.owner = .gone time) :
    sighting p.how p.stop after p.spans = w.sighting w time := by
  obtain ⟨rfl, hruns⟩ := (Sound.of_reaches hdelay hstop hw).of_gone howner hdelay
  have hended : w.runs.countP (·.ended) = p.spans.length := by
    rw [hruns hhow, List.countP_map, List.countP_eq_length.2]
    exact fun _ _ => rfl
  rw [World.sighting, hended, hruns hhow, List.map_map, released, hhow]
  rfl

end Sightings

/-- Polling keeps to its plan, however its cycles end. Those cycles run that start before the
signal, each the delay after the end of the one before. In every world that is reached they have
been started in their order, at most one is under way, and whoever is let go goes on at the time of
the release, after a shutdown with all of them ended. When nothing is left to happen before the
clock goes on, the cycles that were to start by then have started, those that were to end by then
have ended, dropped or not, and how they did is noted. The loop never gets stuck, and whatever it
does, the clock comes to every time. A drop releases at the signal, and so does a shutdown when no
cycle is under way; otherwise it does at the end of that cycle. What is seen of the cycles after a
drop is what has happened to them before the signal, and then before the wait is over; after a
shutdown it is what there is of them when whoever stops the task goes on. -/
theorem Plan.keeps_time (p : Plan) (hdelay : 0 < p.delay) (hstop : ∀ n, p.stop ≠ p.start n) :
    (∀ n, p.spans[n]? = if p.start n < p.stop then some (p.span n) else none) ∧
    p.spans.Pairwise (fun s t => s.finish + p.delay ≤ t.start) ∧
    (∀ w, p.Reaches w →
      w.runs.map (·.span) <+: p.spans ∧
      w.runs.countP (!·.ended) ≤ 1 ∧
      (∀ time, w.owner = .gone time → time = p.released ∧
        (p.how = .shutdown → w.runs = p.spans.map fun s => ⟨s, true⟩)) ∧
      (w.Quiet p →
        w.runs = (p.spans.filter (·.start ≤ w.now)).map (·.run w.now) ∧
        w.noted = p.outcomes (w.runs.countP (·.ended)) ∧
        w.owner = p.ownerAt w.now)) ∧
    (∀ w, ∃ worlds, Course p w worlds) ∧
    (∀ w worlds, Course p w worlds → ∀ time, w.now ≤ time →
      ∃ n, (worlds n).now = time ∧ (worlds n).Quiet p) ∧
    (p.how = .drop → p.released = p.stop) ∧
    (p.how = .shutdown → (∀ s ∈ p.spans, s.finish ≤ p.stop) → p.released = p.stop) ∧
    (p.how = .shutdown → ∀ s ∈ p.spans, p.stop ≤ s.finish → p.released = s.finish) ∧
    (p.how = .drop → ∀ after w w', p.Reaches w → w.Quiet p → w.now + 1 = p.stop →
      p.Reaches w' → w'.Quiet p → w'.now + 1 = p.stop + after →
      sighting p.how p.stop after p.spans = w.sighting w' p.stop) ∧
    (p.how = .shutdown → ∀ after w time, p.Reaches w → w.owner = .gone time →
      sighting p.how p.stop after p.spans = w.sighting w time) := by
  have hpositive : 0 < p.stop := Nat.pos_of_ne_zero (hstop 0)
  refine ⟨getElem?_spans hdelay hpositive, spans_pairwise hdelay hpositive, fun w hw => ?_,
    exists_course p, fun _ _ hcourse _ hle => hcourse.exists_at hdelay hle, released_drop,
    released_shutdown_of_idle, fun hhow s hs hlate =>
      released_shutdown_of_mem hdelay hpositive hhow hs hlate,
    fun hhow _ _ _ => sighting_drop hdelay hstop hhow,
    fun hhow _ _ _ hw howner => sighting_shutdown hdelay hstop hhow hw howner⟩
  have hsound := Sound.of_reaches hdelay hstop hw
  exact ⟨hsound.position.spans_prefix hdelay, hsound.position.countP_open_le,
    fun _ howner => hsound.of_gone howner hdelay,
    fun hquiet =>
      ⟨hsound.runs_eq hquiet hdelay, hsound.noted_eq hquiet, hsound.owner_eq hquiet hdelay⟩⟩

/-- A cycle that fails, and one that crashes and is under way when the task is shut down. -/
def flakyPlan : Plan where
  delay := 10
  script := [⟨5, .error⟩, ⟨20, .crash⟩, ⟨3, .ok⟩]
  stop := 30
  how := .shutdown

theorem Plan.keeps_time_flakyPlan :
    let p := flakyPlan
    0 < p.delay ∧ (∀ n, p.stop ≠ p.start n) ∧
    p.spans = [⟨0, 5⟩, ⟨15, 35⟩] ∧ p.released = 35 ∧
    (∃ w, p.Reaches w ∧ w.now = 33 ∧ w.Quiet p ∧
      w.runs = [⟨⟨0, 5⟩, true⟩, ⟨⟨15, 35⟩, false⟩] ∧ w.noted = [.error] ∧ w.owner = .joining) ∧
    ∃ w, p.Reaches w ∧ w.now = 50 ∧ w.Quiet p ∧
      w.runs = [⟨⟨0, 5⟩, true⟩, ⟨⟨15, 35⟩, true⟩] ∧ w.noted = [.error, .crash] ∧
      w.owner = .gone 35 ∧ sighting p.how p.stop 20 p.spans = w.sighting w 35 := by
  intro p
  have hdelay : 0 < p.delay := by decide
  have hstop : ∀ n, p.stop ≠ p.start n
    | 0 => by decide
    | 1 => by decide
    | n + 2 => by
      have hlate : 45 ≤ p.start (n + 2) := start_le (p := p) (Nat.le_add_left 2 n)
      change 30 ≠ p.start (n + 2)
      omega
  obtain ⟨_, _, hworlds, hcourse, htimes, _, _, _, _, hseen⟩ := p.keeps_time hdelay hstop
  obtain ⟨worlds, hworld⟩ := hcourse {}
  have hspans : p.spans = [⟨0, 5⟩, ⟨15, 35⟩] := by decide
  have hfound (time : Nat) : ∃ w, p.Reaches w ∧ w.now = time ∧ w.Quiet p ∧
      w.runs = (p.spans.filter (·.start ≤ time)).map (·.run time) ∧
      w.noted = p.outcomes (w.runs.countP (·.ended)) ∧ w.owner = p.ownerAt time := by
    obtain ⟨n, rfl, hquiet⟩ := htimes {} worlds hworld time (Nat.zero_le _)
    have hreached : p.Reaches (worlds n) := hworld.steps n
    exact ⟨worlds n, hreached, rfl, hquiet, (hworlds _ hreached).2.2.2 hquiet⟩
  refine ⟨hdelay, hstop, hspans, by decide, ?_, ?_⟩
  · obtain ⟨w, hreached, hnow, hquiet, hruns, hnoted, howner⟩ := hfound 33
    rw [hruns] at hnoted
    exact ⟨w, hreached, hnow, hquiet, hruns.trans (by decide), hnoted.trans (by decide),
      howner.trans (by decide)⟩
  · obtain ⟨w, hreached, hnow, hquiet, hruns, hnoted, howner⟩ := hfound 50
    rw [hruns] at hnoted
    have hgone : w.owner = .gone 35 := howner.trans (by decide)
    exact ⟨w, hreached, hnow, hquiet, hruns.trans (by decide), hnoted.trans (by decide), hgone,
      hseen rfl 20 w 35 hreached hgone⟩

end Timetable.Polling

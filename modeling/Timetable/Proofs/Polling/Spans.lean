import Mathlib.Data.Nat.Find
import Timetable.Polling.Loop

namespace Timetable.Polling

section Starts

/-- When the cycle of a number starts, if no signal comes. -/
def startOf (delay : Nat) (script : List Cycle) : Nat → Nat
  | 0 => 0
  | n + 1 => startOf delay script n + (script.getD n .idle).duration + delay

variable (delay stop : Nat) (script : List Cycle)

theorem startOf_succ (n : Nat) : startOf delay script (n + 1) =
    (script.headD .idle).duration + delay + startOf delay script.tail n := by
  induction n with
  | zero => cases script <;> simp [startOf]
  | succ n ih =>
    have hcycle : script.getD (n + 1) .idle = script.tail.getD n .idle := by
      cases script <;> rfl
    rw [startOf, ih, hcycle, startOf]
    omega

theorem spansFrom_eq (hdelay : 0 < delay) (now : Nat) : spansFrom delay stop script now =
    let span := (script.headD .idle).span now
    span :: if stop ≤ span.finish + delay then []
      else spansFrom delay stop script.tail (span.finish + delay) := by
  cases script with
  | nil =>
    rw [spansFrom, idleSpans]
    have hidle : ((([] : List Cycle).headD .idle).span now).finish = now := rfl
    simp only [hidle, Nat.ne_of_gt hdelay, false_or]
    split <;> rfl
  | cons c script =>
    rw [spansFrom, List.headD_cons, List.tail_cons]
    exact (apply_ite (c.span now :: ·) _ _ _).symm

theorem getElem?_spansFrom (hdelay : 0 < delay) (n now : Nat) :
    (spansFrom delay stop script now)[n]? =
      if n = 0 ∨ now + startOf delay script n < stop then
        some ((script.getD n .idle).span (now + startOf delay script n))
      else none := by
  -- by the number of the cycle: the second one is the first of the rest of the script
  induction n generalizing script now with
  | zero =>
    rw [spansFrom_eq _ _ _ hdelay, if_pos (.inl rfl)]
    cases script <;> rfl
  | succ n ih =>
    have hcycle : script.getD (n + 1) .idle = script.tail.getD n .idle := by
      cases script <;> rfl
    have hfinish : ((script.headD .idle).span now).finish =
      now + (script.headD .idle).duration := rfl
    rw [spansFrom_eq _ _ _ hdelay, List.getElem?_cons_succ, startOf_succ, hcycle, hfinish]
    split
    · rw [if_neg (by omega), List.getElem?_nil]
    · have hsum : now + (script.headD .idle).duration + delay + startOf delay script.tail n =
          now + ((script.headD .idle).duration + delay + startOf delay script.tail n) := by
        omega
      rw [ih, hsum]
      congr 1
      rw [eq_iff_iff]
      constructor
      · rintro (rfl | hlt)
        · rw [startOf]
          omega
        · exact .inr hlt
      · rintro (hzero | hlt)
        · cases hzero
        · exact .inr hlt

end Starts

namespace Plan

variable (p : Plan)

def start (n : Nat) : Nat := startOf p.delay p.script n

def span (n : Nat) : Span := (p.cycle n).span (p.start n)

def spans : List Span := Polling.spans p.delay p.stop p.script

theorem start_succ (n : Nat) : p.start (n + 1) = (p.span n).finish + p.delay := rfl

theorem start_le_finish (n : Nat) : p.start n ≤ (p.span n).finish := Nat.le_add_right _ _

variable {p} {m n : Nat}

theorem finish_add_delay_le (h : m < n) : (p.span m).finish + p.delay ≤ p.start n := by
  induction h with
  | refl => exact Nat.le_refl _
  | @step n _ ih =>
    have hgrow := p.start_le_finish n
    rw [start_succ]
    omega

theorem start_le (h : m ≤ n) : p.start m ≤ p.start n := by
  rcases Nat.eq_or_lt_of_le h with rfl | hlt
  · exact Nat.le_refl _
  · have hgrow := p.start_le_finish m
    have hafter := finish_add_delay_le (p := p) hlt
    omega

theorem finish_le (h : m ≤ n) : (p.span m).finish ≤ (p.span n).finish := by
  rcases Nat.eq_or_lt_of_le h with rfl | hlt
  · exact Nat.le_refl _
  · have hgrow := p.start_le_finish n
    have hafter := finish_add_delay_le (p := p) hlt
    omega

/-- A cycle is the last to start before the signal. -/
structure Last (p : Plan) (n : Nat) : Prop where
  before : p.start n < p.stop
  after : p.stop ≤ p.start (n + 1)

theorem exists_last (hdelay : 0 < p.delay) (hstop : 0 < p.stop) : ∃ n, p.Last n := by
  have hreach : ∃ n, p.stop ≤ p.start n := by
    have hgrow (n : Nat) : n ≤ p.start n := by
      induction n with
      | zero => exact Nat.zero_le _
      | succ n ih =>
        have hfinish := p.start_le_finish n
        rw [start_succ]
        omega
    exact ⟨p.stop, hgrow p.stop⟩
  have hfirst := Nat.find_spec hreach
  cases hn : Nat.find hreach with
  | zero =>
    rw [hn] at hfirst
    exact (Nat.not_le_of_gt hstop hfirst).elim
  | succ n =>
    rw [hn] at hfirst
    exact ⟨n, Nat.lt_of_not_le (Nat.find_min hreach (hn ▸ Nat.lt_succ_self n)), hfirst⟩

theorem getElem?_spans (hdelay : 0 < p.delay) (hstop : 0 < p.stop) (n : Nat) :
    p.spans[n]? = if p.start n < p.stop then some (p.span n) else none := by
  have hall := getElem?_spansFrom p.delay p.stop p.script hdelay n 0
  rw [Nat.zero_add] at hall
  rw [spans, Polling.spans, hall]
  have hiff : (n = 0 ∨ startOf p.delay p.script n < p.stop) ↔ p.start n < p.stop := by
    constructor
    · rintro (rfl | hlt)
      · exact hstop
      · exact hlt
    · exact .inr
  simp only [hiff]
  rfl

theorem take_spans (hdelay : 0 < p.delay) (hbefore : p.start n < p.stop) :
    p.spans.take (n + 1) = (List.range (n + 1)).map p.span := by
  apply List.ext_getElem?
  intro k
  rw [List.getElem?_take, List.getElem?_map]
  by_cases hk : k < n + 1
  · have hlt := Nat.lt_of_le_of_lt (start_le (Nat.le_of_lt_succ hk)) hbefore
    rw [if_pos hk, getElem?_spans hdelay (Nat.zero_lt_of_lt hbefore), if_pos hlt,
      List.getElem?_range hk, Option.map_some]
  · rw [if_neg hk, List.getElem?_eq_none (by simpa using hk), Option.map_none]

theorem Last.spans_eq (h : p.Last n) (hdelay : 0 < p.delay) :
    p.spans = (List.range (n + 1)).map p.span := by
  have hend : p.spans[n + 1]? = none := by
    rw [getElem?_spans hdelay (Nat.zero_lt_of_lt h.before), if_neg (Nat.not_lt_of_ge h.after)]
  rw [← take_spans hdelay h.before, List.take_of_length_le (List.getElem?_eq_none_iff.1 hend)]

theorem spans_pairwise (hdelay : 0 < p.delay) (hstop : 0 < p.stop) :
    p.spans.Pairwise fun s t => s.finish + p.delay ≤ t.start := by
  obtain ⟨n, hn⟩ := exists_last hdelay hstop
  rw [hn.spans_eq hdelay, List.pairwise_map]
  exact List.pairwise_lt_range.imp fun h => finish_add_delay_le h

theorem start_le_finish_of_mem (hdelay : 0 < p.delay) (hstop : 0 < p.stop) {s : Span}
    (h : s ∈ p.spans) : s.start ≤ s.finish := by
  obtain ⟨n, hn⟩ := exists_last hdelay hstop
  rw [hn.spans_eq hdelay] at h
  obtain ⟨k, _, rfl⟩ := List.mem_map.1 h
  exact p.start_le_finish k

theorem filter_spans (hdelay : 0 < p.delay) {time : Nat} (hbefore : p.start n < p.stop)
    (hstart : p.start n ≤ time) (hnext : time < p.start (n + 1) ∨ p.stop ≤ p.start (n + 1)) :
    p.spans.filter (·.start ≤ time) = (List.range (n + 1)).map p.span := by
  -- starts increase, so the filter keeps what comes before a place in the list
  have hfirst : ∀ s ∈ p.spans.take (n + 1), decide (s.start ≤ time) = true := by
    intro s hs
    rw [take_spans hdelay hbefore] at hs
    obtain ⟨k, hk, rfl⟩ := List.mem_map.1 hs
    exact decide_eq_true (Nat.le_trans (start_le (Nat.le_of_lt_succ (List.mem_range.1 hk))) hstart)
  have hrest : ∀ s ∈ p.spans.drop (n + 1), ¬decide (s.start ≤ time) = true := by
    intro s hs
    obtain ⟨k, hk⟩ := List.mem_iff_getElem?.1 hs
    rw [List.getElem?_drop, getElem?_spans hdelay (Nat.zero_lt_of_lt hbefore)] at hk
    have hle : p.start (n + 1) ≤ p.start (n + 1 + k) := start_le (Nat.le_add_right _ _)
    split at hk
    · obtain rfl := Option.some.inj hk
      have hspan : (p.span (n + 1 + k)).start = p.start (n + 1 + k) := rfl
      rw [decide_eq_true_eq, hspan]
      omega
    · cases hk
  rw [← List.take_append_drop (n + 1) p.spans, List.filter_append, List.filter_eq_self.2 hfirst,
    List.filter_eq_nil_iff.2 hrest, List.append_nil, take_spans hdelay hbefore]

section Release

/-- When whoever stops the task goes on. -/
def released (p : Plan) : Nat := (sighting p.how p.stop 0 p.spans).stopped

theorem foldl_finish_of_le {spans : List Span} {time : Nat} (h : ∀ s ∈ spans, s.finish ≤ time) :
    spans.foldl (fun t s => max t s.finish) time = time := by
  induction spans with
  | nil => rfl
  | cons s spans ih =>
    obtain ⟨hs, hspans⟩ := List.forall_mem_cons.1 h
    rw [List.foldl_cons, Nat.max_eq_left hs, ih hspans]

theorem released_drop (h : p.how = .drop) : p.released = p.stop := by
  rw [released, h]
  rfl

/-- A shutdown takes until the end of the last cycle, if that is after the signal. -/
theorem Last.released_shutdown (hn : p.Last n) (hdelay : 0 < p.delay) (h : p.how = .shutdown) :
    p.released = max p.stop (p.span n).finish := by
  -- all cycles but the last end before it starts, and so before the signal
  have hbefore : ∀ s ∈ (List.range n).map p.span, s.finish ≤ p.stop := by
    intro s hs
    obtain ⟨k, hk, rfl⟩ := List.mem_map.1 hs
    have hnext := finish_add_delay_le (p := p) (List.mem_range.1 hk)
    have hlast := hn.before
    omega
  have hreleased : p.released = p.spans.foldl (fun t s => max t s.finish) p.stop := by
    rw [released, h]
    rfl
  rw [hreleased, hn.spans_eq hdelay, List.range_succ, List.map_append, List.foldl_append,
    foldl_finish_of_le hbefore]
  rfl

theorem released_shutdown_of_idle (hhow : p.how = .shutdown)
    (h : ∀ s ∈ p.spans, s.finish ≤ p.stop) : p.released = p.stop := by
  rw [released, hhow]
  exact foldl_finish_of_le h

theorem released_shutdown_of_mem (hdelay : 0 < p.delay) (hstop : 0 < p.stop)
    (hhow : p.how = .shutdown) {s : Span} (hs : s ∈ p.spans) (hlate : p.stop ≤ s.finish) :
    p.released = s.finish := by
  obtain ⟨n, hn⟩ := exists_last hdelay hstop
  rw [hn.spans_eq hdelay] at hs
  obtain ⟨k, hk, rfl⟩ := List.mem_map.1 hs
  rcases Nat.lt_or_eq_of_le (Nat.le_of_lt_succ (List.mem_range.1 hk)) with hlt | rfl
  · have hnext := finish_add_delay_le (p := p) hlt
    have hbefore := hn.before
    omega
  · rw [hn.released_shutdown hdelay hhow, Nat.max_eq_right hlate]

end Release

end Plan

end Timetable.Polling

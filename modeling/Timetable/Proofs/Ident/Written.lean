import Mathlib.Data.List.TakeDrop
import Mathlib.Data.List.TakeWhile
import Timetable.Fault

namespace Timetable

section Splitting

variable {c d : Char} {cs before after : List Char}

theorem span_ne_eq_iff : cs.span (· ≠ c) = (before, c :: after) ↔
    cs = before ++ c :: after ∧ c ∉ before := by
  rw [List.span_eq_takeWhile_dropWhile, Prod.mk.injEq]
  constructor
  · rintro ⟨hbefore, hafter⟩
    constructor
    · rw [← hbefore, ← hafter, List.takeWhile_append_dropWhile]
    · intro hc
      rw [← hbefore] at hc
      simpa using List.mem_takeWhile_imp hc
  · rintro ⟨rfl, hc⟩
    have hne : ∀ d ∈ before, decide (d ≠ c) = true := by
      intro d hd
      apply decide_eq_true
      rintro rfl
      exact hc hd
    rw [List.takeWhile_append_of_pos hne, List.dropWhile_append_of_pos hne]
    simp

theorem eq_of_span_ne (h : cs.span (· ≠ c) = (before, d :: after)) : d = c := by
  rw [List.span_eq_takeWhile_dropWhile, Prod.mk.injEq] at h
  have hhead := List.head?_dropWhile_not (· ≠ c) cs
  rw [h.2] at hhead
  simpa using hhead

theorem span_ne_eq_nil_iff : (cs.span (· ≠ c)).2 = [] ↔ c ∉ cs := by
  rw [List.span_eq_takeWhile_dropWhile, List.dropWhile_eq_nil_iff]
  constructor
  · intro h hc
    simpa using h c hc
  · intro h d hd
    apply decide_eq_true
    rintro rfl
    exact h hd

variable {before' after' : List Char}

theorem append_cons_inj_first (h : c ∉ before) (h' : c ∉ before') :
    before ++ c :: after = before' ++ c :: after' ↔ before = before' ∧ after = after' := by
  constructor
  · intro he
    have hspan := span_ne_eq_iff.2 ⟨he, h'⟩
    rw [span_ne_eq_iff.2 ⟨rfl, h⟩, Prod.mk.injEq, List.cons.injEq] at hspan
    exact ⟨hspan.1, hspan.2.2⟩
  · rintro ⟨rfl, rfl⟩
    rfl

theorem append_cons_inj_last (h : c ∉ after) (h' : c ∉ after') :
    before ++ c :: after = before' ++ c :: after' ↔ before = before' ∧ after = after' := by
  have hreverse (before after : List Char) :
      (before ++ c :: after).reverse = after.reverse ++ c :: before.reverse := by simp
  rw [← List.reverse_inj, hreverse, hreverse, append_cons_inj_first (by simpa using h)
    (by simpa using h'), List.reverse_inj, List.reverse_inj, and_comm]

end Splitting

namespace Ident

variable {s : String} {i j : Ident}

@[simp] theorem toList_text (i : Ident) :
    i.text.toList = i.agency.toList ++ '_' :: i.name.toList := by
  rw [text, String.toList_append, String.toList_append, List.append_assoc]
  rfl

theorem parse?_eq_some_iff_span : parse? s = some i ↔
    s.toList.span (· ≠ '_') = (i.agency.toList, '_' :: i.name.toList) := by
  rw [parse?]
  split
  · next before h =>
    rw [h]
    simp
  · next before d after h =>
    rw [h, eq_of_span_ne h, Option.some.injEq, Prod.mk.injEq, List.cons.injEq]
    constructor
    · rintro rfl
      simp
    · rintro ⟨rfl, -, rfl⟩
      simp

/-- A text reads as the identifier without an underscore in its agency that is written so. -/
theorem parse?_eq_some_iff : parse? s = some i ↔ i.text = s ∧ '_' ∉ i.agency.toList := by
  rw [parse?_eq_some_iff_span, span_ne_eq_iff, ← toList_text, String.toList_inj]
  exact and_congr_left fun _ => eq_comm

theorem parse?_eq_none_iff : parse? s = none ↔ '_' ∉ s.toList := by
  rw [← span_ne_eq_nil_iff, parse?]
  split
  · next before h =>
    rw [h]
    simp
  · next before d after h =>
    rw [h]
    simp

theorem parse?_text_iff : parse? i.text = some i ↔ '_' ∉ i.agency.toList := by
  rw [parse?_eq_some_iff]
  exact and_iff_right rfl

theorem text_inj (hi : '_' ∉ i.agency.toList) (hj : '_' ∉ j.agency.toList) :
    i.text = j.text ↔ i = j := by
  rw [← String.toList_inj, toList_text, toList_text, append_cons_inj_first hi hj, String.toList_inj,
    String.toList_inj, ← mk.injEq]

end Ident

end Timetable

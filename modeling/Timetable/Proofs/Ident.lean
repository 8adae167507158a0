import Timetable.Proofs.Block.RunningOrder

namespace Timetable.Ident

variable {i : Ident} {ids : List Ident}

@[simp] theorem mem_dropRepeats : i ∈ dropRepeats ids ↔ i ∈ ids := by
  fun_induction dropRepeats ids with
  | case1 => rfl
  | case2 j => rfl
  | case3 j rest ih =>
    rw [ih, List.mem_cons, List.mem_cons, List.mem_cons, ← or_assoc, or_self]
  | case4 j k rest hne ih => rw [List.mem_cons, ih, List.mem_cons (a := i) (b := j)]

theorem increasing_dropRepeats (h : ids.Pairwise fun i j => i.isAtMost j) :
    (dropRepeats ids).Pairwise fun i j => compare i j = .lt := by
  fun_induction dropRepeats ids with
  | case1 => exact .nil
  | case2 j => exact List.pairwise_singleton _ j
  | case3 j rest ih => exact ih (List.pairwise_cons.1 h).2
  | case4 j k rest hne ih =>
    obtain ⟨hj, hrest⟩ := List.pairwise_cons.1 h
    apply List.pairwise_cons.2
    refine ⟨fun l hl => ?_, ih hrest⟩
    rw [mem_dropRepeats] at hl
    have hjl : j.isAtMost l := hj l hl
    cases hc : compare j l with
    | lt => rfl
    | gt =>
      rw [isAtMost, hc] at hjl
      cases hjl
    | eq =>
      obtain rfl := Std.LawfulEqOrd.eq_of_compare hc
      rcases List.mem_cons.1 hl with he | hl
      · exact (hne he).elim
      · -- then `k` lies between `j` and itself
        have hkj : k.isAtMost j := (List.pairwise_cons.1 hrest).1 j hl
        exact (hne (isAtMost_antisymm (hj k List.mem_cons_self) hkj)).elim

@[simp] theorem mem_distinct : i ∈ distinct ids ↔ i ∈ ids := by
  simp [distinct, sort]

theorem increasing_distinct (ids : List Ident) :
    (distinct ids).Pairwise fun i j => compare i j = .lt := by
  apply increasing_dropRepeats
  apply List.pairwise_mergeSort
  · exact fun _ _ _ => isAtMost_trans
  · intro i j
    rw [Bool.or_eq_true]
    exact isAtMost_total i j

theorem nodup_distinct (ids : List Ident) : (distinct ids).Nodup := by
  apply (increasing_distinct ids).imp
  intro i j hlt he
  rw [he, Std.compare_self] at hlt
  cases hlt

end Timetable.Ident

import Mathlib.Data.List.Perm.Basic
import Timetable.Record.Decode

namespace Timetable.Decode

variable {name : String} {n : WrittenText} {j : Json} {ms ms' : List (WrittenText × Json)}

theorem member_append (ms ms' : List (WrittenText × Json)) :
    member name (ms ++ ms') = (member name ms).or (member name ms') := by
  induction ms with
  | nil => rfl
  | cons m ms ih =>
    rw [List.cons_append, member, member, ih]
    split
    · rfl
    · rfl

theorem member_cons_of_ne (h : n ≠ some name) : member name ((n, j) :: ms) = member name ms :=
  if_neg h

@[simp] theorem member_cons_self : member name ((some name, j) :: ms) = some j := if_pos rfl

theorem member_insert_of_ne (before after : List (WrittenText × Json)) (h : n ≠ some name) :
    member name (before ++ (n, j) :: after) = member name (before ++ after) := by
  rw [member_append, member_append, member_cons_of_ne h]

@[simp] theorem occurrences_append (ms ms' : List (WrittenText × Json)) :
    occurrences name (ms ++ ms') = occurrences name ms + occurrences name ms' :=
  List.countP_append

@[simp] theorem occurrences_cons (n : WrittenText) (j : Json) (ms : List (WrittenText × Json)) :
    occurrences name ((n, j) :: ms) = occurrences name ms + if n = some name then 1 else 0 := by
  rw [occurrences, List.countP_cons]
  simp only [decide_eq_true_eq]
  rfl

theorem occurrences_insert (before after : List (WrittenText × Json)) (n : WrittenText) (j : Json) :
    occurrences name (before ++ (n, j) :: after) =
      occurrences name (before ++ after) + if n = some name then 1 else 0 := by
  simp [occurrences_cons, Nat.add_assoc]

theorem occurrences_eq_zero_iff : occurrences name ms = 0 ↔ ∀ m ∈ ms, m.1 ≠ some name := by
  rw [occurrences, List.countP_eq_zero]
  simp only [decide_eq_true_eq, ne_eq]

theorem occurrences_perm (h : ms.Perm ms') : occurrences name ms = occurrences name ms' :=
  h.countP_eq _

theorem member_eq_none (h : ∀ m ∈ ms, m.1 ≠ some name) : member name ms = none := by
  induction ms with
  | nil => rfl
  | cons m ms ih =>
    rw [member_cons_of_ne (h m List.mem_cons_self)]
    exact ih fun m hm => h m (List.mem_cons_of_mem _ hm)

/-- Of a name that is not repeated the value is that of its member. -/
theorem member_eq_some_iff (h : occurrences name ms ≤ 1) :
    member name ms = some j ↔ (some name, j) ∈ ms := by
  induction ms with
  | nil => exact iff_of_false nofun List.not_mem_nil
  | cons m ms ih =>
    obtain ⟨n, i⟩ := m
    rw [occurrences_cons] at h
    by_cases hn : n = some name
    · subst hn
      rw [if_pos rfl] at h
      have habsent := occurrences_eq_zero_iff.1 (Nat.le_zero.1 (Nat.le_of_succ_le_succ h))
      rw [member_cons_self, Option.some.injEq, List.mem_cons, Prod.mk.injEq, eq_comm (a := j)]
      constructor
      · exact fun hj => .inl ⟨rfl, hj⟩
      · rintro (⟨-, hj⟩ | hmem)
        · exact hj
        · exact (habsent _ hmem rfl).elim
    · rw [member_cons_of_ne hn, ih (by rwa [if_neg hn] at h), List.mem_cons, Prod.mk.injEq]
      apply (or_iff_right _).symm
      exact fun heq => hn heq.1.symm

theorem member_perm (h : ms.Perm ms') (hcount : occurrences name ms ≤ 1) :
    member name ms = member name ms' := by
  apply Option.ext
  intro j
  rw [member_eq_some_iff hcount, member_eq_some_iff (occurrences_perm h ▸ hcount), h.mem_iff]

theorem lookup_zip_item (name : String) (names : List String) (before after : List Json)
    (i j : Json) :
    (names.zip (before ++ i :: after)).lookup name =
        (names.zip (before ++ j :: after)).lookup name ∨
      names[before.length]? = some name ∧
        (names.zip (before ++ i :: after)).lookup name = some i ∧
        (names.zip (before ++ j :: after)).lookup name = some j := by
  induction before generalizing names with
  | nil =>
    cases names with
    | nil => exact .inl rfl
    | cons n names =>
      by_cases hn : name = n
      · subst hn
        exact .inr (by simp)
      · have hne : (name == n) = false := beq_eq_false_iff_ne.2 hn
        exact .inl (by simp [List.lookup_cons, hne])
  | cons b before ih =>
    cases names with
    | nil => exact .inl rfl
    | cons n names =>
      by_cases hn : name = n
      · subst hn
        exact .inl (by simp)
      · have hne : (name == n) = false := beq_eq_false_iff_ne.2 hn
        simpa [List.lookup_cons, hne] using ih names

end Timetable.Decode

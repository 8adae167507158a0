import Timetable.Ident

namespace Timetable.Text

/-- The bytes in which a text is stored. -/
def bytes (s : String) : List UInt8 := s.toByteArray.data.toList

theorem bytes_eq (s : String) : bytes s = s.toList.flatMap String.utf8EncodeChar := by
  have hbytes : s.toByteArray = (s.toList.flatMap String.utf8EncodeChar).toByteArray := by
    rw [← List.utf8Encode, ← String.toByteArray_ofList, String.ofList_toList]
  rw [bytes, hbytes, List.toList_data_toByteArray]

/-- The first of two lists of bytes has the smaller byte where they first differ, and neither ends
before. -/
def DiffersBelow : List UInt8 → List UInt8 → Prop
  | a :: l, b :: m => a < b ∨ a = b ∧ DiffersBelow l m
  | _, _ => False

theorem DiffersBelow.append_lt {l m : List UInt8} (h : DiffersBelow l m) (l' m' : List UInt8) :
    l ++ l' < m ++ m' := by
  fun_induction DiffersBelow l m with
  | case1 a l b m ih =>
    rw [List.cons_append, List.cons_append, List.cons_lt_cons_iff]
    exact h.imp_right (And.imp_right ih)
  | case2 => exact h.elim

theorem DiffersBelow.append {l m : List UInt8} (h : DiffersBelow l m) (l' m' : List UInt8) :
    DiffersBelow (l ++ l') (m ++ m') := by
  fun_induction DiffersBelow l m with
  | case1 a l b m ih => exact h.imp_right (And.imp_right ih)
  | case2 => exact h.elim

theorem differsBelow_append {a b : UInt8} (h : a < b) (l : List UInt8) :
    DiffersBelow (l ++ [a]) (l ++ [b]) := by
  induction l with
  | nil => exact .inl h
  | cons c l ih => exact .inr ⟨rfl, ih⟩

section Characters

variable {m n k : Nat}

theorem ofNat_lt (h : m < n) (hn : n < 256) : UInt8.ofNat m < UInt8.ofNat n := by
  rw [UInt8.lt_iff_toNat_lt, UInt8.toNat_ofNat', UInt8.toNat_ofNat']
  omega

/-- A number without so many times its last six bits. -/
def front : Nat → Nat → Nat
  | 0, n => n
  | k + 1, n => front k (n / 64)

/-- The bytes of a number: the first adds a mark to the front of it, and each of so many others
holds six bits. -/
def sixBits (mark : Nat) : Nat → Nat → List UInt8
  | 0, n => [UInt8.ofNat (n + mark)]
  | k + 1, n => sixBits mark k (n / 64) ++ [UInt8.ofNat (n % 64 + 128)]

def following (n : Nat) : Nat :=
  if n < 128 then 0 else if n < 2048 then 1 else if n < 65536 then 2 else 3

def mark : Nat → Nat
  | 0 => 0 | 1 => 192 | 2 => 224 | _ => 240

theorem toNat_lt (c : Char) : c.toNat < 1114112 := by
  rcases c.valid with h | h
  · exact Nat.lt_trans h (by decide)
  · exact h.2

theorem utf8EncodeChar_eq (c : Char) : String.utf8EncodeChar c =
    sixBits (mark (following c.toNat)) (following c.toNat) c.toNat := by
  have hbound := toNat_lt c
  rw [String.utf8EncodeChar, following]
  simp only [Char.toNat_val, ← Nat.lt_succ_iff]
  generalize c.toNat = n at hbound ⊢
  split
  · rfl
  · split
    · have hfirst : n / 64 % 32 = n / 64 := by omega
      rw [hfirst]
      rfl
    · split
      · have hfirst : n / 4096 % 16 = n / 64 / 64 := by omega
        rw [hfirst]
        rfl
      · have hfirst : n / 262144 % 8 = n / 64 / 64 / 64 := by omega
        have hsecond : n / 4096 = n / 64 / 64 := by omega
        rw [hfirst, hsecond]
        rfl

theorem differsBelow_sixBits {f : Nat} (h : m < n) (hn : front k n + f < 256) :
    DiffersBelow (sixBits f k m) (sixBits f k n) := by
  induction k generalizing m n with
  | zero => exact .inl (ofNat_lt (Nat.add_lt_add_right h f) hn)
  | succ k ih =>
    have hdiv : m / 64 ≤ n / 64 := Nat.div_le_div_right (Nat.le_of_lt h)
    rcases Nat.lt_or_eq_of_le hdiv with hlt | heq
    · exact (ih hlt hn).append _ _
    · rw [sixBits, sixBits, heq]
      apply differsBelow_append
      exact ofNat_lt (by omega) (by omega)

theorem sixBits_eq_cons (f k n : Nat) : ∃ l, sixBits f k n = UInt8.ofNat (front k n + f) :: l := by
  induction k generalizing n with
  | zero => exact ⟨[], rfl⟩
  | succ k ih =>
    obtain ⟨l, hl⟩ := ih (n / 64)
    rw [sixBits, hl, List.cons_append]
    exact ⟨_, rfl⟩

theorem following_cases (n : Nat) : n < 128 ∧ following n = 0 ∨
    128 ≤ n ∧ n < 2048 ∧ following n = 1 ∨ 2048 ≤ n ∧ n < 65536 ∧ following n = 2 ∨
    65536 ≤ n ∧ following n = 3 := by
  unfold following
  split
  · omega
  · split
    · omega
    · split
      · omega
      · omega

theorem following_le (h : m ≤ n) : following m ≤ following n := by
  have hm := following_cases m
  have hn := following_cases n
  omega

theorem front_lt (h : n < 1114112) : front (following n) n + mark (following n) < 256 := by
  rcases following_cases n with ⟨hn, hf⟩ | ⟨-, hn, hf⟩ | ⟨-, hn, hf⟩ | ⟨-, hf⟩
  all_goals
    rw [hf]
    simp only [front, mark]
    omega

theorem front_lt_front (h : following m < following n) :
    front (following m) m + mark (following m) < front (following n) n + mark (following n) := by
  rcases following_cases m with ⟨hm, hfm⟩ | ⟨-, hm, hfm⟩ | ⟨-, hm, hfm⟩ | ⟨-, hfm⟩ <;>
  rcases following_cases n with ⟨hn, hfn⟩ | ⟨-, hn, hfn⟩ | ⟨-, hn, hfn⟩ | ⟨-, hfn⟩
  all_goals
    rw [hfm, hfn] at h ⊢
    simp only [front, mark]
    omega

theorem differsBelow_utf8EncodeChar {c d : Char} (h : c < d) :
    DiffersBelow (String.utf8EncodeChar c) (String.utf8EncodeChar d) := by
  have hlt : c.toNat < d.toNat := h
  have hfront := front_lt (toNat_lt d)
  rw [utf8EncodeChar_eq, utf8EncodeChar_eq]
  rcases Nat.lt_or_eq_of_le (following_le (Nat.le_of_lt hlt)) with hmore | hsame
  · obtain ⟨l, hl⟩ := sixBits_eq_cons (mark (following c.toNat)) (following c.toNat) c.toNat
    obtain ⟨m, hm⟩ := sixBits_eq_cons (mark (following d.toNat)) (following d.toNat) d.toNat
    rw [hl, hm]
    exact .inl (ofNat_lt (front_lt_front hmore) hfront)
  · rw [hsame]
    exact differsBelow_sixBits hlt hfront

end Characters

theorem flatMap_utf8EncodeChar_lt {l m : List Char} (h : l < m) :
    l.flatMap String.utf8EncodeChar < m.flatMap String.utf8EncodeChar := by
  induction l generalizing m with
  | nil =>
    cases m with
    | nil => exact (List.not_lt_nil _ h).elim
    | cons d m =>
      obtain ⟨b, bs, hd⟩ := List.exists_cons_of_ne_nil (String.utf8EncodeChar_ne_nil (c := d))
      rw [List.flatMap_cons, hd]
      exact List.nil_lt_cons b _
  | cons c l ih =>
    cases m with
    | nil => exact (List.not_lt_nil _ h).elim
    | cons d m =>
      rw [List.flatMap_cons, List.flatMap_cons]
      rcases List.cons_lt_cons_iff.1 h with hlt | ⟨rfl, hlt⟩
      · exact (differsBelow_utf8EncodeChar hlt).append_lt _ _
      · exact List.append_left_lt (ih hlt)

theorem bytes_lt {s t : String} (h : compare s t = .lt) : bytes s < bytes t := by
  have hlt : s < t := compareOfLessAndEq_eq_lt.1 h
  rw [bytes_eq, bytes_eq]
  exact flatMap_utf8EncodeChar_lt (String.lt_iff.1 hlt)

/-- Texts are ordered as their bytes are. -/
theorem compare_eq_lt_iff {s t : String} : compare s t = .lt ↔ bytes s < bytes t := by
  constructor
  · exact bytes_lt
  · intro h
    cases hc : compare s t with
    | lt => rfl
    | eq =>
      rw [Std.LawfulEqCmp.eq_of_compare hc] at h
      exact (List.lt_irrefl _ h).elim
    | gt => exact (List.lt_asymm h (bytes_lt (Std.OrientedCmp.lt_of_gt hc))).elim

end Timetable.Text

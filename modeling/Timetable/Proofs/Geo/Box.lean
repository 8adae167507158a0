import Timetable.Geo.Location

namespace Timetable

namespace Scalar

variable {R : Type} [Scalar R]

/-- Scalars whose comparisons order those of them that can be compared. -/
class Ordered (R : Type) [Scalar R] : Prop where
  le_trans {a b c : R} : le a b → le b c → le a c
  not_le_of_lt {a b : R} : lt a b → ¬le b a
  le_of_not_lt {a b : R} : le a b → ¬lt a b → le b a

/-- The closed range between two scalars, of which either may be the smaller. -/
def Between (a b x : R) : Prop := (le a x ∧ le x b) ∨ (le b x ∧ le x a)

theorem between_iff [Ordered R] {a b x : R} :
    Between a b x ↔ le (if lt a b then a else b) x ∧ le x (if lt a b then b else a) := by
  by_cases h : lt a b
  · rw [if_pos h, if_pos h]
    apply or_iff_left_of_imp
    intro ⟨hb, ha⟩
    exact absurd (Ordered.le_trans hb ha) (Ordered.not_le_of_lt h)
  · rw [if_neg h, if_neg h]
    apply or_iff_right_of_imp
    intro ⟨ha, hb⟩
    have hba : le b a := Ordered.le_of_not_lt (Ordered.le_trans ha hb) h
    exact ⟨Ordered.le_trans hba ha, Ordered.le_trans hb hba⟩

end Scalar

theorem Box.contains_ofCorners {R : Type} [Scalar R] [Scalar.Ordered R] {a b p : Location R} :
    (Box.ofCorners a b).contains p ↔
      Scalar.Between a.lat b.lat p.lat ∧ Scalar.Between a.lon b.lon p.lon := by
  rw [contains, ofCorners, Scalar.between_iff, Scalar.between_iff]
  simp only [Bool.and_eq_true, and_assoc]

namespace Double

open Float.Model Float.Model.UnpackedFloat

/-- Where a double stands on the line, unless it is undefined: its sign and whether it is finite,
then exponent and mantissa, which count down on the negative side. -/
def place? : UnpackedFloat → Option (Int × Int × Int)
  | .notANumber => none
  | .infinity s => some (s.apply 2, 0, 0)
  | .zero _ => some (0, 0, 0)
  | .finite s m e _ => some (s.apply 1, s.apply e, s.apply m)

def comparePlaces : Int × Int × Int → Int × Int × Int → Ordering :=
  compareLex (compareOn (·.1)) (compareLex (compareOn (·.2.1)) (compareOn (·.2.2)))

instance : Std.TransCmp comparePlaces := by
  unfold comparePlaces
  infer_instance

theorem comparePlaces_swap (x y : Int × Int × Int) :
    comparePlaces y x = (comparePlaces x y).swap :=
  Std.OrientedCmp.eq_swap

theorem compare_cast (m n : Nat) : compare (m : Int) n = compare m n := by
  simp only [compare, compareOfLessAndEq, Int.ofNat_lt, Int.ofNat_inj]

theorem compare_neg (a b : Int) : compare (-a) (-b) = (compare a b).swap := by
  rw [← Std.OrientedOrd.eq_swap]
  simp only [compare, compareOfLessAndEq, Int.neg_lt_neg_iff, Int.neg_inj, eq_comm]

theorem comparePlaces_same_sign (s e f m n : Int) :
    comparePlaces (s, e, m) (s, f, n) = (compare e f).then (compare m n) := by
  have hself : compare s s = .eq := Std.compare_self
  have hlex : comparePlaces (s, e, m) (s, f, n) =
      (compare s s).then ((compare e f).then (compare m n)) := rfl
  rw [hlex, hself, Ordering.eq_then]

theorem compare_eq (u v : UnpackedFloat) :
    u.compare v = (place? u).bind fun x => (place? v).map (comparePlaces x) := by
  -- unless both are finite and of one sign, neither exponents nor mantissas are looked at
  rcases u with s | _ | s | ⟨s, m, e, hm⟩ <;> rcases v with t | _ | t | ⟨t, n, f, hn⟩ <;>
    (try cases s) <;> (try cases t) <;> try rfl
  · have hnegative : ((compare e f).then (compare m n)).swap =
        comparePlaces (-1, -e, -m) (-1, -f, -n) := by
      rw [comparePlaces_same_sign, compare_neg, compare_neg, compare_cast, Ordering.swap_then]
    exact congrArg some hnegative
  · have hpositive : (compare e f).then (compare m n) = comparePlaces (1, e, m) (1, f, n) := by
      rw [comparePlaces_same_sign, compare_cast]
    exact congrArg some hpositive

theorem le_unpack (a b : Float) : Scalar.le a b ↔ a.toModel.unpack.le b.toModel.unpack :=
  decide_eq_true_iff.trans decide_eq_true_iff

theorem lt_unpack (a b : Float) : Scalar.lt a b ↔ a.toModel.unpack.lt b.toModel.unpack :=
  decide_eq_true_iff.trans decide_eq_true_iff

theorem le_iff {a b : Float} : Scalar.le a b ↔ ∃ x y,
    place? a.toModel.unpack = some x ∧ place? b.toModel.unpack = some y ∧
      (comparePlaces x y).isLE := by
  rw [le_unpack, UnpackedFloat.le, compare_eq]
  cases place? a.toModel.unpack <;> cases place? b.toModel.unpack <;> simp

theorem lt_iff {a b : Float} : Scalar.lt a b ↔ ∃ x y,
    place? a.toModel.unpack = some x ∧ place? b.toModel.unpack = some y ∧
      comparePlaces x y = .lt := by
  rw [lt_unpack, UnpackedFloat.lt, compare_eq]
  cases place? a.toModel.unpack <;> cases place? b.toModel.unpack <;> simp

instance : Scalar.Ordered Float where
  le_trans {a b c} hab hbc := by
    obtain ⟨x, y, hx, hy, hxy⟩ := le_iff.1 hab
    obtain ⟨y', z, hy', hz, hyz⟩ := le_iff.1 hbc
    obtain rfl : y' = y := Option.some.inj (hy'.symm.trans hy)
    exact le_iff.2 ⟨x, z, hx, hz, Std.TransCmp.isLE_trans hxy hyz⟩
  not_le_of_lt {a b} hab hba := by
    obtain ⟨x, y, hx, hy, hxy⟩ := lt_iff.1 hab
    obtain ⟨y', x', hy', hx', hyx⟩ := le_iff.1 hba
    obtain rfl : y' = y := Option.some.inj (hy'.symm.trans hy)
    obtain rfl : x' = x := Option.some.inj (hx'.symm.trans hx)
    rw [comparePlaces_swap, hxy] at hyx
    cases hyx
  le_of_not_lt {a b} hab hlt := by
    obtain ⟨x, y, hx, hy, hxy⟩ := le_iff.1 hab
    have hne : comparePlaces x y ≠ .lt := fun h => hlt (lt_iff.2 ⟨x, y, hx, hy, h⟩)
    refine le_iff.2 ⟨y, x, hy, hx, ?_⟩
    rw [comparePlaces_swap]
    cases h : comparePlaces x y with
    | lt => exact absurd h hne
    | eq => rfl
    | gt => rw [h] at hxy; cases hxy

end Double

end Timetable

import Mathlib.Analysis.Convex.SpecificFunctions.Deriv
import Mathlib.Analysis.SpecialFunctions.Trigonometric.Bounds
import Mathlib.Analysis.SpecialFunctions.Trigonometric.Inverse

namespace Timetable.Circle

open Real

variable {φ ψ x δ w : ℝ}

/-- The cosine of the angle between two points of the latitudes `φ` and `ψ` whose longitudes differ
by `x`. -/
noncomputable def cosine (φ ψ x : ℝ) : ℝ := sin φ * sin ψ + cos φ * cos ψ * cos x

theorem sq_sin_half (y : ℝ) : sin (y / 2) ^ 2 = (1 - cos y) / 2 := by
  rw [sin_sq_eq_half_sub, mul_div_cancel₀ y two_ne_zero]
  ring

theorem half_sub_cosine (φ ψ x : ℝ) :
    sin ((ψ - φ) / 2) ^ 2 + cos φ * cos ψ * sin (x / 2) ^ 2 = (1 - cosine φ ψ x) / 2 := by
  rw [sq_sin_half, sq_sin_half, cosine, cos_sub]
  ring

theorem cosine_le (hφ : 0 ≤ cos φ) (hψ : 0 ≤ cos ψ) : cosine φ ψ x ≤ cos (ψ - φ) := by
  have hx := mul_le_mul_of_nonneg_left (cos_le_one x) (mul_nonneg hφ hψ)
  rw [cosine, cos_sub]
  linarith

/-- No point of a circle is further north or south of the centre than its radius. -/
theorem abs_sub_le (hφ : 0 ≤ cos φ) (hψ : 0 ≤ cos ψ) (hδ : 0 ≤ δ) (hδ' : δ ≤ π)
    (hsub : |ψ - φ| ≤ π) (h : cos δ ≤ cosine φ ψ x) : |ψ - φ| ≤ δ := by
  rw [← strictAntiOn_cos.le_iff_ge ⟨hδ, hδ'⟩ ⟨abs_nonneg _, hsub⟩, cos_abs]
  exact h.trans (cosine_le hφ hψ)

theorem sq_cosine_le (φ ψ x : ℝ) : cosine φ ψ x ^ 2 ≤ 1 - (cos φ * sin x) ^ 2 := by
  have hlagrange : (sin φ ^ 2 + (cos φ * cos x) ^ 2) * (sin ψ ^ 2 + cos ψ ^ 2) =
      cosine φ ψ x ^ 2 + (sin φ * cos ψ - cos φ * cos x * sin ψ) ^ 2 := by
    rw [cosine]
    ring
  have hmeridian : sin φ ^ 2 + (cos φ * cos x) ^ 2 = 1 - (cos φ * sin x) ^ 2 := by
    rw [mul_pow, mul_pow, cos_sq' x, sin_sq φ]
    ring
  rw [sin_sq_add_cos_sq, mul_one, hmeridian] at hlagrange
  linarith [sq_nonneg (sin φ * cos ψ - cos φ * cos x * sin ψ)]

theorem mul_cos_arcsin_div {a b : ℝ} (hb : 0 < b) :
    b * cos (arcsin (a / b)) = √(b ^ 2 - a ^ 2) := by
  have hprod : b ^ 2 - a ^ 2 = b ^ 2 * (1 - (a / b) ^ 2) := by field_simp
  rw [hprod, sqrt_mul (sq_nonneg b), sqrt_sq hb.le, cos_arcsin]

/-- An angle is small if its sine and its cosine say so, unless it is nearly a full turn. -/
theorem abs_le_of_sin_le (hw : 0 ≤ w) (hw' : w ≤ π / 2) (hcos : 0 < cos x) (hsin : |sin x| ≤ sin w)
    (hx : |x| < 2 * π - w) : |x| ≤ w := by
  have hmono : ∀ y, 0 ≤ y → y ≤ π / 2 → sin y ≤ sin w → y ≤ w := fun y hy hy' hle =>
    (strictMonoOn_sin.le_iff_le ⟨by linarith, hy'⟩ ⟨by linarith, hw'⟩).1 hle
  rw [← cos_abs] at hcos
  rcases le_or_gt |x| (π / 2) with hsmall | hlarge
  · apply hmono _ (abs_nonneg x) hsmall
    rwa [← abs_sin_eq_sin_abs_of_abs_le_pi (by linarith)]
  · -- the angle then lies in the last quarter of a turn, too near its end
    have hlast : π + π / 2 < |x| := by
      by_contra hle
      exact hcos.not_ge (cos_nonpos_of_pi_div_two_le_of_le hlarge.le (not_lt.1 hle))
    have hrest : 2 * π - |x| ≤ w := by
      apply hmono _ (by linarith) (by linarith)
      rw [sin_two_pi_sub]
      rcases abs_choice x with h | h <;> rw [h]
      · exact (neg_le_abs _).trans hsin
      · rw [sin_neg, neg_neg]
        exact (le_abs_self _).trans hsin
    linarith

/-- How far to the east a circle of radius `δ` reaches from a centre of latitude `φ`. -/
noncomputable def reach (φ δ : ℝ) : ℝ := arcsin (sin δ / cos φ)

theorem reach_le (φ δ : ℝ) : reach φ δ ≤ π / 2 := arcsin_le_pi_div_two _

section AwayFromPoles

variable (hδ : 0 ≤ δ) (hpoles : |φ| + δ < π / 2)

include hδ hpoles

theorem sin_lt_cos : sin δ < cos φ := by
  rw [← cos_abs φ, ← cos_pi_div_two_sub]
  exact cos_lt_cos_of_nonneg_of_le_pi_div_two (abs_nonneg φ) (by linarith) (by linarith)

theorem abs_sin_lt_cos : |sin φ| < cos δ := by
  have hφ : |φ| ≤ π := by linarith [pi_pos]
  rw [abs_sin_eq_sin_abs_of_abs_le_pi hφ]
  apply sin_lt_cos (abs_nonneg φ)
  rw [abs_of_nonneg hδ]
  linarith

theorem sin_radius_nonneg : 0 ≤ sin δ :=
  sin_nonneg_of_nonneg_of_le_pi hδ (by linarith [abs_nonneg φ, pi_pos])

theorem cos_centre_pos : 0 < cos φ := (sin_radius_nonneg hδ hpoles).trans_lt (sin_lt_cos hδ hpoles)

theorem sin_reach : sin (reach φ δ) = sin δ / cos φ := by
  have hsin := sin_radius_nonneg hδ hpoles
  have hcos := cos_centre_pos hδ hpoles
  apply sin_arcsin
  · linarith [div_nonneg hsin hcos.le]
  · exact (div_le_one hcos).2 (sin_lt_cos hδ hpoles).le

theorem reach_nonneg : 0 ≤ reach φ δ :=
  arcsin_nonneg.2 (div_nonneg (sin_radius_nonneg hδ hpoles) (cos_centre_pos hδ hpoles).le)

theorem cosine_reach : cosine φ (arcsin (sin φ / cos δ)) (reach φ δ) = cos δ := by
  have hφ := cos_centre_pos hδ hpoles
  have hlat := abs_lt.1 (abs_sin_lt_cos hδ hpoles)
  have hδ' : 0 < cos δ := (abs_nonneg _).trans_lt (abs_sin_lt_cos hδ hpoles)
  have hsin : sin (arcsin (sin φ / cos δ)) = sin φ / cos δ := by
    apply sin_arcsin
    · rw [le_div_iff₀ hδ']
      linarith
    · exact (div_le_one hδ').2 hlat.2.le
  have heast : cos φ * cos (reach φ δ) = √(cos δ ^ 2 - sin φ ^ 2) := by
    rw [reach, mul_cos_arcsin_div hφ, cos_sq', cos_sq']
    ring_nf
  have hnonneg : 0 ≤ cos δ ^ 2 - sin φ ^ 2 := by
    rw [sub_nonneg, sq_le_sq, abs_of_pos hδ']
    exact (abs_sin_lt_cos hδ hpoles).le
  apply mul_left_cancel₀ hδ'.ne'
  calc cos δ * cosine φ (arcsin (sin φ / cos δ)) (reach φ δ)
      = sin φ ^ 2 + cos δ * cos (arcsin (sin φ / cos δ)) * (cos φ * cos (reach φ δ)) := by
        rw [cosine, hsin]
        field_simp
    _ = sin φ ^ 2 + √(cos δ ^ 2 - sin φ ^ 2) * √(cos δ ^ 2 - sin φ ^ 2) := by
        rw [mul_cos_arcsin_div hδ', heast]
    _ = cos δ * cos δ := by
        rw [mul_self_sqrt hnonneg]
        ring

/-- No point of a circle is further east or west of the centre than the circle reaches, unless the
difference of longitudes is nearly a full turn. -/
theorem abs_le_reach (hψ : 0 ≤ cos ψ) (h : cos δ ≤ cosine φ ψ x)
    (hx : |x| < 2 * π - reach φ δ) : |x| ≤ reach φ δ := by
  have hφ := cos_centre_pos hδ hpoles
  have hlat := abs_sin_lt_cos hδ hpoles
  have hcos : 0 < cos x := by
    by_contra hneg
    have hprod : cos φ * cos ψ * cos x ≤ 0 :=
      mul_nonpos_of_nonneg_of_nonpos (mul_nonneg hφ.le hψ) (not_lt.1 hneg)
    have hsin : sin φ * sin ψ ≤ |sin φ| := by
      calc sin φ * sin ψ ≤ |sin φ| * |sin ψ| := (le_abs_self _).trans_eq (abs_mul _ _)
        _ ≤ |sin φ| := mul_le_of_le_one_right (abs_nonneg _) (abs_sin_le_one ψ)
    rw [cosine] at h
    linarith
  have hsin : |sin x| ≤ sin (reach φ δ) := by
    rw [sin_reach hδ hpoles, le_div_iff₀ hφ, mul_comm, ← abs_of_pos hφ, ← abs_mul]
    apply abs_le_of_sq_le_sq _ (sin_radius_nonneg hδ hpoles)
    have hsq : cos δ ^ 2 ≤ cosine φ ψ x ^ 2 :=
      pow_le_pow_left₀ ((abs_nonneg _).trans hlat.le) h 2
    rw [sin_sq δ]
    linarith [sq_cosine_le φ ψ x]
  exact abs_le_of_sin_le (reach_nonneg hδ hpoles) (reach_le φ δ) hcos hsin hx

theorem le_cos_mul_reach : δ ≤ cos φ * reach φ δ := by
  have hφ := cos_centre_pos hδ hpoles
  have hw := reach_nonneg hδ hpoles
  have hw' := reach_le φ δ
  have hle : cos φ * reach φ δ ≤ reach φ δ := mul_le_of_le_one_left hw (cos_le_one φ)
  have hconcave := strictConcaveOn_sin_Icc.concaveOn.2 ⟨hw, by linarith [pi_pos]⟩
    ⟨le_rfl, pi_pos.le⟩ hφ.le (sub_nonneg.2 (cos_le_one φ)) (add_sub_cancel (cos φ) 1)
  simp only [smul_eq_mul, sin_zero, mul_zero, add_zero] at hconcave
  rw [sin_reach hδ hpoles, mul_div_cancel₀ _ hφ.ne'] at hconcave
  have hpos : 0 ≤ cos φ * reach φ δ := mul_nonneg hφ.le hw
  exact (strictMonoOn_sin.le_iff_le ⟨by linarith, by linarith [abs_nonneg φ]⟩
    ⟨by linarith, by linarith⟩).1 hconcave

theorem cos_mul_reach_le : cos φ * reach φ δ ≤ π / 2 * δ := by
  have hφ := cos_centre_pos hδ hpoles
  have hw := reach_nonneg hδ hpoles
  have hjordan := mul_le_sin hw (reach_le φ δ)
  rw [sin_reach hδ hpoles, le_div_iff₀ hφ] at hjordan
  calc cos φ * reach φ δ = π / 2 * (2 / π * reach φ δ * cos φ) := by field_simp
    _ ≤ π / 2 * sin δ := mul_le_mul_of_nonneg_left hjordan (by positivity)
    _ ≤ π / 2 * δ := mul_le_mul_of_nonneg_left (sin_le hδ) (by positivity)

end AwayFromPoles

end Timetable.Circle

import Mathlib.Analysis.Real.Pi.Bounds
import Timetable.Geo.Sphere
import Timetable.Proofs.Geo.Box
import Timetable.Proofs.Geo.Circle

namespace Timetable

noncomputable instance : Scalar ℝ where
  half x := x / 2
  lt x y := decide (x < y)
  le x y := decide (x ≤ y)
  eq x y := decide (x = y)

noncomputable instance : Trigonometry ℝ where
  pi := Real.pi
  sin := Real.sin
  cos := Real.cos
  asin := Real.arcsin
  sqrt := Real.sqrt
  abs x := |x|

namespace Scalar

variable {a b : ℝ}

@[simp] theorem le_real : le a b ↔ a ≤ b := decide_eq_true_iff

@[simp] theorem lt_real : lt a b ↔ a < b := decide_eq_true_iff

instance : Ordered ℝ where
  le_trans hab hbc := le_real.2 ((le_real.1 hab).trans (le_real.1 hbc))
  not_le_of_lt hab hba := (lt_real.1 hab).not_ge (le_real.1 hba)
  le_of_not_lt _ hlt := le_real.2 (not_lt.1 (mt lt_real.2 hlt))

theorem between_iff_abs {w x : ℝ} (hw : 0 ≤ w) : Between (a - w) (a + w) x ↔ |x - a| ≤ w := by
  rw [Between, le_real, le_real, le_real, le_real, abs_le]
  constructor
  · rintro (⟨hl, hr⟩ | ⟨hl, hr⟩) <;> constructor <;> linarith
  · rintro ⟨hl, hr⟩
    exact .inl ⟨by linarith, by linarith⟩

@[simp] theorem atLeast_real (a b : ℝ) : atLeast a b = max a b := by
  rw [atLeast, max_def_lt]
  simp

@[simp] theorem atMost_real (a b : ℝ) : atMost a b = min a b := by
  rw [atMost, min_comm, min_def_lt]
  simp

end Scalar

namespace Sphere

open Timetable.Circle

variable {c p : Location ℝ} {d r : ℝ}

theorem radians_eq (x : ℝ) : radians x = x * (Real.pi / 180) := by
  have h : (180.0 : ℝ) = 180 := by norm_num
  exact congrArg (fun y : ℝ => x * (Real.pi / y)) h

noncomputable def degrees (x : ℝ) : ℝ := x * (180 / Real.pi)

@[simp] theorem degrees_radians (x : ℝ) : degrees (radians x) = x := by
  rw [degrees, radians_eq]
  field_simp

@[simp] theorem radians_degrees (x : ℝ) : radians (degrees x) = x := by
  rw [degrees, radians_eq]
  field_simp

@[simp] theorem radians_le {x y : ℝ} : radians x ≤ radians y ↔ x ≤ y := by
  rw [radians_eq, radians_eq, mul_le_mul_iff_left₀ (by positivity)]

@[simp] theorem radians_lt {x y : ℝ} :
    radians x < radians y ↔ x < y := lt_iff_lt_of_le_iff_le radians_le

theorem radians_le_iff {x y : ℝ} : radians x ≤ y ↔ x ≤ degrees y := by
  rw [← radians_le (y := degrees y), radians_degrees]

theorem degrees_lt_iff {x y : ℝ} : degrees x < y ↔ x < radians y := by
  rw [← radians_lt, radians_degrees]

@[simp] theorem degrees_le {x y : ℝ} : degrees x ≤ degrees y ↔ x ≤ y := by
  rw [← radians_le_iff, radians_degrees]

theorem radians_add (x y : ℝ) : radians (x + y) = radians x + radians y := by
  rw [radians_eq, radians_eq, radians_eq, add_mul]

theorem radians_sub (x y : ℝ) : radians (x - y) = radians x - radians y := by
  rw [radians_eq, radians_eq, radians_eq, sub_mul]

theorem abs_radians (x : ℝ) : |radians x| = radians |x| := by
  have hpos : 0 < Real.pi / 180 := by positivity
  rw [radians_eq, radians_eq, abs_mul, abs_of_pos hpos]

theorem earthRadius_eq : (earthRadius : ℝ) = 6371008.8 := rfl

theorem metresPerDegree_eq : (metresPerDegree : ℝ) = 111320 := by
  have h : (111320.0 : ℝ) = 111320 := by norm_num
  exact h

theorem earthRadius_pos : 0 < (earthRadius : ℝ) := by
  rw [earthRadius_eq]
  norm_num

theorem angle_nonneg (hd : 0 ≤ d) : 0 ≤ d / earthRadius := div_nonneg hd earthRadius_pos.le

theorem metresPerDegree_pos : 0 < (metresPerDegree : ℝ) := by
  rw [metresPerDegree_eq]
  norm_num

theorem haversine_eq (c p : Location ℝ) : haversine c p =
    (1 - cosine (radians c.lat) (radians p.lat) (radians (p.lon - c.lon))) / 2 := by
  have htwo : (2.0 : ℝ) = 2 := by norm_num
  rw [← half_sub_cosine, ← radians_sub, sq, sq, ← htwo]
  rfl

/-- A point is near a centre if the cosine of the angle between them is large. -/
theorem distance_le_iff (hd : 0 ≤ d) (hhalf : d / earthRadius < Real.pi) : distance c p ≤ d ↔
    Real.cos (d / earthRadius) ≤
      cosine (radians c.lat) (radians p.lat) (radians (p.lon - c.lon)) := by
  have htwo : (2.0 : ℝ) = 2 := by norm_num
  have hangle := angle_nonneg hd
  have hdistance : distance c p = earthRadius * (2 * Real.arcsin √(haversine c p)) := by
    rw [← htwo]
    rfl
  have hsin : 0 ≤ Real.sin (d / earthRadius / 2) :=
    Real.sin_nonneg_of_nonneg_of_le_pi (by linarith) (by linarith)
  rw [hdistance, ← le_div_iff₀' earthRadius_pos, ← le_div_iff₀' two_pos,
    Real.arcsin_le_iff_le_sin' ⟨by linarith, by linarith⟩, Real.sqrt_le_iff,
    and_iff_right hsin, sq_sin_half, haversine_eq]
  constructor <;> intro h <;> linarith

theorem distance_nonneg (c p : Location ℝ) : 0 ≤ distance c p := by
  have htwo : (0 : ℝ) ≤ 2.0 := by norm_num
  have hangle : 0 ≤ Real.arcsin √(haversine c p) := Real.arcsin_nonneg.2 (Real.sqrt_nonneg _)
  exact mul_nonneg earthRadius_pos.le (mul_nonneg htwo hangle)

theorem parallelScale_eq (lat : ℝ) : parallelScale lat = max 1e-6 |Real.cos (radians lat)| :=
  Scalar.atLeast_real _ _

theorem parallelScale_pos (lat : ℝ) : 0 < parallelScale lat := by
  rw [parallelScale_eq]
  exact lt_max_of_lt_left (by norm_num)

theorem contains_boxAround (hr : 0 ≤ r) : (boxAround c r).contains p ↔
    metresPerDegree * |p.lat - c.lat| ≤ r ∧
      metresPerDegree * parallelScale c.lat * |p.lon - c.lon| ≤ r ∧ |p.lon - c.lon| ≤ 180 := by
  have hscale : 0 < metresPerDegree * parallelScale c.lat :=
    mul_pos metresPerDegree_pos (parallelScale_pos c.lat)
  have hheight : 0 ≤ r / metresPerDegree := div_nonneg hr metresPerDegree_pos.le
  have hwidth : 0 ≤ min 180.0 (r / (metresPerDegree * parallelScale c.lat)) :=
    le_min (by norm_num) (div_nonneg hr hscale.le)
  rw [boxAround, Box.contains_ofCorners, Scalar.atMost_real, Scalar.between_iff_abs hheight,
    Scalar.between_iff_abs hwidth, le_min_iff, le_div_iff₀' metresPerDegree_pos,
    le_div_iff₀' hscale]
  norm_num [and_comm]

/-- How far to the north a circle reaches from its centre, in degrees. -/
noncomputable def northReach (d : ℝ) : ℝ := degrees (d / earthRadius)

noncomputable def eastReach (lat d : ℝ) : ℝ := degrees (reach (radians lat) (d / earthRadius))

/-- A point with a latitude and a longitude as maps have them. -/
structure OnGlobe (p : Location ℝ) : Prop where
  lat : |p.lat| ≤ 90
  lon : |p.lon| ≤ 180

/-- A circle that reaches neither a pole nor the antimeridian. -/
structure Clear (c : Location ℝ) (d : ℝ) : Prop where
  poles : |c.lat| + northReach d < 90
  antimeridian : |c.lon| + eastReach c.lat d < 180

/-- The radius for which the box around a centre of some latitude holds a circle. -/
noncomputable def searchRadius (lat d : ℝ) : ℝ :=
  metresPerDegree * parallelScale lat * eastReach lat d

@[simp] theorem radians_90 : radians (90 : ℝ) = Real.pi / 2 := by
  rw [radians_eq]
  ring

@[simp] theorem radians_180 : radians (180 : ℝ) = Real.pi := by
  rw [radians_eq]
  ring

namespace OnGlobe

variable (h : OnGlobe p)

include h

theorem abs_lat_le : |radians p.lat| ≤ Real.pi / 2 := by
  rw [abs_radians, ← radians_90, radians_le]
  exact h.lat

theorem cos_nonneg : 0 ≤ Real.cos (radians p.lat) :=
  Real.cos_nonneg_of_mem_Icc (abs_le.1 h.abs_lat_le)

end OnGlobe

noncomputable def east (c : Location ℝ) (d : ℝ) : Location ℝ where
  lat := degrees (Real.arcsin (Real.sin (radians c.lat) / Real.cos (d / earthRadius)))
  lon := c.lon + eastReach c.lat d

/-- The metres that the box counts for a metre. -/
noncomputable def stretch : ℝ := 111320 * 180 / (6371008.8 * Real.pi)

theorem one_lt_stretch : 1 < stretch := by
  rw [stretch, one_lt_div (by positivity)]
  linarith [Real.pi_lt_d4]

theorem metres_north (d : ℝ) : metresPerDegree * northReach d = d * stretch := by
  rw [northReach, degrees, earthRadius_eq, metresPerDegree_eq, stretch]
  field_simp

theorem eastReach_le (lat d : ℝ) : eastReach lat d ≤ 90 := by
  rw [← degrees_radians 90, radians_90]
  exact degrees_le.2 (reach_le _ _)

theorem distance_le_of_meridian (hd : 0 ≤ d) (hhalf : d / earthRadius < Real.pi)
    (hlon : p.lon = c.lon) (hlat : |p.lat - c.lat| ≤ northReach d) : distance c p ≤ d := by
  rw [northReach, ← radians_le_iff, ← abs_radians, radians_sub] at hlat
  have hzero : radians (p.lon - c.lon) = 0 := by rw [hlon, sub_self, radians_eq, zero_mul]
  rw [distance_le_iff hd hhalf, hzero, cosine, Real.cos_zero, mul_one]
  calc Real.cos (d / earthRadius) ≤ Real.cos |radians p.lat - radians c.lat| :=
        Real.cos_le_cos_of_nonneg_of_le_pi (abs_nonneg _) hhalf.le hlat
    _ = _ := by rw [Real.cos_abs, Real.cos_sub]; ring

/-- Circles of up to 3000 kilometres are clear around the places between the sixtieth parallels that
are nearer to the prime meridian than to the antimeridian. -/
theorem clear_of_small (hlat : |c.lat| ≤ 60) (hlon : |c.lon| < 90) (hd : d ≤ 3000000) :
    Clear c d where
  poles := by
    have hnorth : northReach d < 30 := by
      rw [northReach, degrees_lt_iff, radians_eq, earthRadius_eq, div_lt_iff₀ (by norm_num)]
      linarith [Real.pi_gt_three]
    linarith
  antimeridian := by linarith [eastReach_le c.lat d]

namespace Clear

variable (h : Clear c d) (hd : 0 ≤ d)

include h

theorem angle : |radians c.lat| + d / earthRadius < Real.pi / 2 := by
  rw [abs_radians, ← radians_degrees (d / earthRadius), ← radians_add, ← radians_90]
  exact radians_lt.2 h.poles

theorem angle_lt : d / earthRadius < Real.pi := by
  linarith [h.angle, abs_nonneg (radians c.lat), Real.pi_pos]

include hd

theorem lat_le (hp : OnGlobe p) (hnear : distance c p ≤ d) : |p.lat - c.lat| ≤ northReach d := by
  have hδ := angle_nonneg hd
  have hsub : |radians p.lat - radians c.lat| ≤ Real.pi := by
    linarith [abs_sub (radians p.lat) (radians c.lat), hp.abs_lat_le, h.angle]
  rw [northReach, ← radians_le_iff, ← abs_radians, radians_sub]
  exact abs_sub_le (cos_centre_pos hδ h.angle).le hp.cos_nonneg hδ h.angle_lt.le hsub
    ((distance_le_iff hd h.angle_lt).1 hnear)

theorem lon_le (hp : OnGlobe p) (hnear : distance c p ≤ d) :
    |p.lon - c.lon| ≤ eastReach c.lat d := by
  have hsub : |p.lon - c.lon| + eastReach c.lat d < 2 * 180 := by
    linarith [abs_sub p.lon c.lon, hp.lon, h.antimeridian]
  have hturn : radians |p.lon - c.lon| + reach (radians c.lat) (d / earthRadius) <
      2 * Real.pi := by
    rw [← radians_degrees (reach _ _), ← radians_add, ← radians_180, two_mul, ← radians_add,
      radians_lt, ← two_mul]
    exact hsub
  rw [eastReach, ← radians_le_iff, ← abs_radians]
  rw [← abs_radians] at hturn
  exact abs_le_reach (angle_nonneg hd) h.angle hp.cos_nonneg
    ((distance_le_iff hd h.angle_lt).1 hnear) (by linarith)

theorem eastReach_nonneg : 0 ≤ eastReach c.lat d :=
  mul_nonneg (reach_nonneg (angle_nonneg hd) h.angle) (by positivity)

theorem north_le_searchRadius : metresPerDegree * northReach d ≤ searchRadius c.lat d := by
  have hreach := le_cos_mul_reach (angle_nonneg hd) h.angle
  have hcos := cos_centre_pos (angle_nonneg hd) h.angle
  have hscale : Real.cos (radians c.lat) ≤ parallelScale c.lat := by
    rw [parallelScale_eq, abs_of_pos hcos]
    exact le_max_right _ _
  have heast := h.eastReach_nonneg hd
  have hnorth : northReach d ≤ Real.cos (radians c.lat) * eastReach c.lat d :=
    (degrees_le.2 hreach).trans_eq (mul_assoc _ _ _)
  calc metresPerDegree * northReach d
      ≤ metresPerDegree * (parallelScale c.lat * eastReach c.lat d) :=
        mul_le_mul_of_nonneg_left (hnorth.trans (mul_le_mul_of_nonneg_right hscale heast))
          metresPerDegree_pos.le
    _ = searchRadius c.lat d := (mul_assoc _ _ _).symm

theorem contains (hr : searchRadius c.lat d ≤ r) (hp : OnGlobe p) (hnear : distance c p ≤ d) :
    (boxAround c r).contains p := by
  have hscale : 0 < metresPerDegree * parallelScale c.lat :=
    mul_pos metresPerDegree_pos (parallelScale_pos c.lat)
  have hlat : metresPerDegree * |p.lat - c.lat| ≤ r :=
    ((mul_le_mul_of_nonneg_left (h.lat_le hd hp hnear) metresPerDegree_pos.le).trans
      (h.north_le_searchRadius hd)).trans hr
  have hlon := h.lon_le hd hp hnear
  rw [contains_boxAround ((mul_nonneg metresPerDegree_pos.le (abs_nonneg _)).trans hlat)]
  exact ⟨hlat, (mul_le_mul_of_nonneg_left hlon hscale.le).trans hr,
    by linarith [eastReach_le c.lat d]⟩

theorem onGlobe_east : OnGlobe (east c d) where
  lat := by
    rw [← radians_le, ← abs_radians, radians_90, east, radians_degrees]
    exact abs_le.2 ⟨Real.neg_pi_div_two_le_arcsin _, Real.arcsin_le_pi_div_two _⟩
  lon := by
    have hsum := abs_add_le c.lon (eastReach c.lat d)
    rw [abs_of_nonneg (h.eastReach_nonneg hd)] at hsum
    exact hsum.trans h.antimeridian.le

theorem distance_east : distance c (east c d) ≤ d := by
  rw [distance_le_iff hd h.angle_lt, east, radians_degrees, add_sub_cancel_left, eastReach,
    radians_degrees, cosine_reach (angle_nonneg hd) h.angle]

/-- A box that holds the easternmost point of a circle is made for a large enough radius. -/
theorem searchRadius_le_of_contains (hr : 0 ≤ r) (heast : (boxAround c r).contains (east c d)) :
    searchRadius c.lat d ≤ r := by
  have hlon := ((contains_boxAround hr).1 heast).2.1
  rwa [east, add_sub_cancel_left, abs_of_nonneg (h.eastReach_nonneg hd)] at hlon

theorem le_searchRadius : d ≤ searchRadius c.lat d := by
  refine le_trans ?_ (h.north_le_searchRadius hd)
  rw [metres_north]
  exact le_mul_of_one_le_right hd one_lt_stretch.le

theorem lt_searchRadius (hpos : 0 < d) : d < searchRadius c.lat d := by
  refine lt_of_lt_of_le ?_ (h.north_le_searchRadius hd)
  rw [metres_north]
  exact lt_mul_of_one_lt_right hpos one_lt_stretch

/-- It is less than 1.6 times as large, unless the centre is next to a pole. -/
theorem searchRadius_le (hscale : 1e-6 ≤ Real.cos (radians c.lat)) :
    searchRadius c.lat d ≤ 8 / 5 * d := by
  have hreach := cos_mul_reach_le (angle_nonneg hd) h.angle
  have hcos := cos_centre_pos (angle_nonneg hd) h.angle
  calc searchRadius c.lat d
      = 111320 * (180 / Real.pi) *
          (Real.cos (radians c.lat) * reach (radians c.lat) (d / earthRadius)) := by
        rw [searchRadius, parallelScale_eq, abs_of_pos hcos, max_eq_right hscale, eastReach,
          degrees, metresPerDegree_eq]
        ring
    _ ≤ 111320 * (180 / Real.pi) * (Real.pi / 2 * (d / earthRadius)) :=
        mul_le_mul_of_nonneg_left hreach (by positivity)
    _ = 111320 * 90 / 6371008.8 * d := by
        rw [earthRadius_eq]
        field_simp
        ring
    _ ≤ 8 / 5 * d := mul_le_mul_of_nonneg_right (by norm_num) hd

end Clear

end Sphere

end Timetable

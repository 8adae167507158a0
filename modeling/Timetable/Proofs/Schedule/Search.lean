import Timetable.Proofs.Geo.Sphere
import Timetable.Proofs.Schedule.Stops

namespace Timetable.Schedule

open Sphere Sites

section Found

variable {R : Type} [Geometry R] {g : Schedule R} {centre : Location R} {radius : R} {s : Stop R}

theorem mem_stopsWithin : s ∈ g.stopsWithin centre radius ↔ s ∈ g.allStops ∧
    (Geometry.boxAround centre radius).contains s.location ∧
    Scalar.le (Geometry.distance centre s.location) radius := by
  rw [stopsWithin, List.mem_map, allStops, List.mem_mergeSort]
  simp only [List.mem_mergeSort, List.mem_filter, List.mem_map, stopsIn]
  constructor
  · rintro ⟨_, ⟨⟨s, ⟨hs, hbox⟩, rfl⟩, hnear⟩, rfl⟩
    exact ⟨hs, hbox, hnear⟩
  · rintro ⟨hs, hbox, hnear⟩
    exact ⟨_, ⟨⟨s, ⟨hs, hbox⟩, rfl⟩, hnear⟩, rfl⟩

def ofStop (id : Ident) (location : Location R) : Schedule R :=
  empty.run [.addStop { id, location, name := none }]

theorem reachable_ofStop (id : Ident) (location : Location R) : (ofStop id location).Reachable :=
  ⟨_, rfl⟩

theorem mem_allStops_ofStop (id : Ident) (location : Location R) :
    { id, location, index := 0 } ∈ (ofStop id location).allStops := by
  have hall : (ofStop id location).allStops = [{ id, location, index := 0 }] :=
    ((Registers.empty (R := R)).run [.addStop { id, location, name := none }]).allStops
  rw [hall]
  exact List.mem_singleton_self _

end Found

variable {c : Location ℝ} {d : ℝ}

/-- Around a centre whose circle reaches neither a pole nor the antimeridian, searches find every
stop of the circle, in whatever schedule, exactly if they go as far as the search radius of the
circle. That is further than the circle itself, unless the circle is a point. -/
theorem stopsWithin_complete_iff (h : Clear c d) (hd : 0 ≤ d) (r : ℝ) :
    ((∀ g : Schedule ℝ, g.Reachable → ∀ s ∈ g.allStops, OnGlobe s.location →
        Geometry.distance c s.location ≤ d → s ∈ g.stopsWithin c r) ↔
      searchRadius c.lat d ≤ r) ∧
    (0 < d → d < searchRadius c.lat d) := by
  refine ⟨⟨fun hfound => ?_, fun hr g _ s hs hglobe hnear => ?_⟩, h.lt_searchRadius hd⟩
  · -- the easternmost point of the circle is the last to be found
    have hmem := hfound _ (reachable_ofStop default (east c d)) _ (mem_allStops_ofStop _ _)
      (h.onGlobe_east hd) (h.distance_east hd)
    obtain ⟨_, hbox, hwithin⟩ := mem_stopsWithin.1 hmem
    have hr : 0 ≤ r := (distance_nonneg c (east c d)).trans (Scalar.le_real.1 hwithin)
    exact h.searchRadius_le_of_contains hd hr hbox
  · have hle := hnear.trans ((h.le_searchRadius hd).trans hr)
    exact mem_stopsWithin.2 ⟨hs, h.contains hd hr hglobe hnear, Scalar.le_real.2 hle⟩

/-- A search of 1600 metres around a place of the sixtieth parallel finds all stops within 1000, and
one of 1000 does not. -/
theorem stopsWithin_complete_iff_northerly :
    let c : Location ℝ := ⟨60, 10⟩
    Clear c 1000 ∧ (0 : ℝ) ≤ 1000 ∧
    (∀ g : Schedule ℝ, g.Reachable → ∀ s ∈ g.allStops, OnGlobe s.location →
      Geometry.distance c s.location ≤ 1000 → s ∈ g.stopsWithin c 1600) ∧
    ¬∀ g : Schedule ℝ, g.Reachable → ∀ s ∈ g.allStops, OnGlobe s.location →
      Geometry.distance c s.location ≤ 1000 → s ∈ g.stopsWithin c 1000 := by
  intro c
  have hclear : Clear c 1000 := clear_of_small (by norm_num [c]) (by norm_num [c]) (by norm_num)
  have hd : (0 : ℝ) ≤ 1000 := by norm_num
  have hcos : 1e-6 ≤ Real.cos (radians c.lat) := by
    have hthird : radians c.lat = Real.pi / 3 := by
      rw [radians_eq]
      ring
    rw [hthird, Real.cos_pi_div_three]
    norm_num
  have hle : searchRadius c.lat 1000 ≤ 1600 :=
    (hclear.searchRadius_le hd hcos).trans_eq (by norm_num)
  refine ⟨hclear, hd, (stopsWithin_complete_iff hclear hd 1600).1.2 hle, fun hfound => ?_⟩
  have hiff := stopsWithin_complete_iff hclear hd 1000
  exact (hiff.2 (by norm_num)).not_ge (hiff.1.1 hfound)

/-- A stop within a thousand metres to the north is missed by a search of a thousand metres. -/
theorem stopsWithin_misses_northward :
    let c : Location ℝ := ⟨0, 0⟩
    let stop : Stop ℝ := { id := ⟨"A", "X"⟩, location := ⟨0.00899, 0⟩, index := 0 }
    let g := ofStop stop.id stop.location
    g.Reachable ∧ Clear c 1000 ∧ stop ∈ g.allStops ∧ OnGlobe stop.location ∧
      Geometry.distance c stop.location ≤ 1000 ∧ stop ∉ g.stopsWithin c 1000 := by
  intro c stop g
  have hclear : Clear c 1000 := clear_of_small (by norm_num [c]) (by norm_num [c]) (by norm_num)
  have hd : (0 : ℝ) ≤ 1000 := by norm_num
  have hglobe : OnGlobe stop.location := ⟨by norm_num [stop, abs_le], by norm_num [stop]⟩
  have hnorth : |stop.location.lat - c.lat| ≤ northReach 1000 := by
    rw [northReach, ← radians_le_iff, radians_eq, earthRadius_eq, le_div_iff₀ (by norm_num)]
    norm_num [c, stop]
    linarith [Real.pi_lt_d4]
  have hnear : distance c stop.location ≤ 1000 :=
    distance_le_of_meridian hd hclear.angle_lt rfl hnorth
  refine ⟨reachable_ofStop _ _, hclear, mem_allStops_ofStop _ _, hglobe, hnear, fun hmem => ?_⟩
  have hlat := ((contains_boxAround hd).1 (mem_stopsWithin.1 hmem).2.1).1
  rw [metresPerDegree_eq] at hlat
  norm_num [c, stop, abs_le] at hlat

end Timetable.Schedule

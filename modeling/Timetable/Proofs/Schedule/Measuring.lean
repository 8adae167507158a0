import Timetable.Proofs.Schedule.Insertion
import Timetable.Proofs.Schedule.Shapes

namespace Timetable

variable {R : Type}

namespace Shape

variable [Scalar R] (distance : Location R → Location R → R)

theorem travelled_eq_scanl (total : R) {ps : List (Location R)} (h : ps ≠ []) :
    travelled distance total ps = (ps.zipWith distance ps.tail).scanl (· + ·) total := by
  fun_induction travelled distance total ps with
  | case1 => exact (h rfl).elim
  | case2 total p => rfl
  | case3 total p q rest ih =>
    rw [ih (List.cons_ne_nil q rest), List.tail_cons, List.tail_cons, List.zipWith_cons_cons,
      List.scanl_cons]

variable (s : Shape R)

theorem measuredBy_of_isMeasured (h : s.isMeasured) : s.measuredBy distance = s := if_pos h

theorem measuredBy_of_not_isMeasured (h : ¬s.isMeasured) :
    s.measuredBy distance = { s with distances := travelled distance 0 s.points } := if_neg h

theorem measuredBy_eq :
    s.measuredBy distance = { s with distances := (s.measuredBy distance).distances } := by
  by_cases h : s.isMeasured
  · rw [measuredBy_of_isMeasured distance s h]
  · rw [measuredBy_of_not_isMeasured distance s h]

@[simp] theorem points_measuredBy : (s.measuredBy distance).points = s.points := by
  rw [measuredBy_eq]

@[simp] theorem id_measuredBy : (s.measuredBy distance).id = s.id := by
  rw [measuredBy_eq]

theorem length_of_isMeasured (h : s.isMeasured) : s.distances.length = s.points.length := by
  rw [isMeasured, Bool.and_eq_true] at h
  exact of_decide_eq_true h.1

@[simp] theorem length_distances_measuredBy :
    (s.measuredBy distance).distances.length = s.points.length := by
  by_cases h : s.isMeasured
  · rw [measuredBy_of_isMeasured distance s h]
    exact s.length_of_isMeasured h
  · rw [measuredBy_of_not_isMeasured distance s h]
    exact length_travelled distance 0 s.points

theorem distances_measuredBy (h : ¬s.isMeasured) (hpoints : s.points ≠ []) :
    (s.measuredBy distance).distances =
      (s.points.zipWith distance s.points.tail).scanl (· + ·) 0 := by
  rw [measuredBy_of_not_isMeasured distance s h]
  exact travelled_eq_scanl distance 0 hpoints

end Shape

namespace Schedule

variable [Geometry R] {g : Schedule R} {id : Ident} {s : Shape R}

theorem addShape_of_measured (g : Schedule R) (hs : s.measured = s) :
    (g.addShape s).1 = { g with shapes := g.shapes.insert s.id s } := by
  rw [addShape, hs]

theorem addShape_stored (hg : Drawn g) (h : g.shapes[id]? = some s) :
    g.addShape s = (g, false) := by
  obtain rfl : s.id = id := hg.keyed id s h
  have hcontains : g.shapes.contains s.id :=
    Std.ExtTreeMap.mem_iff_contains.1 (Table.mem_of_getElem? h)
  rw [addShape, hg.measured s.id s h, Table.insert_self h, hcontains]
  rfl

theorem addShape_removed (hg : Drawn g) (h : g.shapes[id]? = some s) :
    ((g.removeShape id).1.addShape s).1 = g := by
  obtain rfl : s.id = id := hg.keyed id s h
  simp [addShape_of_measured _ (hg.measured s.id s h), removeShape, Table.insert_self h]

theorem addShape_replaced (hg : Drawn g) (h : g.shapes[id]? = some s) {t : Shape R}
    (ht : t.id = id) : ((g.addShape t).1.addShape s).1 = g := by
  obtain rfl : s.id = id := hg.keyed id s h
  rw [addShape_of_measured _ (hg.measured s.id s h), addShape, ht, Table.insert_insert,
    Table.insert_self h]

/-- Whatever measures between points, a shape that is measured keeps its points, has one distance
for each, which are running sums unless they were given and could stand, and is not changed when it
is measured again. A stored shape that is stored again, be it at once or after it was removed or
replaced, leaves the schedule as it was. -/
theorem shapes_stored_again :
    (∀ (distance : Location R → Location R → R) (s : Shape R),
      let filled := s.measuredBy distance
      filled.id = s.id ∧ filled.points = s.points ∧ filled.distances.length = s.points.length ∧
      (¬s.isMeasured → s.points ≠ [] → filled.distances =
        (s.points.zipWith distance s.points.tail).scanl (· + ·) 0) ∧
      filled.measuredBy distance = filled) ∧
    ∀ g : Schedule R, g.Reachable → ∀ id s, g.shapes[id]? = some s →
      g.addShape s = (g, false) ∧ ((g.removeShape id).1.addShape s).1 = g ∧
      ∀ t : Shape R, t.id = id → ((g.addShape t).1.addShape s).1 = g := by
  constructor
  · intro distance s filled
    exact ⟨s.id_measuredBy distance, s.points_measuredBy distance,
      s.length_distances_measuredBy distance, s.distances_measuredBy distance,
      s.measuredBy_measuredBy distance⟩
  · intro g hg id s h
    exact ⟨addShape_stored hg.drawn h, addShape_removed hg.drawn h,
      fun t ht => addShape_replaced hg.drawn h ht⟩

/-- A line that stays at one place, with distances that cannot stand. -/
def standingDay : List (Edit ℚ) :=
  [.addShape { id := ⟨"A", "L"⟩, points := [⟨1, 1⟩, ⟨1, 1⟩], distances := [3, -2] }]

def movingLine : Shape ℚ := { id := ⟨"A", "L"⟩, points := [⟨1, 1⟩, ⟨4, 1⟩], distances := [] }

theorem shapes_stored_again_standingDay :
    letI := Geometry.rational (fun p q => q.lat - p.lat) (fun _ _ => ⟨0, 0, 1, 1⟩)
    let id : Ident := ⟨"A", "L"⟩
    let g := empty.run standingDay
    g.Reachable ∧ movingLine.id = id ∧ movingLine.measured.distances = [0, 3] ∧
    ∃ s, g.shapes[id]? = some s ∧ s.distances = [0, 0] ∧ s.isMeasured = false ∧
      s.measured = s ∧ g.addShape s = (g, false) ∧ ((g.removeShape id).1.addShape s).1 = g ∧
      ((g.addShape movingLine).1.addShape s).1 = g := by
  let inst := Geometry.rational (fun p q => q.lat - p.lat) (fun _ _ => ⟨0, 0, 1, 1⟩)
  intro id g
  have hg : g.Reachable := ⟨standingDay, rfl⟩
  obtain ⟨hmeasured, hstored⟩ := shapes_stored_again (R := ℚ)
  have hstands : (g.shapes[id]?).map (fun s => (s.distances, s.isMeasured)) =
      some ([0, 0], false) := by
    decide +kernel
  have hmoving : ¬movingLine.isMeasured := by decide
  obtain ⟨s, hs, hpair⟩ := Option.map_eq_some_iff.1 hstands
  obtain ⟨hdistances, hunmeasured⟩ := Prod.mk.inj hpair
  obtain ⟨hagain, hremoved, hreplaced⟩ := hstored g hg id s hs
  obtain ⟨-, -, -, hsums, -⟩ := hmeasured Geometry.distance movingLine
  have hline : movingLine.measured.distances = [0, 3] := by
    rw [Shape.measured, hsums hmoving (by decide)]
    decide +kernel
  exact ⟨hg, rfl, hline, s, hs, hdistances, hunmeasured, hg.drawn.measured id s hs, hagain,
    hremoved, hreplaced movingLine rfl⟩

end Schedule

end Timetable

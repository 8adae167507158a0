import Timetable.Change.Set
import Timetable.Geo.Sphere
import Timetable.Proofs.Schedule.Shapes

namespace Timetable

variable {R : Type}

namespace ShapeChanges

def stored (c : ShapeChanges R) (id : Ident) : List (Shape R) := c.added.filter fun s => s.id = id

/-- Of the shapes that a change set stores under an id those that it does not leave there. -/
def passing (c : ShapeChanges R) (id : Ident) : List (Shape R) :=
  if id ∈ c.deleted then c.stored id else (c.stored id).dropLast

theorem stored_add (c : ShapeChanges R) (s : Shape R) (id : Ident) :
    (c.add s).stored id = c.stored id ++ if s.id = id then [s] else [] := by
  rw [stored, add, List.filter_append, List.filter_singleton]
  simp [stored]

@[simp] theorem mem_deleted_delete {c : ShapeChanges R} {i id : Ident} :
    id ∈ (c.delete i).deleted ↔ id ∈ c.deleted ∨ i = id := by
  rw [delete, List.mem_append, List.mem_singleton, eq_comm (a := id)]

theorem stored_elim {r d : ShapeChanges R} (same : d.added = r.added) {former : Option (Shape R)}
    {i : Ident} (keyed : ∀ s, former = some s → s.id = i) (id : Ident) :
    (former.elim d r.add).stored id = r.stored id ++ if i = id then former.toList else [] := by
  cases former with
  | none => simp [stored, same]
  | some s =>
    rw [Option.elim_some, stored_add, keyed s rfl]
    rfl

end ShapeChanges

namespace Schedule

/-- All that was stored under an id one after the other, if it is noted when it makes way. -/
def versions (s : Schedule R × ShapeChanges R) (id : Ident) : List (Shape R) :=
  s.2.stored id ++ (s.1.shapes[id]?).toList

theorem removeShapeNoting_eq (g : Schedule R) (r : ShapeChanges R) (i : Ident) :
    removeShapeNoting (g, r) i =
      ({ g with shapes := g.shapes.erase i }, (g.shapes[i]?).elim r r.add) := by
  cases h : g.shapes[i]? with
  | none => simp only [removeShapeNoting, h, Table.erase_eq_self, Option.elim_none]
  | some former =>
    have hmem : i ∈ g.shapes := Table.mem_of_getElem? h
    have hcontains : g.shapes.contains i := Std.ExtTreeMap.mem_iff_contains.1 hmem
    simp only [removeShapeNoting, removeShape, h, hcontains, Option.elim_some]

theorem addShapeNoting_eq [Geometry R] (g : Schedule R) (r : ShapeChanges R) (s : Shape R) :
    addShapeNoting (g, r) s = ({ g with shapes := g.shapes.insert s.id s.measured },
      (g.shapes[s.id]?).elim (r.delete s.id) r.add) := by
  cases h : g.shapes[s.id]? with
  | none => simp only [addShapeNoting, addShape, h, Option.elim_none]
  | some former => simp only [addShapeNoting, addShape, h, Option.elim_some]

section Remove

variable {s : Schedule R × ShapeChanges R} (ids : List Ident) (id : Ident)

theorem shapes_removes (s : Schedule R × ShapeChanges R) :
    (ids.foldl removeShapeNoting s).1.shapes[id]? =
      if id ∈ ids then none else s.1.shapes[id]? := by
  induction ids generalizing s with
  | nil => rfl
  | cons i ids ih =>
    rw [List.foldl_cons, ih, removeShapeNoting_eq, Table.getElem?_erase]
    by_cases he : i = id
    · simp [he]
    · simp [he, Ne.symm he]

@[simp] theorem deleted_removes (s : Schedule R × ShapeChanges R) :
    (ids.foldl removeShapeNoting s).2.deleted = s.2.deleted := by
  induction ids generalizing s with
  | nil => rfl
  | cons i ids ih =>
    rw [List.foldl_cons, ih, removeShapeNoting_eq]
    cases s.1.shapes[i]? <;> rfl

variable [Geometry R]

theorem Drawn.removeShapeNoting (hs : Drawn s.1) (i : Ident) :
    Drawn (removeShapeNoting s i).1 := by
  rw [removeShapeNoting_eq]
  exact hs.removeShape i

theorem versions_removeShapeNoting (hs : Drawn s.1) (i : Ident) :
    versions (removeShapeNoting s i) id = versions s id := by
  rw [removeShapeNoting_eq, versions, ShapeChanges.stored_elim rfl (hs.keyed i),
    Table.getElem?_erase]
  split
  · next he => rw [he, Option.toList_none, List.append_nil, versions]
  · rw [List.append_nil, versions]

theorem versions_removes (hs : Drawn s.1) :
    versions (ids.foldl removeShapeNoting s) id = versions s id := by
  induction ids generalizing s with
  | nil => rfl
  | cons i ids ih =>
    rw [List.foldl_cons, ih (hs.removeShapeNoting i), versions_removeShapeNoting id hs i]

end Remove

section Add

variable [Geometry R] {s : Schedule R × ShapeChanges R} (added : List (Shape R)) (id : Ident)

theorem Drawn.addShapeNoting (hs : Drawn s.1) (shape : Shape R) :
    Drawn (addShapeNoting s shape).1 := by
  rw [addShapeNoting_eq]
  exact hs.addShape shape

theorem versions_addShapeNoting (hs : Drawn s.1) (shape : Shape R) :
    versions (addShapeNoting s shape) id =
      versions s id ++ if shape.id = id then [shape.measured] else [] := by
  have hsame : (s.2.delete shape.id).added = s.2.added := rfl
  rw [addShapeNoting_eq, versions, ShapeChanges.stored_elim hsame (hs.keyed shape.id),
    Table.getElem?_insert]
  split
  · next he => rw [he, Option.toList_some, versions]
  · rw [List.append_nil, List.append_nil, versions]

theorem drawn_adds (hs : Drawn s.1) : Drawn (added.foldl addShapeNoting s).1 := by
  induction added generalizing s with
  | nil => exact hs
  | cons shape added ih => exact ih (hs.addShapeNoting shape)

theorem versions_adds (hs : Drawn s.1) : versions (added.foldl addShapeNoting s) id =
    versions s id ++ (added.filter fun u => u.id = id).map Shape.measured := by
  induction added generalizing s with
  | nil => exact (List.append_nil _).symm
  | cons shape added ih =>
    rw [List.foldl_cons, ih (hs.addShapeNoting shape), versions_addShapeNoting id hs shape,
      List.append_assoc, List.filter_cons]
    by_cases he : shape.id = id
    · simp [he]
    · simp [he]

theorem shapes_adds (s : Schedule R × ShapeChanges R) :
    (added.foldl addShapeNoting s).1.shapes[id]? =
      (((added.filter fun u => u.id = id).getLast?).map Shape.measured).or s.1.shapes[id]? := by
  -- from the end of the list, since the last shape of an id stays
  induction added using List.reverseRecOn with
  | nil => rfl
  | append_singleton added shape ih =>
    rw [List.foldl_append, List.foldl_cons, List.foldl_nil, addShapeNoting_eq,
      Table.getElem?_insert, ih, List.filter_append, List.filter_singleton]
    by_cases he : shape.id = id
    · simp [he]
    · simp [he]

theorem mem_deleted_addShapeNoting (s : Schedule R × ShapeChanges R) (shape : Shape R) :
    id ∈ (addShapeNoting s shape).2.deleted ↔
      id ∈ s.2.deleted ∨ id ∉ s.1.shapes ∧ shape.id = id := by
  rw [addShapeNoting_eq]
  cases h : s.1.shapes[shape.id]? with
  | none =>
    rw [Option.elim_none, ShapeChanges.mem_deleted_delete]
    apply or_congr_right
    apply (and_iff_right_of_imp _).symm
    rintro rfl
    exact (getElem?_eq_none_iff _ _).1 h
  | some former =>
    rw [Option.elim_some]
    apply (or_iff_left _).symm
    rintro ⟨hnew, rfl⟩
    exact hnew (Table.mem_of_getElem? h)

theorem mem_shapes_addShapeNoting (s : Schedule R × ShapeChanges R) (shape : Shape R) :
    id ∈ (addShapeNoting s shape).1.shapes ↔ shape.id = id ∨ id ∈ s.1.shapes := by
  rw [addShapeNoting_eq, Table.mem_insert_iff]

theorem mem_deleted_adds (s : Schedule R × ShapeChanges R) :
    id ∈ (added.foldl addShapeNoting s).2.deleted ↔
      id ∈ s.2.deleted ∨ id ∉ s.1.shapes ∧ (added.filter fun u => u.id = id) ≠ [] := by
  induction added generalizing s with
  | nil => simp
  | cons shape added ih =>
    rw [List.foldl_cons, ih, mem_deleted_addShapeNoting, mem_shapes_addShapeNoting,
      List.filter_cons]
    -- only the first shape of an id can find nothing
    by_cases he : shape.id = id
    · simp [he]
    · simp [he]

end Add

section Apply

variable [Geometry R] {g : Schedule R} (c : ShapeChanges R) (id : Ident)

theorem shapes_applyShapes (g : Schedule R) : (g.applyShapes c).1.shapes[id]? =
    if id ∈ c.deleted then none
    else (((c.stored id).getLast?).map Shape.measured).or g.shapes[id]? := by
  rw [applyShapes, shapes_removes, shapes_adds]
  rfl

/-- Nothing that was stored under an id is lost: it is there or it is noted. -/
theorem versions_applyShapes (hg : Drawn g) : versions (g.applyShapes c) id =
    (g.shapes[id]?).toList ++ (c.stored id).map Shape.measured := by
  have hadds : Drawn (c.added.foldl addShapeNoting (g, .empty)).1 := drawn_adds c.added hg
  have hstart : versions (g, .empty) id = (g.shapes[id]?).toList := rfl
  rw [applyShapes, versions_removes c.deleted id hadds, versions_adds c.added id hg, hstart]
  rfl

theorem mem_deleted_applyShapes (g : Schedule R) :
    id ∈ (g.applyShapes c).2.deleted ↔ id ∉ g.shapes ∧ c.stored id ≠ [] := by
  rw [applyShapes, deleted_removes, mem_deleted_adds]
  apply or_iff_right
  exact List.not_mem_nil

theorem stored_notes (hg : Drawn g) {former : Shape R} (h : g.shapes[id]? = some former)
    (touched : id ∈ c.deleted ∨ c.stored id ≠ []) :
    (g.applyShapes c).2.stored id = former :: (c.passing id).map Shape.measured := by
  have hall := versions_applyShapes c id hg
  rw [versions, shapes_applyShapes, h, Option.toList_some, List.singleton_append] at hall
  rw [ShapeChanges.passing]
  by_cases hd : id ∈ c.deleted
  · rw [if_pos hd, Option.toList_none, List.append_nil] at hall
    rw [if_pos hd, hall]
  · have hne : c.stored id ≠ [] := touched.resolve_left hd
    obtain ⟨init, last, hsplit⟩ := (c.stored id).eq_nil_or_concat'.resolve_left hne
    rw [if_neg hd, hsplit, List.getLast?_concat, Option.map_some, Option.some_or,
      Option.toList_some, List.map_append, List.map_singleton, ← List.cons_append] at hall
    rw [if_neg hd, hsplit, List.dropLast_concat]
    exact List.append_cancel_right hall

theorem shapes_undone (hg : Drawn g) {former : Shape R} (h : g.shapes[id]? = some former) :
    ((g.applyShapes c).1.applyShapes (g.applyShapes c).2).1.shapes[id]? =
      some ((((c.passing id).getLast?).map Shape.measured).getD former) := by
  have hkept : id ∉ (g.applyShapes c).2.deleted := by
    rw [mem_deleted_applyShapes]
    exact fun hnew => hnew.1 (Table.mem_of_getElem? h)
  rw [shapes_applyShapes _ _ (g.applyShapes c).1, if_neg hkept]
  by_cases touched : id ∈ c.deleted ∨ c.stored id ≠ []
  · rw [stored_notes c id hg h touched, List.getLast?_cons, List.getLast?_map, Option.map_some,
      Option.some_or]
    cases (c.passing id).getLast? with
    | none =>
      rw [Option.map_none, Option.getD_none, hg.measured id former h]
    | some s => simp
  · rw [not_or, not_not] at touched
    obtain ⟨hd, hnil⟩ := touched
    have hsame : (g.applyShapes c).1.shapes[id]? = some former := by
      rw [shapes_applyShapes, if_neg hd, hnil, h]
      rfl
    have hnotes : (g.applyShapes c).2.stored id = [] := by
      have hall := versions_applyShapes c id hg
      rw [versions, hsame, h, hnil] at hall
      exact List.append_left_eq_self.1 hall
    rw [hnotes, hsame, ShapeChanges.passing, if_neg hd, hnil]
    rfl

theorem shapes_undone_new (hg : Drawn g) (h : g.shapes[id]? = none) :
    ((g.applyShapes c).1.applyShapes (g.applyShapes c).2).1.shapes[id]? = none := by
  rw [shapes_applyShapes _ _ (g.applyShapes c).1]
  split
  · rfl
  · next hkept =>
    have hnil : c.stored id = [] := by
      rw [mem_deleted_applyShapes, not_and, not_not] at hkept
      exact hkept ((getElem?_eq_none_iff _ _).1 h)
    have hall := versions_applyShapes c id hg
    rw [versions, h, hnil] at hall
    obtain ⟨hnotes, hnone⟩ := List.append_eq_nil_iff.1 hall
    rw [hnotes, Option.toList_eq_nil_iff.1 hnone]
    rfl

end Apply

/-- Whatever shapes a change set stores and removes, what is noted while it is applied leaves an id
with the shape that it had, or with none, if and only if the id was new or the last of the shapes
that the set stored under it and did not leave there, if there is one, is the shape that it had. -/
theorem Reachable.applyShapes_undone_iff [Geometry R] {g : Schedule R} (h : g.Reachable)
    (c : ShapeChanges R) (id : Ident) :
    let done := g.applyShapes c
    let undone := done.1.applyShapes done.2
    undone.1.shapes[id]? = g.shapes[id]? ↔ ∀ former, g.shapes[id]? = some former →
      ∀ s ∈ (c.passing id).getLast?, s.measured = former := by
  intro done undone
  have hg := h.drawn
  cases hs : g.shapes[id]? with
  | none =>
    have hnone : undone.1.shapes[id]? = none := shapes_undone_new c id hg hs
    exact iff_of_true hnone nofun
  | some former =>
    have hsome : undone.1.shapes[id]? = _ := shapes_undone c id hg hs
    rw [hsome]
    cases (c.passing id).getLast? <;> simp

def drawnDay : List (Edit Float) :=
  [.addShape { id := ⟨"A", "L"⟩, points := [⟨1, 1⟩, ⟨2, 2⟩], distances := [] }]

/-- The line is replaced by one of a single point and then by one without any. -/
def redrawnTwice : ShapeChanges Float where
  added := [{ id := ⟨"A", "L"⟩, points := [⟨1, 1⟩], distances := [] },
    { id := ⟨"A", "L"⟩, points := [], distances := [] }]

theorem applyShapes_undone_iff_redrawnTwice :
    let id : Ident := ⟨"A", "L"⟩
    let g := empty.run drawnDay
    let done := g.applyShapes redrawnTwice
    let undone := done.1.applyShapes done.2
    g.Reachable ∧ (undone.1.shapes[id]? = g.shapes[id]? ↔
      ∀ former, g.shapes[id]? = some former →
        ∀ s ∈ (redrawnTwice.passing id).getLast?, s.measured = former) :=
  ⟨⟨drawnDay, rfl⟩, Reachable.applyShapes_undone_iff ⟨drawnDay, rfl⟩ redrawnTwice ⟨"A", "L"⟩⟩

/-- The undo leaves the line with the single point that it had in between. -/
theorem applyShapes_astray_redrawnTwice :
    let id : Ident := ⟨"A", "L"⟩
    let g := empty.run drawnDay
    let done := g.applyShapes redrawnTwice
    let undone := done.1.applyShapes done.2
    g.Reachable ∧ (g.shapes[id]?).map (·.points.length) = some 2 ∧
    (undone.1.shapes[id]?).map (·.points.length) = some 1 ∧
    ¬∀ i : Ident, undone.1.shapes[i]? = g.shapes[i]? := by
  intro id g done undone
  have hbefore : (g.shapes[id]?).map (·.points.length) = some 2 := by decide +kernel
  have hafter : (undone.1.shapes[id]?).map (·.points.length) = some 1 := by decide +kernel
  refine ⟨⟨drawnDay, rfl⟩, hbefore, hafter, fun h => ?_⟩
  rw [h id, hbefore] at hafter
  cases hafter

end Schedule

end Timetable

import Std.Data.ExtTreeMap

namespace Timetable

/-- A finite map whose entries are listed in key order. -/
abbrev Table (K : Type) [Ord K] (V : Type) := Std.ExtTreeMap K V compare

namespace Table

variable {K V W : Type} [Ord K] [Std.TransOrd K]

/-- The table of a list of entries; of two entries under one key the later counts. -/
def ofEntries (entries : List (K × V)) : Table K V :=
  entries.foldl (fun t e => t.insert e.1 e.2) ∅

def adjust (t : Table K V) (k : K) (f : V → V) : Table K V :=
  match t[k]? with
  | some v => t.insert k (f v)
  | none => t

/-- The list under a key of a table of lists, empty when there is none. -/
def listAt (t : Table K (List V)) (k : K) : List V := t[k]?.getD []

def push (t : Table K (List V)) (k : K) (v : V) : Table K (List V) :=
  t.insert k (t.listAt k ++ [v])

/-- Files each value under each of its keys, keeping the values of a key in their order. -/
def group (keys : V → List K) (vs : List V) : Table K (List V) :=
  vs.foldl (fun t v => (keys v).foldl (fun t k => t.push k v) t) ∅

variable [Std.LawfulEqOrd K] [DecidableEq K]

@[simp] theorem getElem?_adjust (t : Table K V) (k l : K) (f : V → V) :
    (t.adjust k f)[l]? = if k = l then t[l]?.map f else t[l]? := by
  unfold adjust
  split
  · next v h =>
    simp only [Std.ExtTreeMap.getElem?_insert, Std.compare_eq_iff_eq]
    split
    · next e => subst e; simp [h]
    · rfl
  · next h =>
    split
    · next e => subst e; simp [h]
    · rfl

theorem listAt_push (t : Table K (List V)) (k l : K) (v : V) :
    (t.push k v).listAt l = if k = l then t.listAt l ++ [v] else t.listAt l := by
  simp only [push, listAt, Std.ExtTreeMap.getElem?_insert, Std.compare_eq_iff_eq]
  split
  · next e => subst e; rfl
  · rfl

end Table

end Timetable

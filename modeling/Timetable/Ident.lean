import Std.Data.ExtTreeMap

namespace Timetable

/-- An entity's name within the agency that owns it. -/
structure Ident where
  agency : String
  name : String
  deriving DecidableEq, Repr, Inhabited

namespace Ident

/-- Agency first, then name, each by code points. -/
instance : Ord Ident where
  compare := compareLex (compareOn agency) (compareOn name)

instance : Std.TransOrd Ident :=
  inferInstanceAs (Std.TransCmp (compareLex (compareOn agency) (compareOn name)))

instance : Std.LawfulEqOrd Ident where
  eq_of_compare {a b} h := by
    cases a with
    | mk a₁ a₂ =>
      cases b with
      | mk b₁ b₂ =>
        obtain ⟨h₁, h₂⟩ := compareLex_eq_eq.1 h
        have e₁ : a₁ = b₁ := Std.LawfulEqCmp.eq_of_compare h₁
        have e₂ : a₂ = b₂ := Std.LawfulEqCmp.eq_of_compare h₂
        rw [e₁, e₂]

def text (i : Ident) : String := i.agency ++ "_" ++ i.name

/-- Reads the written form, splitting at the first underscore. -/
def parse? (s : String) : Option Ident :=
  match s.toList.span (· ≠ '_') with
  | (_, []) => none
  | (agency, _ :: name) => some ⟨String.ofList agency, String.ofList name⟩

def withAgency (i : Ident) (agency : String) : Ident := { i with agency }

def isAtMost (i j : Ident) : Bool := (compare i j).isLE

def sort (ids : List Ident) : List Ident := ids.mergeSort isAtMost

def dropRepeats : List Ident → List Ident
  | [] => []
  | [i] => [i]
  | i :: j :: rest => if i = j then dropRepeats (j :: rest) else i :: dropRepeats (j :: rest)

/-- The members of a list in increasing order, each once. -/
def distinct (ids : List Ident) : List Ident := dropRepeats (sort ids)

end Ident

end Timetable

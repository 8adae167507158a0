import Timetable.Ident

namespace Timetable

/-- A set of service ids, in increasing order without repetition. -/
structure ServiceSet where
  ids : List Ident
  deriving DecidableEq, Repr, Inhabited

namespace ServiceSet

def ofList (ids : List Ident) : ServiceSet := ⟨Ident.distinct ids⟩

def single (id : Ident) : ServiceSet := ⟨[id]⟩

/-- Whether an increasing list holds `id`, looking in the half that may hold it. -/
def search (id : Ident) (ids : List Ident) : Bool :=
  match _h : ids.drop (ids.length / 2) with
  | [] => false
  | middle :: upper =>
    match compare id middle with
    | .eq => true
    | .lt => search id (ids.take (ids.length / 2))
    | .gt => search id upper
termination_by ids.length
decreasing_by
  · have := congrArg List.length _h
    simp only [List.length_drop, List.length_cons, List.length_take] at this ⊢
    omega
  · have := congrArg List.length _h
    simp only [List.length_drop, List.length_cons] at this ⊢
    omega

def contains (s : ServiceSet) (id : Ident) : Bool := search id s.ids

/-- Member by member, a set before those that extend it. -/
instance : Ord ServiceSet where
  compare := compareOn ids

instance : Std.TransOrd ServiceSet := inferInstanceAs (Std.TransCmp (compareOn ids))

instance : Std.LawfulEqOrd ServiceSet where
  eq_of_compare {a b} h := by
    cases a with
    | mk l =>
      cases b with
      | mk m =>
        have h' : compare l m = .eq := h
        exact congrArg ServiceSet.mk (Std.LawfulEqCmp.eq_of_compare h')

end ServiceSet

end Timetable

import Timetable.Ident
import Timetable.Table

namespace Timetable

inductive RevenueQuestion where
  | stop (stop : Ident)
  | stopOnRoute (stop route : Ident) (direction : String)
  deriving DecidableEq, Repr

/-- The keys of the routes and directions that serve each stop. -/
abbrev RevenueKeys := Table Ident (List String)

namespace RevenueKeys

def key (route : Ident) (direction : String) : String := route.text ++ "_" ++ direction

def answer (keys : RevenueKeys) : RevenueQuestion → Bool
  | .stop stop => keys.isEmpty || keys.contains stop
  | .stopOnRoute stop route direction =>
    keys.isEmpty ||
      match keys[stop]? with
      | some ks => ks.contains (key route direction)
      | none => false

end RevenueKeys

/-- Keys and the answers given from them so far. -/
structure RevenueIndex where
  keys : RevenueKeys
  remembered : List (RevenueQuestion × Bool)

namespace RevenueIndex

def load (keys : RevenueKeys) : RevenueIndex := { keys, remembered := [] }

instance : Inhabited RevenueIndex := ⟨load ∅⟩

/-- Answers a question, from memory if it was asked before. -/
def ask (i : RevenueIndex) (q : RevenueQuestion) : RevenueIndex × Bool :=
  match i.remembered.lookup q with
  | some a => (i, a)
  | none =>
    let a := i.keys.answer q
    ({ i with remembered := (q, a) :: i.remembered }, a)

end RevenueIndex

end Timetable

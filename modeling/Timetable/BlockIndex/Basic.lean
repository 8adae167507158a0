import Timetable.Block.StopIndex
import Timetable.Schedule.Basic

namespace Timetable

variable {R : Type}

/-- An index belongs to one version of a schedule and is never patched. -/
structure BlockIndex (R : Type) where
  version : Nat
  /-- The configurations of all blocks, in the order of the block ids. -/
  all : List (Configuration R)
  byAgency : Table String (List (Configuration R))
  byCollection : Table Ident (List (Configuration R))
  byBlock : Table Ident (List (Configuration R))
  byStop : Table Ident (List (StopIndex R))

namespace BlockIndex

/-- The collection of a stored route; a route that is not stored is its own collection. -/
def collectionOf (routes : Table Ident Route) (route : Ident) : Ident :=
  match routes[route]? with
  | some r => r.collection
  | none => route

def collectionsOf (routes : Table Ident Route) (c : Configuration R) : List Ident :=
  Ident.distinct (c.routes.map (collectionOf routes))

variable [Zero R] [Add R]

def build (g : Schedule R) : BlockIndex R :=
  let all := g.blocks.values.flatMap (·.configurations)
  { version := g.version
    all
    byAgency := Table.group (fun c => [c.block.agency]) all
    byCollection := Table.group (collectionsOf g.routes) all
    byBlock := Table.group (fun c => [c.block]) all
    byStop := StopIndex.ofConfigurations all }

/-- An index of the schedule's version: the given one if it is, else a new one. -/
def refresh (i : BlockIndex R) (g : Schedule R) : BlockIndex R :=
  if i.version = g.version then i else build g

end BlockIndex

inductive IndexQuery where
  | all
  | agency (id : String)
  | collection (id : Ident)
  | block (id : Ident)
  deriving DecidableEq, Repr

namespace BlockIndex

def configurations (i : BlockIndex R) : IndexQuery → List (Configuration R)
  | .all => i.all
  | .agency id => i.byAgency.listAt id
  | .collection id => i.byCollection.listAt id
  | .block id => i.byBlock.listAt id

def departures (i : BlockIndex R) (stop : Ident) : List (StopIndex R) := i.byStop.listAt stop

end BlockIndex

end Timetable

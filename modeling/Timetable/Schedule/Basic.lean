import Timetable.Block.Basic
import Timetable.Fault
import Timetable.Shape
import Timetable.Table

namespace Timetable

structure Agency where
  id : String
  timezone : String
  /-- The route collections of the agency, in the order in which they came up. -/
  collections : List Ident
  deriving DecidableEq, Repr, Inhabited

/-- A stop and its place among the stops. -/
structure Stop (R : Type) where
  id : Ident
  location : Location R
  index : Nat
  deriving Repr, Inhabited

/-- A route variant; riders see the collection that it belongs to. -/
structure Route where
  id : Ident
  collection : Ident
  trips : List Ident
  deriving DecidableEq, Repr, Inhabited

structure RouteCollection where
  id : Ident
  routes : List Ident
  deriving DecidableEq, Repr, Inhabited

structure CollectionNarrative where
  shortName : Option String := none
  longName : Option String := none
  color : Option String := none
  deriving DecidableEq, Repr, Inhabited

/-- The version counts the changes after which what is derived from the trips may be out of date. -/
structure Schedule (R : Type) where
  agencies : List Agency
  stops : Table Ident (Stop R)
  routes : Table Ident Route
  collections : Table Ident RouteCollection
  trips : Table Ident (Trip R)
  blocks : Table Ident (Block R)
  shapes : Table Ident (Shape R)
  tripNarratives : Table Ident TripNarrative
  stopNames : Table Ident String
  collectionNarratives : Table Ident CollectionNarrative
  version : Nat

namespace Schedule

variable {R : Type}

def empty : Schedule R :=
  { agencies := [], stops := ∅, routes := ∅, collections := ∅, trips := ∅, blocks := ∅, shapes := ∅
    tripNarratives := ∅, stopNames := ∅, collectionNarratives := ∅, version := 0 }

instance : Inhabited (Schedule R) := ⟨empty⟩

/-- Counts a change. -/
def bump (g : Schedule R) : Schedule R := { g with version := g.version + 1 }

def agency? (g : Schedule R) (id : String) : Option Agency := g.agencies.find? fun a => a.id = id

def hasAgency (g : Schedule R) (id : String) : Bool := (g.agency? id).isSome

def agencyIds (g : Schedule R) : List String := g.agencies.map (·.id)

/-- Registers an agency, unless its id is taken. -/
def addAgency (g : Schedule R) (id timezone : String) : Schedule R × Bool :=
  if g.hasAgency id then (g, false)
  else ({ g with agencies := g.agencies ++ [{ id, timezone, collections := [] }] }, true)

/-- Lists a route collection under the agency of its id, once. -/
def linkCollection (g : Schedule R) (collection : Ident) : Schedule R :=
  { g with
    agencies := g.agencies.map fun a =>
      if a.id = collection.agency ∧ collection ∉ a.collections then
        { a with collections := a.collections ++ [collection] }
      else a }

def narrateTrip (g : Schedule R) (id : Ident) (n : TripNarrative) : Schedule R :=
  { g with tripNarratives := g.tripNarratives.insert id n }

def nameStop (g : Schedule R) (id : Ident) (name : String) : Schedule R :=
  { g with stopNames := g.stopNames.insert id name }

def narrateCollection (g : Schedule R) (id : Ident) (n : CollectionNarrative) : Schedule R :=
  { g with collectionNarratives := g.collectionNarratives.insert id n }

end Schedule

end Timetable

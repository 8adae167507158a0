import Timetable.BlockIndex.Basic
import Timetable.Calendar.Date
import Timetable.View

namespace Timetable

variable {R : Type}

/-- A configuration that runs on a date, with what riders are told about its trips. -/
structure BlockRun (R : Type) where
  configuration : Configuration R
  date : Date
  narratives : Table Ident TripNarrative

structure Dynamic (R : Type) where
  runs : Table Ident (BlockRun R)
  trips : Table Ident (Trip R)
  blocks : Table Ident (Block R)
  routes : Table Ident Route
  narratives : Table Ident TripNarrative
  byCollection : Table Ident (List (Configuration R))
  byBlock : Table Ident (List (Configuration R))
  byStop : Table Ident (List (StopIndex R))

namespace Dynamic

def empty : Dynamic R :=
  { runs := ∅, trips := ∅, blocks := ∅, routes := ∅, narratives := ∅
    byCollection := ∅, byBlock := ∅, byStop := ∅ }

instance : Inhabited (Dynamic R) := ⟨empty⟩

def view (d : Dynamic R) : View R :=
  { trip? := fun id => d.trips[id]?
    block? := fun id => d.blocks[id]?
    route? := fun id => d.routes[id]?
    stop? := fun _ => none
    shape? := fun _ => none
    narrative? := fun id => d.narratives[id]?
    agencies := [] }

/-- Lists a trip under its route, once; a new route is filed under the given collection. -/
def addToRoute (routes : Table Ident Route) (route collection trip : Ident) : Table Ident Route :=
  let r := routes[route]?.getD { id := route, collection, trips := [] }
  routes.insert route (if trip ∈ r.trips then r else { r with trips := r.trips ++ [trip] })

/-- Puts a configuration at the end of the list under a key, in place of those of its block. -/
def relist (t : Table Ident (List (Configuration R))) (key : Ident) (c : Configuration R) :
    Table Ident (List (Configuration R)) :=
  t.insert key ((t.listAt key).filter (fun d => d.block ≠ c.block) ++ [c])

/-- Registers one trip of a running block. `routes` are those of the schedule. -/
def registerTrip (routes : Table Ident Route) (run : BlockRun R) (d : Dynamic R) (t : Trip R) :
    Dynamic R :=
  let collection := BlockIndex.collectionOf routes t.route
  { d with
    trips := d.trips.insert t.id t
    routes := addToRoute d.routes t.route collection t.id
    byCollection := relist d.byCollection collection run.configuration
    narratives := d.narratives.insert t.id (run.narratives[t.id]?.getD {}) }

/-- Adds stop indices to those of a stop, leaving out every index whose earliest trip is already
the earliest of another. -/
def addDepartures (present new : List (StopIndex R)) : List (StopIndex R) :=
  new.foldl (fun is i =>
    if is.any fun j => j.firstTrip? = i.firstTrip? then is else is ++ [i]) present

/-- Registers a block that runs on a date. Its stops keep the indices that they have. -/
def register [Zero R] [Add R] (g : Schedule R) (d : Dynamic R) (run : BlockRun R) : Dynamic R :=
  let c := run.configuration
  let d := c.members.foldl (registerTrip g.routes run)
    { d with runs := d.runs.insert c.block run }
  let byStop := (StopIndex.ofConfigurations [c]).toList.foldl
    (fun t e => t.insert e.1 (addDepartures (t.listAt e.1) e.2)) d.byStop
  { d with
    blocks := d.blocks.insert c.block { id := c.block, configurations := [c] }
    byBlock := d.byBlock.insert c.block [c]
    byStop }

/-- The departures from a stop; none when nothing was ever registered there. -/
def departures? (d : Dynamic R) (stop : Ident) : Option (List (StopIndex R)) := d.byStop[stop]?

end Dynamic

end Timetable

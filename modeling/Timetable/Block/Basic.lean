import Timetable.Block.Configuration

namespace Timetable

variable {R : Type}

/-- The configurations that share a block id. -/
structure Block (R : Type) where
  id : Ident
  configurations : List (Configuration R)
  deriving Repr, Inhabited

namespace Configuration

variable [Zero R]

/-- The trips, in running order. -/
def members (c : Configuration R) : List (Trip R) := c.legs.map (·.trip)

def ofTrip (t : Trip R) : Configuration R :=
  { block := t.block, services := .single t.service, legs := [⟨t, 0⟩] }

def adding (c : Configuration R) (t : Trip R) : Configuration R :=
  (c.withTrips? (c.members ++ [t])).getD c

/-- The configuration without the trips of an id, if trips are left. -/
def removing? (c : Configuration R) (trip : Ident) : Option (Configuration R) :=
  c.withTrips? (c.members.filter fun t => t.id ≠ trip)

def replacing (c : Configuration R) (t : Trip R) : Configuration R :=
  (c.withTrips? (c.members.map fun s => if s.id = t.id then t else s)).getD c

end Configuration

namespace Block

variable [Zero R]

def ofTrip (t : Trip R) : Block R := { id := t.block, configurations := [.ofTrip t] }

def tripIds (b : Block R) : List Ident :=
  b.configurations.flatMap fun c => c.legs.map (·.trip.id)

/-- Adds a trip to every configuration under its service; when there is none the trip forms a new
one. -/
def join (b : Block R) (t : Trip R) : Block R :=
  if b.configurations.any fun c => c.services.contains t.service then
    { b with
      configurations := b.configurations.map fun c =>
        if c.services.contains t.service then c.adding t else c }
  else { b with configurations := b.configurations ++ [.ofTrip t] }

/-- Removes the trips of an id; configurations left without trips go, and so does a block left
without configurations. -/
def leave? (b : Block R) (trip : Ident) : Option (Block R) :=
  match b.configurations.filterMap fun c => if c.hasTrip trip then c.removing? trip else some c with
  | [] => none
  | cs => some { b with configurations := cs }

def replace (b : Block R) (t : Trip R) : Block R :=
  { b with
    configurations := b.configurations.map fun c =>
      if c.hasTrip t.id then c.replacing t else c }

end Block

end Timetable

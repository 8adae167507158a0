import Timetable.Schedule.Routes

namespace Timetable.Schedule

variable {R : Type}

/-- What a trip must have to be stored: calls, a known agency, and a route that is stored or can be
made. -/
def validate (g : Schedule R) (t : Trip R) : Except Fault Unit :=
  if t.calls.isEmpty then .error (.emptyTrip t.id)
  else if !g.hasAgency t.id.agency then .error (.unknownAgency t.id.agency)
  else if !g.routes.contains t.route && !g.hasAgency t.route.agency then
    .error (.unknownAgency t.route.agency)
  else .ok ()

section Blocks

variable [Zero R]

/-- Adds a trip to its block, which comes up with its first trip. -/
def attach (g : Schedule R) (t : Trip R) : Schedule R :=
  let block := match g.blocks[t.block]? with
    | some b => b.join t
    | none => .ofTrip t
  { g with blocks := g.blocks.insert t.block block }

/-- Takes a trip out of its block, which goes with its last trip. -/
def detach (g : Schedule R) (t : Trip R) : Schedule R :=
  match g.blocks[t.block]? with
  | none => g
  | some b =>
    match b.leave? t.id with
    | some b => { g with blocks := g.blocks.insert t.block b }
    | none => { g with blocks := g.blocks.erase t.block }

def reattach (g : Schedule R) (t : Trip R) : Schedule R :=
  { g with blocks := g.blocks.adjust t.block (·.replace t) }

end Blocks

/-- Makes sure that the route of a trip is stored, filing a new one under a collection of its own
name. -/
def ensureRoute (g : Schedule R) (route : Ident) : Schedule R × Except Fault Unit :=
  if g.routes.contains route then (g, .ok ())
  else
    match g.addRoute route route with
    | (g, .ok _) => (g, .ok ())
    | (g, .error e) => (g, .error e)

variable [Zero R]

/-- Stores a trip under its route and in its block, unless its id is taken. -/
def addTrip (g : Schedule R) (t : Trip R) (n : Option TripNarrative) :
    Schedule R × Except Fault Bool :=
  match g.validate t with
  | .error e => (g, .error e)
  | .ok () =>
    if g.trips.contains t.id then (g, .ok false)
    else
      match ensureRoute { g with trips := g.trips.insert t.id t } t.route with
      | (g, .error e) => (g, .error e)
      | (g, .ok ()) =>
        let g := (g.editRouteTrips t.route (· ++ [t.id])).attach t
        let g := match n with
          | some n => g.narrateTrip t.id n
          | none => g
        (g.bump, .ok true)

def deleteTrip (g : Schedule R) (id : Ident) : Schedule R × Bool :=
  match g.trips[id]? with
  | none => (g, false)
  | some t =>
    let g := detach { g with trips := g.trips.erase id } t
    let g := g.editRouteTrips t.route (·.filter (· ≠ id))
    (bump { g with tripNarratives := g.tripNarratives.erase id }, true)

/-- Replaces a trip wholesale; it is checked before the old one goes. -/
def updateTrip (g : Schedule R) (t : Trip R) (n : Option TripNarrative) :
    Schedule R × Except Fault Bool :=
  match g.validate t with
  | .error e => (g, .error e)
  | .ok () => (g.deleteTrip t.id).1.addTrip t n

/-- Stores the version of a trip that `f` makes, unless the trip is unknown or `f` declines. -/
def editTrip (g : Schedule R) (id : Ident) (f : Trip R → Option (Trip R)) : Schedule R × Bool :=
  match g.trips[id]? with
  | none => (g, false)
  | some t =>
    match f t with
    | none => (g, false)
    | some t => (reattach { g with trips := g.trips.insert id t } t, true)

/-- Points a trip at another shape, or at none. What is derived from calls stays valid. -/
def setTripShape (g : Schedule R) (trip : Ident) (shape : Option Ident) : Schedule R × Bool :=
  g.editTrip trip fun t => some { t with shape }

end Timetable.Schedule

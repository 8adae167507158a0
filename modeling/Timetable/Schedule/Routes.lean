import Timetable.Schedule.Basic

namespace Timetable.Schedule

variable {R : Type}

/-- Files a route under its collection, making the collection if it is new. -/
def fileRoute (g : Schedule R) (route collection : Ident) : Schedule R :=
  let g := { g with
    routes := g.routes.insert route { id := route, collection, trips := [] } }
  match g.collections[collection]? with
  | some c =>
    { g with
      collections := g.collections.insert collection { c with routes := c.routes ++ [route] } }
  | none =>
    let made : RouteCollection := { id := collection, routes := [route] }
    linkCollection { g with collections := g.collections.insert collection made } collection

/-- Registers a route, unless its id is taken. The agency of the collection has to be known. -/
def addRoute (g : Schedule R) (route collection : Ident) : Schedule R × Except Fault Bool :=
  if !g.hasAgency collection.agency then (g, .error (.unknownAgency collection.agency))
  else if g.routes.contains route then (g, .ok false)
  else (g.fileRoute route collection, .ok true)

def editRouteTrips (g : Schedule R) (route : Ident) (f : List Ident → List Ident) : Schedule R :=
  { g with routes := g.routes.adjust route fun r => { r with trips := f r.trips } }

end Timetable.Schedule

import Timetable.View

namespace Timetable

inductive EntityKind where
  | trip
  | stop
  /-- Resolves to the collection of the route. -/
  | route
  | shape
  | service
  deriving DecidableEq, Repr

structure Resolver (R : Type) where
  view : View R
  /-- Whether a service is known and runs at all. -/
  hasDates : Ident → Bool
  /-- The configured candidates; when there are none every known agency is one. -/
  configured : List String

namespace Resolver

variable {R : Type}

def candidates (r : Resolver R) : List String :=
  if r.configured.isEmpty then r.view.agencies else r.configured

/-- The first candidate, or the empty agency id when there is none. -/
def defaultAgency (r : Resolver R) : String := r.candidates.head?.getD ""

def lookup (r : Resolver R) (kind : EntityKind) (id : Ident) : Option Ident :=
  match kind with
  | .trip => (r.view.trip? id).map fun _ => id
  | .stop => (r.view.stop? id).map fun _ => id
  | .route => (r.view.route? id).map (·.collection)
  | .shape => (r.view.shape? id).map fun _ => id
  | .service => if r.hasDates id then some id else none

/-- The entity under the first candidate agency that has one of the bare id. -/
def underCandidate (r : Resolver R) (kind : EntityKind) (bare : String) : Option Ident :=
  r.candidates.findSome? fun agency => r.lookup kind ⟨agency, bare⟩

/-- The entity that the bare id names as a written identifier; services are not named so. -/
def asWritten (r : Resolver R) (kind : EntityKind) (bare : String) : Option Ident :=
  if kind = .service then none else (Ident.parse? bare).bind (r.lookup kind)

def resolve (r : Resolver R) (kind : EntityKind) (bare : String) : Ident :=
  ((r.underCandidate kind bare).or (r.asWritten kind bare)).getD ⟨r.defaultAgency, bare⟩

end Resolver

end Timetable

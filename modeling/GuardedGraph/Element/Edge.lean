import GuardedGraph.Element.Type
import GuardedGraph.Visibility.Basic

/-!
Edges as they are kept: endpoints on the edge, and a reference at each endpoint.
-/

namespace GuardedGraph

/-- What of an edge never changes. -/
structure Endpoints where
  label : String
  source : String
  target : String
  deriving DecidableEq

namespace Endpoints

def other? (e : Endpoints) (known : String) : Option String :=
  if known = e.source then some e.target else if known = e.target then some e.source else none

def toList (e : Endpoints) : List String := [e.source, e.target]

end Endpoints

/-- An incident edge as its vertex keeps it, with a copy of the visibility and markers of the edge. -/
structure EdgeRef where
  edge : String
  label : String
  other : String
  direction : Direction
  visibility : Visibility
  hidden : List Visibility
  deriving DecidableEq

namespace EdgeRef

def visibleTo (r : EdgeRef) (a : Authorizations) : Bool := a.sees r.visibility r.hidden

/-- Whether a query by direction and labels selects the edge; no labels select every label. -/
def selected (d : Direction) (labels : List String) (r : EdgeRef) : Bool :=
  d.includes r.direction && (labels.isEmpty || labels.contains r.label)

end EdgeRef

/-- The edges of references, each once, in the order of their first reference. -/
def edgeIds (refs : List EdgeRef) : List String := (refs.map (·.edge)).eraseDups

end GuardedGraph

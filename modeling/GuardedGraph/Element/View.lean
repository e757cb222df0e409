import GuardedGraph.Element.Edge
import GuardedGraph.Element.Property

/-!
Elements, and the views of them that readers get: vertices with the references of their edges, edges
with their endpoints.
-/

namespace GuardedGraph

/-- What vertices and edges have in common. -/
structure Element where
  id : String
  visibility : Visibility
  properties : List Property
  hidden : List Visibility

def Element.bare (id : String) (visibility : Visibility) : Element := ⟨id, visibility, [], []⟩

/-- What sets the two kinds of elements apart. -/
def Links : ElementType → Type
  | .vertex => List EdgeRef
  | .edge => Endpoints

structure View (t : ElementType) where
  element : Element
  links : Links t

abbrev Vertex := View .vertex

abbrev Edge := View .edge

namespace View

variable {t : ElementType}

def id (v : View t) : String := v.element.id

def properties (v : View t) : List Property := v.element.properties

def named (v : View t) (name : String) : List Property := v.properties.filter (·.name == name)

def property? (v : View t) (key name : String) : Option Property := v.properties.find? (·.named key name)

def values (v : View t) (name : String) : List Value := (v.named name).map (·.value)

def value? (v : View t) (name : String) : Option Value := (v.values name).head?

end View

namespace Vertex

def edgeRefs (v : Vertex) : List EdgeRef := v.links

/-- The incident edges in a direction, each once. -/
def edgeIds (v : Vertex) (d : Direction) : List String :=
  GuardedGraph.edgeIds (v.edgeRefs.filter fun r => d.includes r.direction)

end Vertex

namespace Edge

def endpoints (e : Edge) : Endpoints := e.links

/-- The endpoint in a direction, which has to be one. -/
def endpointId (e : Edge) (d : Direction) : Except Error String :=
  match d with
  | .outgoing => .ok e.endpoints.source
  | .incoming => .ok e.endpoints.target
  | .both => .error (.invalid .bothEndpoints)

def otherId? (e : Edge) (known : String) : Option String := e.endpoints.other? known

end Edge

end GuardedGraph

/-!
The two kinds of elements, and the directions of an edge at a vertex.
-/

namespace GuardedGraph

inductive ElementType
  | vertex
  | edge
  deriving DecidableEq, Repr

def ElementType.name : ElementType → String
  | .vertex => "vertex"
  | .edge => "edge"

structure PerType (α : Type) where
  vertices : α
  edges : α
  deriving DecidableEq

namespace PerType

variable {α : Type}

def get (p : PerType α) : ElementType → α
  | .vertex => p.vertices
  | .edge => p.edges

def update (p : PerType α) : ElementType → (α → α) → PerType α
  | .vertex, f => { p with vertices := f p.vertices }
  | .edge, f => { p with edges := f p.edges }

@[simp] theorem get_update (p : PerType α) (t u : ElementType) (f : α → α) :
    (p.update t f).get u = if t = u then f (p.get u) else p.get u := by cases t <;> cases u <;> rfl

end PerType

/-- Seen from a vertex: an edge that leaves it, one that enters it, or (in queries) either. -/
inductive Direction
  | outgoing
  | incoming
  | both
  deriving DecidableEq, Repr

namespace Direction

def reverse : Direction → Direction
  | .outgoing => .incoming
  | .incoming => .outgoing
  | .both => .both

def includes (d stored : Direction) : Bool := d == .both || d == stored

@[simp] theorem reverse_reverse (d : Direction) : d.reverse.reverse = d := by cases d <;> rfl

end Direction

end GuardedGraph

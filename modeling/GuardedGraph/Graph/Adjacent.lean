import GuardedGraph.Graph.Read

/-!
From vertices to edges and on to other vertices. A vertex that a reader holds tells which edges to look
for; what the reader sees of them is found anew.
-/

namespace GuardedGraph

open Store (Backend)

def othersAcross (vertex : String) (edges : List Edge) : List String :=
  (edges.filterMap (·.otherId? vertex)).eraseDups

namespace Graph

variable {σ : Type} [Backend σ]

/-- The edges at a vertex by direction and labels; no labels stand for every label. -/
def edgesOf (g : Graph σ) (v : Vertex) (d : Direction) (labels : List String) (a : Authorizations) :
    Except Error (List Edge) :=
  g.fetchAll .edge (edgeIds (v.edgeRefs.filter (·.selected d labels))) a

def edgesTo (g : Graph σ) (v : Vertex) (other : String) (d : Direction) (a : Authorizations) :
    Except Error (List Edge) :=
  g.fetchAll .edge (edgeIds (v.edgeRefs.filter fun r => r.selected d [] && r.other == other)) a

def neighbours (g : Graph σ) (v : Vertex) (d : Direction) (a : Authorizations) : Except Error (List Vertex) := do
  g.fetchAll .vertex (othersAcross v.id (← g.edgesOf v d [] a)) a

def endpoint (g : Graph σ) (e : Edge) (d : Direction) (a : Authorizations) : Except Error (Option Vertex) := do
  g.get? .vertex (← e.endpointId d) a

def other (g : Graph σ) (e : Edge) (known : String) (a : Authorizations) : Except Error (Option Vertex) :=
  match e.otherId? known with
  | some id => g.get? .vertex id a
  | none => .ok none

end Graph

end GuardedGraph

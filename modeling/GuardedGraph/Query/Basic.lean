import GuardedGraph.Graph.Adjacent
import GuardedGraph.Query.Predicate

/-!
Queries: where candidates come from, which of them are kept, and which page of those is given.
-/

namespace GuardedGraph

open Store (Backend Cursor)

namespace Query

inductive Source
  | everything
  /-- The elements found under the terms of a text. -/
  | text (text : String)
  /-- The edges at a vertex, or the vertices next to it. -/
  | around (vertex : Vertex)

end Query

/-- A query of one reader. Direction and labels choose among the edges at a vertex, and labels among all
edges; no labels stand for every label. -/
structure Query where
  reader : Authorizations
  source : Query.Source
  predicates : List Predicate
  direction : Direction
  labels : List String
  skip : Nat
  limit : Option Nat

namespace Query

def ofSource (source : Source) (reader : Authorizations) : Query := ⟨reader, source, [], .both, [], 0, none⟩

def having (q : Query) (p : Predicate) : Query := { q with predicates := q.predicates ++ [p] }

/-! ### What is kept -/

/-- Whether the label of an edge is one of the query's; vertices have none. -/
def labelFits (q : Query) : {t : ElementType} → View t → Bool
  | .vertex, _ => true
  | .edge, e => q.labels.isEmpty || q.labels.contains e.links.label

/-- Whether every term occurs in the strings among the visible values. An index may know more strings
than the reader sees. -/
def showsTerms {t : ElementType} (terms : List String) (v : View t) : Bool :=
  terms.all fun term => v.properties.any fun p => p.value.text?.any fun text => (Search.terms text).contains term

def terms (q : Query) : List String :=
  match q.source with
  | .text text => Search.terms text
  | _ => []

def keeps {t : ElementType} (q : Query) (v : View t) : Bool :=
  q.labelFits v && showsTerms q.terms v && q.predicates.all (·.metBy v)

/-! ### Where candidates come from -/

def followed (q : Query) (v : Vertex) : List EdgeRef :=
  v.edgeRefs.filter fun r => r.selected q.direction q.labels && r.visibleTo q.reader

variable {σ : Type} [Backend σ]

def candidates (g : Graph σ) (t : ElementType) (q : Query) : Except Error Cursor :=
  match q.source with
  | .everything => Backend.scan g.store (.all t)
  | .text text =>
    match g.index with
    | some index => Backend.fetch g.store t (index.search t text)
    | none => .error (.invalid .noIndex)
  | .around v =>
    match t with
    | .edge => Backend.fetch g.store .edge (edgeIds (q.followed v))
    | .vertex => do
      let edges ← g.fetchAll .edge (edgeIds (q.followed v)) q.reader
      Backend.fetch g.store .vertex (othersAcross v.id edges)

/-- The results of a query, if all its conditions make sense. -/
def run (g : Graph σ) (t : ElementType) (q : Query) : Except Error (Results t) := do
  q.predicates.forM fun p => p.check (g.kinds.get? p.name)
  return ⟨← q.candidates g t, q.reader, q.keeps, q.skip, q.limit⟩

end Query

end GuardedGraph

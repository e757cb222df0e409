import GuardedGraph.Graph.Basic
import GuardedGraph.Query.Results

/-!
Reading elements. What a reader may not see is absent, as if it were not stored.
-/

namespace GuardedGraph.Graph

open Store (Backend)

variable {σ : Type} [Backend σ]

/-- The stored records of a kind of element, as a cursor finds them. -/
def found (g : Graph σ) (t : ElementType) : String → Option Record := Backend.found g.store t

def kept (g : Graph σ) (key : String) : Except Error (Option ByteArray) := Backend.kept g.store key

/-- What a reader sees of an element. -/
def get? (g : Graph σ) (t : ElementType) (id : String) (a : Authorizations) : Except Error (Option (View t)) := do
  match ← Backend.get g.store t id with
  | some record => record.view? t a
  | none => return none

def scan (g : Graph σ) (t : ElementType) (a : Authorizations) : Except Error (Results t) := do
  return .all (← Backend.scan g.store (.all t)) a

/-- What a reader sees of the elements of ids, in the order of the ids. -/
def fetch (g : Graph σ) (t : ElementType) (ids : List String) (a : Authorizations) : Except Error (Results t) := do
  return .all (← Backend.fetch g.store t ids) a

def collect {t : ElementType} (g : Graph σ) (r : Results t) : Except Error (List (View t)) :=
  (r.toList (g.found t)).mapM id

/-- What a reader sees of the elements of ids, unless one of them is at fault. -/
def fetchAll (g : Graph σ) (t : ElementType) (ids : List String) (a : Authorizations) :
    Except Error (List (View t)) := do
  g.collect (← g.fetch t ids a)

def idsUnder (g : Graph σ) (c : Store.Cursor) : Except Error (List String) :=
  (c.rest (g.found c.type)).mapM fun r => r.map (·.id)

end GuardedGraph.Graph

import GuardedGraph.Element.View
import GuardedGraph.Graph.Config
import GuardedGraph.Graph.Names
import GuardedGraph.Search.Index
import GuardedGraph.Store.Basic

/-!
Graphs over a store, and the steps by which they are changed. A step that fails keeps what it has done
to the store before.
-/

namespace GuardedGraph

open Store (Backend)

/-- A graph over a store of states `σ`: the store, the search index if one is attached, the kinds that
property names are declared to have, and the names that it gives by itself, with how many it has given. -/
structure Graph (σ : Type) where
  store : σ
  config : Config
  index : Option Search.Index
  kinds : Table Value.Kind
  names : Names
  minted : Nat

/-- The name that the graph gives next. -/
def Graph.nextName {σ : Type} (g : Graph σ) : String := g.names.nth g.minted

/-- A step that changes a graph, or fails. -/
abbrev Commit (σ : Type) := ExceptT Error (StateM (Graph σ))

namespace Commit

variable {σ α : Type}

def ask (call : σ → Except Error α) : Commit σ α := ExceptT.mk fun g => (call g.store, g)

/-- A change of the store, which has none when the call fails. -/
def tell (call : σ → Except Error σ) : Commit σ Unit := ExceptT.mk fun g =>
  match call g.store with
  | .ok s => (.ok (), { g with store := s })
  | .error e => (.error e, g)

/-- A change of the store that has an answer. -/
def exchange (call : σ → Except Error (α × σ)) : Commit σ α := ExceptT.mk fun g =>
  match call g.store with
  | .ok (x, s) => (.ok x, { g with store := s })
  | .error e => (.error e, g)

def lift (r : Except Error α) : Commit σ α := ExceptT.mk fun g => (r, g)

/-- A name that the graph has not given before. -/
def mint : Commit σ String := ExceptT.mk fun g => (.ok g.nextName, { g with minted := g.minted + 1 })

def config : Commit σ Config := ExceptT.mk fun g => (.ok g.config, g)

def changeIndex (f : Search.Index → Search.Index) : Commit σ Unit := ExceptT.mk fun g =>
  (.ok (), { g with index := g.index.map f })

/-! ### Records -/

variable [Backend σ]

def get (t : ElementType) (id : String) : Commit σ (Option Record) := ask (Backend.get · t id)

def put (r : Record) : Commit σ Unit := tell (Backend.put · r)

def delete (t : ElementType) (id : String) : Commit σ Bool := exchange (Backend.delete · t id)

/-- The record of an element, which has to be there. -/
def stored (t : ElementType) (id : String) : Commit σ Record := do
  match ← get t id with
  | some r => return r
  | none => throw (.absent (.element t id))

/-- Changes the references of the edges at a vertex; tells whether there is such a vertex. -/
def changeRefs (vertex : String) (f : List EdgeRef → List EdgeRef) : Commit σ Bool := do
  match ← get .vertex vertex with
  | none => return false
  | some r =>
    put { r with edgeRefs := f r.edgeRefs }
    return true

/-- Changes the references of one edge at both its endpoints. -/
def changeRefsOf (edge : String) (endpoints : Endpoints) (f : EdgeRef → EdgeRef) : Commit σ Unit :=
  endpoints.toList.forM fun vertex => do
    let _ ← changeRefs vertex fun refs => refs.map fun r => if r.edge = edge then f r else r

end Commit

namespace Graph

variable {σ : Type}

def ofStore (store : σ) (config : Config) (index : Option Search.Index) (names : Names := .counted) : Graph σ :=
  ⟨store, config, index, .empty, names, 0⟩

def declare (g : Graph σ) (name : String) (kind : Value.Kind) : Graph σ :=
  { g with kinds := g.kinds.insert name kind }

end Graph

end GuardedGraph

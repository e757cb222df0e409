import GuardedGraph.Element.Change
import GuardedGraph.Graph.Remove

/-!
Saving elements: new ones from drafts, and stored ones with changes. What a save gives back is read from
the record that it has written.
-/

namespace GuardedGraph

open Store (Backend)

/-- An element that is not stored yet; without an id it gets one when it is. -/
structure Draft where
  id : Option String
  visibility : Visibility
  changes : List Change

namespace Commit

variable {σ : Type} [Backend σ]

/-- The id of a new element. -/
def idFor (t : ElementType) : Option String → Commit σ String
  | some id => if id = "" then throw (.invalid (.emptyId t)) else return id
  | none => return (← config).idPrefix.getD "" ++ (← mint)

def realize (t : ElementType) (d : Draft) (endpoints : Option Endpoints) (a : Authorizations) : Commit σ Whole := do
  lift (a.require (.created t) d.visibility)
  let id ← idFor t d.id
  let element ← lift ((Element.bare id d.visibility).apply a d.changes)
  return ⟨t, element, endpoints, []⟩

def insert (w : Whole) : Commit σ Record := do
  if (← get w.type w.element.id).isSome then throw (.taken w.type w.element.id)
  let w ← settleAll [] w
  put w.encode
  indexTexts w
  return w.encode

def viewOf (t : ElementType) (r : Record) (a : Authorizations) : Commit σ (View t) := do
  match ← lift (r.view? t a) with
  | some v => return v
  | none => throw (.absent (.element t r.id))

def addVertex (d : Draft) (a : Authorizations) : Commit σ Vertex := do
  let record ← insert (← realize .vertex d none a)
  viewOf .vertex record a

/-- Both endpoints of a new edge have to be visible to the writer. -/
def requireVertex (id : String) (a : Authorizations) : Commit σ Unit := do
  if let some record ← get .vertex id then
    if (← lift (record.view? .vertex a)).isSome then return
  throw (.absent (.element .vertex id))

/-- Adds the reference of a new edge at one of its endpoints. An edge whose endpoint is gone goes too. -/
def attach (record : Record) (vertex label other : String) (d : Direction) : Commit σ Unit := do
  let attached ← changeRefs vertex fun refs => refs ++ [⟨record.id, label, other, d, record.visibility, []⟩]
  if !attached then
    deleteEdge record.id none
    throw (.absent (.element .vertex vertex))

def addEdge (d : Draft) (endpoints : Endpoints) (a : Authorizations) : Commit σ Edge := do
  if endpoints.label = "" then throw (.invalid .emptyLabel)
  endpoints.toList.forM (requireVertex · a)
  let record ← insert (← realize .edge d (some endpoints) a)
  attach record endpoints.source endpoints.label endpoints.target .outgoing
  attach record endpoints.target endpoints.label endpoints.source .incoming
  viewOf .edge record a

def save (t : ElementType) (id : String) (changes : List Change) (a : Authorizations) : Commit σ (View t) := do
  let record ← stored t id
  lift (record.requireWritable a)
  let before ← lift record.whole
  let element ← lift (before.element.apply a changes)
  let after ← settleAll before.keptKeys { before with element }
  put after.encode
  discardAll (before.keptKeys.filter fun key => !after.keptKeys.contains key)
  if before.element.visibility ≠ after.element.visibility then
    after.endpoints.forM fun endpoints =>
      changeRefsOf id endpoints fun r => { r with visibility := after.element.visibility }
  indexTexts after
  viewOf t after.encode a

end Commit

end GuardedGraph

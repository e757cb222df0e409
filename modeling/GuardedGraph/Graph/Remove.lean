import GuardedGraph.Graph.Content

/-!
Removing elements. A vertex goes with its edges, and nothing goes unless the writer can read all of them.
-/

namespace GuardedGraph

open Store (Backend)

/-- An element may be changed only by a writer that can read it and that it is not hidden from. -/
def Record.requireWritable (a : Authorizations) (r : Record) : Except Error Unit :=
  if !r.visibility.readableBy a then .error (.denied (.unreadable r.type r.id a))
  else if Visibility.anyReadableBy r.hidden a then .error (.absent (.element r.type r.id))
  else .ok ()

namespace Commit

variable {σ : Type} [Backend σ]

/-- Deletes a record that may be gone already; gives the record that was there. -/
def take (t : ElementType) (id : String) : Commit σ (Option Record) := do
  let found ← get t id
  if found.isSome then
    let _ ← delete t id
  return found

/-- Deletes an edge and its references, except at a vertex that goes as well. -/
def deleteEdge (id : String) (exceptAt : Option String) : Commit σ Unit := do
  if let some record ← take .edge id then
    if let some endpoints := record.endpoints then
      endpoints.toList.forM fun vertex => do
        if exceptAt ≠ some vertex then
          let _ ← changeRefs vertex fun refs => refs.filter (·.edge ≠ id)
    forget record

def removeEdge (id : String) (a : Authorizations) : Commit σ Unit := do
  lift ((← stored .edge id).requireWritable a)
  deleteEdge id none

/-- The writer has to be able to read every edge at the vertex. -/
def requireEdges (vertex : String) (refs : List EdgeRef) (a : Authorizations) : Commit σ Unit := do
  if !refs.all (·.visibility.readableBy a) then throw (.denied (.unreadableEdge vertex a))
  (edgeIds refs).forM fun edge => do
    if let some record ← get .edge edge then
      if !record.visibility.readableBy a then throw (.denied (.unreadable .edge edge a))

def removeVertex (id : String) (a : Authorizations) : Commit σ Unit := do
  let record ← stored .vertex id
  lift (record.requireWritable a)
  requireEdges id record.edgeRefs a
  (edgeIds record.edgeRefs).forM fun edge => deleteEdge edge (some id)
  if let some record ← take .vertex id then forget record

end Commit

end GuardedGraph

import GuardedGraph.Element.Property
import GuardedGraph.Graph.Basic

/-!
Hiding whole elements from readers, and showing them again. The references of an edge carry the same
markers as the edge.
-/

namespace GuardedGraph.Commit

open Store (Backend)

variable {σ : Type} [Backend σ]

/-- Changes the markers of an element by one marker that the writer satisfies. -/
def mark (change : List Visibility → Visibility → List Visibility) (t : ElementType) (id : String)
    (marker : Visibility) (a : Authorizations) : Commit σ Unit := do
  if !marker.readableBy a then throw (.denied (.unsatisfied .marker marker a))
  let record ← stored t id
  if !record.visibility.readableBy a then throw (.denied (.unreadable t id a))
  let hidden := change record.hidden marker
  put { record with hidden }
  record.endpoints.forM fun endpoints => changeRefsOf id endpoints fun r => { r with hidden }

/-- Hides an element from those who satisfy the marker. -/
def hide (t : ElementType) (id : String) (marker : Visibility) (a : Authorizations) : Commit σ Unit :=
  mark addMarker t id marker a

/-- Takes a marker of `hide` away. -/
def unhide (t : ElementType) (id : String) (marker : Visibility) (a : Authorizations) : Commit σ Unit :=
  mark dropMarker t id marker a

end GuardedGraph.Commit

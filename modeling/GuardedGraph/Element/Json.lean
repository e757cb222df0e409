import GuardedGraph.Element.Property
import GuardedGraph.Value.Stored

/-!
Visibilities, and what they guard in an element, as JSON. A visibility is written as its text.
-/

namespace GuardedGraph

namespace Visibility

def toJson (v : Visibility) : Json := .string v.text

def ofJson? (j : Json) : Option Visibility := j.text?.bind fun s => (Visibility.ofText s).toOption

def listToJson (vs : List Visibility) : Json := .array (vs.map toJson)

def listOfJson? (limit : Nat) : Option Json → Option (List Visibility)
  | none => some []
  | some j => (j.array? limit).bind fun items => items.mapM ofJson?

end Visibility

namespace Entry

def toJson (e : Entry) : Json := .record [("value", e.value.toJson), ("visibility", e.visibility.toJson)]

end Entry

namespace Metadata

def toJson (m : Metadata) : Json :=
  .record [("entries", .record (m.entries.map fun e => (e.1, e.2.toJson)))]

def render (m : Metadata) : String := m.toJson.render

end Metadata

end GuardedGraph

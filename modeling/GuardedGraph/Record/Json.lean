import GuardedGraph.Element.Json
import GuardedGraph.Error
import GuardedGraph.Record.Basic

/-!
Records as JSON text.
-/

namespace GuardedGraph

def Json.records? {α : Type} (limit : Nat) (item? : Nat → Json → Option α) : Option Json → Option (List α)
  | none => some []
  | some j => (j.array? limit).bind fun items => items.mapM (item? (limit - 1))

namespace ElementType

def title : ElementType → String
  | .vertex => "Vertex"
  | .edge => "Edge"

def ofTitle? (s : String) : Option ElementType :=
  if s = "Vertex" then some .vertex else if s = "Edge" then some .edge else none

end ElementType

namespace Direction

def title : Direction → String
  | .outgoing => "Out"
  | .incoming => "In"
  | .both => "Both"

def ofTitle? (s : String) : Option Direction :=
  if s = "Out" then some .outgoing
  else if s = "In" then some .incoming
  else if s = "Both" then some .both
  else none

end Direction

namespace EntryRecord

def toJson (e : EntryRecord) : Json :=
  .record [("name", .string e.name), ("visibility", e.visibility.toJson), ("value", .bytes e.value)]

def ofJson? (limit : Nat) (j : Json) : Option EntryRecord := do
  match ← j.fields? limit ["name", "visibility", "value"] with
  | [some name, some visibility, some value] =>
    return ⟨← name.text?, ← Visibility.ofJson? visibility, ← value.bytes? (limit - 1)⟩
  | _ => none

end EntryRecord

namespace PropertyRecord

def toJson (p : PropertyRecord) : Json :=
  .record [("key", .string p.key), ("name", .string p.name), ("visibility", p.visibility.toJson),
    ("value", .bytes p.value), ("metadata", .array (p.metadata.map EntryRecord.toJson)),
    ("hidden_visibilities", Visibility.listToJson p.hidden)]

def ofJson? (limit : Nat) (j : Json) : Option PropertyRecord := do
  match ← j.fields? limit ["key", "name", "visibility", "value", "metadata", "hidden_visibilities"] with
  | [some key, some name, some visibility, some value, metadata, hidden] =>
    return ⟨← key.text?, ← name.text?, ← Visibility.ofJson? visibility, ← value.bytes? (limit - 1),
      ← Json.records? (limit - 1) EntryRecord.ofJson? metadata, ← Visibility.listOfJson? (limit - 1) hidden⟩
  | _ => none

end PropertyRecord

namespace Endpoints

def toJson (e : Endpoints) : Json :=
  .record [("label", .string e.label), ("out_vertex_id", .string e.source), ("in_vertex_id", .string e.target)]

def ofJson? (limit : Nat) (j : Json) : Option Endpoints := do
  match ← j.fields? limit ["label", "out_vertex_id", "in_vertex_id"] with
  | [some label, some source, some target] => return ⟨← label.text?, ← source.text?, ← target.text?⟩
  | _ => none

def optionOfJson? (limit : Nat) : Option Json → Option (Option Endpoints)
  | none => some none
  | some .null => some none
  | some j => (ofJson? limit j).map some

end Endpoints

namespace EdgeRef

def toJson (r : EdgeRef) : Json :=
  .record [("edge_id", .string r.edge), ("label", .string r.label), ("other_vertex_id", .string r.other),
    ("direction", .string r.direction.title), ("visibility", r.visibility.toJson),
    ("hidden_visibilities", Visibility.listToJson r.hidden)]

def ofJson? (limit : Nat) (j : Json) : Option EdgeRef := do
  match ← j.fields? limit
    ["edge_id", "label", "other_vertex_id", "direction", "visibility", "hidden_visibilities"] with
  | [some edge, some label, some other, some direction, some visibility, hidden] =>
    return ⟨← edge.text?, ← label.text?, ← other.text?,
      ← (direction.case? .inText (limit - 1)).bind Direction.ofTitle?, ← Visibility.ofJson? visibility,
      ← Visibility.listOfJson? (limit - 1) hidden⟩
  | _ => none

end EdgeRef

namespace Record

def toJson (r : Record) : Json :=
  .record [("element_type", .string r.type.title), ("id", .string r.id), ("visibility", r.visibility.toJson),
    ("hidden_visibilities", Visibility.listToJson r.hidden),
    ("properties", .array (r.properties.map PropertyRecord.toJson)),
    ("edge", (r.endpoints.map Endpoints.toJson).getD .null), ("edge_refs", .array (r.edgeRefs.map EdgeRef.toJson))]

def ofJson? (limit : Nat) (j : Json) : Option Record := do
  match ← j.fields? limit
    ["element_type", "id", "visibility", "hidden_visibilities", "properties", "edge", "edge_refs"] with
  | [some type, some id, some visibility, hidden, properties, edge, edgeRefs] =>
    return ⟨← (type.case? .inText (limit - 1)).bind ElementType.ofTitle?, ← id.text?,
      ← Visibility.ofJson? visibility, ← Visibility.listOfJson? (limit - 1) hidden,
      ← Json.records? (limit - 1) PropertyRecord.ofJson? properties,
      ← Endpoints.optionOfJson? (limit - 1) edge, ← Json.records? (limit - 1) EdgeRef.ofJson? edgeRefs⟩
  | _ => none

def render (r : Record) : String := r.toJson.render

def ofText (s : String) : Except Error Record :=
  match (Json.ofText? s).bind (ofJson? Json.nesting) with
  | some r => .ok r
  | none => .error .undecodable

end Record

end GuardedGraph

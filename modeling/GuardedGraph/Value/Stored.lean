import GuardedGraph.Json.Shape
import GuardedGraph.Value.Basic

/-!
Values as stored bytes: JSON with the name of the case under `type` and its content under `value`.
-/

namespace GuardedGraph

namespace Geo

def Point.toJson (p : Point) : Json :=
  .record [("latitude", .double p.latitude), ("longitude", .double p.longitude)]

def Point.ofJson? (limit : Nat) (j : Json) : Option Point := do
  match ← j.fields? limit ["latitude", "longitude"] with
  | [some lat, some lon] => return ⟨← lat.double?, ← lon.double?⟩
  | _ => none

def Shape.toJson : Shape → Json
  | .point p =>
    .record [("shape", .string "Point"), ("latitude", .double p.latitude), ("longitude", .double p.longitude)]
  | .circle c r => .record [("shape", .string "Circle"), ("center", c.toJson), ("radius_km", .double r)]
  | .rect a b => .record [("shape", .string "Rect"), ("top_left", a.toJson), ("bottom_right", b.toJson)]

def Shape.ofJson? (place : Json.Place) (limit : Nat) (j : Json) : Option Shape := do
  let (name, fields) ← j.embedded? place limit "shape" ["Point", "Circle", "Rect"]
  if name = "Point" then
    return .point (← Point.ofJson? limit fields)
  else if name = "Circle" then
    match ← fields.fields? limit ["center", "radius_km"] with
    | [some c, some r] => return .circle (← Point.ofJson? (limit - 1) c) (← r.double?)
    | _ => none
  else if name = "Rect" then
    match ← fields.fields? limit ["top_left", "bottom_right"] with
    | [some a, some b] => return .rect (← Point.ofJson? (limit - 1) a) (← Point.ofJson? (limit - 1) b)
    | _ => none
  else none

end Geo

namespace Value

def Source.toJson : Source → Json
  | .inline content => .record [("kind", .string "Inline"), ("data", .bytes content)]
  | .external key length _ =>
    .record [("kind", .string "External"), ("key", .string key), ("length", .int length)]

def Source.ofJson? (place : Json.Place) (limit : Nat) (j : Json) : Option Source := do
  let (name, fields) ← j.embedded? place limit "kind" ["Inline", "External"]
  if name = "Inline" then
    match ← fields.fields? limit ["data"] with
    | [some data] => return .inline (← data.bytes? (limit - 1))
    | _ => none
  else if name = "External" then
    match ← fields.fields? limit ["key", "length"] with
    | [some key, some length] => return .external (← key.text?) (← length.word?) false
    | _ => none
  else none

def Kind.ofJson? (place : Json.Place) (limit : Nat) (j : Json) : Option Kind :=
  (j.case? place limit).bind Kind.ofTitle?

def Stream.toJson (s : Stream) : Json :=
  .record [("value_type", .string s.kind.title), ("source", s.source.toJson)]

def Stream.ofJson? (place : Json.Place) (limit : Nat) (j : Json) : Option Stream := do
  match ← j.fields? limit ["value_type", "source"] with
  | [some kind, some source] =>
    return ⟨← Kind.ofJson? place (limit - 1) kind, ← Source.ofJson? place (limit - 1) source⟩
  | _ => none

def tagged (name : String) (content : Json) : Json := .record [("type", .string name), ("value", content)]

mutual

def toJson : Value → Json
  | .null => .record [("type", .string "Null")]
  | .bool b => tagged "Bool" (.bool b)
  | .int i => tagged "Int" (.int i.toInt)
  | .float d => tagged "Float" (.double d)
  | .string s => tagged "String" (.string s)
  | .bytes b => tagged "Bytes" (.bytes b)
  | .list items => tagged "List" (.array (itemsToJson items))
  | .date d => tagged "Date" (.string d.render)
  | .dateTime t => tagged "DateTime" (.string t.stored)
  | .geo s => tagged "Geo" s.toJson
  | .stream s => tagged "Stream" s.toJson

def itemsToJson : List Value → List Json
  | [] => []
  | v :: vs => v.toJson :: itemsToJson vs

end

/-- The names of the cases, in their order. -/
def cases : List String :=
  ["Null", "Bool", "Int", "Float", "String", "Bytes", "List", "Date", "DateTime", "Geo", "Stream"]

/-- The value of a case; `item?` reads the items of a list. -/
def ofCase? (limit : Nat) (item? : Json.Place → Json → Option Value) (c : Json.Case) : Option Value :=
  let name := c.name
  if name = "Null" then
    match c.content with
    | none => some .null
    | some .null => some .null
    | _ => none
  else
    c.content.bind fun j =>
      if name = "Bool" then j.bool?.map .bool
      else if name = "Int" then (j.integer? Int64.minValue.toInt Int64.maxValue.toInt).map fun i => .int (Int64.ofInt i)
      else if name = "Float" then j.double?.map .float
      else if name = "String" then j.text?.map .string
      else if name = "Bytes" then (j.bytes? limit).map .bytes
      else if name = "List" then (j.array? limit).bind fun items => (items.mapM (item? c.place)).map .list
      else if name = "Date" then (j.text?.bind Date.ofText?).map .date
      else if name = "DateTime" then (j.text?.bind Instant.ofText?).map .dateTime
      else if name = "Geo" then (Geo.Shape.ofJson? c.place limit j).map .geo
      else if name = "Stream" then (Stream.ofJson? c.place limit j).map .stream
      else none

/-- The value of a tree in which at most `limit` arrays and objects nest. -/
def ofJson? : Nat → Json.Place → Json → Option Value
  | 0, _, _ => none
  | 1, place, j => (j.tagged? place 1 cases).bind (ofCase? 0 fun _ _ => none)
  | limit + 2, place, j => (j.tagged? place (limit + 2) cases).bind (ofCase? (limit + 1) (ofJson? limit))

def encode (v : Value) : ByteArray := v.toJson.toByteArray

def decode (b : ByteArray) : Except Error Value :=
  match (Json.ofByteArray? b).bind (ofJson? Json.nesting .inText) with
  | some v => .ok v
  | none => .error .undecodable

end Value

end GuardedGraph

import GuardedGraph.Calendar.Text
import GuardedGraph.Geo.Containment
import GuardedGraph.Value.Stream

/-!
Property values. Values are equal (`Value.same`) when they stand for the same content: no NaN equals
anything, the zeros are equal, and it does not matter where a stream can be read.
-/

namespace GuardedGraph

inductive Value
  | null
  | bool (b : Bool)
  | int (i : Int64)
  | float (d : Double)
  | string (s : String)
  | bytes (b : ByteArray)
  | list (items : List Value)
  | date (d : Date)
  | dateTime (t : Instant)
  | geo (s : Geo.Shape)
  | stream (s : Value.Stream)

namespace Value

instance : Inhabited Value := ⟨.null⟩

/-- The kind that the value satisfies; null has none. -/
def kind? : Value → Option Kind
  | .null => none
  | .bool _ => some .boolean
  | .int _ => some .integer
  | .float _ => some .float
  | .string _ => some .string
  | .bytes _ => some .bytes
  | .list _ => some .list
  | .date _ => some .date
  | .dateTime _ => some .dateTime
  | .geo _ => some .geoShape
  | .stream _ => some .stream

def typeName (v : Value) : String := (v.kind?.map Kind.name).getD "NULL"

def family (v : Value) : Family := (v.kind?.map Kind.family).getD .unordered

def isNull : Value → Bool
  | .null => true
  | _ => false

/-! ### Contents -/

def text? : Value → Option String
  | .string s => some s
  | _ => none

def shape? : Value → Option Geo.Shape
  | .geo s => some s
  | _ => none

def stream? : Value → Option Stream
  | .stream s => some s
  | _ => none

/-- An integer, or the 64-bit integer nearest to a float without fractional part. -/
def int? : Value → Option Int64
  | .int i => some i
  | .float d => d.toInt?.map Int64.ofIntClamp
  | _ => none

/-- A number widened to a double. -/
def float? : Value → Option Double
  | .float d => some d
  | .int i => some (Double.ofInt i.toInt)
  | _ => none

/-- The value with its own stream, if it is one, attached to the store. -/
def attach : Value → Value
  | .stream s => .stream s.attach
  | v => v

/-! ### Equality -/

mutual

def same : Value → Value → Bool
  | .null, .null => true
  | .bool a, .bool b => a == b
  | .int a, .int b => a == b
  | .float a, .float b => a.numEq b
  | .string a, .string b => a == b
  | .bytes a, .bytes b => a == b
  | .list a, .list b => sameItems a b
  | .date a, .date b => a == b
  | .dateTime a, .dateTime b => a == b
  | .geo a, .geo b => a.same b
  | .stream a, .stream b => a.same b
  | _, _ => false

def sameItems : List Value → List Value → Bool
  | [], [] => true
  | a :: as, b :: bs => a.same b && sameItems as bs
  | _, _ => false

end

/-! ### Finite numbers -/

mutual

/-- Whether all numbers in the value are finite, which those of stored values are. -/
def isFinite : Value → Bool
  | .float d => d.isFinite
  | .geo s => s.isFinite
  | .list items => areFinite items
  | _ => true

def areFinite : List Value → Bool
  | [] => true
  | v :: vs => v.isFinite && areFinite vs

end

/-! ### Text -/

mutual

def render : Value → String
  | .null => "null"
  | .bool b => toString b
  | .int i => toString i.toInt
  | .float d => d.render
  | .string s => "\"" ++ String.ofList (s.toList.flatMap fun c => if c = '"' then ['\\', '"'] else [c]) ++ "\""
  | .bytes b => "<bytes[" ++ toString b.size ++ "]>"
  | .list items => "[" ++ ", ".intercalate (renderItems items) ++ "]"
  | .date d => d.render
  | .dateTime t => t.render
  | .geo s => s.render
  | .stream s => s.render

def renderItems : List Value → List String
  | [] => []
  | v :: vs => v.render :: renderItems vs

end

end Value

end GuardedGraph

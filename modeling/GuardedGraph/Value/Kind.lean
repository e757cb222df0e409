/-!
The kinds of values and the families within which values compare.
-/

namespace GuardedGraph.Value

/-- What a property may be declared to hold. -/
inductive Kind
  | boolean
  | integer
  | float
  | string
  | bytes
  | list
  | date
  | dateTime
  | geoShape
  | stream
  deriving DecidableEq, Repr

inductive Family
  | boolean
  | numeric
  | text
  | binary
  | temporal
  | spatial
  | unordered
  deriving DecidableEq, Repr

namespace Kind

def all : List Kind :=
  [.boolean, .integer, .float, .string, .bytes, .list, .date, .dateTime, .geoShape, .stream]

/-- The name in stored texts and in debug texts. -/
def title : Kind → String
  | .boolean => "Boolean"
  | .integer => "Integer"
  | .float => "Float"
  | .string => "String"
  | .bytes => "Bytes"
  | .list => "List"
  | .date => "Date"
  | .dateTime => "DateTime"
  | .geoShape => "GeoShape"
  | .stream => "Stream"

/-- The name in messages. -/
def name : Kind → String
  | .boolean => "BOOLEAN"
  | .integer => "INTEGER"
  | .float => "FLOAT"
  | .string => "STRING"
  | .bytes => "BYTES"
  | .list => "LIST"
  | .date => "DATE"
  | .dateTime => "DATETIME"
  | .geoShape => "GEOSHAPE"
  | .stream => "STREAM"

def ofTitle? (s : String) : Option Kind := all.find? (·.title == s)

theorem ofTitle?_title (k : Kind) : ofTitle? k.title = some k := by cases k <;> decide

def family : Kind → Family
  | .boolean => .boolean
  | .integer => .numeric
  | .float => .numeric
  | .string => .text
  | .bytes => .binary
  | .date => .temporal
  | .dateTime => .temporal
  | .geoShape => .spatial
  | .list => .unordered
  | .stream => .unordered

end Kind

namespace Family

def orderable (f : Family) : Bool := f ≠ .spatial ∧ f ≠ .unordered

def title : Family → String
  | .boolean => "Boolean"
  | .numeric => "Numeric"
  | .text => "Text"
  | .binary => "Binary"
  | .temporal => "Temporal"
  | .spatial => "Spatial"
  | .unordered => "Unordered"

end Family

end GuardedGraph.Value

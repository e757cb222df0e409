import GuardedGraph.Value.Basic

/-!
The order of values within a family, and the comparators of queries.
-/

namespace GuardedGraph

namespace Value

/-- The order of two values of one family, with integers compared to floats as doubles and dates to
date-times at midnight. -/
def compare? : Value → Value → Option Ordering
  | .bool a, .bool b => some (compare a b)
  | .int a, .int b => some (compare a.toInt b.toInt)
  | .float a, .float b => a.compare? b
  | .int a, .float b => (Double.ofInt a.toInt).compare? b
  | .float a, .int b => a.compare? (Double.ofInt b.toInt)
  | .string a, .string b => some (compare a b)
  | .bytes a, .bytes b => some (compare a.data.toList b.data.toList)
  | .date a, .date b => some (compare a.rank b.rank)
  | .dateTime a, .dateTime b => some (compare a.rank b.rank)
  | .date a, .dateTime b => some (compare (Instant.midnight a).rank b.rank)
  | .dateTime a, .date b => some (compare a.rank (Instant.midnight b).rank)
  | _, _ => none

/-- Equality by order where there is one, else by content. -/
def equal (a b : Value) : Bool :=
  match a.compare? b with
  | some o => o == .eq
  | none => a.same b

end Value

inductive Comparator
  | equal
  | notEqual
  | greater
  | greaterEqual
  | less
  | lessEqual
  deriving DecidableEq, Repr

namespace Comparator

/-- Whether the comparator asks for an order. -/
def ordering (c : Comparator) : Bool := c ≠ .equal ∧ c ≠ .notEqual

/-- Whether a value stands so to the target. Null stands in no relation. -/
def holds (c : Comparator) (value target : Value) : Bool :=
  if value.isNull || target.isNull then false
  else
    match c with
    | .equal => value.equal target
    | .notEqual => !value.equal target
    | .greater => value.compare? target == some .gt
    | .greaterEqual => value.compare? target == some .gt || value.compare? target == some .eq
    | .less => value.compare? target == some .lt
    | .lessEqual => value.compare? target == some .lt || value.compare? target == some .eq

end Comparator

def Value.inside (v : Value) (region : Geo.Shape) : Bool := v.shape?.any (·.within region)

end GuardedGraph

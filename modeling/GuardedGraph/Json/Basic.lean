import GuardedGraph.Number.Layout
import GuardedGraph.Number.Scale

/-!
JSON trees. A tree keeps what its text spells; whether a string literal denotes a text and which
number a literal stands for is decided where the tree is used.
-/

namespace GuardedGraph

namespace Json

inductive Mark
  | bare
  | plus
  | minus
  deriving DecidableEq

structure Number where
  negative : Bool
  whole : List Char
  fraction : List Char
  exponent : Option (Mark × List Char)
  deriving DecidableEq

namespace Number

def ofInt (i : Int) : Number := ⟨i < 0, Nat.toDigits 10 i.natAbs, [], none⟩

/-- The stored form of a finite double. -/
def ofDouble (d : Double) : Number :=
  let l := Layout.stored (d.shortest .even)
  ⟨d.negative, l.whole, l.fraction,
    l.exponent.map fun e => (if e < 0 then .minus else .plus, Nat.toDigits 10 e.natAbs)⟩

/-- The integer that the number spells without point and exponent; minus zero is none. -/
def integer? (n : Number) : Option Int :=
  if n.fraction = [] ∧ n.exponent = none then
    let v := Nat.ofDigitChars 10 n.whole 0
    if n.negative then (if v = 0 then none else some (-(v : Int))) else some v
  else none

def power (n : Number) : Int :=
  match n.exponent with
  | none => 0
  | some (.minus, ds) => -(Nat.ofDigitChars 10 ds 0 : Int)
  | some (_, ds) => Nat.ofDigitChars 10 ds 0

/-- The number that goes on from `m` with the digits until one takes it out of 64 bits, and the digits left. -/
def word (m : Nat) : List Char → Nat × List Char
  | [] => (m, [])
  | c :: cs =>
    let next := Nat.ofDigitChars 10 [c] m
    if next < 0x10000000000000000 then word next cs else (m, c :: cs)

/-- The double that a number stands for, unless that is infinite: what digits 64 bits hold, scaled. Digits
before the point that they do not hold count as zeros, and those after it are as if not there. -/
def double? (n : Number) : Option Double :=
  let (whole, zeros) := word 0 n.whole
  let (all, rest) := word whole n.fraction
  let d := Double.scaled n.negative all (n.power + zeros.length - (n.fraction.length - rest.length : Nat))
  if d.isFinite then some d else none

end Number

end Json

/-- A string literal or key is `none` when it denotes no text: a surrogate without its partner, or
bytes that are not UTF-8. -/
inductive Json
  | null
  | bool (b : Bool)
  | number (n : Json.Number)
  | text (s : Option String)
  | array (items : List Json)
  | object (members : List (Option String × Json))

namespace Json

def string (s : String) : Json := .text (some s)

def int (i : Int) : Json := .number (.ofInt i)

/-- What is not a finite number is written as null. -/
def double (d : Double) : Json := if d.isFinite then .number (.ofDouble d) else .null

def record (members : List (String × Json)) : Json := .object (members.map fun m => (some m.1, m.2))

def bytes (b : ByteArray) : Json := .array (b.data.toList.map fun x => int x.toNat)

end Json

end GuardedGraph

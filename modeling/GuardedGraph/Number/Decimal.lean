import GuardedGraph.Number.Double

/-!
Decimals `m * 10 ^ k` and doubles. `Decimal.nearest` rounds a decimal to the nearest double, and
`Double.shortest` gives a decimal of fewest digits that rounds to a double.
-/

namespace GuardedGraph

/-- The decimal `coefficient * 10 ^ exponent`. -/
structure Decimal where
  coefficient : Nat
  exponent : Int
  deriving DecidableEq

def digitCount (n : Nat) : Nat := (Nat.toDigits 10 n).length

namespace Decimal

def numerator (d : Decimal) : Nat := d.coefficient * Nat.pow 10 d.exponent.toNat

def denominator (d : Decimal) : Nat := Nat.pow 10 (-d.exponent).toNat

/-- The magnitude of the nearest double. Decimals beyond all doubles are told by their size alone. -/
def nearest (d : Decimal) : Nat :=
  let size := digitCount d.coefficient + d.exponent
  if d.coefficient = 0 ∨ size < -400 then 0
  else if 400 < size then Double.infinity
  else Double.nearest d.numerator d.denominator

/-- The decimal without zeros at the end of its coefficient; at most `fuel` are dropped. -/
def trimZeros : Nat → Decimal → Decimal
  | 0, d => d
  | fuel + 1, d => if d.coefficient % 10 = 0 then trimZeros fuel ⟨d.coefficient / 10, d.exponent + 1⟩ else d

end Decimal

/-- Which of two equally near decimals is taken. -/
inductive Tie
  | even
  | up
  deriving DecidableEq

namespace Double

/-- The absolute value of a finite double, exactly. -/
def exact (d : Double) : Decimal :=
  if 0 ≤ d.power then ⟨d.mantissa <<< d.power.toNat, 0⟩ else ⟨d.mantissa * Nat.pow 5 (-d.power).toNat, d.power⟩

/-- The exponent of the largest power of ten that is at most `num / den`. -/
def decimalExponent (num den : Nat) : Int :=
  if den ≤ num then (digitCount (num / den) : Int) - 1
  else
    let n := digitCount (den / num)
    if den ≤ num * Nat.pow 10 (n - 1) then -((n : Int) - 1) else -(n : Int)

/-- The two neighbours of `num / den` among the multiples of `10 ^ k`, the preferred one first. -/
def neighbours (tie : Tie) (num den : Nat) (k : Int) : List Decimal :=
  let n := num * Nat.pow 10 (-k).toNat
  let d := den * Nat.pow 10 k.toNat
  let low := n / d
  let rest := n % d
  let lowFirst := match tie with
    | .even => 2 * rest < d || (2 * rest = d && low % 2 == 0)
    | .up => 2 * rest < d
  if lowFirst then [⟨low, k⟩, ⟨low + 1, k⟩] else [⟨low + 1, k⟩, ⟨low, k⟩]

/-- The decimals of one to seventeen digits that may be written for a magnitude, shorter ones first. -/
def candidates (tie : Tie) (d : Double) : List Decimal :=
  let top := decimalExponent d.numerator d.denominator
  (List.range 17).flatMap fun (n : Nat) => neighbours tie d.numerator d.denominator (top - n)

/-- The first candidate that reads back, and the exact value if none does. -/
def shortest (tie : Tie) (d : Double) : Decimal :=
  if d.magnitude = 0 then ⟨0, 0⟩
  else
    let c := ((d.candidates tie).find? (·.nearest = d.magnitude)).getD d.exact
    c.trimZeros (digitCount c.coefficient)

end Double

end GuardedGraph

import GuardedGraph.Number.Double

/-!
Integers scaled by powers of ten. Each step rounds by itself, so that `Double.scaled` may be a unit away
from the double nearest to the decimal.
-/

namespace GuardedGraph.Double

/-- The product of two finite doubles. -/
def mul (a b : Double) : Double :=
  ofMagnitude (a.negative != b.negative) (nearest (a.numerator * b.numerator) (a.denominator * b.denominator))

/-- The quotient of a finite double by one that is neither infinite nor zero. -/
def div (a b : Double) : Double :=
  ofMagnitude (a.negative != b.negative) (nearest (a.numerator * b.denominator) (a.denominator * b.numerator))

/-- The double nearest to a power of ten. The largest finite one is `tenTo 308`. -/
def tenTo (k : Nat) : Double := ofMagnitude false (nearest (Nat.pow 10 k) 1)

/-- The double nearest to `m`, multiplied or divided by powers of ten, for the decimal `m * 10 ^ k`. -/
def scaled (negative : Bool) (m : Nat) (k : Int) : Double :=
  let d := ofMagnitude negative (nearest m 1)
  if m = 0 then d
  else if 308 < k then ofMagnitude negative infinity
  else if 0 ≤ k then d.mul (tenTo k.toNat)
  else if -308 ≤ k then d.div (tenTo (-k).toNat)
  else if -616 ≤ k then (d.div (tenTo 308)).div (tenTo (-k - 308).toNat)
  else ofMagnitude negative 0

end GuardedGraph.Double

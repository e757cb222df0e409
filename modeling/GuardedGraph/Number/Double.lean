/-!
Double-precision numbers as sign and magnitude. The magnitudes are in the order of the absolute values
that they stand for, so that numbers compare by `Double.rank`.
-/

namespace GuardedGraph

/-- A sign and the 63 bits after it: eleven of exponent and 52 of fraction, so that magnitudes
`0x10000000000000` apart differ by one in the exponent. -/
structure Double where
  negative : Bool
  magnitude : Nat
  magnitude_lt : magnitude < 0x8000000000000000
  deriving DecidableEq

namespace Double

def ofBits (bits : UInt64) : Double :=
  ⟨0x8000000000000000 ≤ bits.toNat, bits.toNat % 0x8000000000000000, Nat.mod_lt _ (by decide)⟩

def toBits (d : Double) : UInt64 := UInt64.ofNat ((if d.negative then 0x8000000000000000 else 0) + d.magnitude)

/-- The magnitude of infinity; those above it are not numbers. -/
def infinity : Nat := 2047 * 0x10000000000000

theorem infinity_lt : infinity < 0x8000000000000000 := by decide

def isNaN (d : Double) : Bool := infinity < d.magnitude

def isFinite (d : Double) : Bool := d.magnitude < infinity

def zero : Double := ⟨false, 0, by decide⟩

/-- The integer `m` of a finite absolute value `m * 2 ^ q`. -/
def mantissa (d : Double) : Nat :=
  if d.magnitude / 0x10000000000000 = 0 then d.magnitude else 0x10000000000000 + d.magnitude % 0x10000000000000

/-- The power `q` of a finite absolute value `m * 2 ^ q`. -/
def power (d : Double) : Int :=
  if d.magnitude / 0x10000000000000 = 0 then -1074 else (d.magnitude / 0x10000000000000 : Nat) - 1075

/-- The absolute value of a finite double is `numerator / denominator`. -/
def numerator (d : Double) : Nat := d.mantissa <<< d.power.toNat

def denominator (d : Double) : Nat := 1 <<< (-d.power).toNat

/-! ### Order -/

/-- Both zeros rank at zero. -/
def rank (d : Double) : Int := if d.negative then -(d.magnitude : Int) else d.magnitude

/-- The order of two numbers; what is not a number has none. -/
def compare? (a b : Double) : Option Ordering :=
  if a.isNaN || b.isNaN then none else some (compare a.rank b.rank)

/-- Numeric equality: no NaN equals anything, and the zeros are equal. -/
def numEq (a b : Double) : Bool := a.compare? b == some .eq

def numLe (a b : Double) : Bool := a.compare? b == some .lt || a.compare? b == some .eq

/-! ### Integers -/

/-- Quotient rounded to the nearest integer, a half to the even one. -/
def roundQuotient (num den : Nat) : Nat :=
  let m := num / den
  let r := num % den
  if 2 * r > den ∨ (2 * r = den ∧ m % 2 = 1) then m + 1 else m

/-- The exponent of the largest power of two that is at most `num / den`. -/
def binaryExponent (num den : Nat) : Int :=
  let e : Int := (num.log2 : Int) - den.log2
  if den <<< e.toNat ≤ num <<< (-e).toNat then e else e - 1

/-- The magnitude nearest to `num / den`, ties to even; infinity and above stand for overflow. -/
def nearest (num den : Nat) : Nat :=
  if num = 0 then 0
  else
    let q := max (binaryExponent num den - 52) (-1074)
    roundQuotient (num <<< (-q).toNat) (den <<< q.toNat) + (q + 1074).toNat * 0x10000000000000

def ofMagnitude (negative : Bool) (m : Nat) : Double :=
  ⟨negative, min m infinity, Nat.lt_of_le_of_lt (Nat.min_le_right ..) infinity_lt⟩

def ofInt (i : Int) : Double := ofMagnitude (i < 0) (nearest i.natAbs 1)

def toInt? (d : Double) : Option Int :=
  if d.isFinite then
    if d.numerator % d.denominator = 0 then
      let n := d.numerator / d.denominator
      some (if d.negative then -n else n)
    else none
  else none

/-! ### Machine numbers -/

def toFloat (d : Double) : Float := .ofBits d.toBits

def ofFloat (x : Float) : Double := ofBits x.toBits

end Double

end GuardedGraph

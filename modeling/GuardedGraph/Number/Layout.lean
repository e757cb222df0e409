import GuardedGraph.Number.Decimal

/-!
The digits of a decimal laid out around its point.
-/

namespace GuardedGraph

/-- Digits before the point, digits after it, and the exponent of the power of ten that follows. -/
structure Layout where
  whole : List Char
  fraction : List Char
  exponent : Option Int
  deriving DecidableEq

namespace Layout

def zeros (n : Nat) : List Char := List.replicate n '0'

/-- All digits around the point, with zeros where the digits do not reach it. -/
def positional (d : Decimal) : Layout :=
  let ds := Nat.toDigits 10 d.coefficient
  let point : Int := ds.length + d.exponent
  if d.coefficient = 0 then ⟨['0'], [], none⟩
  else if point ≤ 0 then ⟨['0'], zeros (-point).toNat ++ ds, none⟩
  else if ds.length ≤ point then ⟨ds ++ zeros (point - ds.length).toNat, [], none⟩
  else ⟨ds.take point.toNat, ds.drop point.toNat, none⟩

/-- One digit before the point. -/
def scientific (d : Decimal) : Layout :=
  let ds := Nat.toDigits 10 d.coefficient
  ⟨ds.take 1, ds.drop 1, some (ds.length + d.exponent - 1)⟩

/-- Positional from `10 ^ (-5)` up to below `10 ^ 16`, with a digit after the point; else scientific. -/
def stored (d : Decimal) : Layout :=
  let power : Int := digitCount d.coefficient + d.exponent - 1
  if d.coefficient = 0 ∨ (-5 ≤ power ∧ power < 16) then
    let l := positional d
    if l.fraction.isEmpty then { l with fraction := ['0'] } else l
  else scientific d

end Layout

/-- Positional digits, as few as read back; a half goes up. -/
def Double.render (d : Double) : String :=
  if d.isNaN then "NaN"
  else
    let sign := if d.negative then "-" else ""
    if d.isFinite then
      let l := Layout.positional (d.shortest .up)
      sign ++ String.ofList (if l.fraction.isEmpty then l.whole else l.whole ++ '.' :: l.fraction)
    else sign ++ "inf"

end GuardedGraph

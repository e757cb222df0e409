import Mathlib.Algebra.Group.Int.Defs
import GuardedGraph.Proofs.Number.Whole
import GuardedGraph.Proofs.Value.Comparing

/-!
The integer that is read of a value. It is the integer that the value is if that has 64 bits, else the nearest that
has, and compares equal up to `2 ^ 63` (`integer_reading_exact`).
-/

namespace GuardedGraph

namespace Value

/-- The integer that the value is, of whatever size. -/
def whole? : Value → Option Int
  | .int i => some i.toInt
  | .float d => d.toInt?
  | _ => none

theorem int?_eq (v : Value) : v.int? = v.whole?.map Int64.ofIntClamp := by
  cases v with
  | int i => exact congrArg some (Int64.ofIntClamp_toInt i).symm
  | _ => rfl

theorem toInt_ofIntClamp (n : Int) : (Int64.ofIntClamp n).toInt = max (-2 ^ 63) (min n (2 ^ 63 - 1)) := by
  have low : Int64.minValue.toInt = -2 ^ 63 := rfl
  have high : Int64.maxValue.toInt = 2 ^ 63 - 1 := rfl
  unfold Int64.ofIntClamp
  split
  · split
    · rw [Int64.toInt_ofIntLE]
      omega
    · omega
  · omega

variable {d : Double} {n : Int}

/-- The ends of the 64-bit integers as doubles; the upper one is rounded up. -/
theorem ends_toInt? : (Double.ofInt (-2 ^ 63)).toInt? = some (-2 ^ 63) ∧
    Double.ofInt (2 ^ 63 - 1) = Double.ofInt (2 ^ 63) ∧ (Double.ofInt (2 ^ 63)).toInt? = some (2 ^ 63) := by
  decide

/-- A float compares to an end of the 64-bit integers as its integer does. -/
theorem compare_rank_ofIntClamp (whole : d.toInt? = some n) :
    compare d.rank (Double.ofInt (Int64.ofIntClamp n).toInt).rank = compare n (max (-2 ^ 63) (min n (2 ^ 63))) := by
  obtain ⟨low, rounded, high⟩ := ends_toInt?
  rw [toInt_ofIntClamp]
  rcases Int.lt_or_le n (-2 ^ 63) with less | least
  · rw [show max (-2 ^ 63) (min n (2 ^ 63 - 1)) = -2 ^ 63 by omega,
      show max (-2 ^ 63) (min n (2 ^ 63)) = -2 ^ 63 by omega, Double.compare_rank_of_toInt? whole low]
  rcases Int.lt_or_le n (2 ^ 63) with inside | more
  · rw [show max (-2 ^ 63) (min n (2 ^ 63 - 1)) = n by omega, show max (-2 ^ 63) (min n (2 ^ 63)) = n by omega,
      Double.rank_ofInt_of_toInt? whole, Std.compare_self, Std.compare_self]
  · rw [show max (-2 ^ 63) (min n (2 ^ 63 - 1)) = 2 ^ 63 - 1 by omega,
      show max (-2 ^ 63) (min n (2 ^ 63)) = 2 ^ 63 by omega, rounded, Double.compare_rank_of_toInt? whole high]

/-- No 64-bit integer compares equal to a float beyond them. -/
theorem compare_rank_ne_eq (whole : d.toInt? = some n) (beyond : ¬(-2 ^ 63 ≤ n ∧ n ≤ 2 ^ 63)) (j : Int64) :
    compare d.rank (Double.ofInt j.toInt).rank ≠ .eq := by
  obtain ⟨low, -, high⟩ := ends_toInt?
  have least : -2 ^ 63 ≤ j.toInt := Int64.le_toInt j
  have most : j.toInt < 2 ^ 63 := Int64.toInt_lt j
  rw [ne_eq, Std.compare_eq_iff_eq]
  rcases Int.lt_or_le n (-2 ^ 63) with less | _
  · have below := Double.rank_lt_of_toInt? whole low less
    exact Int.ne_of_lt (Int.lt_of_lt_of_le below (Double.rank_ofInt_le least))
  · have above := Double.rank_lt_of_toInt? high whole (by omega)
    exact Int.ne_of_gt (Int.lt_of_le_of_lt (Double.rank_ofInt_le (Int.le_of_lt most)) above)

theorem compare?_ofIntClamp {v : Value} (whole : v.whole? = some n) :
    v.compare? (.int (Int64.ofIntClamp n)) = some (compare n (max (-2 ^ 63) (min n (2 ^ 63)))) := by
  cases v with
  | int i =>
    obtain rfl := Option.some.inj whole
    have least : -2 ^ 63 ≤ i.toInt := Int64.le_toInt i
    have most : i.toInt < 2 ^ 63 := Int64.toInt_lt i
    rw [compare?, Int64.ofIntClamp_toInt, show max (-2 ^ 63) (min i.toInt (2 ^ 63)) = i.toInt by omega]
  | float d =>
    rw [compare?_eq_some_iff.mpr (.floatInt _ (Double.isNaN_of_toInt? whole)), compare_rank_ofIntClamp whole]
  | _ => exact absurd whole (by simp [whole?])

theorem compare?_int_ne_eq {v : Value} (whole : v.whole? = some n) (beyond : ¬(-2 ^ 63 ≤ n ∧ n ≤ 2 ^ 63)) (j : Int64) :
    v.compare? (.int j) ≠ some .eq := by
  cases v with
  | int i =>
    obtain rfl := Option.some.inj whole
    exact absurd ⟨Int64.le_toInt i, Int.le_of_lt (Int64.toInt_lt i)⟩ beyond
  | float d =>
    rw [compare?_eq_some_iff.mpr (.floatInt j (Double.isNaN_of_toInt? whole)), ne_eq, Option.some_inj]
    exact compare_rank_ne_eq whole beyond j
  | _ => exact absurd whole (by simp [whole?])

end Value

/-- A value from which an integer is read is an integer `n` of some size. What is read is `n` moved into 64 bits, and
the value compares to it as `n` to `n` moved between `-2 ^ 63` and `2 ^ 63`: it is equal up to there, and beyond no
integer of 64 bits is. -/
theorem integer_reading_exact {v : Value} {i : Int64} (read : v.int? = some i) : ∃ n, v.whole? = some n ∧
    i.toInt = max (-2 ^ 63) (min n (2 ^ 63 - 1)) ∧
    v.compare? (.int i) = some (compare n (max (-2 ^ 63) (min n (2 ^ 63)))) ∧
    (v.compare? (.int i) = some .eq ↔ -2 ^ 63 ≤ n ∧ n ≤ 2 ^ 63) ∧
    (¬(-2 ^ 63 ≤ n ∧ n ≤ 2 ^ 63) → ∀ j, v.compare? (.int j) ≠ some .eq) := by
  rw [Value.int?_eq] at read
  obtain ⟨n, whole, rfl⟩ := Option.map_eq_some_iff.mp read
  have compared := Value.compare?_ofIntClamp whole
  refine ⟨n, whole, Value.toInt_ofIntClamp n, compared, ?_, Value.compare?_int_ne_eq whole⟩
  rw [compared, Option.some_inj, Std.compare_eq_iff_eq]
  omega

/-- Ten to the nineteenth is read as the largest integer of 64 bits, and compares greater. -/
theorem integer_reading_exact_beyond :
    (Value.float (.ofInt 10000000000000000000)).int? = some 9223372036854775807 ∧
    (Value.float (.ofInt 10000000000000000000)).compare? (.int 9223372036854775807) = some .gt ∧
    ∀ j, (Value.float (.ofInt 10000000000000000000)).compare? (.int j) ≠ some .eq := by
  have read : (Value.float (.ofInt 10000000000000000000)).int? = some 9223372036854775807 := by decide
  have whole : (Value.float (.ofInt 10000000000000000000)).whole? = some 10000000000000000000 := by decide
  obtain ⟨n, here, -, compared, -, none⟩ := integer_reading_exact read
  obtain rfl := Option.some.inj (whole.symm.trans here)
  exact ⟨read, compared, none (by decide)⟩

end GuardedGraph

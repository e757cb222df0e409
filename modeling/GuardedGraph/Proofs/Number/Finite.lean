import GuardedGraph.Json.Basic
import Mathlib.Algebra.Group.Nat.Defs

/-! Integers of 64 bits stand for finite doubles, so that nothing is wrong with them where they are spelt. -/

namespace GuardedGraph

namespace Double

/-! ### Rounding -/

theorem roundQuotient_le (num den : Nat) : roundQuotient num den ≤ num / den + 1 := by
  unfold roundQuotient
  simp only
  split <;> omega

theorem shifted_div_lt (num : Nat) {den : Nat} (pos : 0 < den) {l r : Nat} (h : num.log2 + l < den.log2 + r + 54) :
    (num <<< l) / (den <<< r) < 2 ^ 54 := by
  rw [Nat.shiftLeft_eq, Nat.shiftLeft_eq]
  refine Nat.div_lt_of_lt_mul ?_
  have top : num * 2 ^ l < 2 ^ (num.log2 + 1 + l) := by
    rw [Nat.pow_add]
    exact Nat.mul_lt_mul_of_pos_right Nat.lt_log2_self (Nat.two_pow_pos l)
  have low : 2 ^ (den.log2 + r) ≤ den * 2 ^ r := by
    rw [Nat.pow_add]
    exact Nat.mul_le_mul_right _ (Nat.log2_self_le (Nat.ne_of_gt pos))
  calc num * 2 ^ l < 2 ^ (num.log2 + 1 + l) := top
    _ ≤ 2 ^ (den.log2 + r + 54) := Nat.pow_le_pow_right (by decide) (by omega)
    _ = 2 ^ (den.log2 + r) * 2 ^ 54 := Nat.pow_add _ _ _
    _ ≤ den * 2 ^ r * 2 ^ 54 := Nat.mul_le_mul_right _ low

theorem binaryExponent_bounds (num den : Nat) :
    (num.log2 : Int) - den.log2 - 1 ≤ binaryExponent num den ∧ binaryExponent num den ≤ num.log2 - den.log2 := by
  unfold binaryExponent
  simp only
  split <;> omega

/-- Each doubling of a quotient takes its magnitude up by one exponent. -/
theorem nearest_le {num den k : Nat} (pos : 0 < den) (h : num.log2 ≤ den.log2 + k) :
    nearest num den ≤ (k + 1027) * 0x10000000000000 := by
  unfold nearest
  simp only
  split
  · exact Nat.zero_le _
  · have ⟨low, high⟩ := binaryExponent_bounds num den
    generalize hq : max (binaryExponent num den - 52) (-1074) = q
    have rounded := roundQuotient_le (num <<< (-q).toNat) (den <<< q.toNat)
    have small := shifted_div_lt num pos (l := (-q).toNat) (r := q.toNat) (by omega)
    have power : (q + 1074).toNat ≤ k + 1022 := by omega
    omega

theorem isFinite_ofMagnitude {m : Nat} (h : m < infinity) (negative : Bool) : (ofMagnitude negative m).isFinite := by
  rw [isFinite, decide_eq_true_eq]
  exact Nat.lt_of_le_of_lt (Nat.min_le_left _ _) h

theorem mantissa_lt (d : Double) : d.mantissa < 2 ^ 53 := by
  unfold mantissa
  split <;> omega

theorem denominator_pos (d : Double) : 0 < d.denominator := by
  rw [denominator, Nat.one_shiftLeft]
  exact Nat.two_pow_pos _

theorem log2_lt_of_lt {n k : Nat} (small : n < 2 ^ (k + 1)) : n.log2 ≤ k := by
  rcases Nat.eq_zero_or_pos n with rfl | pos
  · exact Nat.zero_le _
  · exact Nat.le_of_lt_succ ((Nat.log2_lt (Nat.ne_of_gt pos)).mpr small)

theorem numerator_lt {d : Double} {k : Nat} (low : d.magnitude ≤ (1075 + k) * 0x10000000000000) :
    d.numerator < 2 ^ (53 + k) := by
  have power : d.power.toNat ≤ k := by
    unfold Double.power
    split <;> omega
  rw [numerator, Nat.shiftLeft_eq, Nat.pow_add]
  calc d.mantissa * 2 ^ d.power.toNat ≤ d.mantissa * 2 ^ k :=
        Nat.mul_le_mul_left _ (Nat.pow_le_pow_right (by decide) power)
    _ < 2 ^ 53 * 2 ^ k := Nat.mul_lt_mul_of_pos_right d.mantissa_lt (Nat.two_pow_pos k)

theorem isFinite_scaled {m : Nat} (small : m < 0x10000000000000000) : (scaled false m 0).isFinite := by
  have magnitude := nearest_le (k := 63) Nat.one_pos (Nat.le_trans (log2_lt_of_lt (k := 63) small) (by omega))
  unfold scaled
  simp only
  split
  · exact isFinite_ofMagnitude (Nat.lt_of_le_of_lt magnitude (by decide)) _
  · rw [if_neg (by decide), if_pos (Int.le_refl 0)]
    generalize whole : ofMagnitude false (nearest m 1) = d
    have low : d.magnitude ≤ (1075 + 15) * 0x10000000000000 := by
      rw [← whole]
      exact Nat.le_trans (Nat.min_le_left _ _) magnitude
    have one : (tenTo 0).numerator = 2 ^ 52 := by decide
    refine isFinite_ofMagnitude (Nat.lt_of_le_of_lt (nearest_le (k := 119) ?_ ?_) (by decide)) _
    · exact Nat.mul_pos d.denominator_pos (denominator_pos _)
    · show (d.numerator * (tenTo 0).numerator).log2 ≤ _
      rw [one]
      refine Nat.le_trans (log2_lt_of_lt (k := 119) ?_) (Nat.le_add_left _ _)
      exact Nat.mul_lt_mul_of_pos_right (numerator_lt low) (Nat.two_pow_pos 52)

end Double

namespace Json.Number

/-! ### Spelt integers -/

theorem le_ofDigitChars (cs : List Char) (m : Nat) : m ≤ Nat.ofDigitChars 10 cs m := by
  rw [Nat.ofDigitChars_eq_ofDigitChars_zero]
  exact Nat.le_trans (Nat.le_mul_of_pos_left m (Nat.pow_pos (by decide))) (Nat.le_add_right _ _)

theorem word_eq {cs : List Char} {m : Nat} (small : Nat.ofDigitChars 10 cs m < 0x10000000000000000) :
    word m cs = (Nat.ofDigitChars 10 cs m, []) := by
  induction cs generalizing m with
  | nil => rfl
  | cons c cs ih =>
    have step : Nat.ofDigitChars 10 (c :: cs) m = Nat.ofDigitChars 10 cs (Nat.ofDigitChars 10 [c] m) :=
      Nat.ofDigitChars_append (l := [c]) m
    rw [step] at small ⊢
    rw [word, if_pos (Nat.lt_of_le_of_lt (le_ofDigitChars cs _) small)]
    exact ih small

theorem integer?_ofInt (i : Int) : (ofInt i).integer? = some i := by
  have digits : Nat.ofDigitChars 10 (ofInt i).whole 0 = i.natAbs := Nat.ofDigitChars_ten_toDigits
  rw [integer?, if_pos ⟨rfl, rfl⟩]
  simp only [digits]
  have sign : (ofInt i).negative = decide (i < 0) := rfl
  rw [sign]
  by_cases negative : i < 0
  · rw [if_pos (decide_eq_true negative), if_neg (by omega)]
    congr 1
    omega
  · rw [if_neg fun h => negative (of_decide_eq_true h)]
    congr 1
    omega

theorem double?_ofInt {n : Nat} (small : n < 0x10000000000000000) : ((ofInt n).double?).isSome := by
  have digits : Nat.ofDigitChars 10 (ofInt n).whole 0 = n := Nat.ofDigitChars_ten_toDigits
  have whole : word 0 (ofInt n).whole = (n, []) := by rw [word_eq (by omega), digits]
  have sign : (ofInt n).negative = false := by simp [ofInt]
  have point : (ofInt n).fraction = [] ∧ (ofInt n).power = 0 := ⟨rfl, rfl⟩
  unfold double?
  rw [whole, sign, point.1, point.2]
  have finite := Double.isFinite_scaled small
  simp [word, finite]

end Json.Number

end GuardedGraph

import GuardedGraph.Proofs.Number.Rounding

/-!
Doubles that are whole numbers. Rounding gives each of them back (`rank_ofInt_of_toInt?`), so that they compare as
the integers that they are (`compare_rank_of_toInt?`).
-/

namespace GuardedGraph.Double

/-! ### Numbers of 53 binary digits -/

theorem log2_mul_two_pow {m : Nat} (pos : 0 < m) (k : Nat) : (m * 2 ^ k).log2 = m.log2 + k := by
  have scaled : 0 < m * 2 ^ k := Nat.mul_pos pos (Nat.two_pow_pos k)
  obtain ⟨low, high⟩ := (Nat.log2_eq_iff (Nat.ne_of_gt pos)).mp rfl
  refine (Nat.log2_eq_iff (Nat.ne_of_gt scaled)).mpr ⟨?_, ?_⟩
  · rw [Nat.pow_add]
    exact Nat.mul_le_mul_right _ low
  · rw [Nat.add_right_comm, Nat.pow_add]
    exact Nat.mul_lt_mul_of_pos_right high (Nat.two_pow_pos k)

theorem roundQuotient_mul (m : Nat) {den : Nat} (pos : 0 < den) : roundQuotient (m * den) den = m := by
  unfold roundQuotient
  simp only [Nat.mul_div_cancel _ pos, Nat.mul_mod_left]
  rw [if_neg (by omega)]

section

variable {m n : Nat} (low : 2 ^ 52 ≤ m) (high : m < 2 ^ 53)
include low high

theorem log2_of_digits : m.log2 = 52 := (Nat.log2_eq_iff (by omega)).mpr ⟨low, high⟩

/-- Zeros behind the digits are not rounded. -/
theorem nearest_mul (l : Nat) : nearest (m * 2 ^ l) 1 = m + (l + 1074) * 0x10000000000000 := by
  have pos : 0 < m * 2 ^ l := Nat.mul_pos (by omega) (Nat.two_pow_pos l)
  have digits : (m * 2 ^ l).log2 = 52 + l := by rw [log2_mul_two_pow (by omega), log2_of_digits low high]
  have whole : leading (m * 2 ^ l) = m := by
    rw [leading, digits, Nat.sub_eq_zero_of_le (Nat.le_add_right 52 l), Nat.pow_zero, Nat.mul_one,
      Nat.add_sub_cancel_left, roundQuotient_mul m (Nat.two_pow_pos l)]
  rw [nearest_one pos, whole, digits]
  omega

/-- Nor is what is left of the digits without zeros at their end. -/
theorem nearest_div {r : Nat} (zeros : n * 2 ^ r = m) :
    r ≤ 52 ∧ nearest n 1 = m + (1074 - r) * 0x10000000000000 := by
  have pos : 0 < n := Nat.pos_of_ne_zero fun zero => by rw [zero, Nat.zero_mul] at zeros; omega
  have digits : n.log2 + r = 52 := by rw [← log2_mul_two_pow pos, zeros, log2_of_digits low high]
  have few : r = 52 - n.log2 := by omega
  refine ⟨by omega, ?_⟩
  rw [nearest_one pos, leading_of_le (by omega), ← few, zeros]
  omega

end

/-! ### Whole numbers -/

/-- Below the least normal number only zero is whole. -/
theorem eq_zero_of_subnormal {n m k : Nat} (small : m < 2 ^ k) (whole : n * 2 ^ k = m) : n = 0 := by
  refine Nat.eq_zero_of_not_pos fun pos => ?_
  have large : 2 ^ k ≤ n * 2 ^ k := Nat.le_mul_of_pos_left _ pos
  omega

theorem nearest_of_whole {d : Double} (whole : d.numerator % d.denominator = 0) :
    nearest (d.numerator / d.denominator) 1 = d.magnitude := by
  have back := Nat.div_mul_cancel (Nat.dvd_of_mod_eq_zero whole)
  generalize d.numerator / d.denominator = n at back ⊢
  rw [numerator, denominator, Nat.shiftLeft_eq, Nat.shiftLeft_eq, Nat.one_mul] at back
  have digits := Nat.mod_lt d.magnitude (show 0 < 0x10000000000000 by decide)
  have parts := Nat.div_add_mod d.magnitude 0x10000000000000
  unfold mantissa power at back
  split at back
  · next subnormal =>
    rw [subnormal, Nat.mul_zero, Nat.zero_add] at parts
    have up : (-1074 : Int).toNat = 0 := rfl
    rw [up, Nat.pow_zero, Nat.mul_one] at back
    have small : d.magnitude < 2 ^ (- -1074 : Int).toNat :=
      Nat.lt_of_lt_of_le (show d.magnitude < 2 ^ 52 by omega) (Nat.pow_le_pow_right (by decide) (by decide))
    obtain rfl := eq_zero_of_subnormal small back
    rw [← back, Nat.zero_mul]
    rfl
  · next normal =>
    generalize d.magnitude / 0x10000000000000 = e at back parts normal
    generalize d.magnitude % 0x10000000000000 = f at back parts digits
    rcases Nat.le_total 1075 e with large | small
    · have up : ((e : Nat) - 1075 : Int).toNat = e - 1075 := by omega
      have down : (-((e : Nat) - 1075 : Int)).toNat = 0 := by omega
      rw [up, down, Nat.pow_zero, Nat.mul_one] at back
      rw [back, nearest_mul (by omega) (by omega)]
      omega
    · have up : ((e : Nat) - 1075 : Int).toNat = 0 := by omega
      have down : (-((e : Nat) - 1075 : Int)).toNat = 1075 - e := by omega
      rw [up, down, Nat.pow_zero, Nat.mul_one] at back
      obtain ⟨few, exact⟩ := nearest_div (by omega) (by omega) back
      rw [exact]
      omega

variable {d e : Double} {m n : Int}

theorem toInt?_eq_some_iff : d.toInt? = some n ↔ d.isFinite = true ∧ d.numerator % d.denominator = 0 ∧
    n = if d.negative then -((d.numerator / d.denominator : Nat) : Int) else (d.numerator / d.denominator : Nat) := by
  unfold toInt?
  simp only [Option.ite_none_right_eq_some, Option.some.injEq, eq_comm (a := n)]

/-- A whole number is the double nearest to its integer, up to the sign of zero. -/
theorem rank_ofInt_of_toInt? (whole : d.toInt? = some n) : (ofInt n).rank = d.rank := by
  obtain ⟨finite, divides, rfl⟩ := toInt?_eq_some_iff.mp whole
  have exact := nearest_of_whole divides
  have zero : nearest 0 1 = 0 := rfl
  rw [isFinite, decide_eq_true_eq] at finite
  rw [rank_ofInt, rank]
  generalize d.numerator / d.denominator = k at exact ⊢
  cases d.negative with
  | false =>
    simp only [Bool.false_eq_true, if_false, Int.natAbs_natCast, exact]
    rw [if_neg (by omega)]
    omega
  | true =>
    simp only [if_true, Int.natAbs_neg, Int.natAbs_natCast, exact]
    rcases Nat.eq_zero_or_pos k with rfl | pos
    · rw [← exact, zero]
      rfl
    · rw [if_pos (by omega)]
      omega

theorem isNaN_of_toInt? (whole : d.toInt? = some n) : d.isNaN = false := by
  obtain ⟨finite, -⟩ := toInt?_eq_some_iff.mp whole
  rw [isFinite, decide_eq_true_eq] at finite
  rw [isNaN, decide_eq_false_iff_not]
  omega

/-- Whole numbers of one rank are one integer. -/
theorem toInt?_unique (hd : d.toInt? = some m) (he : e.toInt? = some n) (same : d.rank = e.rank) : m = n := by
  obtain ⟨-, -, hm⟩ := toInt?_eq_some_iff.mp hd
  obtain ⟨-, -, hn⟩ := toInt?_eq_some_iff.mp he
  obtain ⟨s, x, hx⟩ := d
  obtain ⟨t, y, hy⟩ := e
  unfold rank at same
  dsimp only at same hm hn
  obtain rfl : x = y := by split at same <;> split at same <;> omega
  rw [show (⟨s, x, hx⟩ : Double).numerator = (⟨t, x, hy⟩ : Double).numerator from rfl,
    show (⟨s, x, hx⟩ : Double).denominator = (⟨t, x, hy⟩ : Double).denominator from rfl] at hm
  rcases Nat.eq_zero_or_pos x with rfl | pos
  · have none : (⟨t, 0, hy⟩ : Double).mantissa = 0 := if_pos (Nat.zero_div _)
    have zero : (⟨t, 0, hy⟩ : Double).numerator = 0 := by rw [numerator, none, Nat.zero_shiftLeft]
    rw [zero, Nat.zero_div] at hm hn
    rw [hm, hn]
    cases s <;> cases t <;> rfl
  · obtain rfl : s = t := by
      revert same
      cases s <;> cases t <;> simp <;> omega
    rw [hm, hn]

theorem rank_lt_of_toInt? (hd : d.toInt? = some m) (he : e.toInt? = some n) (less : m < n) : d.rank < e.rank := by
  have mono := rank_ofInt_le (Int.le_of_lt less)
  rw [rank_ofInt_of_toInt? hd, rank_ofInt_of_toInt? he] at mono
  exact Int.lt_iff_le_and_ne.mpr ⟨mono, fun same => Int.ne_of_lt less (toInt?_unique hd he same)⟩

theorem compare_rank_of_toInt? (hd : d.toInt? = some m) (he : e.toInt? = some n) :
    compare d.rank e.rank = compare m n := by
  rcases Int.lt_trichotomy m n with less | same | more
  · rw [Int.compare_eq_lt.mpr less, Int.compare_eq_lt]
    exact rank_lt_of_toInt? hd he less
  · subst same
    rw [← rank_ofInt_of_toInt? hd, ← rank_ofInt_of_toInt? he, Std.compare_self, Std.compare_self]
  · rw [Int.compare_eq_gt.mpr more, Int.compare_eq_gt]
    exact rank_lt_of_toInt? he hd more

end GuardedGraph.Double

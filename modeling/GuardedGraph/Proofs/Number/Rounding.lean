import GuardedGraph.Proofs.Number.Finite

/-!
The doubles nearest to integers. They keep the order of the integers (`rank_ofInt_le`), and tell an integer below
`2 ^ 53` from every other (`rank_ofInt_lt`).
-/

namespace GuardedGraph.Double

/-! ### Rounding quotients -/

theorem le_roundQuotient (num den : Nat) : num / den ≤ roundQuotient num den := by
  unfold roundQuotient
  simp only
  split <;> omega

theorem roundQuotient_one (num : Nat) : roundQuotient num 1 = num := by
  simp [roundQuotient, Nat.mod_one]

theorem roundQuotient_mono {m n : Nat} (den : Nat) (le : m ≤ n) : roundQuotient m den ≤ roundQuotient n den := by
  have quotients : m / den ≤ n / den := Nat.div_le_div_right le
  rcases Nat.lt_or_eq_of_le quotients with less | same
  · calc roundQuotient m den ≤ m / den + 1 := roundQuotient_le m den
      _ ≤ n / den := less
      _ ≤ roundQuotient n den := le_roundQuotient n den
  · -- with equal quotients it is the rests that are in order
    have m_rest := Nat.div_add_mod m den
    have n_rest := Nat.div_add_mod n den
    unfold roundQuotient
    simp only
    rw [same] at m_rest ⊢
    generalize den * (n / den) = whole at m_rest n_rest
    split <;> split <;> omega

/-! ### Magnitudes of whole numbers -/

theorem binaryExponent_one {n : Nat} (pos : 0 < n) : binaryExponent n 1 = n.log2 := by
  have low : 2 ^ n.log2 ≤ n := Nat.log2_self_le (Nat.ne_of_gt pos)
  have log2_one : Nat.log2 1 = 0 := by decide
  unfold binaryExponent
  simp only [log2_one, Nat.shiftLeft_eq]
  rw [if_pos]
  · simp
  · simpa using low

/-- The 53 leading binary digits of a whole number, rounded. -/
def leading (n : Nat) : Nat := roundQuotient (n * 2 ^ (52 - n.log2)) (2 ^ (n.log2 - 52))

theorem nearest_one {n : Nat} (pos : 0 < n) : nearest n 1 = leading n + (n.log2 + 1022) * 0x10000000000000 := by
  unfold nearest
  simp only [Nat.ne_of_gt pos, if_false, binaryExponent_one pos]
  generalize hq : max ((n.log2 : Int) - 52) (-1074) = q
  have down : (-q).toNat = 52 - n.log2 := by omega
  have up : q.toNat = n.log2 - 52 := by omega
  have power : (q + 1074).toNat = n.log2 + 1022 := by omega
  rw [down, up, power, Nat.shiftLeft_eq, Nat.shiftLeft_eq, Nat.one_mul]
  rfl

theorem leading_of_le {n : Nat} (small : n.log2 ≤ 52) : leading n = n * 2 ^ (52 - n.log2) := by
  rw [leading, Nat.sub_eq_zero_of_le small, Nat.pow_zero, roundQuotient_one]

theorem le_leading {n : Nat} (pos : 0 < n) : 2 ^ 52 ≤ leading n := by
  have low : 2 ^ n.log2 ≤ n := Nat.log2_self_le (Nat.ne_of_gt pos)
  refine Nat.le_trans ?_ (le_roundQuotient _ _)
  rw [Nat.le_div_iff_mul_le (Nat.two_pow_pos _), ← Nat.pow_add]
  calc 2 ^ (52 + (n.log2 - 52)) = 2 ^ (n.log2 + (52 - n.log2)) := by congr 1; omega
    _ = 2 ^ n.log2 * 2 ^ (52 - n.log2) := Nat.pow_add _ _ _
    _ ≤ n * 2 ^ (52 - n.log2) := Nat.mul_le_mul_right _ low

theorem shifted_lt (n : Nat) : n * 2 ^ (52 - n.log2) < 2 ^ 53 * 2 ^ (n.log2 - 52) := by
  calc n * 2 ^ (52 - n.log2) < 2 ^ (n.log2 + 1) * 2 ^ (52 - n.log2) :=
        Nat.mul_lt_mul_of_pos_right Nat.lt_log2_self (Nat.two_pow_pos _)
    _ = 2 ^ (53 + (n.log2 - 52)) := by rw [← Nat.pow_add]; congr 1; omega
    _ = 2 ^ 53 * 2 ^ (n.log2 - 52) := Nat.pow_add _ _ _

theorem leading_le (n : Nat) : leading n ≤ 2 ^ 53 :=
  Nat.le_trans (roundQuotient_le _ _)
    (Nat.div_lt_of_lt_mul (Nat.mul_comm (2 ^ 53) _ ▸ shifted_lt n))

theorem log2_mono {m n : Nat} (pos : 0 < m) (le : m ≤ n) : m.log2 ≤ n.log2 := by
  rw [Nat.le_log2 (by omega)]
  exact Nat.le_trans (Nat.log2_self_le (Nat.ne_of_gt pos)) le

/-- The magnitudes of one more binary digit come behind all those of fewer. -/
theorem magnitude_step {m n : Nat} (shorter : m < n) :
    (m + 1022) * 0x10000000000000 + 0x10000000000000 ≤ (n + 1022) * 0x10000000000000 := by
  rw [← Nat.succ_mul]
  exact Nat.mul_le_mul_right _ (Nat.add_lt_add_right shorter _)

theorem nearest_mono {m n : Nat} (le : m ≤ n) : nearest m 1 ≤ nearest n 1 := by
  rcases Nat.eq_zero_or_pos m with rfl | pos
  · exact Nat.zero_le _
  · have high := leading_le m
    have low := le_leading (Nat.lt_of_lt_of_le pos le)
    rw [nearest_one pos, nearest_one (Nat.lt_of_lt_of_le pos le)]
    rcases Nat.lt_or_eq_of_le (log2_mono pos le) with shorter | same
    · calc leading m + (m.log2 + 1022) * 0x10000000000000
          ≤ 2 ^ 53 + (m.log2 + 1022) * 0x10000000000000 := Nat.add_le_add_right high _
        _ = 2 ^ 52 + ((m.log2 + 1022) * 0x10000000000000 + 0x10000000000000) := by omega
        _ ≤ leading n + (n.log2 + 1022) * 0x10000000000000 := Nat.add_le_add low (magnitude_step shorter)
    · have mono : leading m ≤ leading n := by
        unfold leading
        rw [same]
        exact roundQuotient_mono _ (Nat.mul_le_mul_right _ le)
      rw [same]
      exact Nat.add_le_add_right mono _

/-- Whole numbers below `2 ^ 53` are not rounded, so that larger ones have larger magnitudes. -/
theorem nearest_lt {m n : Nat} (less : m < n) (small : m < 2 ^ 53) : nearest m 1 < nearest n 1 := by
  have n_pos : 0 < n := Nat.lt_of_le_of_lt (Nat.zero_le _) less
  have low := le_leading n_pos
  rcases Nat.eq_zero_or_pos m with rfl | pos
  · rw [nearest_one n_pos]
    exact Nat.lt_of_lt_of_le (Nat.lt_of_lt_of_le (by decide) low) (Nat.le_add_right _ _)
  · have digits : m.log2 ≤ 52 := log2_lt_of_lt small
    have whole := leading_of_le digits
    rw [nearest_one pos, nearest_one n_pos]
    rcases Nat.lt_or_eq_of_le (log2_mono pos (Nat.le_of_lt less)) with shorter | same
    · have high := shifted_lt m
      rw [Nat.sub_eq_zero_of_le digits, Nat.pow_zero, Nat.mul_one, ← whole] at high
      exact Nat.lt_of_lt_of_le (by omega) (Nat.add_le_add low (magnitude_step shorter))
    · have strict : leading m < leading n := by
        rw [whole, leading_of_le (same ▸ digits), same]
        exact Nat.mul_lt_mul_of_pos_right less (Nat.two_pow_pos _)
      rw [same]
      exact Nat.add_lt_add_right strict _

/-! ### Integers -/

theorem isNaN_ofInt (i : Int) : (ofInt i).isNaN = false := by
  rw [isNaN, decide_eq_false_iff_not, Nat.not_lt]
  exact Nat.min_le_right _ _

theorem rank_ofInt (i : Int) :
    (ofInt i).rank = if i < 0 then -((min (nearest i.natAbs 1) infinity : Nat) : Int)
      else (min (nearest i.natAbs 1) infinity : Nat) := by
  simp only [ofInt, ofMagnitude, rank, decide_eq_true_eq]

theorem rank_ofInt_le {i j : Int} (le : i ≤ j) : (ofInt i).rank ≤ (ofInt j).rank := by
  rw [rank_ofInt, rank_ofInt]
  by_cases negative : j < 0
  · have mono : nearest j.natAbs 1 ≤ nearest i.natAbs 1 := nearest_mono (by omega)
    rw [if_pos (Int.lt_of_le_of_lt le negative), if_pos negative]
    omega
  · rw [if_neg negative]
    split
    · omega
    · have mono : nearest i.natAbs 1 ≤ nearest j.natAbs 1 := nearest_mono (by omega)
      omega

theorem nearest_lt_infinity {n : Nat} (small : n < 2 ^ 53) : nearest n 1 < infinity :=
  Nat.lt_of_le_of_lt (nearest_le (k := 52) Nat.one_pos (Nat.le_trans (log2_lt_of_lt (k := 52) small) (by omega)))
    (by decide)

theorem rank_ofInt_lt {i j : Int} (less : i < j) (small : i.natAbs < 2 ^ 53 ∨ j.natAbs < 2 ^ 53) :
    (ofInt i).rank < (ofInt j).rank := by
  rw [rank_ofInt, rank_ofInt]
  have grows {m n : Nat} (less : m < n) (small : m < 2 ^ 53) :
      min (nearest m 1) infinity < min (nearest n 1) infinity := by
    have strict := nearest_lt less small
    have finite := nearest_lt_infinity small
    omega
  by_cases negative : i < 0
  · have nonzero := grows (m := 0) (n := i.natAbs) (by omega) (by decide)
    rw [if_pos negative]
    split
    · have strict := grows (m := j.natAbs) (n := i.natAbs) (by omega) (by omega)
      omega
    · omega
  · have strict := grows (m := i.natAbs) (n := j.natAbs) (by omega) (by omega)
    rw [if_neg negative, if_neg (by omega)]
    omega

end GuardedGraph.Double

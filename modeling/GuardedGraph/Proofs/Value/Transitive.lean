import GuardedGraph.Proofs.Value.Comparing

/-!
The order of values along chains. It is transitive up to the integers that a float blurs (`order_transitive_iff`).
-/

namespace GuardedGraph

open Std (TransOrd TransCmp)

namespace Value

/-- Different integers that one float compares equal to. -/
structure Blurs (d : Double) (i j : Int64) : Prop where
  apart : i ≠ j
  left : (Double.ofInt i.toInt).numEq d
  right : (Double.ofInt j.toInt).numEq d

/-- Two integers beside a float that blurs them. -/
inductive Blurred : Value → Value → Value → Prop
  | first {d : Double} {i j : Int64} : Blurs d i j → Blurred (.float d) (.int i) (.int j)
  | middle {d : Double} {i j : Int64} : Blurs d i j → Blurred (.int i) (.float d) (.int j)
  | last {d : Double} {i j : Int64} : Blurs d i j → Blurred (.int i) (.int j) (.float d)

variable {a b c : Value} {x y : Ordering} {d : Double} {i j : Int64}

theorem blurred_first : Blurred (.float d) (.int i) (.int j) ↔ Blurs d i j :=
  ⟨fun (.first blurs) => blurs, .first⟩

theorem blurred_middle : Blurred (.int i) (.float d) (.int j) ↔ Blurs d i j :=
  ⟨fun (.middle blurs) => blurs, .middle⟩

theorem blurred_last : Blurred (.int i) (.int j) (.float d) ↔ Blurs d i j :=
  ⟨fun (.last blurs) => blurs, .last⟩

theorem blurs_iff (number : d.isNaN = false) : Blurs d i j ↔ i.toInt ≠ j.toInt ∧
    (Double.ofInt i.toInt).rank = d.rank ∧ (Double.ofInt j.toInt).rank = d.rank := by
  have apart : i ≠ j ↔ i.toInt ≠ j.toInt := not_congr Int64.toInt_inj.symm
  have equals (k : Int64) : (Double.ofInt k.toInt).numEq d ↔ (Double.ofInt k.toInt).rank = d.rank := by
    rw [Double.numEq_iff, Double.isNaN_ofInt, number]
    simp only [true_and]
  rw [← apart, ← equals, ← equals]
  exact ⟨fun h => ⟨h.apart, h.left, h.right⟩, fun h => ⟨h.1, h.2.1, h.2.2⟩⟩

/-- Only integers of `2 ^ 53` in size and more are blurred. -/
theorem Blurs.large (blurs : Blurs d i j) : 2 ^ 53 ≤ i.toInt.natAbs ∧ 2 ^ 53 ≤ j.toInt.natAbs := by
  have number : d.isNaN = false := (Double.numEq_iff.mp blurs.left).2.1
  obtain ⟨apart, left, right⟩ := (blurs_iff number).mp blurs
  have large : ¬(i.toInt.natAbs < 2 ^ 53 ∨ j.toInt.natAbs < 2 ^ 53) := by
    intro small
    rcases Int.lt_or_gt_of_ne apart with less | less
    · have strict := Double.rank_ofInt_lt less small
      omega
    · have strict := Double.rank_ofInt_lt less small.symm
      omega
  omega

theorem Blurred.blurs (blurred : Blurred a b c) : ∃ d j k, Blurs d j k ∧ ∀ i, .int i ∈ [a, b, c] → i = j ∨ i = k := by
  cases blurred with
  | first blurs => exact ⟨_, _, _, blurs, by simp⟩
  | middle blurs => exact ⟨_, _, _, blurs, by simp⟩
  | last blurs => exact ⟨_, _, _, blurs, by simp⟩

theorem Blurred.large (blurred : Blurred a b c) (mem : .int i ∈ [a, b, c]) : 2 ^ 53 ≤ i.toInt.natAbs := by
  obtain ⟨d, j, k, blurs, either⟩ := blurred.blurs
  obtain rfl | rfl := either i mem
  · exact blurs.large.1
  · exact blurs.large.2

/-! ### Chains of three -/

theorem compare_then {α : Type} [Ord α] [TransOrd α] {p q r : α} (hx : compare p q ≠ .gt)
    (hy : compare q r ≠ .gt) : compare p r = (compare p q).then (compare q r) := by
  cases h : compare p q with
  | lt => exact TransCmp.lt_of_lt_of_isLE h (Ordering.isLE_iff_ne_gt.mpr hy)
  | eq => exact TransCmp.congr_left h
  | gt => exact absurd h hx

theorem first_iff (number : d.isNaN = false) (hx : compare d.rank (Double.ofInt i.toInt).rank ≠ .gt)
    (hy : compare i.toInt j.toInt ≠ .gt) :
    compare d.rank (Double.ofInt j.toInt).rank =
        (compare d.rank (Double.ofInt i.toInt).rank).then (compare i.toInt j.toInt) ↔ ¬Blurs d i j := by
  rw [Int.compare_ne_gt] at hx hy
  have mono := Double.rank_ofInt_le hy
  rw [blurs_iff number]
  rcases Int.lt_or_eq_of_le hy with less | same
  · have before : (compare d.rank (Double.ofInt i.toInt).rank).then (compare i.toInt j.toInt) = .lt := by
      rw [Ordering.then_eq_lt, Int.compare_eq_lt, Int.compare_eq_eq, Int.compare_eq_lt]
      omega
    rw [before, Int.compare_eq_lt]
    omega
  · rw [same, Std.compare_self, Ordering.then_eq]
    exact iff_of_true rfl fun blurs => blurs.1 rfl

theorem last_iff (number : d.isNaN = false) (hx : compare i.toInt j.toInt ≠ .gt)
    (hy : compare (Double.ofInt j.toInt).rank d.rank ≠ .gt) :
    compare (Double.ofInt i.toInt).rank d.rank =
        (compare i.toInt j.toInt).then (compare (Double.ofInt j.toInt).rank d.rank) ↔ ¬Blurs d i j := by
  rw [Int.compare_ne_gt] at hx hy
  have mono := Double.rank_ofInt_le hx
  rw [blurs_iff number]
  rcases Int.lt_or_eq_of_le hx with less | same
  · rw [Int.compare_eq_lt.mpr less, Ordering.lt_then, Int.compare_eq_lt]
    omega
  · rw [same, Std.compare_self, Ordering.eq_then]
    exact iff_of_true rfl fun blurs => blurs.1 rfl

theorem middle_iff (number : d.isNaN = false) (hx : compare (Double.ofInt i.toInt).rank d.rank ≠ .gt)
    (hy : compare d.rank (Double.ofInt j.toInt).rank ≠ .gt) :
    compare i.toInt j.toInt =
        (compare (Double.ofInt i.toInt).rank d.rank).then (compare d.rank (Double.ofInt j.toInt).rank) ↔
      ¬Blurs d i j := by
  rw [← compare_then hx hy, blurs_iff number]
  rw [Int.compare_ne_gt] at hx hy
  rcases Int.lt_trichotomy i.toInt j.toInt with less | same | more
  · rw [Int.compare_eq_lt.mpr less, eq_comm, Int.compare_eq_lt]
    omega
  · rw [same, Std.compare_self, Std.compare_self]
    exact iff_of_true rfl fun blurs => blurs.1 rfl
  · -- the float lies between integers whose order it reverses
    have mono := Double.rank_ofInt_le (Int.le_of_lt more)
    rw [Int.compare_eq_gt.mpr more, eq_comm, Int.compare_eq_gt]
    omega

theorem not_blurred_of_instant {t : Instant} (instant : b.instant? = some t) : ¬Blurred a b c := by
  intro blurred
  cases blurred <;> exact nomatch instant

theorem chain_iff (first : a.compare? b = some x) (second : b.compare? c = some y) (hx : x ≠ .gt) (hy : y ≠ .gt) :
    a.compare? c = some (x.then y) ↔ ¬Blurred a b c := by
  rw [compare?_eq_some_iff] at first second
  cases first with
  | bools =>
    cases second with
    | bools => exact iff_of_true (congrArg some (compare_then hx hy)) nofun
    | instants hb => exact nomatch hb
  | strings =>
    cases second with
    | strings => exact iff_of_true (congrArg some (compare_then hx hy)) nofun
    | instants hb => exact nomatch hb
  | bytes =>
    cases second with
    | bytes => exact iff_of_true (congrArg some (compare_then hx hy)) nofun
    | instants hb => exact nomatch hb
  | instants ha hb =>
    cases second with
    | instants hb' hc =>
      obtain rfl := Option.some.inj (hb.symm.trans hb')
      rw [compare?_instants ha hc, compare_then hx hy]
      exact iff_of_true rfl (not_blurred_of_instant hb)
    | _ => exact nomatch hb
  | ints =>
    cases second with
    | ints => exact iff_of_true (congrArg some (compare_then hx hy)) nofun
    | intFloat _ hd =>
      rw [compare?_eq_some_iff.mpr (.intFloat _ hd), Option.some_inj, blurred_last]
      exact last_iff hd hx hy
    | instants hb => exact nomatch hb
  | floats ha =>
    cases second with
    | floats _ hc =>
      rw [compare?_eq_some_iff.mpr (.floats ha hc), compare_then hx hy]
      exact iff_of_true rfl nofun
    | floatInt =>
      rw [compare?_eq_some_iff.mpr (.floatInt _ ha), compare_then hx hy]
      exact iff_of_true rfl nofun
    | instants hb => exact nomatch hb
  | intFloat _ hb =>
    cases second with
    | floats _ hc =>
      rw [compare?_eq_some_iff.mpr (.intFloat _ hc), compare_then hx hy]
      exact iff_of_true rfl nofun
    | floatInt =>
      rw [compare?_eq_some_iff.mpr (.ints _ _), Option.some_inj, blurred_middle]
      exact middle_iff hb hx hy
    | instants hb => exact nomatch hb
  | floatInt _ ha =>
    cases second with
    | ints =>
      rw [compare?_eq_some_iff.mpr (.floatInt _ ha), Option.some_inj, blurred_first]
      exact first_iff ha hx hy
    | intFloat _ hc =>
      rw [compare?_eq_some_iff.mpr (.floats ha hc), compare_then hx hy]
      exact iff_of_true rfl nofun
    | instants hb => exact nomatch hb

end Value

/-! ### Comparators along chains -/

namespace Comparator

variable {a b c : Value}

theorem lessEqual_iff : lessEqual.holds a b ↔ ∃ x, a.compare? b = some x ∧ x ≠ .gt := by
  cases compared : a.compare? b with
  | none => simp [holds_of_not_compared lessEqual compared rfl]
  | some x => simp [holds_of_compared compared]

theorem holds_along (hab : lessEqual.holds a b) (hbc : lessEqual.holds b c) (clear : ¬Value.Blurred a b c) :
    lessEqual.holds a c ∧ less.holds a c = (less.holds a b || less.holds b c) ∧
      equal.holds a c = (equal.holds a b && equal.holds b c) := by
  obtain ⟨x, first, hx⟩ := lessEqual_iff.mp hab
  obtain ⟨y, second, hy⟩ := lessEqual_iff.mp hbc
  have both := (Value.chain_iff first second hx hy).mpr clear
  simp only [holds_of_compared both, holds_of_compared first, holds_of_compared second]
  cases x <;> cases y <;> first | decide | exact absurd rfl hx | exact absurd rfl hy

end Comparator

theorem Predicate.range_iff {name : String} {low high v : Value} : (range name low high).holds v ↔
    Comparator.lessEqual.holds low v ∧ Comparator.lessEqual.holds v high := by
  rw [holds, Bool.and_eq_true, ← Comparator.greaterEqual.flip_holds, Comparator.flip]

open Comparator (equal less lessEqual)

/-- The order of values is transitive exactly up to what a float blurs, which is integers of `2 ^ 53` in size and
more. Everywhere else the comparators and ranges follow one order. -/
theorem order_transitive_iff {a b c : Value} {x y : Ordering} (first : a.compare? b = some x)
    (second : b.compare? c = some y) (hx : x ≠ .gt) (hy : y ≠ .gt) :
    (a.compare? c = some (x.then y) ↔ ¬Value.Blurred a b c) ∧
    (Value.Blurred a b c → ∀ i, .int i ∈ [a, b, c] → 2 ^ 53 ≤ i.toInt.natAbs) ∧
    (¬Value.Blurred a b c →
      lessEqual.holds a c ∧ less.holds a c = (less.holds a b || less.holds b c) ∧
      equal.holds a c = (equal.holds a b && equal.holds b c) ∧
      ∀ name w, ((Predicate.range name b w).holds c → (Predicate.range name a w).holds c) ∧
        ((Predicate.range name w b).holds a → (Predicate.range name w c).holds a)) := by
  refine ⟨Value.chain_iff first second hx hy, fun blurred i => blurred.large, fun clear => ?_⟩
  obtain ⟨outer, less, equal⟩ := Comparator.holds_along (Comparator.lessEqual_iff.mpr ⟨x, first, hx⟩)
    (Comparator.lessEqual_iff.mpr ⟨y, second, hy⟩) clear
  refine ⟨outer, less, equal, fun name w => ⟨fun inside => ?_, fun inside => ?_⟩⟩
  · exact Predicate.range_iff.mpr ⟨outer, (Predicate.range_iff.mp inside).2⟩
  · exact Predicate.range_iff.mpr ⟨(Predicate.range_iff.mp inside).1, outer⟩

/-- The float nearest to `2 ^ 53 + 1` is `2 ^ 53`, and equals both. -/
theorem order_broken_past_precision :
    (Value.float (.ofInt 9007199254740993)).compare? (.int 9007199254740992) = some .eq ∧
    (Value.int 9007199254740992).compare? (.int 9007199254740993) = some .lt ∧
    (Value.float (.ofInt 9007199254740993)).compare? (.int 9007199254740993) ≠ some .lt := by
  have first : (Value.float (.ofInt 9007199254740993)).compare? (.int 9007199254740992) = some .eq := by decide
  have second : (Value.int 9007199254740992).compare? (.int 9007199254740993) = some .lt := by decide
  refine ⟨first, second, fun both => ?_⟩
  refine (order_transitive_iff first second (by decide) (by decide)).1.mp both (.first ⟨?_, ?_, ?_⟩)
  · decide
  · decide
  · decide

end GuardedGraph

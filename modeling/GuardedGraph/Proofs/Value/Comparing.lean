import GuardedGraph.Proofs.Number.Rounding
import GuardedGraph.Query.Predicate

/-!
How values compare, seen from either side. The comparators agree with each other and with the families of values
(`comparators_coherent`).
-/

namespace GuardedGraph

open Std (OrientedOrd)

namespace Double

variable {x y : Double}

theorem compare?_eq_some_iff {o : Ordering} :
    x.compare? y = some o ↔ x.isNaN = false ∧ y.isNaN = false ∧ o = compare x.rank y.rank := by
  unfold compare?
  cases x.isNaN <;> cases y.isNaN <;> simp [eq_comm]

theorem numEq_iff : x.numEq y ↔ x.isNaN = false ∧ y.isNaN = false ∧ x.rank = y.rank := by
  rw [numEq, beq_iff_eq, compare?_eq_some_iff, eq_comm (a := Ordering.eq), Std.compare_eq_iff_eq]

theorem numEq_comm (x y : Double) : x.numEq y = y.numEq x := by
  rw [Bool.eq_iff_iff, numEq_iff, numEq_iff, eq_comm (a := x.rank)]
  exact and_left_comm

end Double

namespace Value

def isNaN : Value → Bool
  | .float d => d.isNaN
  | _ => false

/-- A point in time; a date stands for its midnight. -/
def instant? : Value → Option Instant
  | .date d => some (.midnight d)
  | .dateTime t => some t
  | _ => none

/-! ### Two values that compare -/

/-- All ways in which two values compare. -/
inductive Compared : Value → Value → Ordering → Prop
  | bools (a b : Bool) : Compared (.bool a) (.bool b) (compare a b)
  | strings (a b : String) : Compared (.string a) (.string b) (compare a b)
  | bytes (a b : ByteArray) : Compared (.bytes a) (.bytes b) (compare a.data.toList b.data.toList)
  | instants {a b : Value} {s t : Instant} : a.instant? = some s → b.instant? = some t →
      Compared a b (compare s.rank t.rank)
  | ints (i j : Int64) : Compared (.int i) (.int j) (compare i.toInt j.toInt)
  | floats {x y : Double} : x.isNaN = false → y.isNaN = false →
      Compared (.float x) (.float y) (compare x.rank y.rank)
  | intFloat (i : Int64) {d : Double} : d.isNaN = false →
      Compared (.int i) (.float d) (compare (Double.ofInt i.toInt).rank d.rank)
  | floatInt {d : Double} (i : Int64) : d.isNaN = false →
      Compared (.float d) (.int i) (compare d.rank (Double.ofInt i.toInt).rank)

variable {a b : Value} {o : Ordering}

theorem compare_midnight (d e : Date) :
    compare (Instant.midnight d).rank (Instant.midnight e).rank = compare d.rank e.rank := by
  have rank (d : Date) : (Instant.midnight d).rank = d.rank * 172800000000000 := by
    simp only [Instant.rank, Instant.midnight]
    omega
  rw [rank, rank]
  cases h : compare d.rank e.rank with
  | lt =>
    rw [Std.compare_eq_lt] at h ⊢
    omega
  | eq =>
    rw [Std.compare_eq_iff_eq] at h ⊢
    omega
  | gt =>
    rw [Std.compare_eq_gt] at h ⊢
    omega

theorem compare?_instants {s t : Instant} (ha : a.instant? = some s) (hb : b.instant? = some t) :
    a.compare? b = some (compare s.rank t.rank) := by
  cases a <;> cases b <;> simp only [instant?, reduceCtorEq, Option.some.injEq] at ha hb
  all_goals
    subst ha hb
    simp only [compare?, compare_midnight]

theorem compared_of_instants {s t : Instant} (ha : a.instant? = some s) (hb : b.instant? = some t)
    (h : a.compare? b = some o) : Compared a b o := by
  obtain rfl := Option.some.inj ((compare?_instants ha hb).symm.trans h)
  exact .instants ha hb

theorem compare?_eq_some_iff : a.compare? b = some o ↔ Compared a b o := by
  constructor
  · intro h
    revert h
    fun_cases compare? a b <;> intro h
    case case1 x y => exact Option.some.inj h ▸ .bools x y
    case case2 i j => exact Option.some.inj h ▸ .ints i j
    case case3 x y =>
      obtain ⟨hx, hy, rfl⟩ := Double.compare?_eq_some_iff.mp h
      exact .floats hx hy
    case case4 i d =>
      obtain ⟨-, hd, rfl⟩ := Double.compare?_eq_some_iff.mp h
      exact .intFloat i hd
    case case5 d i =>
      obtain ⟨hd, -, rfl⟩ := Double.compare?_eq_some_iff.mp h
      exact .floatInt i hd
    case case6 x y => exact Option.some.inj h ▸ .strings x y
    case case7 x y => exact Option.some.inj h ▸ .bytes x y
    case case12 => exact absurd h (by simp)
    all_goals exact compared_of_instants rfl rfl h
  · intro h
    cases h with
    | instants ha hb => exact compare?_instants ha hb
    | floats hx hy => exact Double.compare?_eq_some_iff.mpr ⟨hx, hy, rfl⟩
    | intFloat i hd => exact Double.compare?_eq_some_iff.mpr ⟨Double.isNaN_ofInt _, hd, rfl⟩
    | floatInt i hd => exact Double.compare?_eq_some_iff.mpr ⟨hd, Double.isNaN_ofInt _, rfl⟩
    | _ => rfl

theorem Compared.swap (h : Compared a b o) : Compared b a o.swap := by
  cases h with
  | instants ha hb =>
    rw [← OrientedOrd.eq_swap]
    exact .instants hb ha
  | floats hx hy =>
    rw [← OrientedOrd.eq_swap]
    exact .floats hy hx
  | intFloat i hd =>
    rw [← OrientedOrd.eq_swap]
    exact .floatInt i hd
  | floatInt i hd =>
    rw [← OrientedOrd.eq_swap]
    exact .intFloat i hd
  | _ =>
    rw [← OrientedOrd.eq_swap]
    constructor

theorem compare?_swap (a b : Value) : b.compare? a = (a.compare? b).map Ordering.swap := by
  have turned {a b : Value} {o : Ordering} (h : a.compare? b = some o) : b.compare? a = some o.swap :=
    compare?_eq_some_iff.mpr (compare?_eq_some_iff.mp h).swap
  cases h : a.compare? b with
  | some o => exact turned h
  | none =>
    cases h' : b.compare? a with
    | none => rfl
    | some o => exact absurd (h.symm.trans (turned h')) (by simp)

theorem Compared.families (compared : Compared a b o) : a.isNull = false ∧ b.isNull = false ∧
    a.family = b.family ∧ a.family.orderable ∧ a.isNaN = false ∧ b.isNaN = false := by
  have temporal {v : Value} {t : Instant} (h : v.instant? = some t) :
      v.isNull = false ∧ v.family = .temporal ∧ v.isNaN = false := by
    cases v <;> first | exact ⟨rfl, rfl, rfl⟩ | exact nomatch h
  cases compared with
  | instants ha hb =>
    obtain ⟨aNull, aFamily, aNumber⟩ := temporal ha
    obtain ⟨bNull, bFamily, bNumber⟩ := temporal hb
    rw [aFamily, bFamily]
    exact ⟨aNull, bNull, rfl, rfl, aNumber, bNumber⟩
  | floats hx hy => exact ⟨rfl, rfl, rfl, rfl, hx, hy⟩
  | intFloat _ hd => exact ⟨rfl, rfl, rfl, rfl, rfl, hd⟩
  | floatInt _ hd => exact ⟨rfl, rfl, rfl, rfl, hd, rfl⟩
  | _ => exact ⟨rfl, rfl, rfl, rfl, rfl, rfl⟩

theorem compares_of_family (same : a.family = b.family) (orderable : a.family.orderable) (ha : a.isNaN = false)
    (hb : b.isNaN = false) : ∃ o, Compared a b o := by
  cases a with
  | null | list | geo | stream => exact nomatch orderable
  | bool x =>
    cases b <;> first | exact ⟨_, .bools _ _⟩ | exact nomatch same
  | string s =>
    cases b <;> first | exact ⟨_, .strings _ _⟩ | exact nomatch same
  | bytes x =>
    cases b <;> first | exact ⟨_, .bytes _ _⟩ | exact nomatch same
  | int i =>
    cases b <;> first | exact ⟨_, .ints _ _⟩ | exact ⟨_, .intFloat _ hb⟩ | exact nomatch same
  | float d =>
    cases b <;> first | exact ⟨_, .floatInt _ ha⟩ | exact ⟨_, .floats ha hb⟩ | exact nomatch same
  | date | dateTime =>
    cases b <;> first | exact ⟨_, .instants rfl rfl⟩ | exact nomatch same

/-- Values compare within the families that have an order, NaN apart. -/
theorem compare?_isSome_iff : (a.compare? b).isSome ↔ a.isNull = false ∧ b.isNull = false ∧
    a.family = b.family ∧ a.family.orderable ∧ a.isNaN = false ∧ b.isNaN = false := by
  constructor
  · intro compares
    obtain ⟨o, compares⟩ := Option.isSome_iff_exists.mp compares
    exact (compare?_eq_some_iff.mp compares).families
  · rintro ⟨-, -, same, orderable, ha, hb⟩
    obtain ⟨o, compared⟩ := compares_of_family same orderable ha hb
    exact Option.isSome_of_eq_some (compare?_eq_some_iff.mpr compared)

theorem isNull_of_orderable (orderable : a.family.orderable) : a.isNull = false := by
  cases a with
  | null => exact absurd orderable (by decide)
  | _ => rfl

/-! ### Two equal contents -/

theorem Stream.same_comm (s t : Stream) : s.same t = t.same s := by
  obtain ⟨k, x⟩ := s
  obtain ⟨l, y⟩ := t
  have kinds : (k == l) = (l == k) := BEq.comm
  cases x with
  | inline c =>
    cases y with
    | inline d => exact congrArg₂ and kinds (BEq.comm (a := c.data))
    | external => exact congrArg (and · false) kinds
  | external i m =>
    cases y with
    | inline => exact congrArg (and · false) kinds
    | external j n => exact congrArg₂ and kinds (congrArg₂ and BEq.comm BEq.comm)

end Value

theorem Geo.Point.same_comm (p q : Point) : p.same q = q.same p := by
  rw [same, same, p.latitude.numEq_comm, p.longitude.numEq_comm]

theorem Geo.Shape.same_comm (s t : Shape) : s.same t = t.same s := by
  cases s <;> cases t <;> simp only [same, Point.same_comm, Double.numEq_comm]

namespace Value

theorem same_comm (a b : Value) : a.same b = b.same a := by
  induction a, b using same.induct (motive_2 := fun as bs => sameItems as bs = sameItems bs as) with
  | case1 => rfl
  | case2 x y => exact BEq.comm
  | case3 i j => exact BEq.comm
  | case4 x y => exact Double.numEq_comm x y
  | case5 x y => exact BEq.comm
  | case6 x y => exact BEq.comm (a := x.data)
  | case7 as bs ih => exact ih
  | case8 x y => exact BEq.comm
  | case9 x y => exact BEq.comm
  | case10 x y => exact Geo.Shape.same_comm x y
  | case11 x y => exact Stream.same_comm x y
  | case12 a b => cases a <;> cases b <;> first | rfl | simp_all
  | case13 => rfl
  | case14 x xs y ys ih ihs => rw [sameItems, sameItems, ih, ihs]
  | case15 xs ys => cases xs <;> cases ys <;> simp_all [sameItems]

theorem equal_comm (a b : Value) : a.equal b = b.equal a := by
  rw [equal, equal, compare?_swap a b]
  cases a.compare? b with
  | none => exact same_comm a b
  | some o => cases o <;> rfl

end Value

/-! ### Comparators -/

namespace Comparator

variable {a b : Value} {o : Ordering}

/-- The comparator with its sides exchanged. -/
def flip : Comparator → Comparator
  | equal => equal
  | notEqual => notEqual
  | greater => less
  | greaterEqual => lessEqual
  | less => greater
  | lessEqual => greaterEqual

theorem flip_holds (c : Comparator) (a b : Value) : c.flip.holds b a = c.holds a b := by
  unfold holds
  rw [Bool.or_comm, Value.compare?_swap a b, Value.equal_comm b a]
  cases c <;> rcases a.compare? b with _ | _ | _ | _ <;> rfl

theorem holds_of_null (c : Comparator) (null : a.isNull || b.isNull) : c.holds a b = false := if_pos null

/-- What the comparators say of two values that compare. -/
theorem holds_of_compared (compared : a.compare? b = some o) (c : Comparator) : c.holds a b = match c with
    | equal => o == .eq
    | notEqual => o != .eq
    | greater => o == .gt
    | greaterEqual => o != .lt
    | less => o == .lt
    | lessEqual => o != .gt := by
  obtain ⟨ha, hb, -⟩ := Value.compare?_isSome_iff.mp (Option.isSome_of_eq_some compared)
  unfold holds Value.equal
  rw [ha, hb, compared]
  cases c <;> cases o <;> rfl

theorem holds_of_not_compared (c : Comparator) (apart : a.compare? b = none) (ordering : c.ordering) :
    c.holds a b = false := by
  unfold holds
  rw [apart]
  split
  · rfl
  · cases c <;> first | rfl | exact absurd ordering (by decide)

theorem notEqual_holds (a b : Value) (ha : a.isNull = false) (hb : b.isNull = false) :
    notEqual.holds a b = !equal.holds a b := by
  simp [holds, ha, hb]

/-- How the comparators agree on two values, in either order. -/
structure Coherent (a b : Value) : Prop where
  compares : (a.compare? b).isSome ↔ a.isNull = false ∧ b.isNull = false ∧
    a.family = b.family ∧ a.family.orderable ∧ a.isNaN = false ∧ b.isNaN = false
  reversed : b.compare? a = (a.compare? b).map .swap
  flipped (c : Comparator) : c.flip.holds b a = c.holds a b
  null (c : Comparator) : a.isNull || b.isNull → c.holds a b = false
  opposite : a.isNull = false → b.isNull = false → notEqual.holds a b = !equal.holds a b
  ordered : (a.compare? b).isSome → [less, equal, greater].countP (·.holds a b) = 1 ∧
    lessEqual.holds a b = (less.holds a b || equal.holds a b) ∧
    greaterEqual.holds a b = (greater.holds a b || equal.holds a b)
  unordered (c : Comparator) : a.compare? b = none → c.ordering → c.holds a b = false

theorem coherent (a b : Value) : Coherent a b where
  compares := Value.compare?_isSome_iff
  reversed := Value.compare?_swap a b
  flipped c := c.flip_holds a b
  null c := c.holds_of_null
  opposite := notEqual_holds a b
  ordered compared := by
    obtain ⟨o, compared⟩ := Option.isSome_iff_exists.mp compared
    simp only [List.countP_cons, List.countP_nil, holds_of_compared compared]
    cases o <;> decide
  unordered c := c.holds_of_not_compared

end Comparator

namespace Predicate

/-- The operands that values are put in order with. -/
def bounds : Predicate → List Value
  | has _ c operand => if c.ordering then [operand] else []
  | range _ low high => [low, high]
  | within .. => []

variable {declared : Option Value.Kind}

theorem requireDeclared_ok {k d : Value.Kind} (h : requireDeclared declared k = .ok ()) (mem : d ∈ declared) :
    k.family = d.family := by
  cases mem
  simp only [requireDeclared] at h
  split at h
  case isTrue same => exact same.symm
  case isFalse => exact nomatch h

theorem check_has {name : String} {c : Comparator} {w : Value} (sense : (has name c w).check declared = .ok ())
    (ordering : c.ordering) : w.family.orderable ∧ ∀ d ∈ declared, w.family = d.family := by
  simp only [check] at sense
  split at sense
  case h_1 => exact nomatch sense
  case h_2 k kind =>
    have family : w.family = k.family := by rw [Value.family, kind, Option.map_some, Option.getD_some]
    rw [family]
    split at sense
    case isTrue => exact nomatch sense
    case isFalse fits =>
      refine ⟨?_, fun d => requireDeclared_ok sense⟩
      rw [ordering] at fits
      simpa using fits

theorem check_range {name : String} {low high : Value} (sense : (range name low high).check declared = .ok ()) :
    low.family.orderable ∧ high.family = low.family ∧ ∀ d ∈ declared, low.family = d.family := by
  simp only [check] at sense
  split at sense
  case h_2 => exact nomatch sense
  case h_1 k l lowKind highKind =>
    have lowFamily : low.family = k.family := by rw [Value.family, lowKind, Option.map_some, Option.getD_some]
    have highFamily : high.family = l.family := by rw [Value.family, highKind, Option.map_some, Option.getD_some]
    rw [lowFamily, highFamily]
    split at sense
    case isTrue => exact nomatch sense
    case isFalse fits =>
      simp only [Bool.or_eq_true, Bool.not_eq_true', decide_eq_true_eq, not_or, Bool.not_eq_false,
        Decidable.not_not] at fits
      exact ⟨fits.1, fits.2.symm, fun d => requireDeclared_ok sense⟩

/-- A condition that makes sense puts values in order within one family, the declared one if there is one. -/
theorem bounds_of_check {p : Predicate} {w : Value} (sense : p.check declared = .ok ()) (mem : w ∈ p.bounds) :
    w.family.orderable ∧ ∀ d ∈ declared, w.family = d.family := by
  cases p with
  | has name c operand =>
    simp only [bounds] at mem
    split at mem
    case isTrue ordering =>
      obtain rfl := List.mem_singleton.mp mem
      exact check_has sense ordering
    case isFalse => exact absurd mem List.not_mem_nil
  | range name low high =>
    obtain ⟨orderable, same, fits⟩ := check_range sense
    obtain rfl | rfl : w = low ∨ w = high := by simpa [bounds] using mem
    · exact ⟨orderable, fits⟩
    · rw [same]
      exact ⟨orderable, fits⟩
  | within => exact absurd mem List.not_mem_nil

end Predicate

/-- The comparators agree on all values, and an operand that a checked condition puts values in order with compares
with every value of its family but NaN. -/
theorem comparators_coherent : (∀ a b, Comparator.Coherent a b) ∧
    ∀ declared (p : Predicate), p.check declared = .ok () → ∀ w ∈ p.bounds, w.isNaN = false →
      (∀ v : Value, v.family = w.family → v.isNaN = false → (v.compare? w).isSome ∧ (w.compare? v).isSome) ∧
      ∀ k ∈ declared, w.family = k.family := by
  refine ⟨Comparator.coherent, fun declared p sense w mem number => ?_⟩
  obtain ⟨orderable, declares⟩ := p.bounds_of_check sense mem
  refine ⟨fun v same vNumber => ?_, declares⟩
  have compares : (v.compare? w).isSome := by
    refine Value.compare?_isSome_iff.mpr ⟨?_, ?_, same, same ▸ orderable, vNumber, number⟩
    · exact Value.isNull_of_orderable (same ▸ orderable)
    · exact Value.isNull_of_orderable orderable
  refine ⟨compares, ?_⟩
  rw [Value.compare?_swap, Option.isSome_map]
  exact compares

/-- Ages between an integer and a float: integers and floats compare with both bounds. -/
theorem mixed_range_compares : ∃ p : Predicate, p.check (some .integer) = .ok () ∧
    p.bounds = [.int 25, .float (.ofInt 30)] ∧ ∀ w ∈ p.bounds,
      ((Value.float (.ofInt 27)).compare? w).isSome ∧ ((Value.int 27).compare? w).isSome := by
  have sense : (Predicate.range "age" (.int 25) (.float (.ofInt 30))).check (some .integer) = .ok () := rfl
  refine ⟨_, sense, rfl, fun w mem => ?_⟩
  have numeric : w.isNaN = false ∧ w.family = .numeric := by
    obtain rfl | rfl : w = .int 25 ∨ w = .float (.ofInt 30) := by simpa [Predicate.bounds] using mem
    · exact ⟨rfl, rfl⟩
    · exact ⟨Double.isNaN_ofInt 30, rfl⟩
  obtain ⟨compares, -⟩ := comparators_coherent.2 _ _ sense w mem numeric.1
  have float := compares (.float (.ofInt 27)) numeric.2.symm (Double.isNaN_ofInt 27)
  have int := compares (.int 27) numeric.2.symm rfl
  exact ⟨float.1, int.1⟩

end GuardedGraph

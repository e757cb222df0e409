import GuardedGraph.Json.Reader

/-! Numbers: what is written for one is read as it was spelt, whatever follows that cannot go on with it. -/

namespace GuardedGraph.Json

/-! ### Digits -/

/-- One digit or more. -/
def Digits (ds : List Char) : Prop := ds ≠ [] ∧ ∀ c ∈ ds, c.isDigit = true

theorem isDigit_iff (c : Char) : c.isDigit = true ↔ 0x30 ≤ c.toNat ∧ c.toNat ≤ 0x39 := by
  simp [Char.isDigit, UInt32.le_iff_toNat_le, ← Char.toNat_val]

theorem toNat_ascii {c : Char} (small : c.toNat < 0x80) : (ascii c).toNat = c.toNat := by
  rw [ascii, UInt32.toNat_toUInt8]
  exact Nat.mod_eq_of_lt (by rw [Char.toNat] at small; omega)

theorem isDigit_ascii {c : Char} (digit : c.isDigit = true) : isDigit (ascii c) = true := by
  have ⟨low, high⟩ := (isDigit_iff c).mp digit
  have same := toNat_ascii (c := c) (by omega)
  simp only [isDigit, Bool.and_eq_true, decide_eq_true_eq, UInt8.le_iff_toNat_le, same]
  exact ⟨low, high⟩

theorem digitsOf_ascii {ds : List Char} (digits : ∀ c ∈ ds, c.isDigit = true) : digitsOf (ds.map ascii) = ds := by
  rw [digitsOf, List.map_map]
  refine (List.map_congr_left fun c mem => ?_).trans (List.map_id ds)
  have ⟨_, high⟩ := (isDigit_iff c).mp (digits c mem)
  rw [Function.comp_apply, toNat_ascii (by omega), Char.ofNat_toNat, id]

/-- What cannot go on with a run of digits. -/
def EndsDigits (rest : List UInt8) : Prop := ∀ b ∈ rest.head?, isDigit b = false

theorem digits?_append {ds : List Char} (digits : Digits ds) {rest : List UInt8} (ends : EndsDigits rest) :
    digits? (ds.map ascii ++ rest) = some (ds, rest) := by
  have all : ∀ b ∈ ds.map ascii, isDigit b = true := fun b mem => by
    obtain ⟨c, hc, rfl⟩ := List.mem_map.mp mem
    exact isDigit_ascii (digits.2 c hc)
  have stop : rest.takeWhile isDigit = [] ∧ rest.dropWhile isDigit = rest := by
    cases rest with
    | nil => exact ⟨rfl, rfl⟩
    | cons b rest => simp [ends b rfl]
  rw [digits?, List.takeWhile_append_of_pos all, List.dropWhile_append_of_pos all, stop.1, stop.2, List.append_nil,
    digitsOf_ascii digits.2]
  simp [digits.1]

/-! ### Parts of a number -/

/-- What cannot go on with a number. -/
def EndsNumber (rest : List UInt8) : Prop := ∀ b ∈ rest.head?, isDigit b = false ∧ b ∉ [0x2e, 0x65, 0x45]

theorem EndsNumber.digits {rest : List UInt8} (ends : EndsNumber rest) : EndsDigits rest := fun b mem => (ends b mem).1

/-- A number that is spelt as JSON allows it. -/
structure Number.Written (n : Number) : Prop where
  whole : Digits n.whole
  plain : n.whole.length = 1 ∨ n.whole.head? ≠ some '0'
  fraction : ∀ c ∈ n.fraction, c.isDigit = true
  exponent : ∀ e ∈ n.exponent, Digits e.2

namespace Number

def writeFraction (ds : List Char) : List UInt8 := if ds.isEmpty then [] else 0x2e :: ds.map ascii

def writeExponent : Option (Mark × List Char) → List UInt8
  | none => []
  | some (m, ds) => 0x65 :: m.write ++ ds.map ascii

theorem write_eq (n : Number) :
    n.write = (if n.negative then [0x2d] else []) ++ (n.whole.map ascii ++
      (writeFraction n.fraction ++ writeExponent n.exponent)) := by
  rw [write, writeFraction, List.append_assoc, List.append_assoc]
  cases n.exponent <;> rfl

end Number

open Number

theorem exponent?_append {e : Option (Mark × List Char)} (digits : ∀ p ∈ e, Digits p.2) {rest : List UInt8}
    (ends : EndsNumber rest) : exponent? (writeExponent e ++ rest) = some (e, rest) := by
  cases e with
  | none =>
    cases rest with
    | nil => rfl
    | cons b rest =>
      have other := (ends b rfl).2
      simp only [List.mem_cons, List.not_mem_nil, or_false, not_or] at other
      exact if_neg fun h => h.elim other.2.1 other.2.2
  | some p =>
    obtain ⟨m, ds⟩ := p
    have run := digits?_append (digits _ rfl) ends.digits
    show exponent? (0x65 :: m.write ++ ds.map ascii ++ rest) = _
    cases m with
    | plus => exact congrArg (Option.map _) run
    | minus => exact congrArg (Option.map _) run
    | bare =>
      obtain ⟨nonempty, all⟩ := digits _ rfl
      obtain ⟨c, cs, rfl⟩ := List.exists_cons_of_ne_nil nonempty
      have ⟨low, high⟩ := (isDigit_iff c).mp (all c List.mem_cons_self)
      have same := toNat_ascii (c := c) (by omega)
      have unsigned : ∀ b : UInt8, b.toNat < 0x30 → ascii c ≠ b := fun b small h => by
        rw [h] at same
        omega
      show exponent? (0x65 :: ascii c :: (cs.map ascii ++ rest)) = _
      rw [exponent?, if_pos (.inl rfl)]
      · exact congrArg (Option.map _) run
      · exact fun _ h => unsigned 0x2b (by decide) (List.cons.inj h).1
      · exact fun _ h => unsigned 0x2d (by decide) (List.cons.inj h).1

theorem fraction?_append {ds : List Char} (digits : ∀ c ∈ ds, c.isDigit = true) {rest : List UInt8}
    (ends : EndsDigits rest) (point : rest.head? ≠ some 0x2e) :
    fraction? (writeFraction ds ++ rest) = some (ds, rest) := by
  cases ds with
  | nil =>
    cases rest with
    | nil => rfl
    | cons b rest =>
      show fraction? (b :: rest) = _
      rw [fraction?]
      rintro _ ⟨⟩
      exact point rfl
  | cons c ds => exact digits?_append ⟨by simp, digits⟩ ends

/-! ### Numbers -/

theorem endsDigits_writeExponent {e : Option (Mark × List Char)} {rest : List UInt8} (ends : EndsNumber rest) :
    EndsDigits (writeExponent e ++ rest) ∧ (writeExponent e ++ rest).head? ≠ some 0x2e := by
  cases e with
  | none => exact ⟨ends.digits, fun h => (ends _ h).2 (by simp)⟩
  | some p => exact ⟨fun b mem => by obtain rfl := Option.some.inj mem; decide, by simp [writeExponent]⟩

theorem unsigned?_append {n : Number} (written : n.Written) {rest : List UInt8} (ends : EndsNumber rest) :
    unsigned? n.negative (n.whole.map ascii ++ (writeFraction n.fraction ++ writeExponent n.exponent) ++ rest) =
      some (n, rest) := by
  have ⟨after, point⟩ := endsDigits_writeExponent (e := n.exponent) ends
  have first : EndsDigits (writeFraction n.fraction ++ (writeExponent n.exponent ++ rest)) := by
    unfold writeFraction
    split
    · exact after
    · intro b mem
      obtain rfl := Option.some.inj mem
      decide
  have whole : whole? (n.whole.map ascii ++ (writeFraction n.fraction ++ (writeExponent n.exponent ++ rest))) =
      some (n.whole, writeFraction n.fraction ++ (writeExponent n.exponent ++ rest)) := by
    rw [whole?, digits?_append written.whole first, Option.bind_some, if_pos written.plain]
  have fraction := fraction?_append written.fraction after point
  have exponent := exponent?_append written.exponent ends
  rw [List.append_assoc, List.append_assoc, unsigned?, whole]
  simp only [bind, Option.bind, fraction, exponent]
  rfl

theorem number?_write {n : Number} (written : n.Written) {rest : List UInt8} (ends : EndsNumber rest) :
    number? (n.write ++ rest) = some (n, rest) := by
  have run := unsigned?_append written ends
  rw [write_eq]
  cases sign : n.negative with
  | true =>
    rw [sign] at run
    exact run
  | false =>
    rw [sign] at run
    obtain ⟨c, cs, whole⟩ := List.exists_cons_of_ne_nil written.whole.1
    have ⟨low, high⟩ := (isDigit_iff c).mp (written.whole.2 c (whole ▸ List.mem_cons_self))
    have same := toNat_ascii (c := c) (by omega)
    show number? (n.whole.map ascii ++ _ ++ rest) = _
    rw [number?, run]
    intro _ h
    rw [whole] at h
    rw [(List.cons.inj h).1] at same
    simp at same
    omega

/-! ### Numbers that are written -/

theorem digits_toDigits (n : Nat) : Digits (Nat.toDigits 10 n) :=
  ⟨Nat.toDigits_ne_nil, fun _ mem => Nat.isDigit_of_mem_toDigits (by decide) (by decide) mem⟩

theorem head?_toDigits {n : Nat} (pos : 0 < n) : (Nat.toDigits 10 n).head? ≠ some '0' := by
  induction n using Nat.strongRecOn with
  | ind n ih =>
    rw [Nat.toDigits_eq_if (by decide)]
    split
    · rename_i small
      have all : ∀ m : Fin 10, 0 < m.val → [m.val.digitChar].head? ≠ some '0' := by decide
      exact all ⟨n, small⟩ pos
    · rename_i large
      have := ih (n / 10) (by omega) (by omega)
      cases digits : Nat.toDigits 10 (n / 10) with
      | nil => exact absurd digits Nat.toDigits_ne_nil
      | cons c cs => rwa [digits] at this

theorem plain_toDigits (n : Nat) : (Nat.toDigits 10 n).length = 1 ∨ (Nat.toDigits 10 n).head? ≠ some '0' := by
  rcases Nat.eq_zero_or_pos n with rfl | pos
  · exact .inl rfl
  · exact .inr (head?_toDigits pos)

theorem written_ofInt (i : Int) : (Number.ofInt i).Written where
  whole := digits_toDigits _
  plain := plain_toDigits _
  fraction := by simp [Number.ofInt]
  exponent := by simp [Number.ofInt]

/-- A layout with digits only, and no zero in front of others. -/
structure Spelt (l : Layout) : Prop where
  whole : Digits l.whole
  plain : l.whole.length = 1 ∨ l.whole.head? ≠ some '0'
  fraction : ∀ c ∈ l.fraction, c.isDigit = true

theorem isDigit_zeros {n : Nat} {c : Char} (mem : c ∈ Layout.zeros n) : c.isDigit = true := by
  rw [List.eq_of_mem_replicate mem]
  rfl

theorem spelt_take {n : Nat} (pos : 0 < n) {k : Nat} (some : 0 < k) (e : Option Int) :
    Spelt ⟨(Nat.toDigits 10 n).take k, (Nat.toDigits 10 n).drop k, e⟩ where
  whole := by
    refine ⟨fun none => ?_, fun c mem => (digits_toDigits n).2 c (List.mem_of_mem_take mem)⟩
    rcases List.take_eq_nil_iff.mp none with zero | empty
    · omega
    · exact Nat.toDigits_ne_nil empty
  plain := by
    right
    show ((Nat.toDigits 10 n).take k).head? ≠ _
    rw [List.head?_take, if_neg (by omega)]
    exact head?_toDigits pos
  fraction c mem := (digits_toDigits n).2 c (List.mem_of_mem_drop mem)

theorem spelt_positional (d : Decimal) : Spelt (Layout.positional d) := by
  have zero : Digits ['0'] := ⟨List.cons_ne_nil _ _, List.forall_mem_singleton.mpr rfl⟩
  have ds := digits_toDigits d.coefficient
  unfold Layout.positional
  simp only
  split
  · exact ⟨zero, .inl rfl, by simp⟩
  · rename_i coefficient
    have pos := Nat.pos_of_ne_zero coefficient
    split
    · refine ⟨zero, .inl rfl, fun c mem => ?_⟩
      exact (List.mem_append.mp mem).elim isDigit_zeros (ds.2 c)
    · split
      · refine ⟨⟨by simp [ds.1], fun c mem => ?_⟩, .inr ?_, by simp⟩
        · exact (List.mem_append.mp mem).elim (ds.2 c) isDigit_zeros
        · obtain ⟨c, cs, cons⟩ := List.exists_cons_of_ne_nil ds.1
          have first := head?_toDigits pos
          rw [cons] at first ⊢
          exact first
      · rename_i positive _
        exact spelt_take pos (by omega) none

theorem spelt_stored (d : Decimal) : Spelt (Layout.stored d) := by
  have positional := spelt_positional d
  unfold Layout.stored
  simp only
  split
  · split
    · exact ⟨positional.whole, positional.plain, by simp⟩
    · exact positional
  · rename_i other
    exact spelt_take (Nat.pos_of_ne_zero fun zero => other (.inl zero)) Nat.one_pos _

theorem written_ofDouble (d : Double) : (Number.ofDouble d).Written := by
  have laid := spelt_stored (d.shortest .even)
  refine ⟨laid.whole, laid.plain, laid.fraction, fun e mem => ?_⟩
  obtain ⟨i, -, rfl⟩ := Option.map_eq_some_iff.mp mem
  exact digits_toDigits _

end GuardedGraph.Json

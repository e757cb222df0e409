import GuardedGraph.Text.Alphanumeric
import GuardedGraph.Text.Lowercase

/-!
Lowercase forms of letters and numbers. They are letters and numbers without another lowercase form, except that the
form of `İ` has a dot, which is neither (`mem_lowerFrom`). Lowering a text of such letters and numbers again changes
nothing (`lowerFrom_of_settled`).
-/

namespace GuardedGraph.Text

/-! ### Runs of code points -/

namespace CaseRun

/-- The lowercase form of a code point of the run. -/
def lower (r : CaseRun) (n : Nat) : Nat := (n + r.shift).toNat

/-- Whether the forms of the run are all even or all odd. -/
def alternates (r : CaseRun) : Bool := r.first == r.last || r.step % 2 == 0

/-- Whether no run has a number from `low` to `high`, or, when only those like `low` modulo 2 are meant, one of these.
It looks as far as `caseRun?` would. -/
def missed (low high : Nat) (alternate : Bool) : List CaseRun → Bool
  | [] => true
  | s :: rest => high.blt s.first ||
    (s.last.blt low || (alternate && s.step % 2 == 0 && (low + s.first) % 2 == 1)) && missed low high alternate rest

/-- Whether all forms of the run are letters, without a form of their own. -/
def settles (r : CaseRun) : Bool :=
  decide (-r.shift ≤ r.first) && ((r.lower r.last).blt 0x130 || Nat.blt 0x130 (r.lower r.first)) &&
    missed (r.lower r.first) (r.lower r.last) r.alternates caseRuns &&
    (alphanumerics.entries.any (fun p => p.1.ble (r.lower r.first) && (r.lower r.last).ble p.2) ||
      (List.range ((r.last - r.first) / r.step + 1)).all fun i => alphanumerics.has (r.lower (r.first + i * r.step)))

theorem settles_caseRuns : caseRuns.all settles := by decide +kernel

theorem has_iff {r : CaseRun} {n : Nat} : r.has n ↔ r.first ≤ n ∧ n ≤ r.last ∧ (n - r.first) % r.step = 0 := by
  simp only [has, Bool.and_eq_true, decide_eq_true_eq, beq_iff_eq, and_assoc]

theorem caseRun?_of_missed {low high n : Nat} {alternate : Bool} {runs : List CaseRun}
    (missed : missed low high alternate runs) (above : low ≤ n) (below : n ≤ high)
    (like : alternate = true → n % 2 = low % 2) : caseRun? runs n = none := by
  induction runs with
  | nil => rfl
  | cons s rest ih =>
    simp only [CaseRun.missed, Bool.or_eq_true, Bool.and_eq_true, Nat.blt_eq, beq_iff_eq] at missed
    rw [caseRun?]
    rcases missed with behind | ⟨other, missed⟩
    · rw [if_pos (by omega)]
    · have apart : ¬s.has n := by
        rw [has_iff]
        rintro ⟨first, last, steps⟩
        rcases other with before | ⟨⟨two, even⟩, odd⟩
        · omega
        · have same : (n - s.first) % 2 = 0 :=
            Nat.mod_eq_zero_of_dvd (Nat.dvd_trans (Nat.dvd_of_mod_eq_zero even) (Nat.dvd_of_mod_eq_zero steps))
          have parity := like two
          omega
      rw [if_neg apart, ih missed, ite_self]

theorem mem_of_caseRun? {runs : List CaseRun} {n : Nat} {r : CaseRun} (found : caseRun? runs n = some r) :
    r ∈ runs ∧ r.has n := by
  induction runs with
  | nil => exact nomatch found
  | cons s rest ih =>
    rw [caseRun?] at found
    split at found
    · exact nomatch found
    · split at found
      · next here => exact Option.some.inj found ▸ ⟨List.mem_cons_self, here⟩
      · exact (ih found).imp_left (List.mem_cons_of_mem s)

/-- The form of a code point is a letter and has no form of its own. -/
theorem lower_settled {r : CaseRun} (mem : r ∈ caseRuns) {n : Nat} (has : r.has n) :
    alphanumerics.has (r.lower n) ∧ caseRun? caseRuns (r.lower n) = none ∧ r.lower n ≠ 0x130 := by
  have settles := List.all_eq_true.mp settles_caseRuns r mem
  simp only [CaseRun.settles, Bool.and_eq_true, Bool.or_eq_true, decide_eq_true_eq, Nat.blt_eq, List.any_eq_true,
    List.all_eq_true, List.mem_range, Nat.ble_eq] at settles
  obtain ⟨⟨⟨room, other⟩, missed⟩, letters⟩ := settles
  obtain ⟨first, last, steps⟩ := has_iff.mp has
  have low : r.lower r.first ≤ r.lower n := by unfold lower; omega
  have high : r.lower n ≤ r.lower r.last := by unfold lower; omega
  refine ⟨?_, caseRun?_of_missed missed low high fun alternates => ?_, by omega⟩
  · rcases letters with ⟨p, range, within⟩ | each
    · exact Ranges.has_iff.mpr ⟨p, range, by omega, by omega⟩
    · have there := each ((n - r.first) / r.step) (Nat.lt_succ_of_le (Nat.div_le_div_right (by omega)))
      rwa [Nat.div_mul_cancel (Nat.dvd_of_mod_eq_zero steps), Nat.add_sub_cancel' first] at there
  · have even : (n - r.first) % 2 = 0 := by
      simp only [CaseRun.alternates, Bool.or_eq_true, beq_iff_eq] at alternates
      rcases alternates with one | two
      · omega
      · exact Nat.mod_eq_zero_of_dvd (Nat.dvd_trans (Nat.dvd_of_mod_eq_zero two) (Nat.dvd_of_mod_eq_zero steps))
    unfold lower
    omega

end CaseRun

/-! ### Characters -/

theorem isValidChar_of_alphanumeric {n : Nat} (letter : alphanumerics.has n) : n.isValidChar := by
  have valid : alphanumerics.entries.all fun p => p.2.blt 0xd800 || (Nat.blt 0xdfff p.1 && p.2.blt 0x110000) := by
    decide +kernel
  obtain ⟨p, range, low, high⟩ := Ranges.has_iff.mp letter
  have here := List.all_eq_true.mp valid p range
  simp only [Bool.or_eq_true, Bool.and_eq_true, Nat.blt_eq] at here
  unfold Nat.isValidChar
  omega

/-- The dot of a lowercase `İ`. -/
def dot : Char := '\u0307'

/-- A letter or number that is its own lowercase form wherever it stands. -/
structure Settled (c : Char) : Prop where
  letter : isAlphanumeric c
  own : lowerChar c = [c]
  plain : c ≠ 'Σ'

theorem settled_of_caseRun? {c : Char} (letter : isAlphanumeric c) (none : caseRun? caseRuns c.toNat = none)
    (other : c.toNat ≠ 0x130) : Settled c := by
  refine ⟨letter, ?_, ?_⟩
  · rw [lowerChar, if_neg (fun same => other (by rw [same]; rfl)), none]
  · rintro rfl
    exact absurd none (by decide)

theorem lowerChar_settled {c : Char} (letter : isAlphanumeric c) (other : c ≠ 'İ') :
    ∃ d, lowerChar c = [d] ∧ Settled d := by
  rw [lowerChar, if_neg other]
  cases found : caseRun? caseRuns c.toNat with
  | none =>
    have code : c.toNat ≠ 0x130 := fun same => other (Char.toNat_inj.mp same)
    exact ⟨c, rfl, settled_of_caseRun? letter found code⟩
  | some r =>
    obtain ⟨mem, has⟩ := CaseRun.mem_of_caseRun? found
    obtain ⟨lower, none, code⟩ := CaseRun.lower_settled mem has
    have same : (Char.ofNat (r.lower c.toNat)).toNat = r.lower c.toNat := by
      rw [Char.ofNat, dif_pos (isValidChar_of_alphanumeric lower)]
      rfl
    refine ⟨Char.ofNat (r.lower c.toNat), rfl, settled_of_caseRun? ?_ ?_ ?_⟩
    · rw [isAlphanumeric, same]
      exact lower
    · rw [same]
      exact none
    · rw [same]
      exact code

theorem settled_sigma : Settled 'σ' ∧ Settled 'ς' :=
  ⟨settled_of_caseRun? (by decide +kernel) (by decide +kernel) (by decide),
    settled_of_caseRun? (by decide +kernel) (by decide +kernel) (by decide)⟩

theorem settled_i : Settled 'i' := settled_of_caseRun? (by decide +kernel) (by decide +kernel) (by decide)

theorem not_alphanumeric_dot : isAlphanumeric dot = false := by decide +kernel

theorem Settled.ne_dot {c : Char} (settled : Settled c) : c ≠ dot := by
  rintro rfl
  exact absurd settled.letter (by rw [not_alphanumeric_dot]; exact Bool.false_ne_true)

/-! ### Texts -/

/-- The lowercase form of a character after `before` and in front of `rest`. -/
def lowerAt (before : List Char) (c : Char) (rest : List Char) : List Char :=
  if c = 'Σ' then (if nextIsCased before && !nextIsCased rest then ['ς'] else ['σ']) else lowerChar c

theorem lowerFrom_cons (before : List Char) (c : Char) (rest : List Char) :
    lowerFrom before (c :: rest) = lowerAt before c rest ++ lowerFrom (c :: before) rest := rfl

/-- Only `İ` has a form of two characters, of which one is a dot. -/
theorem lowerAt_letter {c : Char} (letter : isAlphanumeric c) (before rest : List Char) :
    (c = 'İ' ∧ lowerAt before c rest = ['i', dot]) ∨ (c ≠ 'İ' ∧ ∃ d, lowerAt before c rest = [d] ∧ Settled d) := by
  by_cases dotted : c = 'İ'
  · subst dotted
    exact .inl ⟨rfl, rfl⟩
  · refine .inr ⟨dotted, ?_⟩
    unfold lowerAt
    split
    · split
      · exact ⟨'ς', rfl, settled_sigma.2⟩
      · exact ⟨'σ', rfl, settled_sigma.1⟩
    · exact lowerChar_settled letter dotted

theorem lowerFrom_of_settled {cs : List Char} (settled : ∀ c ∈ cs, Settled c) (before : List Char) :
    lowerFrom before cs = cs := by
  induction cs generalizing before with
  | nil => rfl
  | cons c cs ih =>
    obtain ⟨here, later⟩ := List.forall_mem_cons.mp settled
    rw [lowerFrom_cons, lowerAt, if_neg here.plain, here.own, ih later]
    rfl

theorem mem_lowerFrom {cs : List Char} (letters : ∀ c ∈ cs, isAlphanumeric c) (before : List Char) :
    (∀ d ∈ lowerFrom before cs, d ≠ dot → Settled d) ∧ (dot ∈ lowerFrom before cs ↔ 'İ' ∈ cs) := by
  induction cs generalizing before with
  | nil => simp [lowerFrom]
  | cons c cs ih =>
    obtain ⟨here, later⟩ := List.forall_mem_cons.mp letters
    obtain ⟨settled, dotted⟩ := ih later (c :: before)
    rw [lowerFrom_cons, List.forall_mem_append, List.mem_append, List.mem_cons, dotted]
    rcases lowerAt_letter here before cs with ⟨rfl, form⟩ | ⟨other, d, form, own⟩
    · rw [form]
      refine ⟨⟨?_, settled⟩, by simp⟩
      simp [settled_i]
    · rw [form]
      exact ⟨⟨by simp [own], settled⟩, by simp [Ne.symm own.ne_dot, Ne.symm other]⟩

theorem lowercase_ne_nil {cs : List Char} (some : cs ≠ []) : lowercase cs ≠ [] := by
  obtain ⟨c, cs, rfl⟩ := List.exists_cons_of_ne_nil some
  have form : lowerAt [] c cs ≠ [] := by
    unfold lowerAt lowerChar
    repeat' split
    all_goals simp
  exact List.append_ne_nil_of_left_ne_nil form _

end GuardedGraph.Text

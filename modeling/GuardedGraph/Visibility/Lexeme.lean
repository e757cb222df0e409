import GuardedGraph.Text.Blank

/-!
Lexemes of a visibility expression. `lexemes` reads them off a text with the byte where each starts;
`lexFrom_shift` and `lexFrom_blanks` say that blanks before and after a text change positions only.
-/

namespace GuardedGraph.Visibility

open Text

inductive Lexeme
  | term (text : String)
  | conj
  | disj
  | opening
  | closing
  deriving DecidableEq

inductive Fault
  | badEscape (c : Char)
  | unterminated
  | emptyQuote
  | stray (c : Char)
  | missingTerm
  | notTerm (found : Lexeme)
  | emptyGroup
  | unbalanced
  | mixed
  | trailing
  deriving DecidableEq

structure ParseError where
  fault : Fault
  position : Nat
  deriving DecidableEq

structure Placed where
  lexeme : Lexeme
  start : Nat
  deriving DecidableEq

/-- What the characters since `start` have begun; their text is kept last character first. -/
inductive Pending
  | nothing
  | bare (start : Nat) (text : List Char)
  | quoted (start : Nat) (text : List Char)
  | escape (start : Nat) (text : List Char)
  deriving DecidableEq

/-- Characters of terms written without quotes. -/
def isTermChar (c : Char) : Bool :=
  c.isAlphanum || c == '_' || c == '-' || c == ':' || c == '.' || c == '/'

def termOf (text : List Char) : Lexeme := .term (String.ofList text.reverse)

/-- A character between two lexemes is a blank, is a lexeme, or begins one. -/
def enter (pos : Nat) (c : Char) : Except ParseError (List Placed × Pending) :=
  if isBlank c then .ok ([], .nothing)
  else if c = '&' then .ok ([⟨.conj, pos⟩], .nothing)
  else if c = '|' then .ok ([⟨.disj, pos⟩], .nothing)
  else if c = '(' then .ok ([⟨.opening, pos⟩], .nothing)
  else if c = ')' then .ok ([⟨.closing, pos⟩], .nothing)
  else if c = '"' then .ok ([], .quoted pos [])
  else if isTermChar c then .ok ([], .bare pos [c])
  else .error ⟨.stray c, pos⟩

/-- The lexemes that a character completes, and what is pending after it. -/
def lexStep (pos : Nat) (c : Char) : Pending → Except ParseError (List Placed × Pending)
  | .nothing => enter pos c
  | .bare start text =>
    if isTermChar c then .ok ([], .bare start (c :: text))
    else (enter pos c).map fun r => (⟨termOf text, start⟩ :: r.1, r.2)
  | .quoted start text =>
    if c = '\\' then .ok ([], .escape start text)
    else if c = '"' then
      if text.isEmpty then .error ⟨.emptyQuote, start⟩ else .ok ([⟨termOf text, start⟩], .nothing)
    else .ok ([], .quoted start (c :: text))
  | .escape start text =>
    if c = '"' ∨ c = '\\' then .ok ([], .quoted start (c :: text)) else .error ⟨.badEscape c, pos⟩

/-- The lexemes that the end of the text completes. -/
def lexEnd : Pending → Except ParseError (List Placed)
  | .nothing => .ok []
  | .bare start text => .ok [⟨termOf text, start⟩]
  | .quoted start _ => .error ⟨.unterminated, start⟩
  | .escape start _ => .error ⟨.unterminated, start⟩

def lexFrom (p : Pending) (pos : Nat) : List Char → Except ParseError (List Placed)
  | [] => lexEnd p
  | c :: cs => (lexStep pos c p).bind fun r => (lexFrom r.2 (pos + c.utf8Size) cs).map (r.1 ++ ·)

def lexemes (cs : List Char) : Except ParseError (List Placed) := lexFrom .nothing 0 cs

/-! ### Positions -/

def ParseError.shift (n : Nat) (e : ParseError) : ParseError := ⟨e.fault, e.position + n⟩

def Placed.shift (n : Nat) (l : Placed) : Placed := ⟨l.lexeme, l.start + n⟩

def Pending.shift (n : Nat) : Pending → Pending
  | .nothing => .nothing
  | .bare start text => .bare (start + n) text
  | .quoted start text => .quoted (start + n) text
  | .escape start text => .escape (start + n) text

/-- An answer with every position moved. -/
def shifted {α β : Type} (n : Nat) (f : α → β) : Except ParseError α → Except ParseError β
  | .ok a => .ok (f a)
  | .error e => .error (e.shift n)

theorem shifted_eq_ok_iff {α β : Type} {n : Nat} {f : α → β} {x : Except ParseError α} {b : β} :
    shifted n f x = .ok b ↔ ∃ a, x = .ok a ∧ f a = b := by
  cases x <;> simp [shifted]

theorem enter_shift (n pos : Nat) (c : Char) :
    enter (pos + n) c = shifted n (fun r => (r.1.map (Placed.shift n), r.2.shift n)) (enter pos c) := by
  unfold enter
  repeat' split
  all_goals rfl

theorem lexStep_shift (n pos : Nat) (c : Char) (p : Pending) :
    lexStep (pos + n) c (p.shift n) =
      shifted n (fun r => (r.1.map (Placed.shift n), r.2.shift n)) (lexStep pos c p) := by
  cases p with
  | nothing => exact enter_shift n pos c
  | bare start text =>
    simp only [lexStep, Pending.shift, enter_shift]
    split
    · rfl
    · cases enter pos c <;> rfl
  | quoted start text =>
    simp only [lexStep, Pending.shift]
    repeat' split
    all_goals rfl
  | escape start text =>
    simp only [lexStep, Pending.shift]
    split <;> rfl

theorem lexEnd_shift (n : Nat) (p : Pending) :
    lexEnd (p.shift n) = shifted n (List.map (Placed.shift n)) (lexEnd p) := by
  cases p <;> rfl

/-- Reading from a later byte moves every position by as much. -/
theorem lexFrom_shift (n : Nat) (p : Pending) (pos : Nat) (cs : List Char) :
    lexFrom (p.shift n) (pos + n) cs = shifted n (List.map (Placed.shift n)) (lexFrom p pos cs) := by
  induction cs generalizing p pos with
  | nil => exact lexEnd_shift n p
  | cons c cs ih =>
    rw [lexFrom, lexFrom, lexStep_shift]
    cases lexStep pos c p with
    | error e => rfl
    | ok r =>
      simp only [shifted, Except.bind]
      rw [Nat.add_right_comm, ih]
      cases lexFrom r.2 (pos + c.utf8Size) cs <;> simp [shifted, Except.map]

/-! ### Blanks around a text -/

theorem isTermChar_of_isBlank {c : Char} (h : isBlank c) : isTermChar c = false := by
  apply Bool.eq_false_iff.mpr
  intro t
  have hv : c.val.toNat = c.toNat := rfl
  have spelled : isTermChar c =
      (decide (c.val ≥ 'A'.val ∧ c.val ≤ 'Z'.val) || c.val ≥ 'a'.val && c.val ≤ 'z'.val ||
        c.val ≥ '0'.val && c.val ≤ '9'.val ||
        c == '_' || c == '-' || c == ':' || c == '.' || c == '/') := rfl
  rw [spelled] at t
  simp only [isBlank, Bool.or_eq_true, Bool.and_eq_true, decide_eq_true_eq, beq_iff_eq, ge_iff_le,
    UInt32.le_iff_toNat_le, ← Char.toNat_inj, hv] at h t
  have codes : 'A'.val.toNat = 65 ∧ 'Z'.val.toNat = 90 ∧ 'a'.val.toNat = 97 ∧ 'z'.val.toNat = 122 ∧
    '0'.val.toNat = 48 ∧ '9'.val.toNat = 57 ∧ '_'.toNat = 95 ∧ '-'.toNat = 45 ∧ ':'.toNat = 58 ∧
    '.'.toNat = 46 ∧ '/'.toNat = 47 := by decide
  omega

theorem enter_of_isBlank {c : Char} (h : isBlank c) (pos : Nat) : enter pos c = .ok ([], .nothing) := by
  simp [enter, h]

/-- Blanks that follow a text add no lexeme. -/
theorem lexFrom_of_blanks {bs : List Char} (blank : ∀ b ∈ bs, isBlank b) (pos : Nat) :
    lexFrom .nothing pos bs = .ok [] := by
  induction bs generalizing pos with
  | nil => rfl
  | cons b bs ih =>
    rw [lexFrom, lexStep, enter_of_isBlank (blank b (by simp))]
    simp only [Except.bind]
    rw [ih fun x hx => blank x (List.mem_cons_of_mem _ hx)]
    rfl

theorem lexFrom_quoted_of_blanks {bs : List Char} (blank : ∀ b ∈ bs, isBlank b) (start : Nat) (text : List Char)
    (pos : Nat) : lexFrom (.quoted start text) pos bs = .error ⟨.unterminated, start⟩ := by
  induction bs generalizing pos text with
  | nil => rfl
  | cons b bs ih =>
    have hb := blank b (by simp)
    have h₁ : b ≠ '\\' := fun e => by subst e; exact absurd hb (by decide)
    have h₂ : b ≠ '"' := fun e => by subst e; exact absurd hb (by decide)
    rw [lexFrom, lexStep, if_neg h₁, if_neg h₂]
    simp only [Except.bind]
    rw [ih fun x hx => blank x (List.mem_cons_of_mem _ hx)]
    rfl

theorem lexFrom_blanks {p : Pending} {pos : Nat} {cs bs : List Char} {ls : List Placed}
    (blank : ∀ b ∈ bs, isBlank b) (h : lexFrom p pos (cs ++ bs) = .ok ls) : lexFrom p pos cs = .ok ls := by
  induction cs generalizing p pos ls with
  | nil =>
    cases bs with
    | nil => exact h
    | cons b bs =>
      have hb := blank b (by simp)
      have rest : ∀ x ∈ bs, isBlank x := fun x hx => blank x (List.mem_cons_of_mem _ hx)
      rw [List.nil_append] at h
      cases p with
      | nothing => rw [lexFrom_of_blanks blank] at h; exact h
      | bare start text =>
        rw [lexFrom, lexStep, if_neg (by simp [isTermChar_of_isBlank hb]), enter_of_isBlank hb] at h
        simp only [Except.map, Except.bind] at h
        rw [lexFrom_of_blanks rest] at h
        exact h
      | quoted start text => rw [lexFrom_quoted_of_blanks blank] at h; exact absurd h (by simp)
      | escape start text =>
        have h₁ : b ≠ '\\' := fun e => by subst e; exact absurd hb (by decide)
        have h₂ : b ≠ '"' := fun e => by subst e; exact absurd hb (by decide)
        rw [lexFrom, lexStep, if_neg (by simp [h₁, h₂])] at h
        exact absurd h (by simp [Except.bind])
  | cons c cs ih =>
    rw [List.cons_append, lexFrom] at h
    rw [lexFrom]
    cases hs : lexStep pos c p with
    | error e => simp [hs, Except.bind] at h
    | ok r =>
      simp only [hs, Except.bind] at h ⊢
      cases ht : lexFrom r.2 (pos + c.utf8Size) (cs ++ bs) with
      | error e => simp [ht, Except.map] at h
      | ok ms =>
        rw [ht] at h
        rw [ih ht]
        exact h

/-- Blanks before a text move its positions by their width. -/
theorem lexFrom_blanks_append {bs : List Char} (blank : ∀ b ∈ bs, isBlank b) (pos : Nat) (cs : List Char) :
    lexFrom .nothing pos (bs ++ cs) = lexFrom .nothing (pos + width bs) cs := by
  induction bs generalizing pos with
  | nil => rfl
  | cons b bs ih =>
    rw [List.cons_append, lexFrom, lexStep, enter_of_isBlank (blank b (by simp))]
    simp only [Except.bind, List.nil_append]
    rw [ih fun x hx => blank x (List.mem_cons_of_mem _ hx), width, Nat.add_assoc]
    cases lexFrom .nothing (pos + (b.utf8Size + width bs)) cs <;> rfl

end GuardedGraph.Visibility

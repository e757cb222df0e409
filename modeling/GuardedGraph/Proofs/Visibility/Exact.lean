import GuardedGraph.Proofs.Visibility.Parentheses
import GuardedGraph.Proofs.Visibility.Spelling

/-! Which texts are visibilities, and whom they let read (`visibility_exact`). -/

namespace GuardedGraph.Visibility

open Text

theorem parse_ok_iff {text : String} {rule : Option Expr} : parse text = .ok rule ↔
    ∃ ls, Spells text.toList ls ∧ ((ls = [] ∧ rule = none) ∨ ∃ e, Forms ls e ∧ rule = some e) := by
  unfold parse
  constructor
  · intro parsed
    cases read : lexemes text.toList with
    | error e => rw [read] at parsed; exact absurd parsed (by simp [Except.bind])
    | ok placed =>
      simp only [read, Except.bind] at parsed
      refine ⟨_, spells_iff.mpr ⟨placed, read, rfl⟩, ?_⟩
      split at parsed
      · next none => exact .inl ⟨by rw [none]; rfl, (Except.ok.inj parsed).symm⟩
      · obtain ⟨e, assembled, same⟩ := Outcome.map_ok parsed
        exact .inr ⟨e, (assemble_ok_iff _ _ _).mp assembled, same.symm⟩
  · rintro ⟨ls, spells, rest⟩
    obtain ⟨placed, read, rfl⟩ := spells_iff.mp spells
    simp only [read, Except.bind]
    rcases rest with ⟨none, rfl⟩ | ⟨e, forms, rfl⟩
    · rw [if_pos (List.map_eq_nil_iff.mp none)]
    · rw [if_neg fun none => forms.ne_nil (List.map_eq_nil_iff.mpr none), (assemble_ok_iff _ _ _).mpr forms]
      rfl

theorem rule_of_ofText {text : String} {v : Visibility} (made : ofText text = .ok v) : parse text = .ok v.rule := by
  unfold ofText at made
  split at made
  · next rule parsed =>
    obtain rfl := Except.ok.inj made
    exact parsed
  · exact absurd made (by simp)

theorem text_of_ofText {text : String} {v : Visibility} (made : ofText text = .ok v) : v.text = trim text := by
  unfold ofText at made
  split at made
  · obtain rfl := Except.ok.inj made
    rfl
  · exact absurd made (by simp)

theorem ofText_of_parse {text : String} {rule : Option Expr} (parsed : parse text = .ok rule) :
    ∃ v, ofText text = .ok v := by
  unfold ofText
  split
  · exact ⟨_, rfl⟩
  · next e failed => exact absurd (failed.symm.trans parsed) (by simp)

/-! ### Lexemes and readers -/

/-- The lexemes of an expression, or none at all. -/
def Accepted (ls : List Lexeme) : Prop := ls = [] ∨ ∃ e, Forms ls e

/-- There are no lexemes, or their expression is true of what is held. -/
def Satisfied (held : String → Bool) (ls : List Lexeme) : Prop := ls = [] ∨ ∃ e, Forms ls e ∧ e.eval held

theorem satisfied_iff {ls : List Lexeme} {e : Expr} (forms : Forms ls e) (held : String → Bool) :
    Satisfied held ls ↔ e.eval held := by
  refine ⟨fun satisfied => ?_, fun true => .inr ⟨e, forms, true⟩⟩
  obtain ⟨f, forms', true⟩ := satisfied.resolve_left forms.ne_nil
  rw [forms.unique forms']
  exact true

theorem ofText_ok_iff {text : String} : (∃ v, ofText text = .ok v) ↔ ∃ ls, Spells text.toList ls ∧ Accepted ls := by
  constructor
  · rintro ⟨v, made⟩
    obtain ⟨ls, spells, ⟨none, -⟩ | ⟨e, forms, -⟩⟩ := parse_ok_iff.mp (rule_of_ofText made)
    · exact ⟨ls, spells, .inl none⟩
    · exact ⟨ls, spells, .inr ⟨e, forms⟩⟩
  · rintro ⟨ls, spells, none | ⟨e, forms⟩⟩
    · exact ofText_of_parse (parse_ok_iff.mpr ⟨ls, spells, .inl ⟨none, rfl⟩⟩)
    · exact ofText_of_parse (parse_ok_iff.mpr ⟨ls, spells, .inr ⟨e, forms, rfl⟩⟩)

theorem readableBy_iff {text : String} {v : Visibility} {ls : List Lexeme} (made : ofText text = .ok v)
    (spells : Spells text.toList ls) (a : Authorizations) : v.readableBy a ↔ Satisfied a.holds ls := by
  obtain ⟨ms, spells', rest⟩ := parse_ok_iff.mp (rule_of_ofText made)
  obtain rfl := spells.unique spells'
  rw [readableBy]
  rcases rest with ⟨none, rule⟩ | ⟨e, forms, rule⟩
  · rw [rule]
    exact ⟨fun _ => .inl none, fun _ => rfl⟩
  · rw [rule, satisfied_iff forms]

/-- Both texts are visibilities or neither is, and if so they let the same readers read. -/
def SameRule (x y : String) : Prop :=
  ((∃ v, ofText x = .ok v) ↔ ∃ w, ofText y = .ok w) ∧
    ∀ v w, ofText x = .ok v → ofText y = .ok w → ∀ a, v.readableBy a = w.readableBy a

theorem sameRule_of_lexemes {x y : String} {ls ms : List Lexeme} (one : Spells x.toList ls) (other : Spells y.toList ms)
    (accepted : Accepted ls ↔ Accepted ms) (satisfied : ∀ held, Satisfied held ls ↔ Satisfied held ms) :
    SameRule x y := by
  constructor
  · rw [ofText_ok_iff, ofText_ok_iff]
    constructor
    · rintro ⟨ls', spells, ok⟩
      exact ⟨ms, other, accepted.mp (one.unique spells ▸ ok)⟩
    · rintro ⟨ms', spells, ok⟩
      exact ⟨ls, one, accepted.mpr (other.unique spells ▸ ok)⟩
  · intro v w hv hw a
    rw [Bool.eq_iff_iff, readableBy_iff hv one, readableBy_iff hw other]
    exact satisfied a.holds

theorem sameRule_of_forms {x y : String} {ls ms : List Lexeme} (one : Spells x.toList ls) (other : Spells y.toList ms)
    (some : ls ≠ []) (some' : ms ≠ []) (forms : ∀ e, Forms ls e ↔ Forms ms e) : SameRule x y := by
  refine sameRule_of_lexemes one other ?_ fun held => ?_
  · simp only [Accepted, some, some', false_or, forms]
  · simp only [Satisfied, some, some', false_or, forms]

theorem spells_ofList {cs : List Char} {ls : List Lexeme} (spells : Spells cs ls) :
    Spells (String.ofList cs).toList ls := by
  rwa [String.toList_ofList]

theorem forms_of_made {text : String} {v : Visibility} {ls : List Lexeme} (made : ofText text = .ok v)
    (spells : Spells text.toList ls) (some : ls ≠ []) : ∃ e, Forms ls e := by
  obtain ⟨ms, spells', accepted⟩ := ofText_ok_iff.mp ⟨v, made⟩
  obtain rfl := spells.unique spells'
  exact accepted.resolve_left some

theorem readableBy_of_parentheses {x y : String} {v w : Visibility} {before mid after : List Lexeme}
    (balanced : depth 0 mid = some 0) (hx : Spells x.toList (before ++ (mid ++ after)))
    (hy : Spells y.toList (before ++ (enclosed mid ++ after))) (hv : ofText x = .ok v) (hw : ofText y = .ok w)
    (a : Authorizations) : v.readableBy a = w.readableBy a := by
  obtain ⟨f, within⟩ := forms_of_made hw hy (by simp [enclosed])
  have some : before ++ (mid ++ after) ≠ [] := by
    -- otherwise the other text would be a pair of parentheses with nothing between
    intro none
    simp only [List.append_eq_nil_iff] at none
    obtain ⟨rfl, rfl, rfl⟩ := none
    simp only [List.nil_append, List.append_nil] at within
    exact ((forms_parentheses balanced).mpr within).ne_nil rfl
  obtain ⟨e, without⟩ := forms_of_made hv hx some
  rw [Bool.eq_iff_iff, readableBy_iff hv hx, readableBy_iff hw hy, satisfied_iff without, satisfied_iff within,
    eval_parentheses balanced without within]

/-! ### Visibilities -/

/-- A text is a visibility when its lexemes are an expression or there are none, and lets those read of whom the
expression is true. Lexemes and expression are the only ones, and no group has two operators. Blanks between lexemes
make no difference, nor do parentheses around an operand or around the whole; and parentheses that can be left out
make none to readers. -/
theorem visibility_exact :
    (∀ text, (∃ v, ofText text = .ok v) ↔ ∃ ls, Spells text.toList ls ∧ Accepted ls) ∧
    (∀ text v ls, ofText text = .ok v → Spells text.toList ls → ∀ a, v.readableBy a ↔ Satisfied a.holds ls) ∧
    (∀ cs ls ms, Spells cs ls → Spells cs ms → ls = ms) ∧ (∀ ls e f, Forms ls e → Forms ls f → e = f) ∧
    (∀ text before mid after (o p : Operator), o ≠ p → depth 0 mid = some 0 →
      Spells text.toList (before ++ o.lexeme :: (mid ++ p.lexeme :: after)) → ∃ e, ofText text = .error e) ∧
    (∀ cs bs ds ls ms, Spells cs ls → Spells ds ms → Spells (cs ++ ds) (ls ++ ms) → (∀ b ∈ bs, isBlank b) →
      SameRule (.ofList (cs ++ ds)) (.ofList (cs ++ (bs ++ ds)))) ∧
    (∀ x y before mid after e, Derives .operand mid e → Spells x.toList (before ++ (mid ++ after)) →
      Spells y.toList (before ++ (enclosed mid ++ after)) → SameRule x y) ∧
    (∀ x y ls, ls ≠ [] → depth 0 ls = some 0 → Spells x.toList ls → Spells y.toList (enclosed ls) → SameRule x y) ∧
    (∀ x y v w before mid after, depth 0 mid = some 0 → Spells x.toList (before ++ (mid ++ after)) →
      Spells y.toList (before ++ (enclosed mid ++ after)) → ofText x = .ok v → ofText y = .ok w →
      ∀ a, v.readableBy a = w.readableBy a) := by
  refine ⟨fun text => ofText_ok_iff, fun text v ls made spells => readableBy_iff made spells,
    fun cs ls ms one other => one.unique other, fun ls e f one other => one.unique other, ?_, ?_, ?_, ?_, ?_⟩
  · intro text before mid after o p different balanced spells
    cases made : ofText text with
    | error e => exact ⟨e, rfl⟩
    | ok v =>
      obtain ⟨e, forms⟩ := forms_of_made made spells (by simp)
      exact absurd (operator_unique forms balanced) different
  · intro cs bs ds ls ms left right together blank
    exact sameRule_of_lexemes (spells_ofList together) (spells_ofList (spells_insert left right together blank))
      Iff.rfl fun _ => Iff.rfl
  · intro x y before mid after e operand hx hy
    have some : mid ≠ [] := by cases operand <;> simp [enclosed]
    exact sameRule_of_forms hx hy (by simp [some]) (by simp [enclosed]) fun f => forms_operand_parentheses operand
  · intro x y ls some balanced hx hy
    exact sameRule_of_forms hx hy some (by simp [enclosed]) fun e => forms_parentheses balanced
  · intro x y v w before mid after balanced hx hy hv hw a
    exact readableBy_of_parentheses balanced hx hy hv hw a

theorem visibility_exact_grouped : (∃ e, ofText "a&b|c" = .error e) ∧ ∃ v, ofText "(a&b)|c" = .ok v ∧
    ∀ a, v.readableBy a ↔ a.holds "a" ∧ a.holds "b" ∨ a.holds "c" := by
  obtain ⟨accepts, reads, -, -, mixed, -⟩ := visibility_exact
  have spells : Spells "(a&b)|c".toList (enclosed [.term "a", .conj, .term "b"] ++ [.disj, .term "c"]) :=
    spells_iff.mpr ⟨_, rfl, by decide +kernel⟩
  have both : Derives (.joined .conj) [.term "a", .conj, .term "b"] (.both (.term "a") (.term "b")) :=
    .more (.single (.term "a")) (.term "b")
  have forms : Forms (enclosed [.term "a", .conj, .term "b"] ++ [.disj, .term "c"])
      (.either (.both (.term "a") (.term "b")) (.term "c")) :=
    ⟨.disj, .more (.single (.group both)) (.term "c")⟩
  obtain ⟨v, made⟩ := (accepts "(a&b)|c").mpr ⟨_, spells, .inr ⟨_, forms⟩⟩
  refine ⟨mixed "a&b|c" [.term "a"] [.term "b"] [.term "c"] .conj .disj (by decide) (by decide)
    (spells_iff.mpr ⟨_, rfl, by decide +kernel⟩), v, made, fun a => ?_⟩
  rw [reads _ v _ made spells a, satisfied_iff forms]
  simp [Expr.eval]

end GuardedGraph.Visibility

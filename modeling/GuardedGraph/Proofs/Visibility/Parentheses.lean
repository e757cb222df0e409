import GuardedGraph.Proofs.Visibility.Grammar

/-! What parentheses are needed for, and when they make no difference: two different operators never stand in one
group (`operator_unique`), and a pair of parentheses that can be left out changes no one's access
(`eval_parentheses`). -/

namespace GuardedGraph.Visibility

open Outcome

/-! ### One operator in a group -/

/-- The operators of the groups that are open, the innermost first. -/
def State.operators : State → List (Option Operator)
  | .operand groups left => left.map (·.2) :: groups.map (·.outside.map (·.2))
  | .operator groups _ o => o :: groups.map (·.outside.map (·.2))

theorem operators_after (groups : List Group) (left : Left) (e : Expr) :
    (State.after groups left e).operators = (State.operand groups left).operators := by
  cases left <;> rfl

theorem operators_join {groups : List Group} {whole : Expr} {o : Option Operator} {next : Operator} {pos : Nat}
    {t : State} (joined : State.join groups whole o next pos = .ok t) :
    (o = none ∨ o = some next) ∧ t.operators = some next :: groups.map (·.outside.map (·.2)) := by
  unfold State.join at joined
  split at joined
  · next fits =>
    obtain rfl := Except.ok.inj joined
    exact ⟨fits, rfl⟩
  · exact absurd joined (by simp)

theorem operators_step {s t : State} {l : Lexeme} (step : s.step ⟨l, 0⟩ = .ok t) :
    match l with
    | .term _ => t.operators = s.operators
    | .opening => t.operators = none :: s.operators
    | .closing => ∃ o, s.operators = o :: t.operators
    | .conj => ∃ o rest, s.operators = o :: rest ∧ (o = none ∨ o = some .conj) ∧ t.operators = some .conj :: rest
    | .disj => ∃ o rest, s.operators = o :: rest ∧ (o = none ∨ o = some .disj) ∧ t.operators = some .disj :: rest := by
  cases s with
  | operand groups left =>
    cases l with
    | term token =>
      obtain rfl := Except.ok.inj step
      exact operators_after groups left _
    | opening =>
      obtain rfl := Except.ok.inj step
      rfl
    | closing =>
      simp only [State.step] at step
      split at step <;> exact absurd step (by simp)
    | conj => exact absurd step (by simp [State.step])
    | disj => exact absurd step (by simp [State.step])
  | operator groups whole o =>
    cases l with
    | conj => exact ⟨o, _, rfl, operators_join step⟩
    | disj => exact ⟨o, _, rfl, operators_join step⟩
    | closing =>
      cases groups with
      | nil => exact absurd step (by simp [State.step])
      | cons g groups =>
        obtain rfl := Except.ok.inj step
        exact ⟨o, by rw [operators_after]; rfl⟩
    | term token => exact absurd step (by simp [State.step])
    | opening => exact absurd step (by simp [State.step])

/-- A group keeps its operator until it is closed. -/
theorem operators_kept {s t : State} {l : Lexeme} {inner rest : List (Option Operator)} {op : Operator} {m : Nat}
    (own : s.operators = inner ++ some op :: rest) (nested : nest inner.length l = some m)
    (step : s.step ⟨l, 0⟩ = .ok t) : ∃ inner', inner'.length = m ∧ t.operators = inner' ++ some op :: rest := by
  have effect := operators_step step
  cases l with
  | term token => exact ⟨inner, Option.some.inj nested, effect.trans own⟩
  | opening => exact ⟨none :: inner, Option.some.inj nested, by rw [effect, own]; rfl⟩
  | closing =>
    obtain ⟨o, popped⟩ := effect
    cases inner with
    | nil => exact absurd nested (by simp [nest])
    | cons x inner =>
      refine ⟨inner, by simpa [nest] using nested, ?_⟩
      exact (List.cons.inj (popped.symm.trans own)).2
  | _ =>
    obtain ⟨o, others, before, fits, after⟩ := effect
    cases inner with
    | nil =>
      obtain ⟨rfl, rfl⟩ := List.cons.inj (before.symm.trans own)
      refine ⟨[], Option.some.inj nested, ?_⟩
      rw [after, ← fits.resolve_left (by simp)]
      rfl
    | cons x inner =>
      obtain ⟨-, rfl⟩ := List.cons.inj (before.symm.trans own)
      exact ⟨some _ :: inner, Option.some.inj nested, after⟩

theorem operators_kept_run {ls : List Lexeme} {s t : State} {inner rest : List (Option Operator)} {op : Operator}
    {m : Nat} (own : s.operators = inner ++ some op :: rest) (nested : depth inner.length ls = some m)
    (run : s.run ls = .ok t) : ∃ inner', inner'.length = m ∧ t.operators = inner' ++ some op :: rest := by
  induction ls generalizing s inner with
  | nil =>
    obtain rfl := pure_ok run
    exact ⟨inner, Option.some.inj nested, own⟩
  | cons l ls ih =>
    rw [run_cons] at run
    obtain ⟨u, step, run⟩ := bind_ok run
    rw [depth, List.foldlM_cons] at nested
    obtain ⟨k, one, nested⟩ := Option.bind_eq_some_iff.mp nested
    obtain ⟨inner', rfl, kept⟩ := operators_kept own one step
    exact ih kept nested run

theorem operators_of_operator {s t : State} {op : Operator} (step : s.step ⟨op.lexeme, 0⟩ = .ok t) :
    ∃ o rest, s.operators = o :: rest ∧ (o = none ∨ o = some op) ∧ t.operators = some op :: rest := by
  cases op <;> exact operators_step step

/-- Two operators with nothing unbalanced between them are the same. -/
theorem operator_unique {before mid after : List Lexeme} {o p : Operator} {e : Expr}
    (forms : Forms (before ++ o.lexeme :: (mid ++ p.lexeme :: after)) e) (balanced : depth 0 mid = some 0) : o = p := by
  obtain ⟨_, run⟩ := forms_iff_run.mp forms
  rw [run_append] at run
  obtain ⟨s, -, run⟩ := bind_ok run
  rw [run_cons] at run
  obtain ⟨t, first, run⟩ := bind_ok run
  rw [run_append] at run
  obtain ⟨u, middle, run⟩ := bind_ok run
  rw [run_cons] at run
  obtain ⟨_, second, -⟩ := bind_ok run
  obtain ⟨_, rest, -, -, own⟩ := operators_of_operator first
  obtain ⟨inner, none, kept⟩ := operators_kept_run (show t.operators = [] ++ some o :: rest from own) balanced middle
  obtain rfl := List.length_eq_zero_iff.mp none
  obtain ⟨q, _, found, fits, -⟩ := operators_of_operator second
  obtain ⟨rfl, -⟩ := List.cons.inj (found.symm.trans kept)
  exact Option.some.inj (fits.resolve_left (by simp))

/-! ### Operands -/

theorem run_term_opening {groups : List Group} {whole : Expr} {o : Option Operator} {l : Lexeme} {ls : List Lexeme}
    {t : State} (begins : (∃ token, l = .term token) ∨ l = .opening) :
    (State.operator groups whole o).run (l :: ls) ≠ .ok t := by
  intro run
  rw [run_cons] at run
  obtain ⟨u, step, -⟩ := bind_ok run
  obtain ⟨token, rfl⟩ | rfl := begins <;> exact absurd step (by simp [State.step])

theorem run_operand {ls : List Lexeme} {e : Expr} {s t : State} (derives : Derives .operand ls e)
    (run : s.run ls = .ok t) : ∃ groups left, s = .operand groups left ∧ t = .after groups left e := by
  cases s with
  | operand groups left =>
    have takes := takes_of_derives derives groups left (unplaced ls) (map_unplaced ls)
    exact ⟨groups, left, rfl, Except.ok.inj (run.symm.trans takes)⟩
  | operator groups whole o =>
    cases derives with
    | term token => exact absurd run (run_term_opening (.inl ⟨token, rfl⟩))
    | group _ => exact absurd run (run_term_opening (.inr rfl))

/-- Operands that stand for the same can be exchanged. -/
theorem forms_exchange {before ls ms after : List Lexeme} {e f : Expr} (one : Derives .operand ls e)
    (other : Derives .operand ms e) (forms : Forms (before ++ (ls ++ after)) f) :
    Forms (before ++ (ms ++ after)) f := by
  obtain ⟨o, run⟩ := forms_iff_run.mp forms
  refine forms_iff_run.mpr ⟨o, ?_⟩
  rw [run_append] at run ⊢
  obtain ⟨s, first, run⟩ := bind_ok run
  rw [run_append] at run
  obtain ⟨t, middle, run⟩ := bind_ok run
  obtain ⟨groups, left, rfl, rfl⟩ := run_operand one middle
  have takes := takes_of_derives other groups left (unplaced ms) (map_unplaced ms)
  rw [first]
  show (State.operand groups left).run (ms ++ after) = _
  rw [run_append, State.run, takes]
  exact run

theorem forms_operand_parentheses {before mid after : List Lexeme} {e f : Expr} (operand : Derives .operand mid e) :
    Forms (before ++ (mid ++ after)) f ↔ Forms (before ++ (enclosed mid ++ after)) f := by
  have group : Derives .operand (enclosed mid) e := .group (Derives.single operand : Derives (.joined .conj) mid e)
  exact ⟨forms_exchange operand group, forms_exchange group operand⟩

/-! ### Any pair of parentheses -/

/-- The same for every reader. -/
def Expr.Alike (e f : Expr) : Prop := ∀ held, e.eval held = f.eval held

inductive Left.Alike : Left → Left → Prop
  | none : Left.Alike none none
  | some {e f : Expr} {op : Operator} : e.Alike f → Left.Alike (some (e, op)) (some (f, op))

/-- States that go on alike for every reader, as far as the second is more particular about its next operator. -/
inductive State.Alike : State → State → Prop
  | operand {gs hs : List Group} {x y : Left} : List.Forall₂ (fun g h => Left.Alike g.outside h.outside) gs hs →
      Left.Alike x y → State.Alike (.operand gs x) (.operand hs y)
  | operator {gs hs : List Group} {e f : Expr} {o p : Option Operator} :
      List.Forall₂ (fun g h => Left.Alike g.outside h.outside) gs hs → e.Alike f → o = none ∨ o = p →
      State.Alike (.operator gs e o) (.operator hs f p)

theorem Left.alike_refl (x : Left) : Left.Alike x x := by
  cases x with
  | none => exact .none
  | some l => exact .some fun _ => rfl

theorem apply_alike {e f e' f' : Expr} (op : Operator) (left : e.Alike e') (right : f.Alike f') :
    (op.apply e f).Alike (op.apply e' f') := by
  intro held
  cases op <;> simp [Operator.apply, Expr.eval, left held, right held]

theorem apply_assoc (op : Operator) (e f g : Expr) :
    (op.apply e (op.apply f g)).Alike (op.apply (op.apply e f) g) := by
  intro held
  cases op <;> simp [Operator.apply, Expr.eval, Bool.and_assoc, Bool.or_assoc]

theorem alike_after {gs hs : List Group} {x y : Left} {e f : Expr}
    (groups : List.Forall₂ (fun g h => Left.Alike g.outside h.outside) gs hs) (left : Left.Alike x y)
    (whole : e.Alike f) : (State.after gs x e).Alike (.after hs y f) := by
  cases left with
  | none => exact .operator groups whole (.inl rfl)
  | some alike => exact .operator groups (apply_alike _ alike whole) (.inr rfl)

theorem alike_join {gs hs : List Group} {e f : Expr} {o p : Option Operator} {next : Operator} {pos : Nat} {s t : State}
    (groups : List.Forall₂ (fun g h => Left.Alike g.outside h.outside) gs hs) (whole : e.Alike f)
    (one : State.join gs e o next pos = .ok s) (other : State.join hs f p next pos = .ok t) : s.Alike t := by
  unfold State.join at one other
  split at one
  · split at other
    · obtain rfl := Except.ok.inj one
      obtain rfl := Except.ok.inj other
      exact .operand groups (.some whole)
    · exact absurd other (by simp)
  · exact absurd one (by simp)

theorem alike_step {s t s' t' : State} {l : Placed} (alike : s.Alike t) (one : s.step l = .ok s')
    (other : t.step l = .ok t') : s'.Alike t' := by
  obtain ⟨lexeme, pos⟩ := l
  cases alike with
  | operand groups left =>
    cases lexeme with
    | term token =>
      obtain rfl := Except.ok.inj one
      obtain rfl := Except.ok.inj other
      exact alike_after groups left fun _ => rfl
    | opening =>
      obtain rfl := Except.ok.inj one
      obtain rfl := Except.ok.inj other
      exact .operand (.cons left groups) .none
    | closing =>
      simp only [State.step] at one
      split at one <;> exact absurd one (by simp)
    | conj => exact absurd one (by simp [State.step])
    | disj => exact absurd one (by simp [State.step])
  | operator groups whole _ =>
    cases lexeme with
    | conj => exact alike_join groups whole one other
    | disj => exact alike_join groups whole one other
    | closing =>
      cases groups with
      | nil => exact absurd one (by simp [State.step])
      | cons outside groups =>
        obtain rfl := Except.ok.inj one
        obtain rfl := Except.ok.inj other
        exact alike_after groups outside whole
    | term token => exact absurd one (by simp [State.step])
    | opening => exact absurd one (by simp [State.step])

theorem alike_run {ls : List Lexeme} {s t s' t' : State} (alike : s.Alike t) (one : s.run ls = .ok s')
    (other : t.run ls = .ok t') : s'.Alike t' := by
  induction ls generalizing s t with
  | nil =>
    obtain rfl := pure_ok one
    obtain rfl := pure_ok other
    exact alike
  | cons l ls ih =>
    rw [run_cons] at one other
    obtain ⟨s₁, step, one⟩ := bind_ok one
    obtain ⟨t₁, step', other⟩ := bind_ok other
    exact ih (alike_step alike step step') one other

theorem Expr.Alike.trans {e f g : Expr} (one : e.Alike f) (other : f.Alike g) : e.Alike g :=
  fun held => (one held).trans (other held)

theorem operator_step_ok {groups : List Group} {e : Expr} {o : Option Operator} {op : Operator} {t : State}
    (step : (State.operator groups e o).step ⟨op.lexeme, 0⟩ = .ok t) :
    (o = none ∨ o = some op) ∧ t = .operand groups (some (e, op)) := by
  have joined : State.join groups e o op 0 = .ok t := by cases op <;> exact step
  unfold State.join at joined
  split at joined
  · next fits => exact ⟨fits, (Except.ok.inj joined).symm⟩
  · exact absurd joined (by simp)

/-- An expression in the place of an operand is as good as one in parentheses, where it is possible at all. -/
theorem alike_joined {op : Operator} {ls : List Lexeme} {e : Expr} (derives : Derives (.joined op) ls e)
    {groups : List Group} {left : Left} {t : State} (run : (State.operand groups left).run ls = .ok t) :
    (State.after groups left e).Alike t := by
  generalize same : Phrase.joined op = p at derives
  induction derives generalizing t with
  | term token => exact absurd same (by simp)
  | group _ _ => exact absurd same (by simp)
  | single operand _ =>
    obtain ⟨_, _, here, rfl⟩ := run_operand operand run
    obtain ⟨rfl, rfl⟩ := State.operand.inj here
    exact alike_after (List.forall₂_same.mpr fun g _ => Left.alike_refl _) (Left.alike_refl _) fun _ => rfl
  | @more op' ls ms e f joined operand ih _ =>
    obtain rfl := Phrase.joined.inj same
    rw [run_append] at run
    obtain ⟨s, first, run⟩ := bind_ok run
    rw [run_cons] at run
    obtain ⟨u, step, run⟩ := bind_ok run
    have alike := ih first rfl
    cases left with
    | none =>
      cases alike with
      | operator outer whole _ =>
        obtain ⟨-, rfl⟩ := operator_step_ok step
        obtain ⟨_, _, here, rfl⟩ := run_operand operand run
        obtain ⟨rfl, rfl⟩ := State.operand.inj here
        exact .operator outer (apply_alike op whole fun _ => rfl) (.inl rfl)
    | some x =>
      obtain ⟨l, own⟩ := x
      cases alike with
      | operator outer whole fits =>
        obtain ⟨fits', rfl⟩ := operator_step_ok step
        obtain ⟨_, _, here, rfl⟩ := run_operand operand run
        obtain ⟨rfl, rfl⟩ := State.operand.inj here
        -- the operator outside is that of the expression, which could not have gone on otherwise
        obtain rfl := fits.resolve_left (Option.some_ne_none own)
        obtain rfl : own = op := Option.some.inj (fits'.resolve_left (Option.some_ne_none own))
        exact .operator outer ((apply_assoc own l e f).trans (apply_alike own whole fun _ => rfl)) (.inr rfl)

/-- The lexemes of a group that has been read are an expression. -/
theorem forms_of_closed {groups : List Group} {mid : List Lexeme} {s t : State}
    (balanced : depth 0 mid = some 0) (inside : (State.operand groups none).run mid = .ok s)
    (closes : s.step ⟨.closing, 0⟩ = .ok t) :
    ∃ g outer e, groups = g :: outer ∧ Forms mid e ∧ t = .after outer g.outside e := by
  have empty : (State.operand groups none).Spans groups 0 [] := ⟨[], [], .base, rfl, rfl⟩
  have spans := spans_run empty ((map_unplaced mid).symm ▸ balanced) inside
  rw [map_unplaced, List.nil_append] at spans
  cases s with
  | operand _ left =>
    simp only [State.step] at closes
    split at closes <;> exact absurd closes (by simp)
  | operator _ e o =>
    obtain ⟨out, own, stack, derives, rfl⟩ := spans
    cases stack
    cases groups with
    | nil => exact absurd closes (by simp [State.step])
    | cons g outer => exact ⟨g, outer, e, rfl, joined_of_phrase derives, (Except.ok.inj closes).symm⟩

/-- A pair of parentheses that can be left out makes no difference to readers. -/
theorem eval_parentheses {before mid after : List Lexeme} {e f : Expr} (balanced : depth 0 mid = some 0)
    (without : Forms (before ++ (mid ++ after)) e)
    (within : Forms (before ++ (enclosed mid ++ after)) f) : e.Alike f := by
  have shape : enclosed mid ++ after = .opening :: (mid ++ .closing :: after) := by simp [enclosed]
  rw [shape] at within
  obtain ⟨o, run⟩ := forms_iff_run.mp without
  obtain ⟨p, run'⟩ := forms_iff_run.mp within
  rw [run_append] at run run'
  obtain ⟨s, first, run⟩ := bind_ok run
  obtain ⟨s', first', run'⟩ := bind_ok run'
  obtain rfl := Except.ok.inj (first.symm.trans first')
  rw [run_append] at run
  obtain ⟨t, middle, rest⟩ := bind_ok run
  rw [run_cons] at run'
  obtain ⟨u, opens, run'⟩ := bind_ok run'
  rw [run_append] at run'
  obtain ⟨v, inside, run'⟩ := bind_ok run'
  rw [run_cons] at run'
  obtain ⟨w, closes, rest'⟩ := bind_ok run'
  cases s with
  | operator groups whole q => exact absurd opens (by simp [State.step])
  | operand groups left =>
    obtain rfl := Except.ok.inj opens
    obtain ⟨g, outer, x, same, ⟨op, forms⟩, rfl⟩ := forms_of_closed balanced inside closes
    obtain ⟨rfl, rfl⟩ := List.cons.inj same
    cases alike_run (alike_joined forms middle) rest' rest with
    | operator _ whole _ => exact fun held => (whole held).symm

theorem forms_parentheses {ls : List Lexeme} {e : Expr} (balanced : depth 0 ls = some 0) :
    Forms ls e ↔ Forms (enclosed ls) e := by
  constructor
  · rintro ⟨op, derives⟩
    exact ⟨op, .single (.group derives)⟩
  · intro forms
    obtain ⟨o, run⟩ := forms_iff_run.mp forms
    rw [enclosed, run_cons] at run
    obtain ⟨s, opens, run⟩ := bind_ok run
    rw [run_append] at run
    obtain ⟨t, inside, run⟩ := bind_ok run
    rw [run_cons] at run
    obtain ⟨u, closes, run⟩ := bind_ok run
    obtain rfl := Except.ok.inj opens
    obtain ⟨g, outer, x, same, own, rfl⟩ := forms_of_closed balanced inside closes
    obtain ⟨rfl, rfl⟩ := List.cons.inj same
    injection pure_ok run with _ whole _
    exact whole ▸ own

end GuardedGraph.Visibility

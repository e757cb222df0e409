import GuardedGraph.Proofs.Outcome
import GuardedGraph.Visibility.Expr

/-! Which lexemes form an expression, and which expression (`assemble_ok_iff`). -/

namespace GuardedGraph.Visibility

open Outcome

def Operator.lexeme : Operator → Lexeme
  | .conj => .conj
  | .disj => .disj

/-- What lexemes can form: an operand, or operands with one operator between them. -/
inductive Phrase
  | operand
  | joined (op : Operator)

/-- Lexemes in parentheses. -/
def enclosed (ls : List Lexeme) : List Lexeme := .opening :: (ls ++ [.closing])

/-- The grammar. An operand is a term or an expression in parentheses; an expression is one operand, or several
joined by the same operator. -/
inductive Derives : Phrase → List Lexeme → Expr → Prop
  | term (token : String) : Derives .operand [.term token] (.term token)
  | group {op : Operator} {ls : List Lexeme} {e : Expr} : Derives (.joined op) ls e →
      Derives .operand (enclosed ls) e
  | single {op : Operator} {ls : List Lexeme} {e : Expr} : Derives .operand ls e → Derives (.joined op) ls e
  | more {op : Operator} {ls ms : List Lexeme} {e f : Expr} : Derives (.joined op) ls e → Derives .operand ms f →
      Derives (.joined op) (ls ++ op.lexeme :: ms) (op.apply e f)

def Forms (ls : List Lexeme) (e : Expr) : Prop := ∃ op, Derives (.joined op) ls e

/-! ### Every expression is assembled -/

/-- The lexemes take one state to the other, wherever they stand in the text. -/
def Takes (ls : List Lexeme) (s t : State) : Prop :=
  ∀ placed : List Placed, placed.map (·.lexeme) = ls → placed.foldlM State.step s = .ok t

theorem Takes.append {ls ms : List Lexeme} {s t u : State} (first : Takes ls s t) (then' : Takes ms t u) :
    Takes (ls ++ ms) s u := by
  intro placed same
  obtain ⟨left, right, rfl, hl, hr⟩ := List.map_eq_append_iff.mp same
  rw [List.foldlM_append, first left hl]
  exact then' right hr

theorem takes_single {l : Lexeme} {s t : State} (step : ∀ pos, s.step ⟨l, pos⟩ = .ok t) : Takes [l] s t := by
  intro placed same
  obtain ⟨⟨_, pos⟩, rfl, rfl⟩ := List.map_eq_singleton_iff.mp same
  rw [List.foldlM_cons, step pos]
  rfl

theorem join_ok {groups : List Group} {e : Expr} {o : Option Operator} {op : Operator} (fits : o = none ∨ o = some op)
    (pos : Nat) : (State.operator groups e o).step ⟨op.lexeme, pos⟩ = .ok (.operand groups (some (e, op))) := by
  cases op <;> exact if_pos fits

/-- An operand completes what stands left of it; an expression fills its group. -/
theorem takes_of_derives {p : Phrase} {ls : List Lexeme} {e : Expr} (derives : Derives p ls e) :
    match p with
    | .operand => ∀ groups left, Takes ls (.operand groups left) (.after groups left e)
    | .joined op => ∀ groups, ∃ o, (o = none ∨ o = some op) ∧
        Takes ls (.operand groups none) (.operator groups e o) := by
  induction derives with
  | term token => exact fun groups left => takes_single fun pos => rfl
  | @group op ls e _ ih =>
    intro groups left placed same
    obtain ⟨⟨_, start⟩, rest, rfl, rfl, inside⟩ := List.map_eq_cons_iff.mp same
    obtain ⟨o, -, fills⟩ := ih (⟨start, left⟩ :: groups)
    have closes : Takes [.closing] (.operator (⟨start, left⟩ :: groups) e o) (.after groups left e) :=
      takes_single fun pos => rfl
    exact fills.append closes rest inside
  | single _ ih => exact fun groups => ⟨none, .inl rfl, ih groups none⟩
  | @more op ls ms e f _ _ ih ih' =>
    intro groups
    obtain ⟨o, fits, first⟩ := ih groups
    exact ⟨some op, .inr rfl, first.append (Takes.append (takes_single (join_ok fits)) (ih' groups (some (e, op))))⟩

/-! ### What is assembled is an expression -/

def phrase : Option Operator → Phrase
  | none => .operand
  | some op => .joined op

theorem joined_of_phrase {o : Option Operator} {ls : List Lexeme} {e : Expr} (derives : Derives (phrase o) ls e) :
    Forms ls e := by
  cases o with
  | none => exact ⟨.conj, .single derives⟩
  | some op => exact ⟨op, derives⟩

/-- The lexemes that stand left of an operand in its group. -/
def Left.Spans : Left → List Lexeme → Prop
  | none, ls => ls = []
  | some (e, op), ls => ∃ ms, Derives (.joined op) ms e ∧ ls = ms ++ [op.lexeme]

/-- The lexemes that `n` groups have opened above others. -/
inductive Stack (base : List Group) : Nat → List Group → List Lexeme → Prop
  | base : Stack base 0 base []
  | opened {n : Nat} {g : Group} {groups : List Group} {ls ms : List Lexeme} : Stack base n groups ls →
      g.outside.Spans ms → Stack base (n + 1) (g :: groups) (ls ++ (ms ++ [.opening]))

/-- The lexemes since a point where the groups `base` were open and nothing stood in the innermost of them. -/
def State.Spans (base : List Group) (n : Nat) (ls : List Lexeme) : State → Prop
  | .operand groups left => ∃ out own, Stack base n groups out ∧ left.Spans own ∧ ls = out ++ own
  | .operator groups whole o => ∃ out own, Stack base n groups out ∧ Derives (phrase o) own whole ∧ ls = out ++ own

/-- How deep a lexeme leaves the text in groups, unless it closes more than were opened. -/
def nest (n : Nat) : Lexeme → Option Nat
  | .opening => some (n + 1)
  | .closing => if n = 0 then none else some (n - 1)
  | _ => some n

theorem spans_after {base groups : List Group} {n : Nat} {out own ms : List Lexeme} {left : Left} {e : Expr}
    (stack : Stack base n groups out) (spans : left.Spans own) (derives : Derives .operand ms e) :
    (State.after groups left e).Spans base n (out ++ (own ++ ms)) := by
  cases left with
  | none =>
    obtain rfl := spans
    exact ⟨out, ms, stack, derives, rfl⟩
  | some l =>
    obtain ⟨l, op⟩ := l
    obtain ⟨ls, whole, rfl⟩ := spans
    refine ⟨out, _, stack, .more whole derives, ?_⟩
    rw [List.append_assoc]
    rfl

theorem spans_join {base groups : List Group} {n : Nat} {ls : List Lexeme} {whole : Expr} {o : Option Operator}
    {next : Operator} {pos : Nat} {t : State} (spans : (State.operator groups whole o).Spans base n ls)
    (joined : State.join groups whole o next pos = .ok t) : t.Spans base n (ls ++ [next.lexeme]) := by
  obtain ⟨out, own, stack, derives, rfl⟩ := spans
  unfold State.join at joined
  split at joined
  · next fits =>
    obtain rfl := Except.ok.inj joined
    have whole : Derives (.joined next) own whole := by
      rcases fits with rfl | rfl
      · exact .single derives
      · exact derives
    exact ⟨out, own ++ [next.lexeme], stack, ⟨own, whole, rfl⟩, List.append_assoc ..⟩
  · exact absurd joined (by simp)

theorem spans_step {base : List Group} {n m : Nat} {ls : List Lexeme} {s t : State} {l : Placed}
    (spans : s.Spans base n ls) (nested : nest n l.lexeme = some m) (step : s.step l = .ok t) :
    t.Spans base m (ls ++ [l.lexeme]) := by
  obtain ⟨lexeme, pos⟩ := l
  cases s with
  | operand groups left =>
    obtain ⟨out, own, stack, left_spans, rfl⟩ := spans
    cases lexeme with
    | term token =>
      obtain rfl := Except.ok.inj step
      obtain rfl := Option.some.inj nested
      rw [List.append_assoc]
      exact spans_after stack left_spans (.term token)
    | opening =>
      obtain rfl := Except.ok.inj step
      obtain rfl := Option.some.inj nested
      exact ⟨_, [], .opened stack left_spans, rfl, by simp⟩
    | closing =>
      simp only [State.step] at step
      split at step <;> exact absurd step (by simp)
    | conj => exact absurd step (by simp [State.step])
    | disj => exact absurd step (by simp [State.step])
  | operator groups whole o =>
    cases lexeme with
    | conj =>
      obtain rfl := Option.some.inj nested
      exact spans_join spans step
    | disj =>
      obtain rfl := Option.some.inj nested
      exact spans_join spans step
    | closing =>
      obtain ⟨out, own, stack, derives, rfl⟩ := spans
      cases stack with
      | base => exact absurd nested (by simp [nest])
      | @opened n g groups ls ms stack outside =>
        obtain rfl := Except.ok.inj step
        obtain rfl : n = m := by simpa [nest] using nested
        obtain ⟨op, forms⟩ := joined_of_phrase derives
        have closed := spans_after stack outside (.group forms)
        simpa [enclosed] using closed
    | term token => exact absurd step (by simp [State.step])
    | opening => exact absurd step (by simp [State.step])

/-- How deep lexemes leave the text in groups. -/
def depth (n : Nat) (ls : List Lexeme) : Option Nat := ls.foldlM nest n

theorem spans_run {base : List Group} {placed : List Placed} {n m : Nat} {ls : List Lexeme} {s t : State}
    (spans : s.Spans base n ls) (nested : depth n (placed.map (·.lexeme)) = some m)
    (run : placed.foldlM State.step s = .ok t) : t.Spans base m (ls ++ placed.map (·.lexeme)) := by
  induction placed generalizing n ls s with
  | nil =>
    obtain rfl := Option.some.inj nested
    obtain rfl := pure_ok run
    simpa using spans
  | cons l placed ih =>
    rw [List.foldlM_cons] at run
    obtain ⟨u, step, run⟩ := bind_ok run
    rw [List.map_cons, depth, List.foldlM_cons] at nested
    obtain ⟨k, one, nested⟩ := Option.bind_eq_some_iff.mp nested
    simpa using ih (spans_step spans one step) nested run

/-- No lexeme closes a group that has not been opened. -/
theorem nest_of_step {n : Nat} {ls : List Lexeme} {s t : State} {l : Placed} (spans : s.Spans [] n ls)
    (step : s.step l = .ok t) : ∃ m, nest n l.lexeme = some m := by
  obtain ⟨lexeme, pos⟩ := l
  cases lexeme with
  | closing =>
    cases s with
    | operand groups left =>
      simp only [State.step] at step
      split at step <;> exact absurd step (by simp)
    | operator groups whole o =>
      obtain ⟨out, own, stack, -⟩ := spans
      cases stack with
      | base => exact absurd step (by simp [State.step])
      | @opened n _ _ _ _ _ _ => exact ⟨n, rfl⟩
  | opening => exact ⟨n + 1, rfl⟩
  | _ => exact ⟨n, rfl⟩

theorem spans_whole {placed : List Placed} {n : Nat} {ls : List Lexeme} {s t : State} (spans : s.Spans [] n ls)
    (run : placed.foldlM State.step s = .ok t) : ∃ m, t.Spans [] m (ls ++ placed.map (·.lexeme)) := by
  induction placed generalizing n ls s with
  | nil =>
    obtain rfl := pure_ok run
    exact ⟨n, by simpa using spans⟩
  | cons l placed ih =>
    rw [List.foldlM_cons] at run
    obtain ⟨u, step, run⟩ := bind_ok run
    obtain ⟨k, one⟩ := nest_of_step spans step
    simpa using ih (spans_step spans one step) run

theorem finish_ok_iff {s : State} {stop : Nat} {e : Expr} : s.finish stop = .ok e ↔ ∃ o, s = .operator [] e o := by
  cases s with
  | operand groups left => simp [State.finish]
  | operator groups whole o => cases groups <;> simp [State.finish]

theorem assemble_eq_ok_iff {stop : Nat} {placed : List Placed} {e : Expr} :
    assemble stop placed = .ok e ↔ ∃ o, placed.foldlM State.step (.operand [] none) = .ok (.operator [] e o) := by
  unfold assemble
  constructor
  · intro assembled
    cases run : placed.foldlM State.step (.operand [] none) with
    | error f => rw [run] at assembled; exact absurd assembled (by simp [Except.bind])
    | ok s =>
      rw [run] at assembled
      obtain ⟨o, rfl⟩ := finish_ok_iff.mp assembled
      exact ⟨o, rfl⟩
  · rintro ⟨o, run⟩
    rw [run]
    show State.finish stop (.operator [] e o) = _
    exact finish_ok_iff.mpr ⟨o, rfl⟩

/-- What is assembled is the expression that the lexemes form. -/
theorem assemble_ok_iff (stop : Nat) (placed : List Placed) (e : Expr) :
    assemble stop placed = .ok e ↔ Forms (placed.map (·.lexeme)) e := by
  rw [assemble_eq_ok_iff]
  constructor
  · rintro ⟨o, run⟩
    have empty : (State.operand [] none).Spans [] 0 [] := ⟨[], [], .base, rfl, rfl⟩
    obtain ⟨m, out, own, stack, derives, all⟩ := spans_whole empty run
    cases stack
    rw [List.nil_append, List.nil_append] at all
    exact all ▸ joined_of_phrase derives
  · rintro ⟨op, derives⟩
    obtain ⟨o, -, takes⟩ := takes_of_derives derives []
    exact ⟨o, takes placed rfl⟩

/-! ### Wherever the lexemes stand -/

def unplaced (ls : List Lexeme) : List Placed := ls.map fun l => ⟨l, 0⟩

theorem map_unplaced (ls : List Lexeme) : (unplaced ls).map (·.lexeme) = ls := by
  rw [unplaced, List.map_map]
  exact List.map_id ls

def State.run (s : State) (ls : List Lexeme) : Except ParseError State := (unplaced ls).foldlM State.step s

theorem run_append (s : State) (ls ms : List Lexeme) : s.run (ls ++ ms) = s.run ls >>= fun t => t.run ms := by
  rw [State.run, unplaced, List.map_append, List.foldlM_append]
  rfl

theorem run_cons (s : State) (l : Lexeme) (ls : List Lexeme) :
    s.run (l :: ls) = s.step ⟨l, 0⟩ >>= fun t => t.run ls := by
  rw [State.run, unplaced, List.map_cons, List.foldlM_cons]
  rfl

theorem forms_iff_run {ls : List Lexeme} {e : Expr} :
    Forms ls e ↔ ∃ o, (State.operand [] none).run ls = .ok (.operator [] e o) := by
  have assembled := assemble_ok_iff 0 (unplaced ls) e
  rw [map_unplaced, assemble_eq_ok_iff] at assembled
  exact assembled.symm

theorem Forms.ne_nil {ls : List Lexeme} {e : Expr} (forms : Forms ls e) : ls ≠ [] := by
  rintro rfl
  obtain ⟨o, run⟩ := forms_iff_run.mp forms
  exact absurd (pure_ok run) (by simp)

theorem Forms.unique {ls : List Lexeme} {e f : Expr} (one : Forms ls e) (other : Forms ls f) : e = f := by
  obtain ⟨o, run⟩ := forms_iff_run.mp one
  obtain ⟨p, run'⟩ := forms_iff_run.mp other
  injection Except.ok.inj (run.symm.trans run')

end GuardedGraph.Visibility

import GuardedGraph.Visibility.Lexeme

/-!
Boolean expressions over label tokens, and how lexemes assemble into one. Within a group all operators
are the same. `assemble_shift` says that positions matter to faults only.
-/

namespace GuardedGraph.Visibility

inductive Expr
  | term (token : String)
  | both (left right : Expr)
  | either (left right : Expr)
  deriving DecidableEq

/-- Truth when exactly the tokens that `held` accepts are true. -/
def Expr.eval (held : String → Bool) : Expr → Bool
  | .term token => held token
  | .both left right => left.eval held && right.eval held
  | .either left right => left.eval held || right.eval held

inductive Operator
  | conj
  | disj
  deriving DecidableEq

def Operator.apply : Operator → Expr → Expr → Expr
  | .conj => .both
  | .disj => .either

/-- What stands left of the next operand of a group: nothing, or an expression and its operator. -/
abbrev Left := Option (Expr × Operator)

/-- The operand completed with what stands left of it, and the operator of its group. -/
def Left.complete : Left → Expr → Expr × Option Operator
  | none, e => (e, none)
  | some (l, op), e => (op.apply l e, some op)

/-- A group left open: the byte of its parenthesis and what stands left of it outside. -/
structure Group where
  opened : Nat
  outside : Left
  deriving DecidableEq

/-- What the next lexeme has to be: an operand, or the operator or end that follows one. -/
inductive State
  | operand (groups : List Group) (left : Left)
  | operator (groups : List Group) (whole : Expr) (op : Option Operator)
  deriving DecidableEq

/-- An operand has been read in the innermost group. -/
def State.after (groups : List Group) (left : Left) (e : Expr) : State :=
  .operator groups (left.complete e).1 (left.complete e).2

/-- No operator and no end of group stands at `position`, where one is due. -/
def misplaced (groups : List Group) (position : Nat) : ParseError :=
  match groups with
  | [] => ⟨.trailing, position⟩
  | g :: _ => ⟨.unbalanced, g.opened⟩

/-- An operator joins what it follows, unless its group has the other one. -/
def State.join (groups : List Group) (whole : Expr) (op : Option Operator) (next : Operator) (position : Nat) :
    Except ParseError State :=
  if op = none ∨ op = some next then .ok (.operand groups (some (whole, next))) else .error ⟨.mixed, position⟩

def State.step : State → Placed → Except ParseError State
  | .operand groups left, l =>
    match l.lexeme with
    | .term token => .ok (.after groups left (.term token))
    | .opening => .ok (.operand (⟨l.start, left⟩ :: groups) none)
    | .closing =>
      if left = none ∧ groups ≠ [] then .error ⟨.emptyGroup, l.start⟩ else .error ⟨.notTerm .closing, l.start⟩
    | found => .error ⟨.notTerm found, l.start⟩
  | .operator groups whole op, l =>
    match l.lexeme with
    | .conj => State.join groups whole op .conj l.start
    | .disj => State.join groups whole op .disj l.start
    | .closing =>
      match groups with
      | [] => .error ⟨.trailing, l.start⟩
      | g :: groups => .ok (.after groups g.outside whole)
    | _ => .error (misplaced groups l.start)

/-- The expression, when the lexemes may end here. -/
def State.finish (stop : Nat) : State → Except ParseError Expr
  | .operand _ _ => .error ⟨.missingTerm, stop⟩
  | .operator [] whole _ => .ok whole
  | .operator (g :: _) _ _ => .error ⟨.unbalanced, g.opened⟩

/-- The expression that the lexemes spell; they end at the byte `stop`. -/
def assemble (stop : Nat) (ls : List Placed) : Except ParseError Expr :=
  (ls.foldlM State.step (.operand [] none)).bind (State.finish stop)

/-- The expression of a text, and none for a text without lexemes. -/
def parse (text : String) : Except ParseError (Option Expr) :=
  (lexemes text.toList).bind fun ls =>
    if ls = [] then .ok none else (assemble (Text.width text.toList) ls).map some

/-! ### Positions -/

def Group.shift (n : Nat) (g : Group) : Group := ⟨g.opened + n, g.outside⟩

def State.shift (n : Nat) : State → State
  | .operand groups left => .operand (groups.map (Group.shift n)) left
  | .operator groups whole op => .operator (groups.map (Group.shift n)) whole op

theorem misplaced_shift (n position : Nat) (groups : List Group) :
    misplaced (groups.map (Group.shift n)) (position + n) = (misplaced groups position).shift n := by
  cases groups <;> rfl

theorem State.join_shift (n : Nat) (groups : List Group) (whole : Expr) (op : Option Operator) (next : Operator)
    (position : Nat) :
    State.join (groups.map (Group.shift n)) whole op next (position + n) =
      shifted n (State.shift n) (State.join groups whole op next position) := by
  unfold State.join
  split <;> rfl

theorem State.step_shift (n : Nat) (s : State) (l : Placed) :
    (s.shift n).step (l.shift n) = shifted n (State.shift n) (s.step l) := by
  obtain ⟨lexeme, start⟩ := l
  cases s with
  | operand groups left =>
    cases lexeme with
    | closing =>
      simp only [State.step, State.shift, Placed.shift, List.map_eq_nil_iff, ne_eq]
      split <;> rfl
    | _ => rfl
  | operator groups whole op =>
    cases lexeme with
    | conj => exact State.join_shift ..
    | disj => exact State.join_shift ..
    | closing => cases groups <;> rfl
    | term token => simp only [State.step, State.shift, Placed.shift, misplaced_shift, shifted]
    | opening => simp only [State.step, State.shift, Placed.shift, misplaced_shift, shifted]

theorem foldlM_step_shift (n : Nat) (s : State) (ls : List Placed) :
    (ls.map (Placed.shift n)).foldlM State.step (s.shift n) =
      shifted n (State.shift n) (ls.foldlM State.step s) := by
  induction ls generalizing s with
  | nil => rfl
  | cons l ls ih =>
    rw [List.map_cons, List.foldlM_cons, List.foldlM_cons, State.step_shift]
    cases s.step l with
    | error e => rfl
    | ok t => exact ih t

theorem State.finish_shift (n stop : Nat) (s : State) :
    (s.shift n).finish (stop + n) = shifted n id (s.finish stop) := by
  cases s with
  | operand groups left => rfl
  | operator groups whole op => cases groups <;> rfl

/-- Lexemes that stand `n` bytes later give the same expression, or the same fault `n` bytes later. -/
theorem assemble_shift (n stop : Nat) (ls : List Placed) :
    assemble (stop + n) (ls.map (Placed.shift n)) = shifted n id (assemble stop ls) := by
  have h : (ls.map (Placed.shift n)).foldlM State.step (.operand [] none) = _ :=
    foldlM_step_shift n (.operand [] none) ls
  rw [assemble, assemble, h]
  cases ls.foldlM State.step (State.operand [] none) with
  | error e => rfl
  | ok s => exact State.finish_shift n stop s

/-- Where the text stops matters only to the fault of a text that stops too early. -/
theorem assemble_stop {stop : Nat} {ls : List Placed} {e : Expr} (h : assemble stop ls = .ok e) (stop' : Nat) :
    assemble stop' ls = .ok e := by
  rw [assemble] at h ⊢
  cases hs : ls.foldlM State.step (.operand [] none) with
  | error f => rw [hs] at h; exact absurd h (by simp [Except.bind])
  | ok s =>
    rw [hs] at h
    simp only [Except.bind] at h ⊢
    cases s with
    | operand groups left => exact absurd h (by simp [State.finish])
    | operator groups whole op =>
      cases groups with
      | nil => exact h
      | cons g groups => exact absurd h (by simp [State.finish])

end GuardedGraph.Visibility

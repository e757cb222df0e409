import GuardedGraph.Query.Basic

/-!
Queries in the making, call by call. A condition is checked when it is added; that it makes no sense is told when
the query is run.
-/

namespace GuardedGraph

namespace Query

/-- One call on a query. Of calls that set the same, the last one counts. -/
inductive Call
  | having (condition : Predicate)
  | direction (d : Direction)
  | labels (labels : List String)
  | skip (n : Nat)
  | limit (n : Nat)

def call (q : Query) : Call → Query
  | .having p => q.having p
  | .direction d => { q with direction := d }
  | .labels labels => { q with labels }
  | .skip n => { q with skip := n }
  | .limit n => { q with limit := some n }

/-- A query, and the fault of its first condition that makes no sense. Conditions behind that one are dropped. -/
structure Making where
  query : Query
  fault : Option Error

namespace Making

def ofSource (source : Source) (reader : Authorizations) : Making := ⟨.ofSource source reader, none⟩

/-- A condition that is added to a sound query, with its check. -/
def add (m : Making) (p : Predicate) : Except Error Unit → Making
  | .ok _ => { m with query := m.query.having p }
  | .error e => { m with fault := some e }

def call (kinds : Table Value.Kind) (m : Making) : Call → Making
  | .having p => if m.fault.isSome then m else m.add p (p.check (kinds.get? p.name))
  | c => { m with query := m.query.call c }

variable {σ : Type} [Store.Backend σ]

def run (g : Graph σ) (t : ElementType) (m : Making) : Except Error (Results t) :=
  match m.fault with
  | some e => .error e
  | none => do return ⟨← m.query.candidates g t, m.query.reader, m.query.keeps, m.query.skip, m.query.limit⟩

end Making

end Query

end GuardedGraph

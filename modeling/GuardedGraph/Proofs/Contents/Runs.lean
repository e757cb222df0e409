import GuardedGraph.Proofs.Contents.Saved
import GuardedGraph.Proofs.Reading.Views

/-! Runs in which callers supply streams of their own and streams that they have read. Every graph of such a run
has a ledger, for what readers have been shown is true to it. -/

namespace GuardedGraph

open Store (Memory)
open Outcome Commit

variable {l : Ledger} {past : List (Graph Memory)} {g h : Graph Memory} {t : ElementType} {id : String}
  {a : Authorizations} {s : Value.Stream}

/-- The streams of a property and of its metadata. -/
def Property.streams (p : Property) : List Value.Stream :=
  p.value.streams ++ p.metadata.entries.flatMap (·.2.value.streams)

/-- Some reader of the graph gets to see the stream. -/
def Graph.Shows (g : Graph Memory) (s : Value.Stream) : Prop :=
  ∃ t id a v, g.get? t id a = .ok (some v) ∧ ∃ p ∈ v.properties, s ∈ p.streams

namespace Operation

def changes : Operation → List Change
  | save s _ => s.changes
  | _ => []

/-- Every stream of the operation has its content with it, of no more bytes than a memory can hold, or has been
read from the graph in one of the states that it has been in. -/
def Supplied (states : List (Graph Memory)) (o : Operation) : Prop :=
  ∀ c ∈ o.changes, ∀ s ∈ c.streams,
    (∃ content, s.source = .inline content ∧ content.size < 0x10000000000000000) ∨ ∃ g ∈ states, g.Shows s

end Operation

/-- The graph has come from an empty store through the states before it, latest first. -/
inductive Graph.Run : List (Graph Memory) → Graph Memory → Prop
  | start (config : Config) (index : Option Search.Index) (names : Names) :
    Run [] (.ofStore .empty config index names)
  | step {past : List (Graph Memory)} {g : Graph Memory} (o : Operation) : Run past g → o.Supplied (g :: past) →
      Run (g :: past) (o.after g)

theorem Graph.Run.reachable (run : Graph.Run past g) : g.Reachable := by
  induction run with
  | start config index names => exact .start config index names
  | step o run _ ih => exact .step o ih

/-! ### What readers are shown -/

theorem get?_ok_some {v : View t} (h : g.get? t id a = .ok (some v)) :
    ∃ r, g.store.get? t id = some r ∧ r.view? t a = .ok (some v) := by
  cases found : g.store.get? t id with
  | none => exact absurd ((Graph.get?_none found).symm.trans h) (by simp)
  | some r => exact ⟨r, rfl, (Graph.get?_some found).symm.trans h⟩

theorem Ledgered.shows (ledgered : Ledgered l g) (shows : g.Shows s) : s.Honest l := by
  obtain ⟨t, id, a, v, seen, p, mem, there⟩ := shows
  obtain ⟨r, found, view⟩ := get?_ok_some seen
  obtain ⟨-, -, ps, links, hps, -, rfl⟩ := view?_some_iff.mp view
  obtain ⟨q, stored, decoded⟩ := exists_left_of_mem (mapM_ok_iff.mp hps) mem
  have honest := ((ledgered.fit t id r found).honest q (List.mem_filter.mp stored).1).decodeWith decoded
    fun e he => (List.mem_filter.mp he).1
  rcases List.mem_append.mp there with there | there
  · exact honest.value s there
  · obtain ⟨e, entry, there⟩ := List.mem_flatMap.mp there
    exact honest.entries e entry s there

/-! ### Steps and runs -/

theorem ledgered_empty (config : Config) (index : Option Search.Index) (names : Names) :
    Ledgered (fun _ => none) (.ofStore .empty config index names) := by
  have none (t : ElementType) (id : String) : Memory.empty.get? t id = none := by cases t <;> rfl
  refine ⟨by simp, by simp [Graph.ofStore, Memory.empty, Memory.kept?], fun t id r found => ?_, ?_, ?_⟩
  · exact absurd ((none t id).symm.trans found) (by simp)
  · rintro t id key ⟨r, found, -⟩
    exact absurd ((none t id).symm.trans found) (by simp)
  · rintro t id u j key ⟨r, found, -⟩
    exact absurd ((none t id).symm.trans found) (by simp)

theorem Operation.Does.continues {o : Operation} (does : o.Does g h) (ledgered : Ledgered l g)
    (mirrored : Mirrored g.store) (supplied : ∀ c ∈ o.changes, ∀ s ∈ c.streams, s.Honest l) : l.Continues h := by
  cases does with
  | refuse grown => exact (ledgered.grown grown).continues
  | write prepared => exact (ledgered.written mirrored prepared supplied).continues
  | @removeVertex id a r _ _ =>
    exact (ledgered.withoutEdges (mirrored.weaken id) (edgeIds r.edgeRefs)).trans fun m there => there.withoutVertex id
  | removeEdge _ => exact ledgered.withoutEdge mirrored _ none
  | hide markable => exact ledgered.marked mirrored (Graph.markable_ok markable).1 _
  | unhide markable => exact ledgered.marked mirrored (Graph.markable_ok markable).1 _
  | declare name kind => exact ⟨l, fun _ _ found => found, ledgered.1, ledgered.2, ledgered.3, ledgered.4, ledgered.5⟩

/-- What a run leaves of its ledger: it fits the graph, and everything that readers have been shown. -/
structure RunLedger (l : Ledger) (past : List (Graph Memory)) (g : Graph Memory) : Prop where
  ledgered : Ledgered l g
  shown : ∀ f ∈ past, ∀ s, f.Shows s → s.Honest l

theorem RunLedger.supplied {o : Operation} (ledger : RunLedger l past g) (supplied : o.Supplied (g :: past)) :
    ∀ c ∈ o.changes, ∀ s ∈ c.streams, s.Honest l := by
  intro c mem s there
  rcases supplied c mem s there with ⟨content, inline, small⟩ | ⟨f, state, shows⟩
  · unfold Value.Stream.Honest
    rw [inline]
    exact small
  · rcases List.mem_cons.mp state with rfl | state
    · exact ledger.ledgered.shows shows
    · exact ledger.shown f state s shows

theorem RunLedger.step {m : Ledger} (ledger : RunLedger l past g) (within : l.Within m) (ledgered : Ledgered m h) :
    RunLedger m (g :: past) h := by
  refine ⟨ledgered, fun f state s shows => ?_⟩
  rcases List.mem_cons.mp state with rfl | state
  · exact (ledger.ledgered.shows shows).mono within
  · exact (ledger.shown f state s shows).mono within

theorem Graph.Run.ledger (run : Graph.Run past g) : ∃ l, RunLedger l past g := by
  induction run with
  | start config index names => exact ⟨_, ledgered_empty config index names, by simp⟩
  | @step past g o run supplied ih =>
    obtain ⟨l, ledger⟩ := ih
    have mirrored := mirrored_of_reachable run.reachable
    obtain ⟨m, within, ledgered⟩ := (Operation.does_after mirrored.filed o).continues ledger.ledgered mirrored
      (ledger.supplied supplied)
    exact ⟨m, ledger.step within ledgered⟩

end GuardedGraph

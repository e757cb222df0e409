import GuardedGraph.Proofs.Contents.Ledger

/-! Marks and removals keep the ledger: what they let go of is owned by nothing that remains. -/

namespace GuardedGraph

open Store (Memory)
open GuardedGraph.Graph (NewKey MadeKey Grown)
open Outcome

variable {l : Ledger} {g h : Graph Memory} {t : ElementType} {id key : String} {r : Record} {a : Authorizations}

/-- The ledger goes on to one of a later graph. -/
def Ledger.Continues (l : Ledger) (h : Graph Memory) : Prop := ∃ m, l.Within m ∧ Ledgered m h

theorem Ledgered.continues (ledgered : Ledgered (l.and h.store) h) : l.Continues h :=
  ⟨_, l.within_and h.store, ledgered⟩

theorem Ledger.Continues.trans (first : l.Continues g) (second : ∀ m, Ledgered m g → m.Continues h) :
    l.Continues h := by
  obtain ⟨m, within, ledgered⟩ := first
  obtain ⟨n, within', ledgered'⟩ := second m ledgered
  exact ⟨n, fun key content found => within' key content (within key content found), ledgered'⟩

theorem Ledgered.here (ledgered : Ledgered l g) : l.Continues g := ⟨l, fun _ _ found => found, ledgered⟩

/-! ### Marks and removals -/

theorem contents_marked (g : Graph Memory) (r : Record) (hidden : List Visibility) :
    (g.marked r hidden).store.contents = g.store.contents := by
  unfold Graph.marked
  cases r.endpoints with
  | none => rfl
  | some ends => exact Memory.contents_mapEnds _ _ _

theorem Ledgered.marked (ledgered : Ledgered l g) (mirrored : Mirrored g.store) (found : g.store.get? t id = some r)
    (hidden : List Visibility) : l.Continues (g.marked r hidden) := by
  have same (key : String) : (g.marked r hidden).store.kept? key = g.store.kept? key := by
    rw [Memory.kept?, contents_marked]
    rfl
  have carried (u : ElementType) (j : String) : Carried g (g.marked r hidden) u j := by
    have reached := get?_marked mirrored found hidden u j
    split at reached
    · rename_i own
      obtain ⟨rfl, rfl⟩ := own
      intro q there
      obtain rfl := Option.some.inj (reached.symm.trans there)
      exact ⟨r, found, rfl⟩
    · exact reached.carried
  refine (ledgered.carry (h := g.marked r hidden) rfl (Nat.le_refl _) rfl (fun key content kept => .inl ?_) carried
    fun u j key owns => ?_).continues
  · rwa [same] at kept
  · rw [same]
    exact ledgered.held u j key ((carried u j).owns owns)

theorem kept?_withoutEdge (found : g.store.get? .edge id = some r) (exceptAt : Option String) (key : String) :
    (g.withoutEdge id exceptAt).store.kept? key = if key ∈ r.keptKeys then none else g.store.kept? key := by
  have inner : (r.endpoints.elim (g.store.delete .edge id) fun ends =>
      (g.store.delete .edge id).dropRefs id ends exceptAt).contents = g.store.contents := by
    cases r.endpoints with
    | none => rfl
    | some ends => exact Memory.contents_dropRefs _ _ _ _
  rw [Graph.withoutEdge, found]
  refine (Memory.kept?_discardAll _ r.keptKeys key).trans ?_
  rw [Memory.kept?, inner]
  rfl

theorem kept?_withoutVertex (found : g.store.get? .vertex id = some r) (key : String) :
    (g.withoutVertex id).store.kept? key = if key ∈ r.keptKeys then none else g.store.kept? key := by
  rw [Graph.withoutVertex, found]
  exact Memory.kept?_discardAll _ r.keptKeys key

theorem Ledgered.withoutEdge {skip : Option String} (ledgered : Ledgered l g) (mirrored : MirroredBut skip g.store)
    (id : String) (exceptAt : Option String) : l.Continues (g.withoutEdge id exceptAt) := by
  cases found : g.store.get? .edge id with
  | none =>
    rw [Graph.withoutEdge, found]
    exact ledgered.here
  | some r =>
    have reached := get?_edge_withoutEdge mirrored.filed id exceptAt
    refine (ledgered.forget found ?_ ?_ ?_ ?_ (kept?_withoutEdge found exceptAt) fun u j => ?_).continues
    · rw [Graph.withoutEdge, found]
      rfl
    · rw [Graph.withoutEdge, found]
      rfl
    · rw [Graph.withoutEdge, found]
      rfl
    · rw [reached, if_pos rfl]
    · cases u with
      | vertex => exact (sameBut_withoutEdge mirrored.filed id exceptAt j).carried
      | edge =>
        intro q there
        rw [reached] at there
        split at there
        · exact absurd there (by simp)
        · exact ⟨q, there, rfl⟩

theorem Ledgered.withoutEdges {skip : Option String} (ledgered : Ledgered l g) (mirrored : MirroredBut skip g.store)
    (ids : List String) : l.Continues (g.withoutEdges ids skip) := by
  induction ids generalizing g l with
  | nil => exact ledgered.here
  | cons id ids ih =>
    exact (ledgered.withoutEdge mirrored id skip).trans fun m there => ih there (mirrored.withoutEdge_store id)

theorem Ledgered.withoutVertex (ledgered : Ledgered l g) (id : String) : l.Continues (g.withoutVertex id) := by
  cases found : g.store.get? .vertex id with
  | none =>
    rw [Graph.withoutVertex, found]
    exact ledgered.here
  | some r =>
    have reached := get?_withoutVertex g id
    refine (ledgered.forget found ?_ ?_ ?_ ?_ (kept?_withoutVertex found) fun u j => ?_).continues
    · rw [Graph.withoutVertex, found]
      rfl
    · rw [Graph.withoutVertex, found]
      rfl
    · rw [Graph.withoutVertex, found]
      rfl
    · rw [reached, if_pos ⟨rfl, rfl⟩]
    · intro q there
      rw [reached] at there
      split at there
      · exact absurd there (by simp)
      · exact ⟨q, there, rfl⟩

end GuardedGraph

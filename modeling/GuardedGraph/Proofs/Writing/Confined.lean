import GuardedGraph.Proofs.Writing.Scope

/-! The records that operations leave as they are. Hiding changes markers only, and the endpoints of an edge stay
until it is removed. -/

namespace GuardedGraph

open Store (Memory)
open Commit

variable {g h : Graph Memory} {a : Authorizations} {r : Record} {id : String}

/-! ### Markers -/

theorem unmarked_marked (filed : g.store.Filed) (found : g.store.get? r.type r.id = some r) (hidden : List Visibility)
    (t : ElementType) (j : String) :
    ((g.marked r hidden).store.get? t j).map Record.unmarked = (g.store.get? t j).map Record.unmarked := by
  have put : ((g.store.put (r.under hidden)).get? t j).map Record.unmarked =
      (g.store.get? t j).map Record.unmarked := by
    rw [Memory.get?_put]
    split
    · rename_i own
      obtain ⟨rfl, rfl⟩ := own
      exact (congrArg (Option.map Record.unmarked) found).symm
    · rfl
  cases endpoints : r.endpoints with
  | none => rw [Graph.marked_vertex endpoints, put]
  | some ends =>
    have change (s : Record) : (s.mapRefs fun refs =>
        refs.map fun ref => if ref.edge = r.id then { ref with hidden } else ref).unmarked = s.unmarked := by
      unfold Record.unmarked Record.mapRefs
      rw [List.map_map]
      congr 1
      refine List.map_congr_left fun ref _ => ?_
      simp only [Function.comp_apply]
      split <;> rfl
    have later := filed.put (r.under hidden)
    rw [Graph.marked_edge endpoints, Memory.mapEnds, map_get?_mapRefs (later.mapRefs _ _) change,
      map_get?_mapRefs later change, put]

/-! ### As long as an edge stays -/

/-- The operation takes the edge away: it removes it, or one of its endpoints. -/
def Operation.Removes (o : Operation) (g : Graph Memory) (edge : String) : Prop :=
  o.outcome g = .ok () ∧ ((∃ a, o = .removeEdge edge a) ∨ ∃ v a, o = .removeVertex v a ∧ g.goesWith v .edge edge)

theorem removes_of_gone {o : Operation} (mirrored : Mirrored g.store) (found : g.store.get? .edge id = some r)
    (gone : (o.after g).store.get? .edge id = none) : o.Removes g id := by
  have stays {h : Graph Memory} (same : SameBut g.store h.store .edge id)
      (gone : h.store.get? .edge id = none) : False := by
    obtain ⟨f, same⟩ := same
    rw [same, found] at gone
    exact absurd gone (by simp)
  have kept {t : ElementType} {j : String} {s : Record} (there : g.store.get? t j = some s) (hidden : List Visibility)
      (gone : (g.marked s hidden).store.get? .edge id = none) : False := by
    have reached := get?_marked mirrored there hidden .edge id
    split at reached
    · exact absurd (gone.symm.trans reached) (by simp)
    · exact stays reached gone
  have does := o.does_after mirrored.filed
  generalize o.after g = h at does gone
  cases does with
  | refuse grown => exact (stays (sameBut_of_eq (grown.get? .edge id)) gone).elim
  | write prepared =>
    have reached := get?_written mirrored prepared .edge id
    split at reached
    · exact absurd (gone.symm.trans reached) (by simp)
    · exact (stays reached gone).elim
  | @removeVertex v a s writable readable =>
    have done : (Operation.removeVertex v a).outcome g = .ok () := by
      unfold Operation.outcome Operation.commit
      simp only [exec_removeVertex, writable, bind, Except.bind, readable, pure, Except.pure]
    refine ⟨done, .inr ⟨v, a, rfl, ?_⟩⟩
    obtain ⟨there, -⟩ := Graph.writable_ok writable
    rw [get?_withoutVertex, if_neg (by simp), get?_edge_withoutEdges (mirrored.weaken v)] at gone
    split at gone
    · rename_i mem
      exact (mem_edgeIds_iff_goesWith mirrored there id).mp mem
    · rw [found] at gone
      exact absurd gone (by simp)
  | @removeEdge j a s writable =>
    have done : (Operation.removeEdge j a).outcome g = .ok () := by
      unfold Operation.outcome Operation.commit
      simp only [exec_removeEdge, writable]
    rw [get?_edge_withoutEdge mirrored.filed] at gone
    split at gone
    · rename_i own
      exact ⟨done, .inl ⟨a, own ▸ rfl⟩⟩
    · rw [found] at gone
      exact absurd gone (by simp)
  | hide markable => exact (kept (Graph.markable_ok markable).1 _ gone).elim
  | unhide markable => exact (kept (Graph.markable_ok markable).1 _ gone).elim
  | declare => exact (stays (sameBut_of_eq rfl) gone).elim

theorem endpoints_after {o : Operation} {e : Record} (mirrored : Mirrored g.store)
    (found : g.store.get? .edge id = some r) (there : (o.after g).store.get? .edge id = some e) :
    e.id = r.id ∧ e.endpoints = r.endpoints := by
  have does := o.does_after mirrored.filed
  have own := (does.mirrored mirrored).filed _ _ _ there
  refine ⟨own.2.trans (mirrored.filed _ _ _ found).2.symm, ?_⟩
  cases does.fate mirrored .edge id with
  | same reached =>
    obtain ⟨f, reached⟩ := reached
    rw [reached, found] at there
    obtain rfl := Option.some.inj there
    rfl
  | gone _ missing =>
    rw [missing] at there
    exact absurd there (by simp)
  | @written s a mid v _ _ prepared _ type own_id reached =>
    rw [reached] at there
    obtain rfl := Option.some.inj there
    subst own_id
    cases prepared.origin mirrored.filed with
    | new free _ =>
      rw [type, found] at free
      exact absurd free (by simp)
    | stored _ before whole =>
      rw [type] at before
      obtain rfl := Option.some.inj (found.symm.trans before)
      obtain ⟨ps, -, base⟩ := whole_ok_iff.mp whole
      rw [prepared.same.endpoints, base]
  | marked _ before reached =>
    rw [reached] at there
    obtain rfl := Option.some.inj there
    obtain rfl := Option.some.inj (found.symm.trans before)
    rfl

/-- Operations lead from one graph to another, and none of them takes the edge away. -/
inductive Graph.LeadsWith (edge : String) (g : Graph Memory) : Graph Memory → Prop
  | here : LeadsWith edge g g
  | step {h : Graph Memory} (o : Operation) : LeadsWith edge g h → ¬o.Removes h edge → LeadsWith edge g (o.after h)

theorem Graph.LeadsWith.lasts (leads : g.LeadsWith id h) (mirrored : Mirrored g.store)
    (found : g.store.get? .edge id = some r) : Mirrored h.store ∧
      ∃ e, h.store.get? .edge id = some e ∧ e.id = r.id ∧ e.endpoints = r.endpoints := by
  induction leads with
  | here => exact ⟨mirrored, r, found, rfl, rfl⟩
  | @step h o _ spared ih =>
    obtain ⟨mirrored, e, before, own, endpoints⟩ := ih
    refine ⟨(o.does_after mirrored.filed).mirrored mirrored, ?_⟩
    cases there : (o.after h).store.get? .edge id with
    | none => exact absurd (removes_of_gone mirrored before there) spared
    | some e' =>
      obtain ⟨own', endpoints'⟩ := endpoints_after mirrored before there
      exact ⟨e', rfl, own'.trans own, endpoints'.trans endpoints⟩

theorem endpoints_created {d : Draft} {ends : Endpoints} (mirrored : Mirrored g.store)
    (free : g.store.get? .edge id = none)
    (there : ((Operation.save (.edge d ends) a).after g).store.get? .edge id = some r) :
    r.id = id ∧ r.endpoints = some ends := by
  have does := (Operation.save (.edge d ends) a).does_after mirrored.filed
  refine ⟨((does.mirrored mirrored).filed _ _ _ there).2, ?_⟩
  rcases grown_or_written mirrored.filed (.edge d ends) a with grown | ⟨h, v, run, after⟩
  · rw [grown.get?, free] at there
    exact absurd there (by simp)
  · have prepared := prepare_ok run
    have reached := get?_written mirrored prepared .edge id
    rw [after] at there
    split at reached
    · obtain rfl := Option.some.inj (reached.symm.trans there)
      obtain ⟨-, -, -, i, base, -⟩ := prepared.starts
      rw [prepared.same.endpoints, base]
    · obtain ⟨f, same⟩ := reached
      rw [same, free] at there
      exact absurd there (by simp)

/-- How far the operations on a graph reach, whether they succeed or not. -/
structure Graph.Confined (g : Graph Memory) : Prop where
  vertices : ∀ (o : Operation) id, o.subject? g = some (.vertex, id) → (∀ a, o ≠ .removeVertex id a) →
    g.OnlyVertex (o.after g) id
  edges : ∀ (o : Operation) id, o.subject? g = some (.edge, id) → g.OnlyEdge (o.after g) id (o.near g id)
  marks : ∀ t id marker a, ∀ o ∈ [Operation.hide t id marker a, .unhide t id marker a], ∀ u j,
    ((o.after g).store.get? u j).map Record.unmarked = (g.store.get? u j).map Record.unmarked
  created : ∀ d ends a id e, g.store.get? .edge id = none →
    ((Operation.save (.edge d ends) a).after g).store.get? .edge id = some e → e.id = id ∧ e.endpoints = some ends
  lasting : ∀ id e, g.store.get? .edge id = some e → ∀ h, g.LeadsWith id h →
    ∃ f, h.store.get? .edge id = some f ∧ f.id = e.id ∧ f.endpoints = e.endpoints

theorem writes_confined (reachable : g.Reachable) : g.Confined := by
  have mirrored := mirrored_of_reachable reachable
  constructor
  · exact fun o id subject stays => o.onlyVertex mirrored subject stays
  · exact fun o id subject => o.onlyEdge mirrored subject
  · intro t id marker a o mem u j
    have either : o = .hide t id marker a ∨ o = .unhide t id marker a := by simpa using mem
    rcases Operation.marks mirrored.filed either with grown | ⟨r, hidden, found, after⟩
    · rw [grown.get?]
    · obtain ⟨rfl, rfl⟩ := mirrored.filed _ _ _ found
      rw [after]
      exact unmarked_marked mirrored.filed found hidden u j
  · exact fun d ends a id e free there => endpoints_created mirrored free there
  · exact fun id e found h leads => (leads.lasts mirrored found).2

theorem writes_confined_loop :
    let o := Operation.unhide .edge "e" .unrestricted .empty
    loopGraph.Reachable ∧ loopGraph.OnlyEdge (o.after loopGraph) "e" ["v", "v"] ∧
      (o.after loopGraph).store.get? .edge "e" ≠ loopGraph.store.get? .edge "e" ∧
      ((o.after loopGraph).store.get? .vertex "v").map Record.unmarked =
        (loopGraph.store.get? .vertex "v").map Record.unmarked := by
  have reachable : loopGraph.Reachable := .step _ (.step _ (.step _ (.start _ _ _)))
  have confined := writes_confined reachable
  exact ⟨reachable, confined.edges (.unhide .edge "e" .unrestricted .empty) "e" rfl, by decide +kernel,
    confined.marks .edge "e" .unrestricted .empty _ (by simp) .vertex "v"⟩

end GuardedGraph

import GuardedGraph.Proofs.Adjacency.Mirror

/-! The references at vertices over runs of operations. In every graph that is reached, each edge has exactly
one reference at its source and one at its target, and vertices keep no other references. -/

namespace GuardedGraph

open Store (Memory)

variable {g h : Graph Memory} {a : Authorizations}

theorem mirrored_empty : Mirrored .empty := by
  have none (t : ElementType) (id : String) : Memory.empty.get? t id = none := by cases t <;> rfl
  exact ⟨Memory.filed_empty, by simp [none], by simp [none], by simp [none], by simp [none]⟩

/-! ### Saves -/

theorem MirroredBut.grown {skip : Option String} (mirrored : MirroredBut skip g.store) (grown : g.Grown h) :
    MirroredBut skip h.store := mirrored.congr grown.get?

section

variable {m : Memory} {v : Revision} {r : Record} (mirrored : Mirrored m) (stored : v.fresh = false)
  (whole : r.whole = .ok v.base) (same : SameElement v.base v.after.encode)
include mirrored stored whole same

theorem mirrored_rewritten_vertex (type : r.type = .vertex) (found : m.get? .vertex r.id = some r) :
    Mirrored (Graph.rewritten m v) := by
  obtain ⟨ps, -, base⟩ := whole_ok_iff.mp whole
  rw [base] at same
  have none : v.after.endpoints = none := same.endpoints.trans (mirrored.vertex _ r found)
  have put : Mirrored (m.put v.after.encode) := by
    refine mirrored.putVertex (same.type.trans type) none ?_
    rw [same.edgeRefs, same.id]
    show r.edgeRefs = ((m.get? .vertex r.id).map (·.edgeRefs)).getD []
    rw [found]
    rfl
  refine put.congr fun u j => ?_
  cases u with
  | edge => exact Graph.get?_edge_rewritten stored mirrored.filed j
  | vertex =>
    have kept : Graph.relabelled v j = fun refs => refs := funext fun refs => if_neg (by simp [none])
    rw [Graph.get?_vertex_rewritten stored mirrored.filed, kept, Record.map_mapRefs_id]

omit stored in
/-- Changes to an edge bring its references at the vertices up to date. -/
theorem relabelled_refresh (found : m.get? .edge r.id = some r) {w : String} {s : Record}
    (at_w : m.get? .vertex w = some s) :
    Graph.relabelled v w s.edgeRefs = s.edgeRefs.map (MirroredBut.refresh v.after.encode) := by
  obtain ⟨ps, -, base⟩ := whole_ok_iff.mp whole
  rw [base] at same
  obtain ⟨ends, endpoints, -⟩ := mirrored.edge _ r found
  have some : v.after.endpoints = some ends := same.endpoints.trans endpoints
  unfold Graph.relabelled
  split
  · refine mirrored.map_refresh found same.id at_w (fun ref refers => ?_) fun ref other => ?_
    · have own : ref.edge = v.after.element.id := refers.edge.trans same.id.symm
      rw [if_pos own]
      exact (MirroredBut.refresh_own same.id refers rfl (refers.hidden.trans same.hidden.symm)).symm
    · exact if_neg fun own => other (own.trans same.id)
  · rename_i unmoved
    refine (List.map_id _).symm.trans (mirrored.map_refresh found same.id at_w (fun ref refers => ?_) fun _ _ => rfl)
    have unchanged : v.base.element.visibility = v.after.element.visibility := by
      by_contra moved
      exact unmoved ⟨moved, ends, some, refers.mem endpoints⟩
    have visibility : ref.visibility = v.after.encode.visibility := by
      rw [refers.visibility, ← show v.base.element.visibility = r.visibility from base ▸ rfl, unchanged]
      rfl
    exact (MirroredBut.refresh_own same.id refers visibility (refers.hidden.trans same.hidden.symm)).symm

theorem mirrored_rewritten_edge (type : r.type = .edge) (found : m.get? .edge r.id = some r) :
    Mirrored (Graph.rewritten m v) := by
  obtain ⟨ps, -, base⟩ := whole_ok_iff.mp whole
  have refreshed (w : String) (s : Record) (at_w : m.get? .vertex w = some s) :=
    relabelled_refresh mirrored whole same found at_w
  rw [base] at same
  refine mirrored.updateEdge found v.after.encode (same.type.trans type) same.id same.endpoints
    (Graph.filed_rewritten stored mirrored.filed) (Graph.get?_edge_rewritten stored mirrored.filed) (Graph.relabelled v)
    (fun w => ?_) refreshed
  rw [Graph.get?_vertex_rewritten stored mirrored.filed, Memory.get?_put, if_neg]
  exact fun own => absurd (own.1.symm.trans (same.type.trans type)) (by simp)

end

theorem mirrored_written {s : Save} {v : Revision} (mirrored : Mirrored g.store) (prepared : Prepared s a g h v) :
    Mirrored (h.written v).store := by
  have later : Mirrored h.store := mirrored.grown prepared.grown
  have same := prepared.same
  rw [Graph.written, Commit.indexed_store]
  show Mirrored (Graph.rewritten h.store v)
  have starts := prepared.starts
  cases s with
  | vertex d =>
    obtain ⟨fresh, id, base, free⟩ := starts
    rw [Graph.rewritten_new fresh (base ▸ rfl)]
    rw [base] at same
    have none : v.after.endpoints = none := same.endpoints
    rw [none]
    refine later.putVertex same.type same.endpoints ?_
    rw [same.edgeRefs, same.id, prepared.grown.get?]
    show [] = ((g.store.get? .vertex id).map (·.edgeRefs)).getD []
    rw [free]
    rfl
  | edge d ends =>
    obtain ⟨fresh, -, seen, id, base, free⟩ := starts
    rw [Graph.rewritten_new fresh (base ▸ rfl)]
    rw [base] at same
    have some : v.after.endpoints = some ends := same.endpoints
    rw [some]
    refine later.insertEdge same.type ?_ same.endpoints same.hidden fun w hw => ?_
    · rw [same.id, prepared.grown.get?]
      exact free
    · rw [prepared.grown.get?]
      exact Commit.seesVertex_isSome (seen w hw)
  | stored t id changes =>
    obtain ⟨stored, r, found, -, whole⟩ := starts
    rw [← prepared.grown.get?] at found
    obtain ⟨rfl, rfl⟩ := later.filed _ _ _ found
    cases type : r.type with
    | vertex => exact mirrored_rewritten_vertex later stored whole same type (type ▸ found)
    | edge => exact mirrored_rewritten_edge later stored whole same type (type ▸ found)

/-! ### Marks -/

theorem mirrored_marked {t : ElementType} {id : String} {r : Record} (mirrored : Mirrored g.store)
    (found : g.store.get? t id = some r) (hidden : List Visibility) : Mirrored (g.marked r hidden).store := by
  obtain ⟨type, rfl⟩ := mirrored.filed _ _ _ found
  cases t with
  | vertex =>
    rw [Graph.marked_vertex (mirrored.vertex _ r found)]
    refine mirrored.putVertex type (mirrored.vertex _ r found) ?_
    show r.edgeRefs = ((g.store.get? .vertex r.id).map (·.edgeRefs)).getD []
    rw [found]
    rfl
  | edge =>
    obtain ⟨ends, endpoints, -⟩ := mirrored.edge _ r found
    have filed := mirrored.filed.put (r.under hidden)
    have same_id : (r.under hidden).id = r.id := rfl
    have twice := map_own_twice r.id (fun ref => { ref with hidden }) (fun _ => rfl) fun _ => rfl
    rw [Graph.marked_edge endpoints]
    refine mirrored.updateEdge found (r.under hidden) type rfl rfl (filed.mapEnds _ _)
      (Memory.get?_edge_mapEnds filed ends _) (fun v refs => if v ∈ ends.toList then
        refs.map fun ref => if ref.edge = r.id then { ref with hidden } else ref else refs)
      (fun v => ?_) fun v s at_v => ?_
    · rw [Memory.get?_vertex_mapEnds filed ends twice, Memory.get?_put, if_neg]
      exact fun own => absurd (own.1.symm.trans type) (by simp)
    · split
      · refine mirrored.map_refresh found same_id at_v (fun ref refers => ?_) fun ref other => if_neg other
        rw [if_pos refers.edge]
        exact (MirroredBut.refresh_own same_id refers refers.visibility rfl).symm
      · rename_i apart
        refine (List.map_id _).symm.trans
          (mirrored.map_refresh found same_id at_v (fun ref refers => ?_) fun _ _ => rfl)
        exact absurd (refers.mem endpoints) apart

/-! ### Removals -/

theorem MirroredBut.withoutEdge_store {skip : Option String} (mirrored : MirroredBut skip g.store) (id : String) :
    MirroredBut skip (g.withoutEdge id skip).store := by
  unfold Graph.withoutEdge
  split
  · exact mirrored
  · rename_i r found
    obtain ⟨ends, endpoints, -⟩ := mirrored.edge id r found
    refine (mirrored.withoutEdge found endpoints).congr fun t j => ?_
    rw [endpoints]
    exact Memory.get?_discardAll _ _ t j

theorem MirroredBut.withoutEdges_store {skip : Option String} (mirrored : MirroredBut skip g.store)
    (ids : List String) : MirroredBut skip (g.withoutEdges ids skip).store := by
  induction ids generalizing g with
  | nil => exact mirrored
  | cons id ids ih => exact ih (mirrored.withoutEdge_store id)

theorem get?_edge_withoutEdge (filed : g.store.Filed) (id : String) (exceptAt : Option String) (j : String) :
    (g.withoutEdge id exceptAt).store.get? .edge j = if id = j then none else g.store.get? .edge j := by
  unfold Graph.withoutEdge
  split
  · rename_i missing
    split
    · rename_i own
      exact own ▸ missing
    · rfl
  · rename_i r found
    show Memory.get? (r.keptKeys.foldl Memory.discard _) .edge j = _
    rw [Memory.get?_discardAll]
    cases r.endpoints with
    | none =>
      show (g.store.delete .edge id).get? .edge j = _
      rw [Memory.get?_delete]
      simp only [true_and]
    | some ends =>
      show ((g.store.delete .edge id).dropRefs id ends exceptAt).get? .edge j = _
      rw [Memory.get?_edge_dropRefs (filed.delete _ _), Memory.get?_delete]
      simp only [true_and]

theorem get?_edge_withoutEdges {skip : Option String} (mirrored : MirroredBut skip g.store) (ids : List String)
    (j : String) : (g.withoutEdges ids skip).store.get? .edge j = if j ∈ ids then none else g.store.get? .edge j := by
  induction ids generalizing g with
  | nil => rfl
  | cons id ids ih =>
    show ((g.withoutEdge id skip).withoutEdges ids skip).store.get? .edge j = _
    rw [ih (mirrored.withoutEdge_store id), get?_edge_withoutEdge mirrored.filed]
    simp only [List.mem_cons]
    by_cases own : id = j
    · simp [own]
    · simp [own, Ne.symm own]

theorem mem_edgeIds {refs : List EdgeRef} {id : String} : id ∈ edgeIds refs ↔ ∃ ref ∈ refs, ref.edge = id := by
  simp [edgeIds]

theorem mirrored_withoutVertex {id : String} {r : Record} (mirrored : Mirrored g.store)
    (found : g.store.get? .vertex id = some r) :
    Mirrored ((g.withoutEdges (edgeIds r.edgeRefs) (some id)).withoutVertex id).store := by
  have weaker := mirrored.weaken id
  have cleared := weaker.withoutEdges_store (edgeIds r.edgeRefs)
  -- an edge at the vertex has a reference there, and so has gone with the others
  have gone := cleared.deleteVertex fun j e ends he endpoints mem => by
    rw [get?_edge_withoutEdges weaker] at he
    split at he
    · exact absurd he (by simp)
    · rename_i left
      obtain ⟨ref, refers⟩ := Record.exists_refers endpoints mem
      have there := (mirrored.refs id r found (by simp) ref).mpr ⟨j, e, he, refers⟩
      exact left (mem_edgeIds.mpr ⟨ref, there, refers.edge.trans (mirrored.filed _ _ _ he).2⟩)
  unfold Graph.withoutVertex
  split
  · rename_i missing
    refine gone.congr fun t j => ?_
    rw [Memory.get?_delete]
    split
    · rename_i own
      rw [← own.1, ← own.2, missing]
    · rfl
  · exact gone.congr fun t j => Memory.get?_discardAll _ _ t j

/-! ### Runs -/

theorem Operation.Does.mirrored {o : Operation} (does : o.Does g h) (mirrored : Mirrored g.store) :
    Mirrored h.store := by
  cases does with
  | refuse grown => exact mirrored.grown grown
  | write prepared => exact mirrored_written mirrored prepared
  | removeVertex writable _ => exact mirrored_withoutVertex mirrored (Graph.writable_ok writable).1
  | removeEdge _ => exact mirrored.withoutEdge_store _
  | hide markable => exact mirrored_marked mirrored (Graph.markable_ok markable).1 _
  | unhide markable => exact mirrored_marked mirrored (Graph.markable_ok markable).1 _
  | declare => exact mirrored

theorem mirrored_of_reachable (reachable : g.Reachable) : Mirrored g.store := by
  induction reachable with
  | start config index => exact mirrored_empty
  | step o _ ih => exact (o.does_after ih.filed).mirrored ih

/-- Each edge has exactly one reference at its source and one at its target, with what the edge has now, and
vertices keep no other references. -/
structure Graph.AdjacencyExact (g : Graph Memory) : Prop where
  edges : ∀ id e, g.store.get? .edge id = some e → e.id = id ∧ ∃ ends source target,
    e.endpoints = some ends ∧ g.store.get? .vertex ends.source = some source ∧
    g.store.get? .vertex ends.target = some target ∧
    source.edgeRefs.filter (fun r => r.edge = id ∧ r.direction = .outgoing) =
      [⟨id, ends.label, ends.target, .outgoing, e.visibility, e.hidden⟩] ∧
    target.edgeRefs.filter (fun r => r.edge = id ∧ r.direction = .incoming) =
      [⟨id, ends.label, ends.source, .incoming, e.visibility, e.hidden⟩]
  refs : ∀ v s, g.store.get? .vertex v = some s → ∀ r ∈ s.edgeRefs, r.direction ≠ .both ∧ ∃ e ends,
    g.store.get? .edge r.edge = some e ∧ e.endpoints = some ends ∧
    ((ends.source = v ∧ r = ⟨e.id, ends.label, ends.target, .outgoing, e.visibility, e.hidden⟩) ∨
      (ends.target = v ∧ r = ⟨e.id, ends.label, ends.source, .incoming, e.visibility, e.hidden⟩))

theorem filter_eq_singleton {α : Type} {p : α → Bool} {l : List α} {x : α} (distinct : l.Nodup) (mem : x ∈ l)
    (fits : p x = true) (only : ∀ y ∈ l, p y = true → y = x) : l.filter p = [x] := by
  have all : ∀ y ∈ l.filter p, y = x := fun y hy => only y (List.mem_filter.mp hy).1 (List.mem_filter.mp hy).2
  have here : x ∈ l.filter p := List.mem_filter.mpr ⟨mem, fits⟩
  have once := distinct.filter p
  cases hl : l.filter p with
  | nil => simp [hl] at here
  | cons y ys =>
    rw [hl] at all once
    obtain rfl := all y List.mem_cons_self
    rw [List.nodup_cons] at once
    cases ys with
    | nil => rfl
    | cons z zs => exact absurd (all z (by simp)) fun same => once.1 (same ▸ List.mem_cons_self)

theorem adjacency_exact (reachable : g.Reachable) : g.AdjacencyExact := by
  have mirrored := mirrored_of_reachable reachable
  constructor
  · intro id e found
    obtain ⟨type, rfl⟩ := mirrored.filed _ _ _ found
    obtain ⟨ends, endpoints, there⟩ := mirrored.edge _ e found
    obtain ⟨source, hs⟩ := Option.isSome_iff_exists.mp (there ends.source (by simp [Endpoints.toList]))
    obtain ⟨target, ht⟩ := Option.isSome_iff_exists.mp (there ends.target (by simp [Endpoints.toList]))
    refine ⟨rfl, ends, source, target, endpoints, hs, ht, ?_, ?_⟩
    · refine filter_eq_singleton (mirrored.distinct _ _ hs) ?_ (by simp) fun r mem fits => ?_
      · exact (mirrored.refs _ _ hs (by simp) _).mpr ⟨_, e, found, ends, endpoints, .inl ⟨rfl, rfl⟩⟩
      · obtain ⟨own, direction⟩ := of_decide_eq_true fits
        obtain ⟨f, hf, ⟨-, rfl⟩ | ⟨-, rfl⟩⟩ := mirrored.own_of_mem found hs (by simp) mem own
        · obtain rfl := Option.some.inj (endpoints.symm.trans hf)
          rfl
        · exact absurd direction (by simp [Record.targetRef])
    · refine filter_eq_singleton (mirrored.distinct _ _ ht) ?_ (by simp) fun r mem fits => ?_
      · exact (mirrored.refs _ _ ht (by simp) _).mpr ⟨_, e, found, ends, endpoints, .inr ⟨rfl, rfl⟩⟩
      · obtain ⟨own, direction⟩ := of_decide_eq_true fits
        obtain ⟨f, hf, ⟨-, rfl⟩ | ⟨-, rfl⟩⟩ := mirrored.own_of_mem found ht (by simp) mem own
        · exact absurd direction (by simp [Record.sourceRef])
        · obtain rfl := Option.some.inj (endpoints.symm.trans hf)
          rfl
  · intro v s found r mem
    obtain ⟨e, he, ends, endpoints, own⟩ := (mirrored.refers_iff found (by simp) r).mp mem
    refine ⟨?_, e, ends, he, endpoints, own⟩
    obtain ⟨-, rfl⟩ | ⟨-, rfl⟩ := own <;> simp [Record.sourceRef, Record.targetRef]

/-- A vertex with a loop that is hidden afterwards. -/
def loopGraph : Graph Memory :=
  let g := (Operation.save (.vertex ⟨some "v", .unrestricted, []⟩) .empty).after (.ofStore .empty .standard none)
  let g := (Operation.save (.edge ⟨some "e", .unrestricted, []⟩ ⟨"knows", "v", "v"⟩) .empty).after g
  (Operation.hide .edge "e" .unrestricted .empty).after g

theorem adjacency_exact_loop :
    loopGraph.Reachable ∧ (loopGraph.store.get? .edge "e").isSome ∧ loopGraph.AdjacencyExact := by
  have reachable : loopGraph.Reachable := .step _ (.step _ (.step _ (.start _ _ _)))
  exact ⟨reachable, by decide +kernel, adjacency_exact reachable⟩

end GuardedGraph

import GuardedGraph.Proofs.Adjacency.Runs

/-! What an operation does to single records. Apart from the element that it is about, it changes no more than
the references at vertices. -/

namespace GuardedGraph

open Store (Memory)
open Commit (requireWritable_ok_iff)

variable {g h : Graph Memory} {a : Authorizations}

/-- A record of `n` is as in `m`, but for its references. -/
def SameBut (m n : Memory) (t : ElementType) (id : String) : Prop :=
  ∃ f, n.get? t id = (m.get? t id).map (Record.mapRefs f)

theorem sameBut_of_eq {m n : Memory} {t : ElementType} {id : String} (same : n.get? t id = m.get? t id) :
    SameBut m n t id := ⟨fun refs => refs, by rw [same, Record.map_mapRefs_id]⟩

theorem SameBut.trans {l m n : Memory} {t : ElementType} {id : String} (first : SameBut l m t id)
    (second : SameBut m n t id) : SameBut l n t id := by
  obtain ⟨f, hf⟩ := first
  obtain ⟨f', hf'⟩ := second
  exact ⟨fun refs => f' (f refs), by rw [hf', hf, Option.map_map, Record.mapRefs_comp]⟩

/-! ### Saves -/

theorem Prepared.reached {s : Save} {v : Revision} {m : Memory} {t : ElementType} {id : String}
    (prepared : Prepared s a g h v) (f : List EdgeRef → List EdgeRef)
    (reached : m.get? t id = ((h.store.put v.after.encode).get? t id).map (Record.mapRefs f))
    (own : t = v.after.type → f = fun refs => refs) :
    if t = v.after.type ∧ id = v.after.element.id then m.get? t id = some v.after.encode
    else SameBut g.store m t id := by
  rw [Memory.get?_put] at reached
  split
  · rename_i here
    rw [reached, own here.1, if_pos ⟨here.1.symm, here.2.symm⟩]
    rfl
  · rename_i other
    rw [if_neg fun here => other ⟨here.1.symm, here.2.symm⟩, prepared.grown.get?] at reached
    exact ⟨f, reached⟩

theorem get?_written {s : Save} {v : Revision} (mirrored : Mirrored g.store) (prepared : Prepared s a g h v)
    (t : ElementType) (id : String) :
    if t = v.after.type ∧ id = v.after.element.id then (h.written v).store.get? t id = some v.after.encode
    else SameBut g.store (h.written v).store t id := by
  have later : Mirrored h.store := mirrored.grown prepared.grown
  have same := prepared.same
  have store : (h.written v).store = Graph.rewritten h.store v := Commit.indexed_store _ _
  rw [store]
  have filed := later.filed.put v.after.encode
  have starts := prepared.starts
  cases s with
  | vertex d =>
    obtain ⟨fresh, i, base, -⟩ := starts
    have none : v.after.endpoints = none := same.endpoints.trans (base ▸ rfl)
    refine prepared.reached (fun refs => refs) ?_ fun _ => rfl
    rw [Graph.rewritten_new fresh (base ▸ rfl), none, Record.map_mapRefs_id]
    rfl
  | edge d ends =>
    obtain ⟨fresh, -, -, i, base, -⟩ := starts
    have some : v.after.endpoints = some ends := same.endpoints.trans (base ▸ rfl)
    have type : v.after.type = .edge := same.type.trans (base ▸ rfl)
    have reached : Graph.rewritten h.store v = (h.store.put v.after.encode).attachEnds v.after.encode ends := by
      rw [Graph.rewritten_new fresh (base ▸ rfl), some]
      rfl
    rw [reached]
    cases t with
    | edge =>
      refine prepared.reached (fun refs => refs) ?_ fun _ => rfl
      rw [Memory.get?_edge_attachEnds filed, Record.map_mapRefs_id]
    | vertex =>
      exact prepared.reached _ (Memory.get?_vertex_attachEnds filed _ _ _) fun own => absurd (own.trans type) (by simp)
  | stored u i changes =>
    obtain ⟨stored, r, found, -, whole⟩ := starts
    cases t with
    | edge =>
      refine prepared.reached (fun refs => refs) ?_ fun _ => rfl
      rw [Graph.get?_edge_rewritten stored later.filed, Record.map_mapRefs_id]
    | vertex =>
      refine prepared.reached _ (Graph.get?_vertex_rewritten stored later.filed _) fun own => ?_
      obtain ⟨ps, -, base⟩ := whole_ok_iff.mp whole
      obtain ⟨rfl, -⟩ := prepared.named mirrored.filed
      rw [← own] at found
      have none : v.after.endpoints = none := by
        refine same.endpoints.trans ?_
        rw [base]
        exact mirrored.vertex _ r found
      exact funext fun refs => if_neg (by simp [none])

theorem get?_written_own {s : Save} {v : Revision} (mirrored : Mirrored g.store) (prepared : Prepared s a g h v) :
    (h.written v).store.get? v.after.type v.after.element.id = some v.after.encode := by
  have reached := get?_written mirrored prepared v.after.type v.after.element.id
  rwa [if_pos ⟨rfl, rfl⟩] at reached

/-! ### Marks and removals -/

theorem sameBut_mapEnds {m : Memory} (filed : m.Filed) (ends : Endpoints) (f : List EdgeRef → List EdgeRef)
    (v : String) : SameBut m (m.mapEnds ends f) .vertex v :=
  SameBut.trans ⟨_, Memory.get?_vertex_mapRefs filed _ f v⟩
    ⟨_, Memory.get?_vertex_mapRefs (filed.mapRefs _ f) _ f v⟩

theorem get?_marked {t : ElementType} {id : String} {r : Record} (mirrored : Mirrored g.store)
    (found : g.store.get? t id = some r) (hidden : List Visibility) (u : ElementType) (j : String) :
    if u = t ∧ j = id then (g.marked r hidden).store.get? u j = some (r.under hidden)
    else SameBut g.store (g.marked r hidden).store u j := by
  obtain ⟨type, rfl⟩ := mirrored.filed _ _ _ found
  have filed := mirrored.filed.put (r.under hidden)
  have put : (g.store.put (r.under hidden)).get? u j =
      if u = t ∧ j = r.id then some (r.under hidden) else g.store.get? u j := by
    rw [Memory.get?_put]
    simp only [Record.under, type, eq_comm]
  cases t with
  | vertex =>
    rw [Graph.marked_vertex (mirrored.vertex _ r found), put]
    split
    · rfl
    · rename_i other
      exact sameBut_of_eq (by rw [put, if_neg other])
  | edge =>
    obtain ⟨ends, endpoints, -⟩ := mirrored.edge _ r found
    rw [Graph.marked_edge endpoints]
    cases u with
    | edge =>
      rw [Memory.get?_edge_mapEnds filed, put]
      split
      · rfl
      · rename_i other
        exact sameBut_of_eq (by rw [Memory.get?_edge_mapEnds filed, put, if_neg other])
    | vertex =>
      rw [if_neg (by simp)]
      rw [if_neg (by simp)] at put
      exact (sameBut_of_eq put).trans (sameBut_mapEnds filed ends _ j)

theorem sameBut_withoutEdge (filed : g.store.Filed) (id : String) (exceptAt : Option String) (v : String) :
    SameBut g.store (g.withoutEdge id exceptAt).store .vertex v := by
  unfold Graph.withoutEdge
  split
  · exact sameBut_of_eq rfl
  · rename_i r found
    have deleted : (g.store.delete .edge id).get? .vertex v = g.store.get? .vertex v := by
      rw [Memory.get?_delete, if_neg (by simp)]
    have discarded (m : Memory) : SameBut m (r.keptKeys.foldl Memory.discard m) .vertex v :=
      sameBut_of_eq (Memory.get?_discardAll m r.keptKeys .vertex v)
    cases r.endpoints with
    | none => exact (sameBut_of_eq deleted).trans (discarded _)
    | some ends =>
      have dropped := Memory.get?_vertex_dropRefs (filed.delete .edge id) id ends exceptAt v
      exact ((sameBut_of_eq deleted).trans ⟨_, dropped⟩).trans (discarded _)

theorem sameBut_withoutEdges {skip : Option String} (mirrored : MirroredBut skip g.store) (ids : List String)
    (v : String) : SameBut g.store (g.withoutEdges ids skip).store .vertex v := by
  induction ids generalizing g with
  | nil => exact sameBut_of_eq rfl
  | cons id ids ih =>
    exact (sameBut_withoutEdge mirrored.filed id skip v).trans (ih (mirrored.withoutEdge_store id))

theorem get?_withoutVertex (g : Graph Memory) (id : String) (t : ElementType) (j : String) :
    (g.withoutVertex id).store.get? t j = if t = .vertex ∧ j = id then none else g.store.get? t j := by
  unfold Graph.withoutVertex
  split
  · rename_i missing
    split
    · rename_i own
      rw [own.1, own.2, missing]
    · rfl
  · rename_i r found
    refine (Memory.get?_discardAll _ r.keptKeys t j).trans ?_
    show (g.store.delete .vertex id).get? t j = _
    rw [Memory.get?_delete]
    simp only [eq_comm]

theorem get?_cascade (mirrored : Mirrored g.store) (i : String) (ids : List String) (t : ElementType) (id : String) :
    if t = .vertex ∧ id = i ∨ t = .edge ∧ id ∈ ids then
      ((g.withoutEdges ids (some i)).withoutVertex i).store.get? t id = none
    else SameBut g.store ((g.withoutEdges ids (some i)).withoutVertex i).store t id := by
  have weaker : MirroredBut (some i) g.store := mirrored.weaken i
  have reached := get?_withoutVertex (g.withoutEdges ids (some i)) i t id
  cases t with
  | vertex =>
    by_cases own : id = i
    · simpa [own] using reached
    · simp only [own, and_false, false_and, or_self, if_false, reduceCtorEq] at reached ⊢
      exact (sameBut_withoutEdges weaker ids id).trans (sameBut_of_eq reached)
  | edge =>
    rw [if_neg (by simp), get?_edge_withoutEdges weaker] at reached
    by_cases mem : id ∈ ids
    · simpa [mem] using reached
    · simp only [mem, and_false, false_and, or_self, if_false, reduceCtorEq] at reached ⊢
      exact sameBut_of_eq reached

theorem get?_withoutEdge (mirrored : Mirrored g.store) (i : String) (t : ElementType) (id : String) :
    if t = .edge ∧ id = i then (g.withoutEdge i none).store.get? t id = none
    else SameBut g.store (g.withoutEdge i none).store t id := by
  cases t with
  | vertex =>
    rw [if_neg (by simp)]
    exact sameBut_withoutEdge mirrored.filed i none id
  | edge =>
    have reached := get?_edge_withoutEdge mirrored.filed i none id
    by_cases own : id = i
    · simpa [own] using reached
    · rw [if_neg fun same => own same.symm] at reached
      rw [if_neg fun same => own same.2]
      exact sameBut_of_eq reached

/-! ### Operations -/

/-- The writer of the operation, if it has one, can read the element. -/
def Operation.Reads (o : Operation) (g : Graph Memory) (t : ElementType) (id : String) : Prop :=
  ∀ a r, o.writer? = some a → g.store.get? t id = some r → r.visibility.readableBy a = true

/-- What an operation makes of a record: nothing but for its references, or it goes, or it is the one that is
written or marked. Only what its writer can read is not spared. -/
inductive Fate (g h : Graph Memory) (o : Operation) (t : ElementType) (id : String) : Prop
  | same : SameBut g.store h.store t id → Fate g h o t id
  | gone : o.Reads g t id → h.store.get? t id = none → Fate g h o t id
  | written {s : Save} {a : Authorizations} {mid : Graph Memory} {v : Revision} : o.Reads g t id → o = .save s a →
      Prepared s a g mid v → h = mid.written v → v.after.type = t → v.after.element.id = id →
      h.store.get? t id = some v.after.encode → Fate g h o t id
  | marked {r : Record} {hidden : List Visibility} : o.Reads g t id → g.store.get? t id = some r →
      h.store.get? t id = some (r.under hidden) → Fate g h o t id

theorem Operation.reads_of_found {o : Operation} {t : ElementType} {id : String} {r : Record}
    (writer : o.writer? = some a) (found : g.store.get? t id = some r) (readable : r.visibility.readableBy a = true) :
    o.Reads g t id := by
  intro a' r' writer' found'
  obtain rfl := Option.some.inj (writer.symm.trans writer')
  obtain rfl := Option.some.inj (found.symm.trans found')
  exact readable

theorem Prepared.reads {s : Save} {v : Revision} (prepared : Prepared s a g h v) (filed : g.store.Filed) :
    (Operation.save s a).Reads g v.after.type v.after.element.id := by
  cases prepared.origin filed with
  | new free _ =>
    intro _ r _ found
    exact absurd (free.symm.trans found) (by simp)
  | stored _ found whole =>
    obtain ⟨ps, -, base⟩ := whole_ok_iff.mp whole
    have readable := prepared.readable
    rw [base] at readable
    exact Operation.reads_of_found rfl found readable

theorem Operation.Does.fate {o : Operation} (does : o.Does g h) (mirrored : Mirrored g.store) (t : ElementType)
    (id : String) : Fate g h o t id := by
  have marked {u : ElementType} {j : String} {r : Record} {a : Authorizations} (writer : o.writer? = some a)
      (found : g.store.get? u j = some r) (readable : r.visibility.readableBy a = true) (hidden : List Visibility) :
      Fate g (g.marked r hidden) o t id := by
    have reached := get?_marked mirrored found hidden t id
    split at reached
    · rename_i own
      obtain ⟨rfl, rfl⟩ := own
      exact .marked (reads_of_found writer found readable) found reached
    · exact .same reached
  cases does with
  | refuse grown => exact .same (sameBut_of_eq (grown.get? t id))
  | write prepared =>
    have reached := get?_written mirrored prepared t id
    split at reached
    · rename_i own
      obtain ⟨rfl, rfl⟩ := own
      exact .written (prepared.reads mirrored.filed) rfl prepared rfl rfl rfl reached
    · exact .same reached
  | @removeVertex i a r writable readable =>
    obtain ⟨found, allowed⟩ := Graph.writable_ok writable
    have reached := get?_cascade mirrored i (edgeIds r.edgeRefs) t id
    split at reached
    · rename_i own
      obtain ⟨rfl, rfl⟩ | ⟨rfl, mem⟩ := own
      · exact .gone (reads_of_found rfl found (requireWritable_ok_iff.mp allowed).1) reached
      · refine .gone (fun a' e writer there => ?_) reached
        obtain rfl := Option.some.inj writer
        exact Graph.readable_of_edgesReadable readable mem there
    · exact .same reached
  | @removeEdge i a r writable =>
    obtain ⟨found, allowed⟩ := Graph.writable_ok writable
    have reached := get?_withoutEdge mirrored i t id
    split at reached
    · rename_i own
      obtain ⟨rfl, rfl⟩ := own
      exact .gone (reads_of_found rfl found (requireWritable_ok_iff.mp allowed).1) reached
    · exact .same reached
  | hide markable =>
    obtain ⟨found, readable, -⟩ := Graph.markable_ok markable
    exact marked rfl found readable _
  | unhide markable =>
    obtain ⟨found, readable, -⟩ := Graph.markable_ok markable
    exact marked rfl found readable _
  | declare => exact .same (sameBut_of_eq rfl)

end GuardedGraph

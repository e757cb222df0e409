import GuardedGraph.Proofs.Writing.Preparing

/-! Saving in memory: the preparation first, then a write that cannot fail, and last the view of what has been
written. -/

namespace GuardedGraph

open Store (Memory)
open Outcome

/-! ### What is written -/

namespace Record

def shownTo (r : Record) (t : ElementType) (a : Authorizations) : Except Error (View t) :=
  match r.view? t a with
  | .ok (some v) => .ok v
  | .ok none => .error (.absent (.element t r.id))
  | .error e => .error e

theorem shownTo_eq_ok {t : ElementType} {r : Record} {a : Authorizations} {v : View t} :
    r.shownTo t a = .ok v ↔ r.view? t a = .ok (some v) := by
  unfold shownTo
  rcases r.view? t a with _ | _ | w <;> simp

end Record

namespace Store.Memory

def attach (m : Memory) (record : Record) (vertex label other : String) (d : Direction) : Memory :=
  m.mapRefs vertex fun refs => refs ++ [⟨record.id, label, other, d, record.visibility, []⟩]

def attachEnds (m : Memory) (record : Record) (e : Endpoints) : Memory :=
  (m.attach record e.source e.label e.target .outgoing).attach record e.target e.label e.source .incoming

variable {m : Memory}

theorem get?_edge_attachEnds (filed : m.Filed) (record : Record) (e : Endpoints) (id : String) :
    (m.attachEnds record e).get? .edge id = m.get? .edge id := by
  unfold attachEnds attach
  rw [get?_edge_mapRefs (filed.mapRefs _ _), get?_edge_mapRefs filed]

theorem get?_vertex_attachEnds (filed : m.Filed) (record : Record) (e : Endpoints) (id : String) :
    (m.attachEnds record e).get? .vertex id = (m.get? .vertex id).map (Record.mapRefs fun refs =>
      let refs := if id = e.source then
          refs ++ [⟨record.id, e.label, e.target, .outgoing, record.visibility, []⟩] else refs
      if id = e.target then refs ++ [⟨record.id, e.label, e.source, .incoming, record.visibility, []⟩] else refs) := by
  unfold attachEnds attach
  rw [get?_vertex_mapRefs (filed.mapRefs _ _), get?_vertex_mapRefs filed, Option.map_map,
    Record.mapRefs_comp]

end Store.Memory

namespace Graph

/-- The graph with the texts of an element in its search index, if that is wanted. -/
def indexed (g : Graph Memory) (w : Whole) : Graph Memory :=
  if g.config.indexing then
    { g with index := g.index.map (·.insert w.type w.element.id
        (w.element.properties.filterMap fun p => p.value.text?.map (p.name, ·))) }
  else g

/-- The references at the endpoints of a written edge brought up to date. -/
def linked (m : Memory) (v : Revision) (endpoints : Endpoints) : Memory :=
  if v.fresh then m.attachEnds v.after.encode endpoints
  else if v.base.element.visibility ≠ v.after.element.visibility then
    m.mapEnds endpoints fun refs => refs.map fun r =>
      if r.edge = v.after.element.id then { r with visibility := v.after.element.visibility } else r
  else m

def rewritten (m : Memory) (v : Revision) : Memory :=
  let gone := v.base.keptKeys.filter fun key => !v.after.keptKeys.contains key
  let store := gone.foldl Memory.discard (m.put v.after.encode)
  v.after.endpoints.elim store (linked store v)

theorem rewritten_new {m : Memory} {v : Revision} (fresh : v.fresh = true) (none : v.base.keptKeys = []) :
    rewritten m v =
      v.after.endpoints.elim (m.put v.after.encode) ((m.put v.after.encode).attachEnds v.after.encode) := by
  unfold rewritten
  rw [none]
  cases v.after.endpoints with
  | none => rfl
  | some endpoints => exact if_pos fresh

/-- The references at a vertex after changes to a stored element. -/
def relabelled (v : Revision) (vertex : String) (refs : List EdgeRef) : List EdgeRef :=
  if v.base.element.visibility ≠ v.after.element.visibility ∧ ∃ e, v.after.endpoints = some e ∧ vertex ∈ e.toList then
    refs.map fun r => if r.edge = v.after.element.id then { r with visibility := v.after.element.visibility } else r
  else refs

section

variable {m : Memory} {v : Revision} (stored : v.fresh = false) (filed : m.Filed)
include stored filed

theorem rewritten_stored :
    ∃ kept : Memory, kept.Filed ∧ (∀ t id, kept.get? t id = (m.put v.after.encode).get? t id) ∧
      rewritten m v = v.after.endpoints.elim kept fun e =>
        if v.base.element.visibility ≠ v.after.element.visibility then
          kept.mapEnds e fun refs => refs.map fun r =>
            if r.edge = v.after.element.id then { r with visibility := v.after.element.visibility } else r
        else kept := by
  have same := Memory.get?_discardAll (m.put v.after.encode)
    (v.base.keptKeys.filter fun key => !v.after.keptKeys.contains key)
  refine ⟨_, fun t id r found => ?_, same, ?_⟩
  · rw [same] at found
    exact filed.put _ t id r found
  · refine congrArg (v.after.endpoints.elim _) (funext fun e => ?_)
    simp only [linked, stored, Bool.false_eq_true, if_false]

theorem filed_rewritten : (rewritten m v).Filed := by
  obtain ⟨kept, here, -, rewritten⟩ := rewritten_stored stored filed
  rw [rewritten]
  cases v.after.endpoints with
  | none => exact here
  | some e =>
    simp only [Option.elim]
    split
    · exact here.mapEnds _ _
    · exact here

theorem get?_edge_rewritten (id : String) :
    (rewritten m v).get? .edge id = (m.put v.after.encode).get? .edge id := by
  obtain ⟨kept, here, same, rewritten⟩ := rewritten_stored stored filed
  rw [rewritten, ← same]
  cases v.after.endpoints with
  | none => rfl
  | some e =>
    simp only [Option.elim]
    split
    · exact Memory.get?_edge_mapEnds here _ _ _
    · rfl

theorem get?_vertex_rewritten (id : String) :
    (rewritten m v).get? .vertex id =
      ((m.put v.after.encode).get? .vertex id).map (Record.mapRefs (relabelled v id)) := by
  obtain ⟨kept, here, same, rewritten⟩ := rewritten_stored stored filed
  have unmoved (h : ¬(v.base.element.visibility ≠ v.after.element.visibility ∧
      ∃ e, v.after.endpoints = some e ∧ id ∈ e.toList)) : relabelled v id = fun refs => refs :=
    funext fun refs => if_neg h
  rw [rewritten, ← same]
  cases ends : v.after.endpoints with
  | none =>
    rw [unmoved (by simp [ends]), Record.map_mapRefs_id]
    rfl
  | some e =>
    simp only [Option.elim]
    split
    · rename_i moved
      rw [Memory.get?_vertex_mapEnds here]
      · congr 2
        funext refs
        simp only [relabelled, moved, ends, true_and, ne_eq, not_false_eq_true, Option.some.injEq, exists_eq_left']
      · exact map_own_twice _ _ (fun _ => rfl) fun _ => rfl
    · rename_i moved
      rw [unmoved fun h => moved h.1, Record.map_mapRefs_id]

end

def written (g : Graph Memory) (v : Revision) : Graph Memory :=
  { g with store := rewritten g.store v }.indexed v.after

end Graph

namespace Commit

variable {g h : Graph Memory} {a : Authorizations}

theorem exec_indexTexts (w : Whole) (g : Graph Memory) : exec (indexTexts w) g = (.ok (), g.indexed w) := by
  rw [indexTexts, exec_bind, exec_config, Graph.indexed]
  simp only
  split <;> rfl

theorem exec_viewOf (t : ElementType) (r : Record) (a : Authorizations) (g : Graph Memory) :
    exec (viewOf t r a) g = (r.shownTo t a, g) := by
  rw [viewOf, exec_bind, exec_lift, Record.shownTo]
  rcases r.view? t a with _ | _ | _ <;> rfl

theorem exec_insert (w : Whole) (g : Graph Memory) :
    exec (insert w) g =
      if (g.store.get? w.type w.element.id).isSome then (.error (.taken w.type w.element.id), g)
      else match exec (settleAll [] w) g with
        | (.ok after, h) => (.ok after.encode, { h with store := h.store.put after.encode }.indexed after)
        | (.error e, h) => (.error e, h) := by
  rw [insert, exec_bind, exec_get]
  simp only
  split
  · rfl
  · rw [exec_bind]
    rcases exec (settleAll [] w) g with ⟨_ | after, h⟩
    · rfl
    · simp only
      rw [exec_bind, exec_put]
      simp only
      rw [exec_bind, exec_indexTexts]
      rfl

theorem indexed_store (g : Graph Memory) (w : Whole) : (g.indexed w).store = g.store := by
  unfold Graph.indexed
  split <;> rfl

theorem indexed_onStore (g : Graph Memory) (w : Whole) (m : Memory) :
    { g.indexed w with store := m } = { g with store := m }.indexed w := by
  unfold Graph.indexed
  split <;> rfl

/-! ### The write -/

theorem exec_attach (record : Record) {vertex : String} (label other : String) (d : Direction)
    (there : (g.store.get? .vertex vertex).isSome) :
    exec (attach record vertex label other d) g =
      (.ok (), { g with store := g.store.attach record vertex label other d }) := by
  rw [attach, exec_bind, exec_changeRefs, there]
  rfl

theorem exec_realize_insert (t : ElementType) (d : Draft) (endpoints : Option Endpoints) (a : Authorizations)
    (g : Graph Memory) :
    exec (realize t d endpoints a >>= insert) g = match exec (prepareNew t d endpoints a) g with
      | (.ok v, h) => (.ok v.after.encode, { h with store := h.store.put v.after.encode }.indexed v.after)
      | (.error e, h) => (.error e, h) := by
  rw [prepareNew, exec_bind, exec_bind]
  rcases exec (realize t d endpoints a) g with ⟨_ | w, mid⟩
  · rfl
  · simp only
    rw [exec_insert, exec_bind, exec_get]
    simp only
    split
    · rfl
    · rw [exec_bind]
      rcases exec (settleAll [] w) mid with ⟨_ | after, h⟩ <;> rfl

theorem exec_addVertex (d : Draft) (a : Authorizations) (g : Graph Memory) :
    exec (addVertex d a) g = match exec (prepare a (.vertex d)) g with
      | (.ok v, h) => (v.after.encode.shownTo .vertex a, h.written v)
      | (.error e, h) => (.error e, h) := by
  show exec (realize .vertex d none a >>= fun w => insert w >>= fun record => viewOf .vertex record a) g =
    match exec (prepareNew .vertex d none a) g with
    | (.ok v, h) => _
    | (.error e, h) => _
  rw [← bind_assoc, exec_bind, exec_realize_insert]
  rcases run : exec (prepareNew .vertex d none a) g with ⟨_ | v, h⟩
  · rfl
  · obtain ⟨id, fresh, base, -, -, element, ps, -, -, after⟩ := prepareNew_ok run
    simp only
    rw [exec_viewOf, Graph.written, Graph.rewritten_new fresh (base ▸ rfl)]
    simp only [after, base]
    rfl

theorem exec_attachEnds (record : Record) {e : Endpoints} (filed : g.store.Filed)
    (there : ∀ vertex ∈ e.toList, (g.store.get? .vertex vertex).isSome) :
    exec (do
      attach record e.source e.label e.target .outgoing
      attach record e.target e.label e.source .incoming) g =
        (.ok (), { g with store := g.store.attachEnds record e }) := by
  have target : ((g.store.attach record e.source e.label e.target .outgoing).get? .vertex e.target).isSome := by
    rw [Memory.attach, Memory.get?_vertex_mapRefs filed, Option.isSome_map]
    exact there _ (by simp [Endpoints.toList])
  rw [exec_bind, exec_attach _ _ _ _ (there _ (by simp [Endpoints.toList]))]
  exact exec_attach _ _ _ _ target

theorem exec_addEdge (d : Draft) (endpoints : Endpoints) (a : Authorizations) (filed : g.store.Filed) :
    exec (addEdge d endpoints a) g = match exec (prepare a (.edge d endpoints)) g with
      | (.ok v, h) => (v.after.encode.shownTo .edge a, h.written v)
      | (.error e, h) => (.error e, h) := by
  show _ = match exec (prepareEdge d endpoints a) g with
    | (.ok v, h) => _
    | (.error e, h) => _
  unfold addEdge prepareEdge
  simp only
  split
  · rfl
  · rw [exec_bind, exec_bind, exec_forM_check fun vertex => exec_requireVertex vertex a g]
    cases seen : endpoints.toList.forM fun vertex => g.seesVertex vertex a with
    | error e => rfl
    | ok _ =>
      simp only
      rw [← bind_assoc, exec_bind, exec_realize_insert]
      rcases run : exec (prepareNew .edge d (some endpoints) a) g with ⟨_ | v, h⟩
      · rfl
      · have grown := grows_prepareNew .edge d (some endpoints) a g
        rw [run] at grown
        obtain ⟨id, fresh, base, -, -, element, ps, -, -, after⟩ := prepareNew_ok run
        have kind : v.after.encode.type = .edge := by rw [after, base]; rfl
        have there (e : String) (mem : e ∈ endpoints.toList) :
            ((h.store.put v.after.encode).get? .vertex e).isSome := by
          rw [Memory.get?_put, if_neg (by simp [kind]), grown.get?]
          exact seesVertex_isSome (forM_ok_iff.mp seen e mem)
        simp only
        rw [← bind_assoc, exec_bind, exec_attachEnds]
        · simp only
          rw [exec_viewOf, Graph.written, Graph.rewritten_new fresh (base ▸ rfl), indexed_onStore, indexed_store]
          simp only [after, base]
          rfl
        · rw [indexed_store]
          exact (grown.filed filed).put _
        · rw [indexed_store]
          exact there

/-- What follows when changes to a stored element have come to writing. -/
def writeStored (t : ElementType) (id : String) (v : Revision) (a : Authorizations) : Commit Memory (View t) := do
  put v.after.encode
  discardAll (v.base.keptKeys.filter fun key => !v.after.keptKeys.contains key)
  if v.base.element.visibility ≠ v.after.element.visibility then
    v.after.endpoints.forM fun endpoints =>
      changeRefsOf id endpoints fun r => { r with visibility := v.after.element.visibility }
  indexTexts v.after
  viewOf t v.after.encode a

theorem save_eq (t : ElementType) (id : String) (changes : List Change) (a : Authorizations) :
    save t id changes a = prepareStored t id changes a >>= fun v => writeStored t id v a := by
  simp only [save, prepareStored, writeStored, bind_assoc, pure_bind]

theorem exec_writeStored (t : ElementType) {v : Revision} (stored : v.fresh = false) (a : Authorizations)
    (g : Graph Memory) :
    exec (writeStored t v.after.element.id v a) g = (v.after.encode.shownTo t a, g.written v) := by
  have finish (h : Graph Memory) : exec (do indexTexts v.after; viewOf t v.after.encode a) h =
      (v.after.encode.shownTo t a, h.indexed v.after) := by
    rw [exec_bind, exec_indexTexts]
    exact exec_viewOf t _ a _
  rw [writeStored, exec_bind, exec_put]
  simp only
  rw [exec_bind, exec_discardAll]
  simp only [Graph.written, Graph.rewritten]
  split
  · rename_i moved
    rw [exec_bind]
    cases v.after.endpoints with
    | none => exact finish _
    | some endpoints =>
      simp only [Option.forM]
      rw [exec_changeRefsOf]
      simp only [Option.elim, Graph.linked, stored, Bool.false_eq_true, if_false, if_pos moved]
      exact finish _
  · rename_i unmoved
    cases v.after.endpoints with
    | none => exact finish _
    | some endpoints =>
      simp only [Option.elim, Graph.linked, stored, Bool.false_eq_true, if_false, if_neg unmoved]
      exact finish _

theorem exec_save (t : ElementType) (id : String) (changes : List Change) (a : Authorizations) (filed : g.store.Filed) :
    exec (save t id changes a) g = match exec (prepare a (.stored t id changes)) g with
      | (.ok v, h) => (v.after.encode.shownTo t a, h.written v)
      | (.error e, h) => (.error e, h) := by
  show _ = match exec (prepareStored t id changes a) g with
    | (.ok v, h) => _
    | (.error e, h) => _
  rw [save_eq, exec_bind]
  rcases run : exec (prepareStored t id changes a) g with ⟨_ | v, h⟩
  · rfl
  · obtain ⟨stored, r, found, -, whole, element, ps, applied, -, after⟩ := prepareStored_ok run
    have own_id : v.after.element.id = id := by
      obtain ⟨_, -, base⟩ := whole_ok_iff.mp whole
      rw [after]
      exact (Element.apply_kept applied).id.trans (base ▸ (filed _ _ _ found).2)
    subst own_id
    exact exec_writeStored t stored a h

/-- A save in memory is its preparation, a write that cannot fail, and the view of what has been written. -/
theorem exec_saving (s : Save) (a : Authorizations) (filed : g.store.Filed) :
    exec (saving a s) g = match exec (prepare a s) g with
      | (.ok v, h) => (v.after.encode.shownTo s.type a, h.written v)
      | (.error e, h) => (.error e, h) :=
  match s with
  | .vertex d => exec_addVertex d a g
  | .edge d endpoints => exec_addEdge d endpoints a filed
  | .stored t id changes => exec_save t id changes a filed

end Commit

end GuardedGraph
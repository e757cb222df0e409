import GuardedGraph.Proofs.Adjacency.Hiding
import GuardedGraph.Proofs.Search.Calls
import GuardedGraph.Proofs.Writing.Integrity

/-!
Saving a stored element more than once. A save that brings no streams moves no content: it is the changes and one write
(`Commit.exec_save_plain`). Of what one write has done to anything but the element's own record, the next write of the
element leaves nothing (`Graph.written_written`).
-/

namespace GuardedGraph

open Store (Memory)
open Outcome Commit

variable {g h : Graph Memory} {a : Authorizations} {t : ElementType} {id key : String} {changes : List Change}
  {e f : Element} {v : Revision}

/-! ### Changes without streams -/

/-- The values that a change leaves have been there, but for the one that it sets. -/
theorem Change.Does.value_mem {c : Change} {ps qs : List Property} (does : c.Does a ps qs) {q : Property}
    (mem : q ∈ qs) : (∃ p ∈ ps, p.value = q.value) ∨ ∃ key name v m, c = .set key name q.value v m := by
  have exchange {l r : List Property} {p new : Property} (middle : ps = l ++ p :: r) (mem : q ∈ l ++ new :: r) :
      q = new ∧ p ∈ ps ∨ q ∈ ps := by
    subst middle
    simp only [List.mem_append, List.mem_cons] at mem ⊢
    tauto
  cases does with
  | replace middle fit =>
    obtain ⟨rfl, -⟩ | old := exchange middle mem
    · exact .inr ⟨_, _, _, _, rfl⟩
    · exact .inl ⟨q, old, rfl⟩
  | add free =>
    obtain old | new := List.mem_append.mp mem
    · exact .inl ⟨q, old, rfl⟩
    · obtain rfl := List.mem_singleton.mp new
      exact .inr ⟨_, _, _, _, rfl⟩
  | removeAll key name => exact .inl ⟨q, (List.mem_filter.mp mem).1, rfl⟩
  | remove middle fit =>
    subst middle
    refine .inl ⟨q, ?_, rfl⟩
    simp only [List.mem_append, List.mem_cons] at mem ⊢
    tauto
  | stay only => exact .inl ⟨q, mem, rfl⟩
  | @move l r p key name source v middle fit unfit =>
    subst middle
    simp only [List.mem_append, List.mem_cons, List.mem_filter] at mem
    obtain ⟨old, -⟩ | rfl | ⟨old, -⟩ := mem
    · exact .inl ⟨q, by simp [old], rfl⟩
    · exact .inl ⟨p, by simp, rfl⟩
    · exact .inl ⟨q, by simp [old], rfl⟩
  | annotate key name entry value v =>
    obtain ⟨p, old, rfl⟩ := List.mem_map.mp mem
    refine .inl ⟨p, old, ?_⟩
    split
    · exact (Property.value_annotate a entry _ p).symm
    · rfl
  | relabel v => exact .inl ⟨q, mem, rfl⟩
  | hide marker middle fit =>
    obtain ⟨rfl, old⟩ | old := exchange middle mem
    · exact .inl ⟨_, old, rfl⟩
    · exact .inl ⟨q, old, rfl⟩
  | unhide marker middle fit =>
    obtain ⟨rfl, old⟩ | old := exchange middle mem
    · exact .inl ⟨_, old, rfl⟩
    · exact .inl ⟨q, old, rfl⟩

section

variable (plain : ∀ c ∈ changes, c.streams = []) (applied : e.apply a changes = .ok f)
include plain applied

theorem Element.apply_streams {q : Property} (mem : q ∈ f.properties) {s : Value.Stream} (value : q.value = .stream s) :
    ∃ p ∈ e.properties, p.value = .stream s := by
  refine apply_keeps (P := fun ps => ∀ q ∈ ps, ∀ s, q.value = .stream s → ∃ p ∈ e.properties, p.value = .stream s)
    (fun {c ps qs} there ok before q mem s value => ?_) applied (fun q mem s value => ⟨q, mem, value⟩) q mem s value
  obtain ⟨p, old, same⟩ | ⟨key, name, v, m, rfl⟩ := (Change.does_of_ok ok).value_mem mem
  · exact before p old s (same.trans value)
  · have none := plain _ there
    rw [Change.streams, value] at none
    exact absurd none (by simp [Value.streams])

theorem Whole.keptKeys_of_apply {w : Whole} (own : w.element = e) (mem : key ∈ { w with element := f }.keptKeys) :
    key ∈ w.keptKeys := by
  obtain ⟨q, there, s, value, found⟩ := Whole.mem_keptKeys.mp mem
  obtain ⟨p, before, value⟩ := Element.apply_streams plain applied there value
  exact Whole.mem_keptKeys.mpr ⟨p, own ▸ before, s, value, found⟩

end

/-! ### Saves without streams -/

/-- The stored element `w` changed to `e`. -/
def Whole.revised (w : Whole) (e : Element) : Revision := ⟨false, w, { w with element := e }⟩

/-- The changes can be saved: `a` may write the element, which is stored as `w`, and they make `e` of it. -/
structure Graph.Revises (g : Graph Memory) (t : ElementType) (id : String) (a : Authorizations) (changes : List Change)
    (w : Whole) (e : Element) : Prop where
  found : ∃ r, g.store.get? t id = some r ∧ r.requireWritable a = .ok () ∧ r.whole = .ok w
  applied : w.element.apply a changes = .ok e

namespace Commit

theorem exec_settleAll_stays {owned : List String} {w : Whole}
    (belongs : ∀ p ∈ w.element.properties, ∀ s, p.value = .stream s → s.Belongs g.config.threshold owned) :
    exec (settleAll owned w) g = (.ok w, g) := by
  have stays (ps : List Property)
      (belongs : ∀ p ∈ ps, ∀ s, p.value = .stream s → s.Belongs g.config.threshold owned) :
      exec (ps.mapM (settle w.type w.element.id owned)) g = (.ok ps, g) := by
    induction ps with
    | nil => rfl
    | cons p ps ih =>
      obtain ⟨here, rest⟩ := List.forall_mem_cons.mp belongs
      rw [List.mapM_cons, exec_bind, exec_settle_stays here]
      simp only
      rw [exec_bind, ih rest]
      rfl
  rw [settleAll, exec_bind, stays _ belongs]
  rfl

variable {w : Whole} (encoded : g.Encoded) (plain : ∀ c ∈ changes, c.streams = [])
include encoded plain

theorem exec_prepare_plain (revises : g.Revises t id a changes w e) :
    exec (prepare a (.stored t id changes)) g = (.ok (w.revised e), g) := by
  obtain ⟨⟨r, found, writable, whole⟩, applied⟩ := revises
  have belongs : ∀ p ∈ e.properties, ∀ s, p.value = .stream s → s.Belongs g.config.threshold w.keptKeys := by
    intro p mem s value
    obtain ⟨q, before, value⟩ := Element.apply_streams plain applied mem value
    exact belongs_of_whole (encoded t id r found) whole before value
  show exec (prepareStored t id changes a) g = _
  rw [prepareStored, exec_bind, exec_stored, found]
  simp only
  rw [exec_bind, writable, exec_lift]
  simp only
  rw [exec_bind, whole, exec_lift]
  simp only
  rw [exec_bind, applied, exec_lift]
  simp only
  rw [exec_bind, exec_settleAll_stays belongs]
  rfl

/-- A save that brings no streams is the changes, a write and the view of what has been written. -/
theorem exec_save_plain (filed : g.store.Filed) {v : View t} :
    exec (save t id changes a) g = (.ok v, h) ↔ ∃ w e, g.Revises t id a changes w e ∧
      (w.revised e).after.encode.shownTo t a = .ok v ∧ h = g.written (w.revised e) := by
  rw [exec_save t id changes a filed]
  constructor
  · intro run
    rcases prepared : exec (prepare a (.stored t id changes)) g with ⟨_ | u, mid⟩
    · rw [prepared] at run
      exact absurd (Prod.mk.inj run).1 (by simp)
    · obtain ⟨-, r, found, writable, whole, e, -, applied, -⟩ := prepareStored_ok prepared
      have revises : g.Revises t id a changes u.base e := ⟨⟨r, found, writable, whole⟩, applied⟩
      rw [exec_prepare_plain encoded plain revises] at run
      obtain ⟨shown, rfl⟩ := Prod.mk.inj run
      exact ⟨u.base, e, revises, shown, rfl⟩
  · rintro ⟨w, e, revises, shown, rfl⟩
    rw [exec_prepare_plain encoded plain revises]
    simp only [shown]

end Commit

/-! ### What a write leaves -/

/-- What the record of kind `u` of another element becomes when the record `e` is written: at a vertex the references of
an edge are brought up to date. -/
def Record.refreshed (e : Record) (u : ElementType) (r : Record) : Record :=
  if e.type = .edge ∧ u = .vertex then r.mapRefs (List.map (MirroredBut.refresh e)) else r

/-- The records agree in what references say of them. -/
structure Record.SameRef (r s : Record) : Prop where
  type : s.type = r.type
  id : s.id = r.id
  visibility : s.visibility = r.visibility
  hidden : s.hidden = r.hidden

theorem Record.SameRef.refreshed {r s : Record} (same : r.SameRef s) : s.refreshed = r.refreshed := by
  have each : MirroredBut.refresh s = MirroredBut.refresh r := by
    funext ref
    rw [MirroredBut.refresh, MirroredBut.refresh, same.id, same.visibility, same.hidden]
  funext u x
  rw [Record.refreshed, Record.refreshed, same.type, each]

theorem Record.refreshed_refreshed {r s : Record} (type : s.type = r.type) (id : s.id = r.id) (u : ElementType)
    (x : Record) : s.refreshed u (r.refreshed u x) = s.refreshed u x := by
  have again (ref : EdgeRef) : MirroredBut.refresh s (MirroredBut.refresh r ref) = MirroredBut.refresh s ref := by
    unfold MirroredBut.refresh
    rw [id]
    by_cases own : ref.edge = r.id
    · simp only [own, if_true]
    · simp only [own, if_false]
  unfold refreshed
  rw [type]
  split
  · rw [mapRefs, mapRefs, List.map_map, Function.comp_def]
    simp only [again]
    rfl
  · rfl

theorem get?_written_all (mirrored : Mirrored g.store) (prepared : Prepared (.stored t id changes) a g g v)
    (u : ElementType) (j : String) :
    (g.written v).store.get? u j =
      if u = t ∧ j = id then some v.after.encode else (g.store.get? u j).map (v.after.encode.refreshed u) := by
  obtain ⟨rfl, rfl⟩ := prepared.named mirrored.filed
  obtain ⟨stored, r, found, -, whole⟩ := prepared.starts
  have same := prepared.same
  split
  · next own =>
    rw [own.1, own.2]
    exact get?_written_own mirrored prepared
  · next other =>
    have away : ¬(v.after.encode.type = u ∧ v.after.encode.id = j) := fun own => other ⟨own.1.symm, own.2.symm⟩
    rw [Graph.written, indexed_store]
    show (Graph.rewritten g.store v).get? u j = _
    cases u with
    | edge =>
      rw [Graph.get?_edge_rewritten stored mirrored.filed, Memory.get?_put, if_neg away]
      have same : v.after.encode.refreshed .edge = id := funext fun r => if_neg (by simp)
      rw [same, Option.map_id]
      rfl
    | vertex =>
      rw [Graph.get?_vertex_rewritten stored mirrored.filed, Memory.get?_put, if_neg away]
      cases at_vertex : g.store.get? .vertex j with
      | none => rfl
      | some s =>
        rw [Option.map_some, Option.map_some, Record.refreshed, Record.mapRefs]
        cases type : v.after.type with
        | edge =>
          rw [if_pos ⟨type, rfl⟩, Record.mapRefs]
          obtain ⟨-, name⟩ := mirrored.filed _ _ _ found
          rw [type, ← name] at found
          rw [relabelled_refresh mirrored whole same found at_vertex]
        | vertex =>
          rw [type] at found
          obtain ⟨ps, -, base⟩ := whole_ok_iff.mp whole
          have none : v.after.endpoints = none := same.endpoints.trans (base ▸ mirrored.vertex _ r found)
          rw [if_neg (fun edge => absurd (type.symm.trans edge.1) (by simp)), Graph.relabelled,
            if_neg (by simp [none])]

/-- The elements agree in all that writing them changes beside their own record. -/
structure Whole.Outwardly (w x : Whole) : Prop where
  type : x.type = w.type
  id : x.element.id = w.element.id
  visibility : x.element.visibility = w.element.visibility
  hidden : x.element.hidden = w.element.hidden
  texts : (x.element.properties.filterMap fun p => p.value.text?.map (p.name, ·)) =
    w.element.properties.filterMap fun p => p.value.text?.map (p.name, ·)
  keptKeys : x.keptKeys = w.keptKeys

theorem Graph.written_eq (g : Graph Memory) (v : Revision) :
    g.written v = { g with
      store := rewritten g.store v
      index := if g.config.indexing then g.index.map (·.insert v.after.type v.after.element.id
        (v.after.element.properties.filterMap fun p => p.value.text?.map (p.name, ·))) else g.index } := by
  unfold written indexed
  split <;> rfl

section

variable {first second both : List Change} {v₁ v₂ v₃ : Revision} (mirrored : Mirrored g.store)
  (one : Prepared (.stored t id first) a g g v₁)
  (other : Prepared (.stored t id second) a (g.written v₁) (g.written v₁) v₂)
  (joint : Prepared (.stored t id both) a g g v₃) (alike : v₃.after.Outwardly v₂.after)
include mirrored one other joint alike

theorem Graph.get?_written_written (u : ElementType) (j : String) :
    ((g.written v₁).written v₂).store.get? u j =
      ((g.written v₃).store.put v₂.after.encode).get? u j := by
  have mid : Mirrored (g.written v₁).store := mirrored_written mirrored one
  obtain ⟨type, name⟩ := other.named mid.filed
  obtain ⟨type₁, name₁⟩ := one.named mirrored.filed
  have same : v₃.after.encode.SameRef v₂.after.encode := ⟨alike.type, alike.id, alike.visibility, alike.hidden⟩
  rw [get?_written_all mid other, Memory.get?_put, get?_written_all mirrored one, get?_written_all mirrored joint]
  by_cases own : u = t ∧ j = id
  · rw [if_pos own, if_pos ⟨type.symm.trans own.1.symm, name.symm.trans own.2.symm⟩]
  · have away : ¬(v₂.after.encode.type = u ∧ v₂.after.encode.id = j) := fun here =>
      own ⟨here.1.symm.trans type.symm, here.2.symm.trans name.symm⟩
    rw [if_neg own, if_neg own, if_neg own, if_neg away, Option.map_map, ← same.refreshed]
    refine congrArg (fun f => Option.map f _) (funext fun x => ?_)
    exact Record.refreshed_refreshed (type.symm.trans type₁) (name.symm.trans name₁) u x

variable (kept : v₃.base.keptKeys = v₁.base.keptKeys ∧ v₂.base.keptKeys = v₁.after.keptKeys)
  (fewer : (∀ key ∈ v₁.after.keptKeys, key ∈ v₁.base.keptKeys) ∧ ∀ key ∈ v₂.after.keptKeys, key ∈ v₂.base.keptKeys)
include kept fewer

omit mirrored one other joint in
theorem Graph.kept?_written_written (key : String) :
    ((g.written v₁).written v₂).store.kept? key = (g.written v₃).store.kept? key := by
  obtain ⟨base, mid⟩ := kept
  rw [written, indexed_store, kept?_rewritten, written, indexed_store, kept?_rewritten, written, indexed_store,
    kept?_rewritten, base, mid, ← alike.keptKeys]
  -- what is gone at last has gone with one of the writes
  have gone : key ∈ v₁.base.keptKeys ∧ key ∉ v₂.after.keptKeys ↔
      (key ∈ v₁.after.keptKeys ∧ key ∉ v₂.after.keptKeys) ∨ key ∈ v₁.base.keptKeys ∧ key ∉ v₁.after.keptKeys := by
    have lost := fewer.1 key
    have lost' := fewer.2 key
    rw [mid] at lost'
    tauto
  rw [if_congr gone rfl rfl, ite_or]

/-- Writing an element twice leaves what writing it once leaves, but for its own record. -/
theorem Graph.written_written (made : g.IndexMade) :
    (g.written v₁).written v₂ =
      { g.written v₃ with store := (g.written v₃).store.put v₂.after.encode } := by
  have store : ((g.written v₁).written v₂).store = (g.written v₃).store.put v₂.after.encode := by
    refine Memory.ext_get? (get?_written_written mirrored one other joint alike) (Table.ext_get? fun key => ?_)
    exact kept?_written_written alike kept fewer key
  have index : ((g.written v₁).written v₂).index = (g.written v₃).index := by
    obtain ⟨type, name⟩ := other.named (mirrored_written mirrored one).filed
    obtain ⟨type₁, name₁⟩ := one.named mirrored.filed
    obtain ⟨type₃, name₃⟩ := joint.named mirrored.filed
    simp only [written_eq, ← type, ← name, ← type₁, ← name₁, ← type₃, ← name₃, alike.texts]
    split
    · cases known : g.index with
      | none => rfl
      | some x => exact congrArg some ((made x known).insert_insert _ _ _ _)
    · rfl
  have config : ((g.written v₁).written v₂).config = (g.written v₃).config := by simp only [written_eq]
  have kinds : ((g.written v₁).written v₂).kinds = (g.written v₃).kinds := by simp only [written_eq]
  have minted : ((g.written v₁).written v₂).minted = (g.written v₃).minted := by simp only [written_eq]
  have names : ((g.written v₁).written v₂).names = (g.written v₃).names := by simp only [written_eq]
  exact (Graph.mk.injEq ..).mpr ⟨store, config, index, kinds, names, minted⟩

end

end GuardedGraph

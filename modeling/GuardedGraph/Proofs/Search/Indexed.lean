import GuardedGraph.Proofs.Value.Stored
import GuardedGraph.Proofs.Writing.Integrity

/-! What the index of a graph knows. A graph that has had an index from the start, and puts texts there, has in it
exactly the terms of every stored element (`Graph.Leads.indexedBy`). -/

namespace GuardedGraph

open Store (Memory)

variable {g h : Graph Memory} {x y : Search.Index} {t : ElementType} {id : String}

/-! ### Texts of records -/

theorem text?_attach (v : Value) : v.attach.text? = v.text? := by
  cases v <;> rfl

theorem texts_encode (w : Whole) : w.encode.texts = w.element.properties.filterMap (·.value.text?) := by
  show (w.element.properties.map Property.encode).filterMap _ = _
  rw [List.filterMap_map]
  refine List.filterMap_congr fun p _ => ?_
  show (decodeAttached p.value.encode).toOption.bind Value.text? = _
  rw [← Value.text?_decode_encode p.value, decodeAttached]
  cases Value.decode p.value.encode with
  | error e => rfl
  | ok v => exact text?_attach v

/-- The record that an element has become has the texts that the element had. -/
def SameTexts (g h : Graph Memory) (t : ElementType) (id : String) : Prop :=
  ∀ r, h.store.get? t id = some r → ∃ s, g.store.get? t id = some s ∧ r.texts = s.texts

theorem SameBut.sameTexts (same : SameBut g.store h.store t id) : SameTexts g h t id := by
  obtain ⟨f, same⟩ := same
  intro r found
  rw [same] at found
  obtain ⟨s, before, rfl⟩ := Option.map_eq_some_iff.mp found
  exact ⟨s, before, rfl⟩

/-- No operation but a save changes texts. -/
theorem Fate.sameTexts {o : Operation} (fate : Fate g h o t id) (other : ∀ s a, o ≠ .save s a) :
    SameTexts g h t id := by
  cases fate with
  | same same => exact same.sameTexts
  | gone _ gone =>
    intro r found
    rw [gone] at found
    exact absurd found (by simp)
  | written _ save => exact absurd save (other _ _)
  | marked _ before after =>
    intro r found
    obtain rfl := Option.some.inj (after.symm.trans found)
    exact ⟨_, before, rfl⟩

/-! ### Steps -/

/-- What an index knows of elements that stay with their texts, it still knows when it has lost others. -/
theorem Graph.IndexedBy.drops {dropped : ElementType → String → Bool} (indexed : g.IndexedBy x)
    (drops : x.Drops dropped y) (left : ∀ t id, (h.store.get? t id).isSome → dropped t id = false)
    (texts : ∀ t id, SameTexts g h t id) : h.IndexedBy y := by
  intro t id r found term
  obtain ⟨s, before, same⟩ := texts t id r found
  rw [drops.ids, left t id (by rw [found]; rfl), Bool.not_false, Bool.and_true, same]
  exact indexed t id s before term

/-- The graph has an index, and this knows all that is stored. -/
def Graph.Indexed (g : Graph Memory) : Prop := ∃ x, g.index = some x ∧ g.IndexedBy x

theorem Graph.Indexed.unlists {dropped : ElementType → String → Bool} (indexed : g.Indexed)
    (unlists : g.Unlists dropped h) (left : ∀ t id, (h.store.get? t id).isSome → dropped t id = false)
    (texts : ∀ t id, SameTexts g h t id) : h.Indexed := by
  obtain ⟨x, own, indexed⟩ := indexed
  unfold Graph.Unlists at unlists
  rw [own] at unlists
  generalize after : h.index = y at unlists
  cases unlists with
  | some drops => exact ⟨_, after, indexed.drops drops left texts⟩

theorem Graph.Indexed.same (indexed : g.Indexed) (index : h.index = g.index) (texts : ∀ t id, SameTexts g h t id) :
    h.Indexed :=
  indexed.unlists (unlists_of_same index) (fun _ _ _ => rfl) texts

/-- What is written is listed under the terms of its own texts, and everything else as it was. -/
theorem Graph.Indexed.written {s : Save} {a : Authorizations} {v : Revision} (indexed : g.Indexed)
    (agrees : g.IndexAgrees) (indexing : g.config.indexing = true) (mirrored : Mirrored g.store)
    (prepared : Prepared s a g h v) : (h.written v).Indexed := by
  obtain ⟨x, own, indexed⟩ := indexed
  let fields := v.after.element.properties.filterMap fun p => p.value.text?.map (p.name, ·)
  have fields_texts : fields.map (·.2) = v.after.encode.texts := by
    rw [texts_encode, List.map_filterMap]
    refine List.filterMap_congr fun p _ => ?_
    cases p.value.text? <;> rfl
  have index : (h.written v).index = some (x.insert v.after.type v.after.element.id fields) := by
    rw [Graph.written, Graph.indexed, if_pos (prepared.grown.config ▸ indexing)]
    show h.index.map _ = _
    rw [prepared.grown.index, own]
    rfl
  refine ⟨_, index, fun t id r found term => ?_⟩
  rw [(agrees x own).ids_insert, fields_texts]
  have reached := get?_written mirrored prepared t id
  split
  · next here =>
    rw [if_pos here, found] at reached
    rw [Option.some.inj reached]
  · next other =>
    rw [if_neg other] at reached
    obtain ⟨s, before, same⟩ := reached.sameTexts r found
    rw [same]
    exact indexed t id s before term

theorem Operation.Does.indexed {o : Operation} (does : o.Does g h) (mirrored : Mirrored g.store)
    (agrees : g.IndexAgrees) (indexing : g.config.indexing = true) (indexed : g.Indexed) : h.Indexed := by
  have fate := does.fate mirrored
  cases does with
  | refuse grown => exact indexed.same grown.index fun t id => (sameBut_of_eq (grown.get? t id)).sameTexts
  | write prepared => exact indexed.written agrees indexing mirrored prepared
  | removeVertex writable _ =>
    have loses := loses_withoutVertex mirrored agrees (Graph.writable_ok writable).1
    refine indexed.unlists loses.index (fun t id there => ?_) fun t id => (fate t id).sameTexts nofun
    by_contra goes
    rw [loses.gone t id (by simpa using goes)] at there
    exact absurd there (by simp)
  | @removeEdge i a r writable =>
    refine indexed.unlists (unlists_withoutEdge mirrored.filed agrees i none) (fun t id there => ?_)
      fun t id => (fate t id).sameTexts nofun
    rw [decide_eq_false_iff_not]
    rintro ⟨rfl, rfl, -⟩
    rw [get?_edge_withoutEdge mirrored.filed, if_pos rfl] at there
    exact absurd there (by simp)
  | hide _ => exact indexed.same rfl fun t id => (fate t id).sameTexts nofun
  | unhide _ => exact indexed.same rfl fun t id => (fate t id).sameTexts nofun
  | declare => exact indexed.same rfl fun t id => (fate t id).sameTexts nofun

/-! ### Runs -/

/-- An index that is there from the start, and gets all texts, knows exactly the terms of every stored element. -/
theorem Graph.Leads.indexedBy {config : Config} {names : Names} (indexing : config.indexing = true) (made : x.Made)
    (leads : (Graph.ofStore Memory.empty config (some x) names).Leads g) : g.Indexed := by
  have start : ∀ y, some x = some y → y.Made := fun y own => Option.some.inj own ▸ made
  have configured : g.config = config ∧ g.Indexed := by
    induction leads with
    | here =>
      refine ⟨rfl, x, rfl, fun t id r found => ?_⟩
      cases t <;> simp [ofStore, Memory.get?, Memory.empty, PerType.get] at found
    | @step h o leads ih =>
      have mirrored := mirrored_of_reachable leads.reachable
      have does := o.does_after mirrored.filed
      have agrees : h.IndexAgrees := fun y own => (leads.indexMade start y own).agrees
      exact ⟨does.config.trans ih.1, does.indexed mirrored agrees (ih.1 ▸ indexing) ih.2⟩
  exact configured.2

end GuardedGraph

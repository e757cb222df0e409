import GuardedGraph.Proofs.Writing.Cascade

/-! How far a write reaches: a vertex is written alone, and an edge with nothing but its own references at its
endpoints. -/

namespace GuardedGraph

open Store (Memory)
open Commit

variable {g h mid : Graph Memory} {l m n : Memory} {a : Authorizations} {s : Save} {v : Revision} {r : Record}
  {id edge vertex : String} {vertices : List String} {f : List EdgeRef → List EdgeRef}

namespace Record

/-- The record without the references of one edge. -/
def apart (edge : String) : Record → Record := mapRefs (·.filter (·.edge ≠ edge))

/-- The record without its markers, and those of its references. -/
def unmarked (r : Record) : Record := { r with hidden := [], edgeRefs := r.edgeRefs.map ({ · with hidden := [] }) }

/-- The vertices at which there are references of the edge. -/
def ends (r : Record) : List String := r.endpoints.elim [] Endpoints.toList

end Record

theorem map_get?_mapRefs {α : Type} {k : Record → α} (filed : m.Filed) (same : ∀ r, k (r.mapRefs f) = k r)
    (vertex : String) (t : ElementType) (id : String) :
    ((m.mapRefs vertex f).get? t id).map k = (m.get? t id).map k := by
  unfold Memory.mapRefs
  split
  · rfl
  · rename_i r found
    obtain ⟨type, own⟩ := filed _ _ _ found
    rw [Memory.get?_put]
    split
    · rename_i here
      obtain ⟨rfl, rfl⟩ := here
      have there : m.get? r.type r.id = some r := by rwa [type, own]
      exact (congrArg some (same r)).trans (congrArg (Option.map k) there).symm
    · rfl

/-! ### References of one edge -/

/-- The records of `n` are those of `m`, but for references of one edge at some vertices. -/
structure Rereferred (m n : Memory) (edge : String) (vertices : List String) : Prop where
  edges : ∀ id, n.get? .edge id = m.get? .edge id
  away : ∀ v ∉ vertices, n.get? .vertex v = m.get? .vertex v
  others : ∀ v, (n.get? .vertex v).map (Record.apart edge) = (m.get? .vertex v).map (Record.apart edge)

namespace Rereferred

theorem of_same (same : ∀ t id, n.get? t id = m.get? t id) : Rereferred m n edge vertices :=
  ⟨same .edge, fun v _ => same .vertex v, fun v => by rw [same]⟩

theorem trans (first : Rereferred l m edge vertices) (second : Rereferred m n edge vertices) :
    Rereferred l n edge vertices where
  edges id := (second.edges id).trans (first.edges id)
  away v out := (second.away v out).trans (first.away v out)
  others v := (second.others v).trans (first.others v)

theorem mapRefs (filed : m.Filed) (mem : vertex ∈ vertices)
    (own : ∀ refs, (f refs).filter (·.edge ≠ edge) = refs.filter (·.edge ≠ edge)) :
    Rereferred m (m.mapRefs vertex f) edge vertices where
  edges id := Memory.get?_edge_mapRefs filed vertex f id
  away v out := by
    have other : v ≠ vertex := fun same => out (same ▸ mem)
    rw [Memory.get?_vertex_mapRefs filed]
    simp only [other, if_false, Record.map_mapRefs_id]
  others v := map_get?_mapRefs filed (fun r => congrArg (fun refs => { r with edgeRefs := refs }) (own r.edgeRefs))
    vertex .vertex v

theorem mapEnds (filed : m.Filed) (ends : Endpoints)
    (own : ∀ refs, (f refs).filter (·.edge ≠ edge) = refs.filter (·.edge ≠ edge)) :
    Rereferred m (m.mapEnds ends f) edge ends.toList := by
  have source : Rereferred m (m.mapRefs ends.source f) edge ends.toList :=
    .mapRefs filed (by simp [Endpoints.toList]) own
  exact source.trans (.mapRefs (filed.mapRefs _ f) (by simp [Endpoints.toList]) own)

theorem attachEnds (filed : m.Filed) (r : Record) (ends : Endpoints) :
    Rereferred m (m.attachEnds r ends) r.id ends.toList := by
  have own (ref : EdgeRef) (here : ref.edge = r.id) (refs : List EdgeRef) :
      (refs ++ [ref]).filter (·.edge ≠ r.id) = refs.filter (·.edge ≠ r.id) := by
    simp [List.filter_append, here]
  have source : Rereferred m (m.attach r ends.source ends.label ends.target .outgoing) r.id ends.toList :=
    mapRefs filed (by simp [Endpoints.toList]) (own _ rfl)
  exact source.trans (.mapRefs (filed.mapRefs _ _) (by simp [Endpoints.toList]) (own _ rfl))

theorem dropRefs (filed : m.Filed) (edge : String) (ends : Endpoints) :
    Rereferred m (m.dropRefs edge ends none) edge ends.toList :=
  mapEnds filed ends fun refs => by rw [List.filter_filter]; simp

end Rereferred

/-- Changing references of one edge leaves those of all others. -/
theorem filter_map_own (change : EdgeRef → EdgeRef) (same : ∀ ref, (change ref).edge = ref.edge)
    (refs : List EdgeRef) :
    (refs.map fun ref => if ref.edge = edge then change ref else ref).filter (·.edge ≠ edge) =
      refs.filter (·.edge ≠ edge) := by
  induction refs with
  | nil => rfl
  | cons ref refs ih =>
    rw [List.map_cons, List.filter_cons, List.filter_cons, ih]
    by_cases own : ref.edge = edge
    · simp [own, same]
    · simp [own]

/-! ### What is written -/

theorem rereferred_written (filed : h.store.Filed) (v : Revision) :
    Rereferred (h.store.put v.after.encode) (h.written v).store v.after.element.id v.after.encode.ends := by
  rw [Graph.written, indexed_store]
  show Rereferred _ (Graph.rewritten h.store v) _ _
  unfold Graph.rewritten
  simp only
  generalize v.base.keptKeys.filter (fun key => !v.after.keptKeys.contains key) = gone
  have discarded := Memory.get?_discardAll (h.store.put v.after.encode) gone
  have later : (gone.foldl Memory.discard (h.store.put v.after.encode)).Filed := by
    intro t id r found
    exact filed.put _ t id r ((discarded t id).symm.trans found)
  show Rereferred _ _ _ (v.after.endpoints.elim [] Endpoints.toList)
  cases v.after.endpoints with
  | none => exact .of_same discarded
  | some ends =>
    refine Rereferred.trans (.of_same discarded) ?_
    show Rereferred _ (Graph.linked _ v ends) _ ends.toList
    unfold Graph.linked
    split
    · exact .attachEnds later v.after.encode ends
    · split
      · exact .mapEnds later ends (filter_map_own _ fun _ => rfl)
      · exact .of_same fun _ _ => rfl

theorem rereferred_marked (filed : g.store.Filed) (r : Record) (hidden : List Visibility) :
    Rereferred (g.store.put (r.under hidden)) (g.marked r hidden).store r.id r.ends := by
  unfold Graph.marked Record.ends
  cases r.endpoints with
  | none => exact .of_same fun _ _ => rfl
  | some ends => exact .mapEnds (filed.put _) ends (filter_map_own _ fun _ => rfl)

theorem rereferred_withoutEdge (filed : g.store.Filed) (found : g.store.get? .edge id = some r) :
    Rereferred (g.store.delete .edge id) (g.withoutEdge id none).store id r.ends := by
  unfold Graph.withoutEdge Record.ends
  rw [found]
  simp only
  have discarded (m : Memory) (vertices : List String) : Rereferred m (r.keptKeys.foldl Memory.discard m) id vertices :=
    .of_same (Memory.get?_discardAll m r.keptKeys)
  cases r.endpoints with
  | none => exact discarded _ _
  | some ends => exact (Rereferred.dropRefs (filed.delete _ _) id ends).trans (discarded _ _)

/-! ### The element that an operation is about -/

/-- The id that a new element gets. -/
def Draft.idIn (d : Draft) (g : Graph Memory) : String :=
  d.id.getD (g.config.idPrefix.getD "" ++ g.nextName)

namespace Operation

def subject? (g : Graph Memory) : Operation → Option (ElementType × String)
  | save (.vertex d) _ => some (.vertex, d.idIn g)
  | save (.edge d _) _ => some (.edge, d.idIn g)
  | save (.stored t id _) _ => some (t, id)
  | removeVertex id _ => some (.vertex, id)
  | removeEdge id _ => some (.edge, id)
  | hide t id _ _ => some (t, id)
  | unhide t id _ _ => some (t, id)
  | declare _ _ => none

/-- The endpoints of the edge that the operation is about: those that it has, or that it is to have. -/
def near (g : Graph Memory) (edge : String) : Operation → List String
  | save (.edge _ ends) _ => ends.toList
  | _ => (g.store.get? .edge edge).elim [] Record.ends

end Operation

theorem idFor_ok {t : ElementType} {wanted : Option String} (run : exec (idFor t wanted) g = (.ok id, h)) :
    id = wanted.getD (g.config.idPrefix.getD "" ++ g.nextName) := by
  cases wanted with
  | none => exact (Except.ok.inj (Prod.mk.inj run).1).symm
  | some given =>
    change exec (if given = "" then throw _ else pure given) g = _ at run
    split at run
    · exact absurd (Prod.mk.inj run).1 (by simp)
    · exact (Except.ok.inj (Prod.mk.inj run).1).symm

theorem prepareNew_id {t : ElementType} {d : Draft} {endpoints : Option Endpoints}
    (run : exec (prepareNew t d endpoints a) g = (.ok v, h)) : v.base.element.id = d.idIn g := by
  obtain ⟨w, k, realized, run⟩ := exec_bind_ok run
  obtain ⟨_, _, required, realized⟩ := exec_bind_ok realized
  obtain ⟨-, rfl⟩ := Prod.mk.inj required
  obtain ⟨id, _, named, realized⟩ := exec_bind_ok realized
  obtain ⟨element, _, applied, realized⟩ := exec_bind_ok realized
  obtain rfl := Except.ok.inj (Prod.mk.inj realized).1
  obtain ⟨_, _, -, run⟩ := exec_bind_ok run
  split at run
  · exact absurd (Prod.mk.inj run).1 (by simp)
  · obtain ⟨_, _, -, run⟩ := exec_bind_ok run
    obtain rfl := Except.ok.inj (Prod.mk.inj run).1
    exact (Element.apply_kept (Prod.mk.inj applied).1).id.trans (idFor_ok named)

theorem subject?_save (filed : g.store.Filed) (run : exec (prepare a s) g = (.ok v, h)) :
    (Operation.save s a).subject? g = some (v.after.type, v.after.element.id) := by
  have prepared := prepare_ok run
  have same : v.after.element.id = v.base.element.id := prepared.same.id
  have type := prepared.type filed
  cases s with
  | vertex d =>
    rw [same, prepareNew_id run, type]
    rfl
  | edge d ends =>
    obtain ⟨-, -, run⟩ := prepareEdge_ok run
    rw [same, prepareNew_id run, type]
    rfl
  | stored t id changes =>
    obtain ⟨rfl, rfl⟩ := prepared.named filed
    rfl

theorem grown_or_written (filed : g.store.Filed) (s : Save) (a : Authorizations) :
    g.Grown ((Operation.save s a).after g) ∨
      ∃ h v, exec (prepare a s) g = (.ok v, h) ∧ (Operation.save s a).after g = h.written v := by
  have grown := grows_prepare a s g
  unfold Operation.after
  rw [Operation.exec_save_commit s a filed]
  rcases run : exec (prepare a s) g with ⟨_ | v, h⟩
  · rw [run] at grown
    exact .inl grown
  · exact .inr ⟨h, v, rfl, rfl⟩

theorem ends_written (filed : g.store.Filed) (prepared : Prepared s a g h v) (type : v.after.type = .edge) :
    v.after.encode.ends = (Operation.save s a).near g v.after.element.id := by
  have endpoints := prepared.same.endpoints
  have kind := prepared.type filed
  have starts := prepared.starts
  unfold Record.ends
  rw [endpoints]
  cases s with
  | vertex d => exact absurd (kind.symm.trans type) (by simp [Save.type])
  | edge d ends =>
    obtain ⟨-, -, -, i, base, -⟩ := starts
    rw [base]
    rfl
  | stored t i changes =>
    obtain ⟨-, r, found, -, whole⟩ := starts
    obtain ⟨ps, -, base⟩ := whole_ok_iff.mp whole
    obtain ⟨rfl, rfl⟩ := prepared.named filed
    rw [type] at found
    show _ = (g.store.get? .edge _).elim [] Record.ends
    rw [found, base]
    rfl

/-- A vertex is written without endpoints, and with the references that it has. -/
theorem vertex_written (mirrored : Mirrored g.store) (prepared : Prepared s a g h v) (type : v.after.type = .vertex) :
    v.after.encode.ends = [] ∧
      v.after.edgeRefs = (g.store.get? .vertex v.after.element.id).elim [] (·.edgeRefs) := by
  have same := prepared.same
  have kind := prepared.type mirrored.filed
  have starts := prepared.starts
  unfold Record.ends
  rw [same.endpoints, show v.after.edgeRefs = v.base.edgeRefs from same.edgeRefs]
  cases s with
  | vertex d =>
    obtain ⟨-, i, base, free⟩ := starts
    rw [show v.after.element.id = v.base.element.id from same.id, base]
    exact ⟨rfl, by rw [show (Element.bare i d.visibility).id = i from rfl, free]; rfl⟩
  | edge d ends => exact absurd (kind.symm.trans type) (by simp [Save.type])
  | stored t i changes =>
    obtain ⟨-, r, found, -, whole⟩ := starts
    obtain ⟨ps, -, base⟩ := whole_ok_iff.mp whole
    obtain ⟨rfl, rfl⟩ := prepared.named mirrored.filed
    rw [type] at found
    rw [found, base]
    exact ⟨congrArg (·.elim [] Endpoints.toList) (mirrored.vertex _ r found), rfl⟩

/-! ### How far an operation reaches -/

/-- At most the record of one vertex has changed, and not in its references. -/
structure Graph.OnlyVertex (g h : Graph Memory) (id : String) : Prop where
  others : ∀ t j, ¬(t = .vertex ∧ j = id) → h.store.get? t j = g.store.get? t j
  keeps : ∀ r, g.store.get? .vertex id = some r → ∃ s, h.store.get? .vertex id = some s ∧ s.edgeRefs = r.edgeRefs
  starts : g.store.get? .vertex id = none → ∀ s, h.store.get? .vertex id = some s → s.edgeRefs = []

/-- At most the record of one edge has changed, and at its endpoints the references of that edge. -/
structure Graph.OnlyEdge (g h : Graph Memory) (id : String) (ends : List String) : Prop where
  edges : ∀ j ≠ id, h.store.get? .edge j = g.store.get? .edge j
  away : ∀ v ∉ ends, h.store.get? .vertex v = g.store.get? .vertex v
  others : ∀ v, (h.store.get? .vertex v).map (Record.apart id) = (g.store.get? .vertex v).map (Record.apart id)

theorem onlyVertex_of_same (same : ∀ t j, h.store.get? t j = g.store.get? t j) : g.OnlyVertex h id where
  others t j _ := same t j
  keeps r found := ⟨r, (same .vertex id).trans found, rfl⟩
  starts free s found := absurd ((same .vertex id).symm.trans found) (by simp [free])

theorem onlyVertex_of_put (same : ∀ t j, m.get? t j = g.store.get? t j) (type : r.type = .vertex)
    (refs : r.edgeRefs = (g.store.get? .vertex r.id).elim [] (·.edgeRefs))
    (written : Rereferred (m.put r) h.store r.id []) : g.OnlyVertex h r.id := by
  have reached (t : ElementType) (j : String) :
      h.store.get? t j = if r.type = t ∧ r.id = j then some r else g.store.get? t j := by
    rw [← same, ← Memory.get?_put]
    cases t with
    | vertex => exact written.away j (by simp)
    | edge => exact written.edges j
  have own : h.store.get? .vertex r.id = some r := by rw [reached, if_pos ⟨type, rfl⟩]
  constructor
  · intro t j other
    rw [reached, if_neg]
    rintro ⟨rfl, rfl⟩
    exact other ⟨type, rfl⟩
  · intro s found
    exact ⟨r, own, by rw [refs, found]; rfl⟩
  · intro free s found
    obtain rfl := Option.some.inj (own.symm.trans found)
    rw [refs, free]
    rfl

theorem onlyEdge_of_same {ends : List String} (same : ∀ t j, h.store.get? t j = g.store.get? t j) :
    g.OnlyEdge h id ends := ⟨fun j _ => same .edge j, fun v _ => same .vertex v, fun v => by rw [same]⟩

theorem Rereferred.onlyEdge {ends : List String} (rereferred : Rereferred m h.store id ends)
    (same : ∀ t j, ¬(t = .edge ∧ j = id) → m.get? t j = g.store.get? t j) : g.OnlyEdge h id ends where
  edges j other := (rereferred.edges j).trans (same .edge j fun own => other own.2)
  away v out := (rereferred.away v out).trans (same .vertex v (by simp))
  others v := (rereferred.others v).trans (congrArg _ (same .vertex v (by simp)))

theorem Rereferred.onlyEdge_put (same : ∀ t j, m.get? t j = g.store.get? t j) (type : r.type = .edge)
    (written : Rereferred (m.put r) h.store r.id r.ends) : g.OnlyEdge h r.id r.ends := by
  refine written.onlyEdge fun t j other => ?_
  rw [Memory.get?_put, if_neg, same]
  rintro ⟨rfl, rfl⟩
  exact other ⟨type, rfl⟩

namespace Operation

variable {o : Operation}

theorem marks {t : ElementType} {marker : Visibility} (filed : g.store.Filed)
    (either : o = hide t id marker a ∨ o = unhide t id marker a) :
    g.Grown (o.after g) ∨ ∃ r hidden, g.store.get? t id = some r ∧ o.after g = g.marked r hidden := by
  have does := o.does_after filed
  generalize o.after g = h at does
  rcases either with rfl | rfl
  · cases does with
    | refuse grown => exact .inl grown
    | hide markable => exact .inr ⟨_, _, (Graph.markable_ok markable).1, rfl⟩
  · cases does with
    | refuse grown => exact .inl grown
    | unhide markable => exact .inr ⟨_, _, (Graph.markable_ok markable).1, rfl⟩

theorem onlyVertex (mirrored : Mirrored g.store) (subject : o.subject? g = some (.vertex, id))
    (stays : ∀ a, o ≠ .removeVertex id a) : g.OnlyVertex (o.after g) id := by
  have marked {marker : Visibility} {a : Authorizations}
      (either : o = hide .vertex id marker a ∨ o = unhide .vertex id marker a) : g.OnlyVertex (o.after g) id := by
    rcases marks mirrored.filed either with grown | ⟨r, hidden, found, after⟩
    · exact onlyVertex_of_same grown.get?
    · obtain ⟨type, rfl⟩ := mirrored.filed _ _ _ found
      have written := rereferred_marked mirrored.filed r hidden
      rw [show r.ends = [] by rw [Record.ends, mirrored.vertex _ r found]; rfl, ← after] at written
      refine onlyVertex_of_put (r := r.under hidden) (fun _ _ => rfl) type ?_ written
      show r.edgeRefs = (g.store.get? .vertex r.id).elim [] (·.edgeRefs)
      rw [found]
      rfl
  cases o with
  | save s a =>
    rcases grown_or_written mirrored.filed s a with grown | ⟨h, v, run, after⟩
    · exact onlyVertex_of_same grown.get?
    · rw [after]
      obtain ⟨type, rfl⟩ := Prod.mk.inj (Option.some.inj ((subject?_save mirrored.filed run).symm.trans subject))
      have prepared := prepare_ok run
      obtain ⟨ends, refs⟩ := vertex_written mirrored prepared type
      have written := rereferred_written (prepared.grown.filed mirrored.filed) v
      rw [ends] at written
      exact onlyVertex_of_put (r := v.after.encode) prepared.grown.get? type refs written
  | removeVertex i a =>
    obtain rfl := (Prod.mk.inj (Option.some.inj subject)).2
    exact absurd rfl (stays a)
  | removeEdge i a => exact absurd (Prod.mk.inj (Option.some.inj subject)).1 (by simp)
  | hide t i marker a =>
    obtain ⟨rfl, rfl⟩ := Prod.mk.inj (Option.some.inj subject)
    exact marked (.inl rfl)
  | unhide t i marker a =>
    obtain ⟨rfl, rfl⟩ := Prod.mk.inj (Option.some.inj subject)
    exact marked (.inr rfl)
  | declare name kind => exact absurd subject (by simp [subject?])

theorem onlyEdge (mirrored : Mirrored g.store) (subject : o.subject? g = some (.edge, id)) :
    g.OnlyEdge (o.after g) id (o.near g id) := by
  have marked {marker : Visibility} {a : Authorizations}
      (either : o = hide .edge id marker a ∨ o = unhide .edge id marker a) :
      g.OnlyEdge (o.after g) id ((g.store.get? .edge id).elim [] Record.ends) := by
    rcases marks mirrored.filed either with grown | ⟨r, hidden, found, after⟩
    · exact onlyEdge_of_same grown.get?
    · obtain ⟨type, rfl⟩ := mirrored.filed _ _ _ found
      have written := rereferred_marked mirrored.filed r hidden
      rw [found, after]
      exact Rereferred.onlyEdge_put (r := r.under hidden) (fun _ _ => rfl) type written
  cases o with
  | save s a =>
    rcases grown_or_written mirrored.filed s a with grown | ⟨h, v, run, after⟩
    · exact onlyEdge_of_same grown.get?
    · rw [after]
      obtain ⟨type, rfl⟩ := Prod.mk.inj (Option.some.inj ((subject?_save mirrored.filed run).symm.trans subject))
      have prepared := prepare_ok run
      have written := rereferred_written (prepared.grown.filed mirrored.filed) v
      rw [← ends_written mirrored.filed prepared type]
      exact Rereferred.onlyEdge_put (r := v.after.encode) prepared.grown.get? type written
  | removeVertex i a => exact absurd (Prod.mk.inj (Option.some.inj subject)).1 (by simp)
  | removeEdge i a =>
    obtain rfl := (Prod.mk.inj (Option.some.inj subject)).2
    have does := (removeEdge i a).does_after mirrored.filed
    generalize (removeEdge i a).after g = h at does
    cases does with
    | refuse grown => exact onlyEdge_of_same grown.get?
    | removeEdge writable =>
      obtain ⟨found, -⟩ := Graph.writable_ok writable
      show g.OnlyEdge _ i ((g.store.get? .edge i).elim [] Record.ends)
      rw [found]
      refine (rereferred_withoutEdge mirrored.filed found).onlyEdge fun t j other => ?_
      rw [Memory.get?_delete, if_neg fun own => other ⟨own.1.symm, own.2.symm⟩]
  | hide t i marker a =>
    obtain ⟨rfl, rfl⟩ := Prod.mk.inj (Option.some.inj subject)
    exact marked (.inl rfl)
  | unhide t i marker a =>
    obtain ⟨rfl, rfl⟩ := Prod.mk.inj (Option.some.inj subject)
    exact marked (.inr rfl)
  | declare name kind => exact absurd subject (by simp [subject?])

end Operation

end GuardedGraph

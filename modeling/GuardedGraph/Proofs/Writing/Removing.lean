import GuardedGraph.Graph.Mark
import GuardedGraph.Graph.Remove
import GuardedGraph.Proofs.Outcome
import GuardedGraph.Proofs.Writing.Exec

/-! Removing and marking in memory. Each is a check that leaves the graph as it is, and then a change that
cannot fail. -/

namespace GuardedGraph

open Store (Backend Memory)

namespace Store.Memory

/-- The store without the references of an edge at one vertex, unless it is the excepted one. -/
def dropRefsAt (edge : String) (exceptAt : Option String) (m : Memory) (vertex : String) : Memory :=
  if exceptAt ≠ some vertex then m.mapRefs vertex fun refs => refs.filter (·.edge ≠ edge) else m

/-- The store without the references of an edge at its endpoints, except at a vertex. -/
def dropRefs (m : Memory) (edge : String) (endpoints : Endpoints) (exceptAt : Option String) : Memory :=
  endpoints.toList.foldl (dropRefsAt edge exceptAt) m

theorem get?_discardAll (m : Memory) (keys : List String) (t : ElementType) (id : String) :
    (keys.foldl discard m).get? t id = m.get? t id := by
  induction keys generalizing m with
  | nil => rfl
  | cons key keys ih => exact ih _

variable {m : Memory}

theorem Filed.dropRefsAt (filed : m.Filed) (edge : String) (exceptAt : Option String) (vertex : String) :
    (m.dropRefsAt edge exceptAt vertex).Filed := by
  unfold Memory.dropRefsAt
  split
  · exact filed.mapRefs _ _
  · exact filed

theorem Filed.dropRefs (filed : m.Filed) (edge : String) (endpoints : Endpoints) (exceptAt : Option String) :
    (m.dropRefs edge endpoints exceptAt).Filed :=
  (filed.dropRefsAt edge exceptAt _).dropRefsAt edge exceptAt _

theorem get?_edge_dropRefsAt (filed : m.Filed) (edge : String) (exceptAt : Option String) (vertex id : String) :
    (m.dropRefsAt edge exceptAt vertex).get? .edge id = m.get? .edge id := by
  unfold dropRefsAt
  split
  · exact get?_edge_mapRefs filed _ _ _
  · rfl

theorem get?_vertex_dropRefsAt (filed : m.Filed) (edge : String) (exceptAt : Option String) (vertex id : String) :
    (m.dropRefsAt edge exceptAt vertex).get? .vertex id = (m.get? .vertex id).map (Record.mapRefs fun refs =>
      if id = vertex ∧ exceptAt ≠ some id then refs.filter (·.edge ≠ edge) else refs) := by
  unfold dropRefsAt
  split
  · rename_i other
    rw [get?_vertex_mapRefs filed]
    congr 2
    funext refs
    by_cases own : id = vertex
    · subst own
      rw [if_pos rfl, if_pos ⟨rfl, other⟩]
    · rw [if_neg own, if_neg fun h => own h.1]
  · rename_i own
    have kept (refs : List EdgeRef) : (if id = vertex ∧ exceptAt ≠ some id then refs.filter (·.edge ≠ edge) else refs) =
        refs := if_neg fun (h : id = vertex ∧ exceptAt ≠ some id) => own (h.1 ▸ h.2)
    simp only [kept, Record.map_mapRefs_id]

theorem get?_edge_dropRefs (filed : m.Filed) (edge : String) (endpoints : Endpoints) (exceptAt : Option String)
    (id : String) : (m.dropRefs edge endpoints exceptAt).get? .edge id = m.get? .edge id := by
  show ((m.dropRefsAt edge exceptAt _).dropRefsAt edge exceptAt _).get? .edge id = _
  rw [get?_edge_dropRefsAt (filed.dropRefsAt _ _ _), get?_edge_dropRefsAt filed]

theorem get?_vertex_dropRefs (filed : m.Filed) (edge : String) (endpoints : Endpoints) (exceptAt : Option String)
    (id : String) :
    (m.dropRefs edge endpoints exceptAt).get? .vertex id = (m.get? .vertex id).map (Record.mapRefs fun refs =>
      if id ∈ endpoints.toList ∧ exceptAt ≠ some id then refs.filter (·.edge ≠ edge) else refs) := by
  show ((m.dropRefsAt edge exceptAt _).dropRefsAt edge exceptAt _).get? .vertex id = _
  rw [get?_vertex_dropRefsAt (filed.dropRefsAt _ _ _), get?_vertex_dropRefsAt filed, Option.map_map,
    Record.mapRefs_comp]
  congr 2
  funext refs
  simp only [Endpoints.toList, List.mem_cons, List.not_mem_nil, or_false]
  by_cases source : id = endpoints.source ∧ exceptAt ≠ some id
  · rw [if_pos source, List.filter_filter]
    simp only [Bool.and_self, ite_self]
    rw [if_pos ⟨Or.inl source.1, source.2⟩]
  · rw [if_neg source]
    by_cases target : id = endpoints.target ∧ exceptAt ≠ some id
    · rw [if_pos target, if_pos ⟨Or.inr target.1, target.2⟩]
    · rw [if_neg target, if_neg fun h => h.1.elim (fun e => source ⟨e, h.2⟩) fun e => target ⟨e, h.2⟩]

end Store.Memory

def Record.under (r : Record) (hidden : List Visibility) : Record := { r with hidden }

namespace Graph

/-- The graph without what else is kept of a deleted record. -/
def forgetting (g : Graph Memory) (r : Record) : Graph Memory :=
  { g with store := r.keptKeys.foldl Memory.discard g.store, index := g.index.map (·.remove r.type r.id) }

/-- The graph without an edge and its references, except at a vertex. -/
def withoutEdge (g : Graph Memory) (id : String) (exceptAt : Option String) : Graph Memory :=
  match g.store.get? .edge id with
  | none => g
  | some r =>
    let store := g.store.delete .edge id
    { g with store := r.endpoints.elim store fun endpoints => store.dropRefs id endpoints exceptAt }.forgetting r

def withoutEdges (g : Graph Memory) (ids : List String) (exceptAt : Option String) : Graph Memory :=
  ids.foldl (fun g id => g.withoutEdge id exceptAt) g

/-- The graph without a vertex; its edges have to go before. -/
def withoutVertex (g : Graph Memory) (id : String) : Graph Memory :=
  match g.store.get? .vertex id with
  | none => g
  | some r => { g with store := g.store.delete .vertex id }.forgetting r

/-- The record of an element that `a` may change, or why there is none. -/
def writable (g : Graph Memory) (t : ElementType) (id : String) (a : Authorizations) : Except Error Record :=
  match g.store.get? t id with
  | none => .error (.absent (.element t id))
  | some r => (r.requireWritable a).map fun _ => r

/-- Whether `a` can read all edges of references at a vertex. -/
def edgesReadable (g : Graph Memory) (vertex : String) (refs : List EdgeRef) (a : Authorizations) :
    Except Error Unit :=
  if !refs.all (·.visibility.readableBy a) then .error (.denied (.unreadableEdge vertex a))
  else (edgeIds refs).forM fun edge =>
    match g.store.get? .edge edge with
    | none => .ok ()
    | some r => if !r.visibility.readableBy a then .error (.denied (.unreadable .edge edge a)) else .ok ()

/-- The record of an element that `a` may mark, or why there is none. -/
def markable (g : Graph Memory) (t : ElementType) (id : String) (marker : Visibility) (a : Authorizations) :
    Except Error Record :=
  if !marker.readableBy a then .error (.denied (.unsatisfied .marker marker a))
  else match g.store.get? t id with
    | none => .error (.absent (.element t id))
    | some r => if !r.visibility.readableBy a then .error (.denied (.unreadable t id a)) else .ok r

/-- The graph with other markers on an element, and on the references of an edge. -/
def marked (g : Graph Memory) (r : Record) (hidden : List Visibility) : Graph Memory :=
  let store := g.store.put (r.under hidden)
  { g with store := r.endpoints.elim store fun endpoints =>
      store.mapEnds endpoints fun refs => refs.map fun ref => if ref.edge = r.id then { ref with hidden } else ref }

theorem marked_vertex {g : Graph Memory} {r : Record} (none : r.endpoints = none) (hidden : List Visibility) :
    (g.marked r hidden).store = g.store.put (r.under hidden) := by
  rw [marked, none]
  rfl

theorem marked_edge {g : Graph Memory} {r : Record} {e : Endpoints} (some : r.endpoints = some e)
    (hidden : List Visibility) :
    (g.marked r hidden).store = (g.store.put (r.under hidden)).mapEnds e fun refs =>
      refs.map fun ref => if ref.edge = r.id then { ref with hidden } else ref := by
  rw [marked, some]
  rfl

end Graph

theorem Graph.writable_ok {g : Graph Memory} {t : ElementType} {id : String} {a : Authorizations} {r : Record}
    (h : g.writable t id a = .ok r) : g.store.get? t id = some r ∧ r.requireWritable a = .ok () := by
  unfold writable at h
  split at h
  · exact absurd h (by simp)
  · rename_i s found
    cases allowed : s.requireWritable a with
    | error e =>
      rw [allowed] at h
      exact absurd h (by simp [Except.map])
    | ok _ =>
      rw [allowed] at h
      obtain rfl := Except.ok.inj h
      exact ⟨found, allowed⟩

theorem Graph.readable_of_edgesReadable {g : Graph Memory} {vertex : String} {refs : List EdgeRef} {a : Authorizations}
    (h : g.edgesReadable vertex refs a = .ok ()) {edge : String} {r : Record} (mem : edge ∈ edgeIds refs)
    (found : g.store.get? .edge edge = some r) : r.visibility.readableBy a = true := by
  unfold edgesReadable at h
  split at h
  · exact absurd h (by simp)
  · have one := Outcome.forM_ok_iff.mp h edge mem
    rw [found] at one
    simp only [Bool.not_eq_true', ite_eq_right_iff, reduceCtorEq, imp_false, Bool.not_eq_false] at one
    exact one

theorem Graph.markable_ok {g : Graph Memory} {t : ElementType} {id : String} {marker : Visibility}
    {a : Authorizations} {r : Record} (h : g.markable t id marker a = .ok r) :
    g.store.get? t id = some r ∧ r.visibility.readableBy a = true ∧ marker.readableBy a = true := by
  unfold markable at h
  split at h
  · exact absurd h (by simp)
  · rename_i satisfied
    split at h
    · exact absurd h (by simp)
    · rename_i s found
      split at h
      · exact absurd h (by simp)
      · rename_i readable
        obtain rfl := Except.ok.inj h
        exact ⟨found, by simpa using readable, by simpa using satisfied⟩

namespace Commit

theorem exec_discardAll (keys : List String) (g : Graph Memory) :
    exec (discardAll keys) g = (.ok (), { g with store := keys.foldl Memory.discard g.store }) := by
  refine exec_forM_store Memory.discard (fun key g => ?_) keys g
  rw [exec_bind, exec_discard]
  rfl

theorem exec_forget (r : Record) (g : Graph Memory) : exec (forget r) g = (.ok (), g.forgetting r) := by
  rw [forget, exec_bind, exec_discardAll]
  rfl

theorem exec_take (t : ElementType) (id : String) (g : Graph Memory) :
    exec (take t id) g = match g.store.get? t id with
      | none => (.ok none, g)
      | some r => (.ok (some r), { g with store := g.store.delete t id }) := by
  rw [take, exec_bind, exec_get]
  cases g.store.get? t id <;> rfl

theorem exec_deleteEdge (id : String) (exceptAt : Option String) (g : Graph Memory) :
    exec (deleteEdge id exceptAt) g = (.ok (), g.withoutEdge id exceptAt) := by
  rw [deleteEdge, exec_bind, exec_take, Graph.withoutEdge]
  cases g.store.get? .edge id with
  | none => rfl
  | some r =>
    simp only
    cases r.endpoints with
    | none => exact exec_forget r _
    | some endpoints =>
      simp only
      rw [exec_bind, exec_forM_store (Memory.dropRefsAt id exceptAt)]
      · exact exec_forget r _
      · intro vertex g
        unfold Memory.dropRefsAt
        split
        · rw [exec_bind, exec_changeRefs]
          rfl
        · rfl

theorem exec_takeVertex (id : String) (g : Graph Memory) :
    exec (do if let some r ← take .vertex id then forget r) g = (.ok (), g.withoutVertex id) := by
  rw [exec_bind, exec_take, Graph.withoutVertex]
  cases g.store.get? .vertex id with
  | none => rfl
  | some r => exact exec_forget r _

theorem exec_removeEdge (id : String) (a : Authorizations) (g : Graph Memory) :
    exec (removeEdge id a) g = match g.writable .edge id a with
      | .ok _ => (.ok (), g.withoutEdge id none)
      | .error e => (.error e, g) := by
  rw [removeEdge, exec_bind, exec_stored, Graph.writable]
  cases g.store.get? .edge id with
  | none => rfl
  | some r =>
    simp only
    rw [exec_bind, exec_lift]
    cases r.requireWritable a with
    | error e => rfl
    | ok _ => exact exec_deleteEdge id none g

theorem exec_requireEdges (vertex : String) (refs : List EdgeRef) (a : Authorizations) (g : Graph Memory) :
    exec (requireEdges vertex refs a) g = (g.edgesReadable vertex refs a, g) := by
  have each (edge : String) :
      exec (do if let some r ← get .edge edge then
            if !r.visibility.readableBy a then throw (.denied (.unreadable .edge edge a))) g =
        (match g.store.get? .edge edge with
          | none => .ok ()
          | some r =>
            if !r.visibility.readableBy a then .error (.denied (.unreadable .edge edge a)) else .ok (), g) := by
    rw [exec_bind, exec_get]
    cases g.store.get? .edge edge with
    | none => rfl
    | some r =>
      simp only
      split <;> rfl
  rw [requireEdges, Graph.edgesReadable]
  split
  · rfl
  · exact exec_forM_check each _

theorem exec_removeVertex (id : String) (a : Authorizations) (g : Graph Memory) :
    exec (removeVertex id a) g =
      match (do let r ← g.writable .vertex id a; g.edgesReadable id r.edgeRefs a; return r) with
      | .ok r => (.ok (), (g.withoutEdges (edgeIds r.edgeRefs) (some id)).withoutVertex id)
      | .error e => (.error e, g) := by
  rw [removeVertex, exec_bind, exec_stored, Graph.writable]
  cases g.store.get? .vertex id with
  | none => rfl
  | some r =>
    simp only
    rw [exec_bind, exec_lift]
    cases r.requireWritable a with
    | error e => rfl
    | ok _ =>
      simp only
      rw [exec_bind, exec_requireEdges]
      show _ = match g.edgesReadable id r.edgeRefs a >>= fun _ => Except.ok r with
        | .ok r => (Except.ok (), (g.withoutEdges (edgeIds r.edgeRefs) (some id)).withoutVertex id)
        | .error e => (Except.error e, g)
      cases g.edgesReadable id r.edgeRefs a with
      | error e => rfl
      | ok _ =>
        show exec (do (edgeIds r.edgeRefs).forM fun edge => deleteEdge edge (some id); _) g = _
        rw [exec_bind, exec_forM fun edge g => exec_deleteEdge edge (some id) g]
        exact exec_takeVertex id (g.withoutEdges _ _)

theorem exec_mark (change : List Visibility → Visibility → List Visibility) (t : ElementType) (id : String)
    (marker : Visibility) (a : Authorizations) {g : Graph Memory} (filed : g.store.Filed) :
    exec (mark change t id marker a) g = match g.markable t id marker a with
      | .ok r => (.ok (), g.marked r (change r.hidden marker))
      | .error e => (.error e, g) := by
  rw [mark, Graph.markable]
  split
  · rfl
  · rw [exec_bind, exec_stored]
    cases found : g.store.get? t id with
    | none => rfl
    | some r =>
      simp only
      split
      · rfl
      · obtain ⟨-, rfl⟩ := filed _ _ _ found
        show exec (do
          put (r.under (change r.hidden marker))
          r.endpoints.forM fun endpoints =>
            changeRefsOf r.id endpoints fun ref => { ref with hidden := change r.hidden marker }) g = _
        rw [exec_bind, exec_put]
        simp only [Graph.marked]
        cases r.endpoints with
        | none => rfl
        | some endpoints => exact exec_changeRefsOf _ _ _ _

end Commit

end GuardedGraph

import GuardedGraph.Proofs.Writing.Operation
import Mathlib.Data.List.Nodup

/-! References at vertices against edges. What every operation keeps: each edge has one reference at its
source and one at its target, up to date, and there are no others (`mirrored_of_reachable`). -/

namespace GuardedGraph

open Store (Memory)

namespace Record

def sourceRef (r : Record) (e : Endpoints) : EdgeRef := ⟨r.id, e.label, e.target, .outgoing, r.visibility, r.hidden⟩

def targetRef (r : Record) (e : Endpoints) : EdgeRef := ⟨r.id, e.label, e.source, .incoming, r.visibility, r.hidden⟩

/-- Whether a vertex should keep a reference of an edge. -/
def Refers (r : Record) (vertex : String) (ref : EdgeRef) : Prop :=
  ∃ e, r.endpoints = some e ∧
    ((e.source = vertex ∧ ref = r.sourceRef e) ∨ (e.target = vertex ∧ ref = r.targetRef e))

theorem Refers.edge {r : Record} {vertex : String} {ref : EdgeRef} (refers : r.Refers vertex ref) :
    ref.edge = r.id := by
  obtain ⟨e, -, ⟨-, rfl⟩ | ⟨-, rfl⟩⟩ := refers <;> rfl

theorem Refers.visibility {r : Record} {vertex : String} {ref : EdgeRef} (refers : r.Refers vertex ref) :
    ref.visibility = r.visibility := by
  obtain ⟨e, -, ⟨-, rfl⟩ | ⟨-, rfl⟩⟩ := refers <;> rfl

theorem Refers.hidden {r : Record} {vertex : String} {ref : EdgeRef} (refers : r.Refers vertex ref) :
    ref.hidden = r.hidden := by
  obtain ⟨e, -, ⟨-, rfl⟩ | ⟨-, rfl⟩⟩ := refers <;> rfl

theorem Refers.mem {r : Record} {vertex : String} {ref : EdgeRef} (refers : r.Refers vertex ref) {e : Endpoints}
    (he : r.endpoints = some e) : vertex ∈ e.toList := by
  obtain ⟨f, hf, own⟩ := refers
  obtain rfl := Option.some.inj (he.symm.trans hf)
  obtain ⟨rfl, -⟩ | ⟨rfl, -⟩ := own <;> simp [Endpoints.toList]

/-- An edge is referred to at each of its endpoints. -/
theorem exists_refers {r : Record} {e : Endpoints} (endpoints : r.endpoints = some e) {vertex : String}
    (mem : vertex ∈ e.toList) : ∃ ref, r.Refers vertex ref := by
  simp only [Endpoints.toList, List.mem_cons, List.not_mem_nil, or_false] at mem
  rcases mem with source | target
  · exact ⟨_, e, endpoints, .inl ⟨source.symm, rfl⟩⟩
  · exact ⟨_, e, endpoints, .inr ⟨target.symm, rfl⟩⟩

def linkAt (r : Record) (ends : Endpoints) (vertex : String) (refs : List EdgeRef) : List EdgeRef :=
  refs ++ ((if vertex = ends.source then [r.sourceRef ends] else []) ++
    if vertex = ends.target then [r.targetRef ends] else [])

theorem mem_linkAt {r : Record} {ends : Endpoints} (endpoints : r.endpoints = some ends) {vertex : String}
    {ref : EdgeRef} {refs : List EdgeRef} : ref ∈ r.linkAt ends vertex refs ↔ ref ∈ refs ∨ r.Refers vertex ref := by
  rw [linkAt, List.mem_append]
  refine or_congr_right ⟨fun mem => ?_, ?_⟩
  · refine ⟨ends, endpoints, ?_⟩
    rcases List.mem_append.mp mem with mem | mem
    · split at mem
      · rename_i own
        exact .inl ⟨own.symm, List.mem_singleton.mp mem⟩
      · exact absurd mem List.not_mem_nil
    · split at mem
      · rename_i own
        exact .inr ⟨own.symm, List.mem_singleton.mp mem⟩
      · exact absurd mem List.not_mem_nil
  · rintro ⟨e, he, own⟩
    obtain rfl := Option.some.inj (endpoints.symm.trans he)
    obtain ⟨rfl, rfl⟩ | ⟨rfl, rfl⟩ := own <;> simp

end Record

/-- Vertices and edges agree, except that a vertex `skip` may keep references of edges that are gone. -/
structure MirroredBut (skip : Option String) (m : Memory) : Prop where
  filed : m.Filed
  vertex : ∀ id r, m.get? .vertex id = some r → r.endpoints = none
  edge : ∀ id r, m.get? .edge id = some r →
    ∃ e, r.endpoints = some e ∧ ∀ v ∈ e.toList, (m.get? .vertex v).isSome
  distinct : ∀ id r, m.get? .vertex id = some r → r.edgeRefs.Nodup
  refs : ∀ id r, m.get? .vertex id = some r → some id ≠ skip →
    ∀ ref, ref ∈ r.edgeRefs ↔ ∃ j e, m.get? .edge j = some e ∧ e.Refers id ref

abbrev Mirrored (m : Memory) : Prop := MirroredBut none m

namespace MirroredBut

variable {skip : Option String} {m n : Memory} {id : String}

theorem congr (mirrored : MirroredBut skip m) (same : ∀ t id, n.get? t id = m.get? t id) : MirroredBut skip n := by
  obtain ⟨filed, vertex, edge, distinct, refs⟩ := mirrored
  constructor
  · exact fun t id r found => filed t id r (same t id ▸ found)
  all_goals simpa only [same]

theorem weaken (mirrored : Mirrored m) (vertex : String) : MirroredBut (some vertex) m :=
  ⟨mirrored.filed, mirrored.vertex, mirrored.edge, mirrored.distinct, fun v s at_v _ =>
    mirrored.refs v s at_v (by simp)⟩

/-- A vertex refers to no edge but by the edge's own references. -/
theorem refers_iff (mirrored : MirroredBut skip m) {v : String} {r : Record} (found : m.get? .vertex v = some r)
    (other : some v ≠ skip) (ref : EdgeRef) :
    ref ∈ r.edgeRefs ↔ ∃ e, m.get? .edge ref.edge = some e ∧ e.Refers v ref := by
  rw [mirrored.refs v r found other]
  constructor
  · rintro ⟨j, e, he, refers⟩
    rw [refers.edge, (mirrored.filed _ _ _ he).2]
    exact ⟨e, he, refers⟩
  · rintro ⟨e, he, refers⟩
    exact ⟨_, e, he, refers⟩

/-- Changing one edge, and its references at the vertices. -/
theorem relink (mirrored : MirroredBut skip m) (id : String) (f : String → List EdgeRef → List EdgeRef)
    (filed : n.Filed) (edges : ∀ j, j ≠ id → n.get? .edge j = m.get? .edge j)
    (vertices : ∀ v, n.get? .vertex v = (m.get? .vertex v).map (Record.mapRefs (f v)))
    (own : ∀ e, n.get? .edge id = some e → ∃ ends, e.endpoints = some ends ∧
      ∀ v ∈ ends.toList, (m.get? .vertex v).isSome)
    (distinct : ∀ v r, m.get? .vertex v = some r → (f v r.edgeRefs).Nodup)
    (refs : ∀ v r, m.get? .vertex v = some r → some v ≠ skip → ∀ ref, ref ∈ f v r.edgeRefs ↔
      (ref ∈ r.edgeRefs ∧ ref.edge ≠ id) ∨ ∃ e, n.get? .edge id = some e ∧ e.Refers v ref) :
    MirroredBut skip n where
  filed := filed
  vertex v r found := by
    rw [vertices, Option.map_eq_some_iff] at found
    obtain ⟨s, hs, rfl⟩ := found
    exact mirrored.vertex v s hs
  edge j r found := by
    have there (v : String) : (n.get? .vertex v).isSome = (m.get? .vertex v).isSome := by
      rw [vertices, Option.isSome_map]
    by_cases same : j = id
    · subst same
      simpa only [there] using own r found
    · rw [edges j same] at found
      simpa only [there] using mirrored.edge j r found
  distinct v r found := by
    rw [vertices, Option.map_eq_some_iff] at found
    obtain ⟨s, hs, rfl⟩ := found
    exact distinct v s hs
  refs v r found other ref := by
    rw [vertices, Option.map_eq_some_iff] at found
    obtain ⟨s, hs, rfl⟩ := found
    show ref ∈ f v s.edgeRefs ↔ _
    rw [refs v s hs other, mirrored.refers_iff hs other]
    constructor
    · rintro (⟨⟨e, he, refers⟩, different⟩ | ⟨e, he, refers⟩)
      · exact ⟨_, e, (edges _ different).trans he, refers⟩
      · exact ⟨_, e, he, refers⟩
    · rintro ⟨j, e, he, refers⟩
      have name : ref.edge = j := refers.edge.trans (filed _ _ _ he).2
      by_cases same : j = id
      · exact .inr ⟨e, same ▸ he, refers⟩
      · exact .inl ⟨⟨e, by rw [name, ← edges j same]; exact he, refers⟩, name ▸ same⟩

/-! ### Vertices -/

/-- Changing one vertex, which has to have the references of the edges that it is an endpoint of. -/
theorem reseat {vertex : String} (mirrored : MirroredBut (some vertex) m) (filed : n.Filed)
    (edges : ∀ j, n.get? .edge j = m.get? .edge j) (others : ∀ v, v ≠ vertex → n.get? .vertex v = m.get? .vertex v)
    (own : ∀ r, n.get? .vertex vertex = some r → r.endpoints = none ∧ r.edgeRefs.Nodup ∧
      ∀ ref, ref ∈ r.edgeRefs ↔ ∃ j e, m.get? .edge j = some e ∧ e.Refers vertex ref)
    (there : ∀ j e ends, m.get? .edge j = some e → e.endpoints = some ends → vertex ∈ ends.toList →
      (n.get? .vertex vertex).isSome) : Mirrored n where
  filed := filed
  vertex v r found := by
    by_cases same : v = vertex
    · exact (own r (same ▸ found)).1
    · exact mirrored.vertex v r (others v same ▸ found)
  edge j r found := by
    rw [edges] at found
    obtain ⟨ends, endpoints, present⟩ := mirrored.edge j r found
    refine ⟨ends, endpoints, fun v mem => ?_⟩
    by_cases same : v = vertex
    · subst same
      exact there j r ends found endpoints mem
    · rw [others v same]
      exact present v mem
  distinct v r found := by
    by_cases same : v = vertex
    · exact (own r (same ▸ found)).2.1
    · exact mirrored.distinct v r (others v same ▸ found)
  refs v r found _ ref := by
    simp only [edges]
    by_cases same : v = vertex
    · subst same
      exact (own r found).2.2 ref
    · exact mirrored.refs v r (others v same ▸ found) (fun skipped => same (Option.some.inj skipped)) ref

/-- Writing a vertex that keeps its references, or a new one without any. -/
theorem putVertex (mirrored : Mirrored m) {r : Record} (type : r.type = .vertex) (endpoints : r.endpoints = none)
    (refs : r.edgeRefs = ((m.get? .vertex r.id).map (·.edgeRefs)).getD []) : Mirrored (m.put r) := by
  have written : (m.put r).get? .vertex r.id = some r := by rw [Memory.get?_put, if_pos ⟨type, rfl⟩]
  refine (mirrored.weaken r.id).reseat (mirrored.filed.put r) (fun j => ?_) (fun v other => ?_) (fun s found => ?_)
    fun _ _ _ _ _ _ => by rw [written]; rfl
  · rw [Memory.get?_put, if_neg (by simp [type])]
  · rw [Memory.get?_put, if_neg fun same => other same.2.symm]
  · obtain rfl := Option.some.inj (written.symm.trans found)
    rw [refs]
    cases old : m.get? .vertex r.id with
    | some o => exact ⟨endpoints, mirrored.distinct _ o old, mirrored.refs _ o old (by simp)⟩
    | none =>
      refine ⟨endpoints, .nil, fun ref => ⟨fun none => absurd none List.not_mem_nil, fun ⟨j, e, he, refers⟩ => ?_⟩⟩
      obtain ⟨ends, hends, there⟩ := mirrored.edge j e he
      have present := there _ (refers.mem hends)
      rw [old] at present
      exact absurd present (by simp)

/-- A vertex that no edge has as an endpoint can go. -/
theorem deleteVertex {vertex : String} (mirrored : MirroredBut (some vertex) m)
    (free : ∀ j e ends, m.get? .edge j = some e → e.endpoints = some ends → vertex ∉ ends.toList) :
    Mirrored (m.delete .vertex vertex) := by
  have gone : (m.delete .vertex vertex).get? .vertex vertex = none := by rw [Memory.get?_delete, if_pos ⟨rfl, rfl⟩]
  refine mirrored.reseat (mirrored.filed.delete _ _) (fun j => ?_) (fun v other => ?_) (fun s found => ?_)
    fun j e ends found endpoints mem => absurd mem (free j e ends found endpoints)
  · rw [Memory.get?_delete, if_neg (by simp)]
  · rw [Memory.get?_delete, if_neg fun same => other same.2.symm]
  · exact absurd (gone.symm.trans found) (by simp)

/-! ### Edges -/

/-- What a vertex keeps of an edge is as the edge is now. -/
theorem own_of_mem (mirrored : MirroredBut skip m) {r : Record} (found : m.get? .edge id = some r) {v : String}
    {s : Record} (at_vertex : m.get? .vertex v = some s) (other : some v ≠ skip) {ref : EdgeRef}
    (mem : ref ∈ s.edgeRefs) (own : ref.edge = id) : r.Refers v ref := by
  obtain ⟨e, he, refers⟩ := (mirrored.refers_iff at_vertex other ref).mp mem
  rw [own, found] at he
  exact Option.some.inj he ▸ refers

theorem withoutEdge (mirrored : MirroredBut skip m) {r : Record} (found : m.get? .edge id = some r)
    {ends : Endpoints} (endpoints : r.endpoints = some ends) :
    MirroredBut skip ((m.delete .edge id).dropRefs id ends skip) := by
  have filed := mirrored.filed.delete .edge id
  have edges (j : String) :
      ((m.delete .edge id).dropRefs id ends skip).get? .edge j = if id = j then none else m.get? .edge j := by
    rw [Memory.get?_edge_dropRefs filed, Memory.get?_delete]
    simp only [true_and]
  refine mirrored.relink id
    (fun v refs => if v ∈ ends.toList ∧ skip ≠ some v then refs.filter (·.edge ≠ id) else refs) (filed.dropRefs _ _ _)
    (fun j other => ?_) (fun v => ?_) (fun e he => ?_) (fun v s at_v => ?_) (fun v s at_v other ref => ?_)
  · rw [edges, if_neg (Ne.symm other)]
  · rw [Memory.get?_vertex_dropRefs filed, Memory.get?_delete, if_neg (by simp)]
  · rw [edges, if_pos rfl] at he
    exact absurd he (by simp)
  · split
    · exact (mirrored.distinct v s at_v).filter _
    · exact mirrored.distinct v s at_v
  · simp only [edges, if_true, reduceCtorEq, false_and, exists_false, or_false]
    split
    · simp [List.mem_filter]
    · rename_i apart
      refine ⟨fun mem => ⟨mem, fun own => ?_⟩, fun both => both.1⟩
      have refers := mirrored.own_of_mem found at_v other mem own
      exact apart ⟨refers.mem endpoints, Ne.symm other⟩

theorem insertEdge (mirrored : Mirrored m) {r : Record} (type : r.type = .edge) (free : m.get? .edge r.id = none)
    {ends : Endpoints} (endpoints : r.endpoints = some ends) (hidden : r.hidden = [])
    (there : ∀ v ∈ ends.toList, (m.get? .vertex v).isSome) : Mirrored ((m.put r).attachEnds r ends) := by
  have filed := mirrored.filed.put r
  have edges (j : String) :
      ((m.put r).attachEnds r ends).get? .edge j = if r.id = j then some r else m.get? .edge j := by
    rw [Memory.get?_edge_attachEnds filed, Memory.get?_put]
    simp only [type, true_and]
  have fresh {v : String} {s : Record} (at_v : m.get? .vertex v = some s) {ref : EdgeRef} (mem : ref ∈ s.edgeRefs) :
      ref.edge ≠ r.id := by
    obtain ⟨e, he, -⟩ := (mirrored.refers_iff at_v (by simp) ref).mp mem
    rintro same
    rw [same, free] at he
    exact absurd he (by simp)
  refine mirrored.relink r.id (r.linkAt ends) ((filed.mapRefs _ _).mapRefs _ _) (fun j other => ?_)
    (fun v => ?_) (fun e he => ?_) (fun v s at_v => ?_) (fun v s at_v other ref => ?_)
  · rw [edges, if_neg (Ne.symm other)]
  · rw [Memory.get?_vertex_attachEnds filed, Memory.get?_put, if_neg (by simp [type])]
    congr 2
    funext refs
    simp only [Record.linkAt, Record.sourceRef, Record.targetRef, hidden]
    split <;> split <;> simp
  · rw [edges, if_pos rfl] at he
    obtain rfl := Option.some.inj he
    exact ⟨ends, endpoints, there⟩
  · rw [Record.linkAt, List.nodup_append]
    refine ⟨mirrored.distinct v s at_v, ?_, fun x hx y hy same => ?_⟩
    · split <;> split <;> simp [Record.sourceRef, Record.targetRef]
    · have refers : r.Refers v y :=
        ((Record.mem_linkAt endpoints).mp (List.mem_append_right [] hy)).resolve_left List.not_mem_nil
      exact fresh at_v hx (same ▸ refers.edge)
  · rw [Record.mem_linkAt endpoints]
    simp only [edges, if_true, Option.some.injEq, exists_eq_left']
    refine or_congr_left ⟨fun mem => ⟨mem, fresh at_v mem⟩, fun both => both.1⟩

/-- The reference of an edge with the visibility and markers that the edge has now. -/
def refresh (r : Record) (ref : EdgeRef) : EdgeRef :=
  if ref.edge = r.id then { ref with visibility := r.visibility, hidden := r.hidden } else ref

theorem refresh_edge (r : Record) (ref : EdgeRef) : (refresh r ref).edge = ref.edge := by
  unfold refresh
  split <;> rfl

theorem refresh_other {r : Record} {ref : EdgeRef} (other : ref.edge ≠ r.id) : refresh r ref = ref := if_neg other

/-- On a reference of the edge itself only what differs from before has to be changed. -/
theorem refresh_own {r r' : Record} (same_id : r'.id = r.id) {v : String} {ref : EdgeRef} (refers : r.Refers v ref)
    {w : Visibility} {hidden : List Visibility} (vis : w = r'.visibility) (hid : hidden = r'.hidden) :
    refresh r' ref = { ref with visibility := w, hidden } := by
  rw [refresh, if_pos (refers.edge.trans same_id.symm), vis, hid]

theorem refers_refresh {r r' : Record} (same_id : r'.id = r.id) (same_ends : r'.endpoints = r.endpoints) {v : String}
    {ref : EdgeRef} : r'.Refers v ref ↔ ∃ old, r.Refers v old ∧ refresh r' old = ref := by
  have source (e : Endpoints) : refresh r' (r.sourceRef e) = r'.sourceRef e := by
    simp [refresh, Record.sourceRef, same_id]
  have target (e : Endpoints) : refresh r' (r.targetRef e) = r'.targetRef e := by
    simp [refresh, Record.targetRef, same_id]
  unfold Record.Refers
  rw [same_ends]
  constructor
  · rintro ⟨e, he, ⟨at_v, rfl⟩ | ⟨at_v, rfl⟩⟩
    · exact ⟨r.sourceRef e, ⟨e, he, .inl ⟨at_v, rfl⟩⟩, source e⟩
    · exact ⟨r.targetRef e, ⟨e, he, .inr ⟨at_v, rfl⟩⟩, target e⟩
  · rintro ⟨old, ⟨e, he, ⟨at_v, rfl⟩ | ⟨at_v, rfl⟩⟩, rfl⟩
    · exact ⟨e, he, .inl ⟨at_v, source e⟩⟩
    · exact ⟨e, he, .inr ⟨at_v, target e⟩⟩

/-- The references of one edge differ in more than what `refresh` overwrites. -/
theorem refresh_inj {r r' : Record} (same_id : r'.id = r.id) {v w : String} {x y : EdgeRef} (hx : r.Refers v x)
    (hy : r.Refers w y) (same : refresh r' x = refresh r' y) : x = y := by
  have edge_x := hx.edge
  have edge_y := hy.edge
  obtain ⟨e, he, ⟨-, rfl⟩ | ⟨-, rfl⟩⟩ := hx <;> obtain ⟨e', he', ⟨-, rfl⟩ | ⟨-, rfl⟩⟩ := hy <;>
    obtain rfl := Option.some.inj (he.symm.trans he') <;>
    simp_all [refresh, Record.sourceRef, Record.targetRef]

/-- To bring the references at a vertex up to date it is enough to do so for those of the edge. -/
theorem map_refresh (mirrored : Mirrored m) {r r' : Record} (found : m.get? .edge r.id = some r)
    (same_id : r'.id = r.id) {v : String} {s : Record} (at_v : m.get? .vertex v = some s) {f : EdgeRef → EdgeRef}
    (own : ∀ ref, r.Refers v ref → f ref = refresh r' ref) (other : ∀ ref, ref.edge ≠ r.id → f ref = ref) :
    s.edgeRefs.map f = s.edgeRefs.map (refresh r') := by
  refine List.map_congr_left fun ref mem => ?_
  by_cases same : ref.edge = r.id
  · exact own ref (mirrored.own_of_mem found at_v (by simp) mem same)
  · rw [other ref same, refresh_other (same_id ▸ same)]

theorem updateEdge (mirrored : Mirrored m) {r : Record} (found : m.get? .edge r.id = some r) (r' : Record)
    (type : r'.type = .edge) (same_id : r'.id = r.id) (same_ends : r'.endpoints = r.endpoints)
    (filed : n.Filed) (edges : ∀ j, n.get? .edge j = (m.put r').get? .edge j) (f : String → List EdgeRef → List EdgeRef)
    (vertices : ∀ v, n.get? .vertex v = (m.get? .vertex v).map (Record.mapRefs (f v)))
    (refreshed : ∀ v s, m.get? .vertex v = some s → f v s.edgeRefs = s.edgeRefs.map (refresh r')) : Mirrored n := by
  have own_edge : n.get? .edge r.id = some r' := by
    rw [edges, Memory.get?_put, if_pos ⟨type, same_id⟩]
  refine mirrored.relink r.id f filed (fun j other => ?_) vertices (fun e he => ?_) (fun v s at_v => ?_)
    (fun v s at_v other ref => ?_)
  · rw [edges, Memory.get?_put, if_neg fun same => other (same.2.symm.trans same_id)]
  · obtain rfl := Option.some.inj (own_edge.symm.trans he)
    rw [same_ends]
    exact mirrored.edge _ r found
  · rw [refreshed v s at_v]
    refine List.Nodup.map_on (fun x hx y hy same => ?_) (mirrored.distinct v s at_v)
    have edge : x.edge = y.edge := by rw [← refresh_edge r' x, same, refresh_edge]
    by_cases own : x.edge = r.id
    · exact refresh_inj same_id (mirrored.own_of_mem found at_v (by simp) hx own)
        (mirrored.own_of_mem found at_v (by simp) hy (edge ▸ own)) same
    · unfold refresh at same
      rw [same_id, if_neg own, if_neg (edge ▸ own)] at same
      exact same
  · rw [refreshed v s at_v]
    simp only [own_edge, Option.some.injEq, exists_eq_left', List.mem_map, refers_refresh same_id same_ends]
    constructor
    · rintro ⟨old, mem, rfl⟩
      by_cases own : old.edge = r.id
      · exact .inr ⟨old, mirrored.own_of_mem found at_v other mem own, rfl⟩
      · refine .inl ?_
        rw [refresh, same_id, if_neg own]
        exact ⟨mem, own⟩
    · rintro (⟨mem, different⟩ | ⟨old, refers, rfl⟩)
      · exact ⟨ref, mem, by rw [refresh, same_id, if_neg different]⟩
      · exact ⟨old, (mirrored.refs v s at_v other old).mpr ⟨_, r, found, refers⟩, rfl⟩

end MirroredBut

end GuardedGraph

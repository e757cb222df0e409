import GuardedGraph.Proofs.Paths.Exact
import GuardedGraph.Proofs.Reading.Seen

/-!
The ways from a vertex to its edges and neighbours. The vertex itself, a query around it and a scan of all edges
agree on which edges there are, and on which vertices are across them (`adjacent_reads_agree`).
-/

namespace GuardedGraph

open Store (Memory)
open Outcome

/-! ### Edges at a vertex -/

namespace Edge

/-- The edge starts at the vertex, ends there, or does one or the other. -/
def At (e : Edge) (vertex : String) : Direction → Prop
  | .outgoing => e.endpoints.source = vertex
  | .incoming => e.endpoints.target = vertex
  | .both => e.endpoints.source = vertex ∨ e.endpoints.target = vertex

/-- The edge goes from one vertex to the other, or back; a loop does so from its vertex to itself. -/
def Across (e : Edge) (vertex other : String) : Prop :=
  (e.endpoints.source = vertex ∧ e.endpoints.target = other) ∨
    (e.endpoints.target = vertex ∧ e.endpoints.source = other)

theorem otherId?_eq_some {e : Edge} {vertex other : String} :
    e.otherId? vertex = some other ↔ e.Across vertex other := by
  simp only [otherId?, Endpoints.other?, Across]
  grind

theorem mem_othersAcross {vertex other : String} {es : List Edge} :
    other ∈ othersAcross vertex es ↔ ∃ e ∈ es, e.Across vertex other := by
  rw [othersAcross, List.mem_eraseDups, List.mem_filterMap]
  exact exists_congr fun e => and_congr_right fun _ => otherId?_eq_some

end Edge

/-- A reference as its edge has it is selected by the end of the edge that it stands for. -/
theorem Record.Refers.selected_iff {r : Record} {e : Edge} (endpoints : r.endpoints = some e.endpoints)
    {vertex : String} {d : Direction} {labels : List String} :
    (∃ ref, r.Refers vertex ref ∧ ref.selected d labels) ↔
      e.At vertex d ∧ (labels = [] ∨ e.endpoints.label ∈ labels) := by
  constructor
  · rintro ⟨ref, ⟨ends, he, own⟩, selected⟩
    obtain rfl := Option.some.inj (endpoints.symm.trans he)
    simp only [EdgeRef.selected, Bool.and_eq_true, Bool.or_eq_true, List.isEmpty_iff, List.contains_iff_mem]
      at selected
    rcases own with ⟨source, rfl⟩ | ⟨target, rfl⟩
    · refine ⟨?_, selected.2⟩
      cases d with
      | outgoing => exact source
      | incoming => exact absurd selected.1 (by simp [Record.sourceRef, Direction.includes])
      | both => exact .inl source
    · refine ⟨?_, selected.2⟩
      cases d with
      | outgoing => exact absurd selected.1 (by simp [Record.targetRef, Direction.includes])
      | incoming => exact target
      | both => exact .inr target
  · rintro ⟨there, label⟩
    have chosen {ref : EdgeRef} (same : ref.label = e.endpoints.label) (along : d.includes ref.direction) :
        ref.selected d labels := by
      simp only [EdgeRef.selected, along, same, Bool.true_and, Bool.or_eq_true, List.isEmpty_iff,
        List.contains_iff_mem]
      exact label
    have out (source : e.endpoints.source = vertex) (along : d.includes .outgoing) :
        ∃ ref, r.Refers vertex ref ∧ ref.selected d labels :=
      ⟨r.sourceRef e.endpoints, ⟨_, endpoints, .inl ⟨source, rfl⟩⟩, chosen rfl along⟩
    have into (target : e.endpoints.target = vertex) (along : d.includes .incoming) :
        ∃ ref, r.Refers vertex ref ∧ ref.selected d labels :=
      ⟨r.targetRef e.endpoints, ⟨_, endpoints, .inr ⟨target, rfl⟩⟩, chosen rfl along⟩
    cases d with
    | outgoing => exact out there (by decide)
    | incoming => exact into there (by decide)
    | both => exact there.elim (out · (by decide)) (into · (by decide))

/-! ### References of a vertex in hand -/

section

variable {r : Record} {v : Vertex} {a : Authorizations}

theorem edgeRefs_of_view (view : r.view? .vertex a = .ok (some v)) :
    Vertex.edgeRefs v = (r.edgeRefs.filter (·.visibleTo a)).map fun ref => { ref with hidden := [] } := by
  obtain ⟨-, -, ps, links, -, linked, rfl⟩ := view?_some_iff.mp view
  exact (Except.ok.inj linked).symm

theorem visibleTo_of_edgeRefs (view : r.view? .vertex a = .ok (some v)) {ref : EdgeRef}
    (mem : ref ∈ Vertex.edgeRefs v) : ref.visibleTo a := by
  rw [edgeRefs_of_view view] at mem
  obtain ⟨stored, there, rfl⟩ := List.mem_map.mp mem
  have visible := (List.mem_filter.mp there).2
  simp only [EdgeRef.visibleTo, Authorizations.sees, Bool.and_eq_true] at visible ⊢
  exact ⟨visible.1, rfl⟩

theorem mem_selected (view : r.view? .vertex a = .ok (some v)) {d : Direction} {labels : List String} {id : String} :
    id ∈ edgeIds ((Vertex.edgeRefs v).filter (·.selected d labels)) ↔
      ∃ ref ∈ r.edgeRefs, ref.visibleTo a ∧ ref.selected d labels ∧ ref.edge = id := by
  rw [mem_edgeIds, edgeRefs_of_view view]
  constructor
  · rintro ⟨ref, mem, rfl⟩
    obtain ⟨mem, selected⟩ := List.mem_filter.mp mem
    obtain ⟨stored, there, rfl⟩ := List.mem_map.mp mem
    obtain ⟨there, visible⟩ := List.mem_filter.mp there
    exact ⟨stored, there, visible, selected, rfl⟩
  · rintro ⟨ref, there, visible, selected, rfl⟩
    exact ⟨_, List.mem_filter.mpr ⟨List.mem_map_of_mem (List.mem_filter.mpr ⟨there, visible⟩), selected⟩, rfl⟩

end

/-- The query of the edges at a vertex, or of the vertices next to it, by direction and labels. -/
def Query.beside (v : Vertex) (d : Direction) (labels : List String) (a : Authorizations) : Query :=
  { Query.ofSource (.around v) a with direction := d, labels }

theorem Query.keeps_beside_edge {v : Vertex} {d : Direction} {labels : List String} {a : Authorizations} {e : Edge} :
    (beside v d labels a).keeps e ↔ labels = [] ∨ e.endpoints.label ∈ labels := by
  simp [keeps, labelFits, terms, showsTerms, beside, ofSource, Edge.endpoints]

theorem Query.keeps_beside_vertex (v : Vertex) (d : Direction) (labels : List String) (a : Authorizations)
    (w : Vertex) : (beside v d labels a).keeps w := by
  simp [keeps, labelFits, terms, showsTerms, beside, ofSource]

namespace Graph

variable {g : Graph Memory} {id : String} {a : Authorizations} {v : Vertex}

/-- Of the edges in view, those are selected at a vertex that are at it. -/
theorem mem_selected_iff (mirrored : Mirrored g.store) (held : g.get? .vertex id a = .ok (some v)) {d : Direction}
    {labels : List String} {j : String} {e : Edge} (got : g.get? .edge j a = .ok (some e)) :
    j ∈ edgeIds ((Vertex.edgeRefs v).filter (·.selected d labels)) ↔
      e.At id d ∧ (labels = [] ∨ e.endpoints.label ∈ labels) := by
  obtain ⟨r, found, view⟩ := get?_some_iff.mp held
  obtain ⟨s, stored, edge⟩ := get?_some_iff.mp got
  obtain ⟨visible, endpoints⟩ := edge_of_view edge
  have own := (mirrored.filed _ _ _ stored).2
  rw [mem_selected view, ← Record.Refers.selected_iff endpoints]
  constructor
  · rintro ⟨ref, mem, -, selected, rfl⟩
    obtain ⟨s', stored', refers⟩ := (mirrored.refers_iff found (by simp) ref).mp mem
    obtain rfl := Option.some.inj (stored.symm.trans stored')
    exact ⟨ref, refers, selected⟩
  · rintro ⟨ref, refers, selected⟩
    refine ⟨ref, (mirrored.refs id r found (by simp) ref).mpr ⟨j, s, stored, refers⟩, ?_, selected,
      refers.edge.trans own⟩
    rw [EdgeRef.visibleTo, refers.visibility, refers.hidden]
    exact visible

theorem followed_beside (held : g.get? .vertex id a = .ok (some v)) (d : Direction) (labels : List String) :
    (Query.beside v d labels a).followed v = (Vertex.edgeRefs v).filter (·.selected d labels) := by
  obtain ⟨r, -, view⟩ := get?_some_iff.mp held
  refine List.filter_congr fun ref mem => ?_
  rw [show (Query.beside v d labels a).reader = a from rfl, visibleTo_of_edgeRefs view mem, Bool.and_true]
  rfl

/-- What the reader sees of the edges at a vertex in hand, by direction and labels. -/
def seenAt (g : Graph Memory) (v : Vertex) (d : Direction) (labels : List String) (a : Authorizations) : List Edge :=
  g.seen .edge (edgeIds ((Vertex.edgeRefs v).filter (·.selected d labels))) a

theorem mem_seenAt (mirrored : Mirrored g.store) (held : g.get? .vertex id a = .ok (some v)) {d : Direction}
    {labels : List String} {e : Edge} : e ∈ g.seenAt v d labels a ↔
      e ∈ g.seen .edge (g.store.ids (.all .edge)) a ∧ e.At id d ∧ (labels = [] ∨ e.endpoints.label ∈ labels) := by
  rw [seenAt, mem_seen, mem_seen]
  constructor
  · rintro ⟨j, selected, got⟩
    obtain ⟨s, stored, -⟩ := get?_some_iff.mp got
    exact ⟨⟨j, mem_ids.mpr ⟨s, stored⟩, got⟩, (mem_selected_iff mirrored held got).mp selected⟩
  · rintro ⟨⟨j, -, got⟩, there⟩
    exact ⟨j, (mem_selected_iff mirrored held got).mpr there, got⟩

theorem mem_seen_across {vertex : String} {es : List Edge} {w : Vertex} :
    w ∈ g.seen .vertex (othersAcross vertex es) a ↔
      ∃ e ∈ es, ∃ u, e.Across vertex u ∧ g.get? .vertex u a = .ok (some w) := by
  simp only [mem_seen, Edge.mem_othersAcross]
  constructor
  · rintro ⟨u, ⟨e, he, across⟩, got⟩
    exact ⟨e, he, u, across, got⟩
  · rintro ⟨e, he, u, across, got⟩
    exact ⟨u, ⟨e, he, across⟩, got⟩

/-! ### The reads -/

section

variable (decodes : g.Decodes)
include decodes

theorem answers_scan (t : ElementType) :
    g.answers (g.scan t a) = .ok ((g.seen t (g.store.ids (.all t)) a).map .ok) := by
  show Except.ok (Results.toList (g.found t) ⟨.ofIds t _, a, fun _ => true, 0, none⟩) = _
  rw [toList_seen decodes, List.filter_true]
  rfl

theorem edgesOf_seenAt (d : Direction) (labels : List String) :
    g.edgesOf v d labels a = .ok (g.seenAt v d labels a) := fetchAll_seen decodes

theorem neighbours_seen (d : Direction) :
    g.neighbours v d a = .ok (g.seen .vertex (othersAcross v.id (g.seenAt v d [] a)) a) := by
  rw [neighbours, edgesOf_seenAt decodes]
  exact fetchAll_seen decodes

theorem answers_beside_edge (mirrored : Mirrored g.store) (held : g.get? .vertex id a = .ok (some v)) (d : Direction)
    (labels : List String) :
    g.answers ((Query.beside v d labels a).run g .edge) = .ok ((g.seenAt v d labels a).map .ok) := by
  have kept : (g.seenAt v d labels a).filter (Query.beside v d labels a).keeps = g.seenAt v d labels a :=
    List.filter_eq_self.mpr fun e there => Query.keeps_beside_edge.mpr ((mem_seenAt mirrored held).mp there).2.2
  show Except.ok (Results.toList (g.found .edge) ⟨.ofIds .edge (edgeIds _), a, _, 0, none⟩) = _
  rw [followed_beside held, toList_seen decodes, ← seenAt, kept]
  rfl

theorem answers_beside_vertex (held : g.get? .vertex id a = .ok (some v)) (d : Direction) (labels : List String) :
    g.answers ((Query.beside v d labels a).run g .vertex) =
      .ok ((g.seen .vertex (othersAcross v.id (g.seenAt v d labels a)) a).map .ok) := by
  have run : (Query.beside v d labels a).run g .vertex =
      .ok ⟨.ofIds .vertex (othersAcross v.id (g.seenAt v d labels a)), a, (Query.beside v d labels a).keeps, 0,
        none⟩ := by
    show (Except.ok () >>= fun _ => ((g.fetchAll .edge (edgeIds _) a >>= fun es => _) >>= fun _ => _)) = _
    rw [followed_beside held, fetchAll_seen decodes]
    rfl
  rw [run]
  show Except.ok (Results.toList _ _) = _
  rw [toList_seen decodes, List.filter_eq_self.mpr fun w _ => Query.keeps_beside_vertex v d labels a w]
  rfl

end

/-- The edges at a vertex are the same ones by its own references, by a query around it, and among all edges, and
the vertices across them are the same ones too, each once: for every direction, with or without labels. -/
theorem adjacent_reads_agree (reachable : g.Reachable) (decodes : g.Decodes)
    (held : g.get? .vertex id a = .ok (some v)) (d : Direction) (labels : List String) :
    ∃ (all es : List Edge) (vs : List Vertex), g.answers (g.scan .edge a) = .ok (all.map .ok) ∧
      g.edgesOf v d labels a = .ok es ∧ (es.map (·.id)).Nodup ∧
      (∀ e, e ∈ es ↔ e ∈ all ∧ e.At id d ∧ (labels = [] ∨ e.endpoints.label ∈ labels)) ∧
      g.answers ((Query.beside v d labels a).run g .edge) = .ok (es.map .ok) ∧
      g.answers ((Query.beside v d labels a).run g .vertex) = .ok (vs.map .ok) ∧ (vs.map (·.id)).Nodup ∧
      (∀ w, w ∈ vs ↔ ∃ e ∈ es, ∃ u, e.Across id u ∧ g.get? .vertex u a = .ok (some w)) ∧
      (labels = [] → g.neighbours v d a = .ok vs) := by
  have mirrored := mirrored_of_reachable reachable
  obtain rfl := id_of_get? mirrored.filed held
  refine ⟨_, _, _, answers_scan decodes .edge, edgesOf_seenAt decodes d labels,
    nodup_seen mirrored.filed (nodup_eraseDups _), fun e => mem_seenAt mirrored held,
    answers_beside_edge decodes mirrored held d labels, answers_beside_vertex decodes held d labels,
    nodup_seen mirrored.filed (nodup_eraseDups _), fun w => mem_seen_across, ?_⟩
  rintro rfl
  exact neighbours_seen decodes d

/-! ### A loop, and a hidden edge beside another -/

def plainVertex (id : String) : Operation := .save (.vertex ⟨some id, .unrestricted, []⟩) .empty

def knows (id source target : String) : Operation :=
  .save (.edge ⟨some id, .unrestricted, []⟩ ⟨"knows", source, target⟩) .empty

/-- Two vertices, a loop at the first, and two edges to the second, of which one is hidden afterwards. -/
def knowingGraph : Graph Memory :=
  [plainVertex "v", plainVertex "w", knows "loop" "v" "v", knows "secret" "v" "w", knows "open" "v" "w",
    .hide .edge "secret" .unrestricted .empty].foldl (fun g o => o.after g) (.ofStore .empty .standard none)

theorem adjacent_reads_agree_loop : ∃ (v : Vertex) (es : List Edge) (vs : List Vertex),
    knowingGraph.get? .vertex "v" .empty = .ok (some v) ∧
    knowingGraph.edgesOf v .outgoing ["knows"] .empty = .ok es ∧ es.map (·.id) = ["loop", "open"] ∧
    knowingGraph.answers ((Query.beside v .outgoing ["knows"] .empty).run knowingGraph .edge) = .ok (es.map .ok) ∧
    knowingGraph.answers ((Query.beside v .outgoing ["knows"] .empty).run knowingGraph .vertex) = .ok (vs.map .ok) ∧
    vs.map (·.id) = ["v", "w"] := by
  have reachable : knowingGraph.Reachable := .step _ (.step _ (.step _ (.step _ (.step _ (.step _ (.start _ _ _))))))
  have decodes : knowingGraph.Decodes := decodes_of_ids (by decide +kernel)
  have reads : ((knowingGraph.get? .vertex "v" .empty).toOption.join.any fun v =>
      (knowingGraph.edgesOf v .outgoing ["knows"] .empty).toOption.any (fun es => es.map (·.id) == ["loop", "open"]) &&
      (knowingGraph.answers ((Query.beside v .outgoing ["knows"] .empty).run knowingGraph .vertex)).toOption.any
        fun vs => vs.filterMap (·.toOption.map (·.id)) == ["v", "w"]) = true := by decide +kernel
  obtain ⟨v, held, reads⟩ := (Option.any_eq_true _ _).mp reads
  have held := join_toOption_eq_some.mp held
  obtain ⟨all, es, vs, -, edges, -, -, query, across, -, -, -⟩ :=
    adjacent_reads_agree reachable decodes held .outgoing ["knows"]
  rw [edges, across] at reads
  simp only [Except.toOption, Option.any_some, List.filterMap_map, Bool.and_eq_true, beq_iff_eq] at reads
  refine ⟨v, es, vs, held, edges, reads.1, query, across, ?_⟩
  rw [← List.filterMap_eq_map]
  exact reads.2

end Graph

end GuardedGraph

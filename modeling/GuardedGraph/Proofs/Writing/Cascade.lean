import GuardedGraph.Proofs.Contents.Owned
import GuardedGraph.Proofs.Search.Listing

/-! Removing a vertex takes its edges along, and leaves everything else as it was; when it is refused, it leaves
everything. -/

namespace GuardedGraph

open Store (Memory)
open Outcome

variable {g h : Graph Memory} {skip : Option String} {id key : String} {content : ByteArray} {r : Record}
  {a : Authorizations}

/-! ### Edges that go -/

theorem get?_vertex_withoutEdge (mirrored : MirroredBut skip g.store) (id : String) {v : String}
    (other : some v ≠ skip) : (g.withoutEdge id skip).store.get? .vertex v =
      (g.store.get? .vertex v).map (Record.mapRefs fun refs => refs.filter (·.edge ≠ id)) := by
  cases at_v : g.store.get? .vertex v with
  | none =>
    obtain ⟨f, same⟩ := sameBut_withoutEdge mirrored.filed id skip v
    rw [same, at_v]
    rfl
  | some s =>
    have free (apart : ∀ ref ∈ s.edgeRefs, ref.edge ≠ id) :
        s = s.mapRefs fun refs => refs.filter (·.edge ≠ id) := by
      have all : s.edgeRefs.filter (·.edge ≠ id) = s.edgeRefs :=
        List.filter_eq_self.mpr fun ref mem => decide_eq_true (apart ref mem)
      rw [Record.mapRefs, all]
    unfold Graph.withoutEdge
    split
    · rename_i missing
      rw [at_v]
      refine congrArg some (free fun ref mem own => ?_)
      obtain ⟨e, he, -⟩ := (mirrored.refers_iff at_v other ref).mp mem
      rw [own, missing] at he
      exact absurd he (by simp)
    · rename_i e found
      obtain ⟨ends, endpoints, -⟩ := mirrored.edge id e found
      rw [endpoints]
      refine (Memory.get?_discardAll _ e.keptKeys .vertex v).trans ?_
      refine (Memory.get?_vertex_dropRefs (mirrored.filed.delete _ _) id ends skip v).trans ?_
      rw [Memory.get?_delete, if_neg (by simp), at_v]
      refine congrArg some ?_
      by_cases at_end : v ∈ ends.toList
      · have here : v ∈ ends.toList ∧ skip ≠ some v := ⟨at_end, Ne.symm other⟩
        simp only [if_pos here]
      · have away : ¬(v ∈ ends.toList ∧ skip ≠ some v) := fun both => at_end both.1
        simp only [if_neg away]
        exact free fun ref mem own => at_end ((mirrored.own_of_mem found at_v other mem own).mem endpoints)

theorem get?_vertex_withoutEdges (mirrored : MirroredBut skip g.store) (ids : List String) {v : String}
    (other : some v ≠ skip) : (g.withoutEdges ids skip).store.get? .vertex v =
      (g.store.get? .vertex v).map (Record.mapRefs fun refs => refs.filter (·.edge ∉ ids)) := by
  induction ids generalizing g with
  | nil =>
    have all (refs : List EdgeRef) : refs.filter (·.edge ∉ ([] : List String)) = refs := by simp
    simp only [all, Record.map_mapRefs_id]
    rfl
  | cons id ids ih =>
    refine (ih (mirrored.withoutEdge_store id)).trans ?_
    rw [get?_vertex_withoutEdge mirrored id other, Option.map_map, Record.mapRefs_comp]
    congr 2
    funext refs
    rw [List.filter_filter]
    refine List.filter_congr fun ref _ => ?_
    simp [Bool.and_comm]

theorem owns_iff_mem {t : ElementType} (found : g.store.get? t id = some r) :
    g.Owns t id key ↔ key ∈ r.keptKeys := by
  simp only [Graph.Owns, found, Option.some.injEq, exists_eq_left']

theorem not_owns_of_missing {t : ElementType} (missing : g.store.get? t id = none) : ¬g.Owns t id key := by
  rintro ⟨r, found, -⟩
  rw [missing] at found
  exact absurd found (by simp)

theorem SameBut.owns_iff {t : ElementType} (same : SameBut g.store h.store t id) :
    h.Owns t id key ↔ g.Owns t id key := by
  obtain ⟨f, same⟩ := same
  unfold Graph.Owns
  rw [same]
  cases g.store.get? t id with
  | none => simp
  | some r => simp only [Option.map_some, Option.some.injEq, exists_eq_left']; rfl

theorem kept?_withoutEdge_eq_some (id : String) (exceptAt : Option String) :
    (g.withoutEdge id exceptAt).store.kept? key = some content ↔
      g.store.kept? key = some content ∧ ¬g.Owns .edge id key := by
  cases found : g.store.get? .edge id with
  | none =>
    rw [Graph.withoutEdge, found]
    exact (and_iff_left (not_owns_of_missing found)).symm
  | some r =>
    rw [kept?_withoutEdge found, owns_iff_mem found]
    split <;> simp [*]

theorem kept?_withoutVertex_eq_some (g : Graph Memory) (id : String) :
    (g.withoutVertex id).store.kept? key = some content ↔
      g.store.kept? key = some content ∧ ¬g.Owns .vertex id key := by
  cases found : g.store.get? .vertex id with
  | none =>
    rw [Graph.withoutVertex, found]
    exact (and_iff_left (not_owns_of_missing found)).symm
  | some r =>
    rw [kept?_withoutVertex found, owns_iff_mem found]
    split <;> simp [*]

theorem kept?_withoutEdges_eq_some (mirrored : MirroredBut skip g.store) (ids : List String) :
    (g.withoutEdges ids skip).store.kept? key = some content ↔
      g.store.kept? key = some content ∧ ∀ id ∈ ids, ¬g.Owns .edge id key := by
  induction ids generalizing g with
  | nil => simp [Graph.withoutEdges]
  | cons id ids ih =>
    refine (ih (mirrored.withoutEdge_store id)).trans ?_
    rw [kept?_withoutEdge_eq_some, List.forall_mem_cons, and_assoc]
    -- an edge that has just gone owns nothing any more, and the others own what they have
    refine and_congr_right fun _ => and_congr_right fun own => forall_congr' fun j => forall_congr' fun _ => ?_
    have left := get?_edge_withoutEdge mirrored.filed id skip j
    split at left
    · rename_i same
      exact ⟨fun _ => same ▸ own, fun _ => not_owns_of_missing left⟩
    · exact not_congr (sameBut_of_eq left).owns_iff

/-! ### What an index loses -/

/-- The index of the graph, if it has one, loses some elements on the way to `h`, and nothing else. -/
def Graph.Unlists (g : Graph Memory) (dropped : ElementType → String → Bool) (h : Graph Memory) : Prop :=
  Option.Rel (fun x y => x.Drops dropped y) g.index h.index

def Graph.IndexAgrees (g : Graph Memory) : Prop := ∀ x, g.index = some x → x.Agrees

section

variable {k : Graph Memory} {dropped others : ElementType → String → Bool}

theorem Graph.Unlists.trans (first : g.Unlists dropped h) (second : h.Unlists others k) :
    g.Unlists (fun t id => dropped t id || others t id) k := by
  unfold Graph.Unlists at *
  generalize g.index = x at first ⊢
  generalize h.index = y at first second
  generalize k.index = z at second ⊢
  cases first with
  | none =>
    cases second
    exact .none
  | some first =>
    cases second with | some second => exact .some (first.trans second)

theorem Graph.Unlists.agrees (unlists : g.Unlists dropped h) (agrees : g.IndexAgrees) : h.IndexAgrees := by
  unfold Graph.Unlists Graph.IndexAgrees at *
  generalize g.index = x at unlists agrees
  generalize h.index = y at unlists ⊢
  cases unlists with
  | none => exact fun y none => absurd none (by simp)
  | some drops =>
    intro y own
    obtain rfl := Option.some.inj own
    exact drops.agrees (agrees _ rfl)

theorem Graph.Unlists.congr (unlists : g.Unlists dropped h) (same : ∀ t id, others t id ↔ dropped t id) :
    g.Unlists others h := by
  have equal : others = dropped := funext₂ fun t id => Bool.eq_iff_iff.mpr (same t id)
  exact equal ▸ unlists

theorem unlists_of_remove (agrees : g.IndexAgrees) {t : ElementType} {id : String}
    (removed : h.index = g.index.map (·.remove t id)) : g.Unlists (fun u j => u = t ∧ j = id) h := by
  unfold Graph.Unlists
  rw [removed]
  cases gx : g.index with
  | none => exact .none
  | some x => exact .some ((agrees x gx).drops_remove t id)

theorem unlists_of_same (same : h.index = g.index) : g.Unlists (fun _ _ => false) h := by
  unfold Graph.Unlists
  rw [same]
  cases g.index with
  | none => exact .none
  | some x => exact .some (Search.Index.drops_none x)

end

theorem unlists_withoutEdge (filed : g.store.Filed) (agrees : g.IndexAgrees) (id : String)
    (exceptAt : Option String) :
    g.Unlists (fun t j => t = .edge ∧ j = id ∧ (g.store.get? .edge j).isSome) (g.withoutEdge id exceptAt) := by
  unfold Graph.withoutEdge
  split
  · rename_i missing
    refine (unlists_of_same rfl).congr fun t j => ?_
    by_cases own : j = id
    · simp [own, missing]
    · simp [own]
  · rename_i r found
    obtain ⟨type, own⟩ := filed _ _ _ found
    refine (unlists_of_remove agrees rfl).congr fun t j => ?_
    rw [type, own]
    by_cases same : j = id
    · simp [same, found]
    · simp [same]

theorem unlists_withoutEdges (mirrored : MirroredBut skip g.store) (agrees : g.IndexAgrees) (ids : List String) :
    g.Unlists (fun t j => t = .edge ∧ j ∈ ids ∧ (g.store.get? .edge j).isSome) (g.withoutEdges ids skip) := by
  induction ids generalizing g with
  | nil => exact (unlists_of_same rfl).congr (by simp)
  | cons id ids ih =>
    have first := unlists_withoutEdge mirrored.filed agrees id skip
    refine (first.trans (ih (mirrored.withoutEdge_store id) (first.agrees agrees))).congr fun t j => ?_
    rw [get?_edge_withoutEdge mirrored.filed]
    by_cases own : id = j
    · simp [own]
    · simp [own, Ne.symm own]

theorem unlists_withoutVertex (filed : g.store.Filed) (agrees : g.IndexAgrees)
    (found : g.store.get? .vertex id = some r) :
    g.Unlists (fun t j => t = .vertex ∧ j = id) (g.withoutVertex id) := by
  obtain ⟨type, own⟩ := filed _ _ _ found
  rw [Graph.withoutVertex, found, ← own, ← type]
  exact unlists_of_remove agrees rfl

/-! ### A vertex with its edges -/

namespace Graph

/-- What goes with a vertex: it and the edges that it is an endpoint of. -/
def goesWith (g : Graph Memory) (vertex : String) : ElementType → String → Bool
  | .vertex, id => id = vertex
  | .edge, id => ((g.store.get? .edge id).bind (·.endpoints)).any fun ends => vertex ∈ ends.toList

/-- Whether `a` may remove a vertex: it is there, `a` can read it, it is not hidden from `a`, and `a` can read all
its edges, hidden or not. -/
def Removable (g : Graph Memory) (vertex : String) (a : Authorizations) : Prop :=
  ∃ r, g.store.get? .vertex vertex = some r ∧ r.visibility.readableBy a ∧ (∀ marker ∈ r.hidden, !marker.readableBy a) ∧
    ∀ id e, g.store.get? .edge id = some e → g.goesWith vertex .edge id → e.visibility.readableBy a

/-- The graph has become `h` by losing a vertex and its edges, with all that is kept of them, and nothing else. -/
structure Loses (g : Graph Memory) (vertex : String) (h : Graph Memory) : Prop where
  gone : ∀ t id, g.goesWith vertex t id → h.store.get? t id = none
  edges : ∀ id, !g.goesWith vertex .edge id → h.store.get? .edge id = g.store.get? .edge id
  vertices : ∀ id, id ≠ vertex → h.store.get? .vertex id = (g.store.get? .vertex id).map
    (Record.mapRefs fun refs => refs.filter fun ref => !g.goesWith vertex .edge ref.edge)
  contents : ∀ key content, h.store.kept? key = some content ↔
    g.store.kept? key = some content ∧ ∀ t id, g.goesWith vertex t id → ¬g.Owns t id key
  index : g.Unlists (g.goesWith vertex) h
  config : h.config = g.config
  kinds : h.kinds = g.kinds
  names : h.names = g.names
  minted : h.minted = g.minted

end Graph

theorem goesWith_edge_iff : g.goesWith id .edge key ↔
    ∃ e ends, g.store.get? .edge key = some e ∧ e.endpoints = some ends ∧ id ∈ ends.toList := by
  simp only [Graph.goesWith, Option.any_eq_true, Option.bind_eq_some_iff, decide_eq_true_eq]
  constructor
  · rintro ⟨ends, ⟨e, found, endpoints⟩, mem⟩
    exact ⟨e, ends, found, endpoints, mem⟩
  · rintro ⟨e, ends, found, endpoints, mem⟩
    exact ⟨ends, ⟨e, found, endpoints⟩, mem⟩

/-- The edges that a vertex refers to are those that it is an endpoint of. -/
theorem mem_edgeIds_iff_goesWith (mirrored : Mirrored g.store) (found : g.store.get? .vertex id = some r)
    (j : String) : j ∈ edgeIds r.edgeRefs ↔ g.goesWith id .edge j := by
  rw [mem_edgeIds, goesWith_edge_iff]
  constructor
  · rintro ⟨ref, mem, rfl⟩
    obtain ⟨e, he, refers⟩ := (mirrored.refers_iff found (by simp) ref).mp mem
    obtain ⟨ends, endpoints, -⟩ := mirrored.edge _ e he
    exact ⟨e, ends, he, endpoints, refers.mem endpoints⟩
  · rintro ⟨e, ends, he, endpoints, mem⟩
    obtain ⟨ref, refers⟩ := Record.exists_refers endpoints mem
    have there := (mirrored.refs id r found (by simp) ref).mpr ⟨_, e, he, refers⟩
    exact ⟨ref, there, refers.edge.trans (mirrored.filed _ _ _ he).2⟩

theorem anyReadableBy_eq_false_iff {markers : List Visibility} :
    Visibility.anyReadableBy markers a = false ↔ ∀ marker ∈ markers, !marker.readableBy a := by
  simp [Visibility.anyReadableBy]

theorem edgesReadable_ok_iff (mirrored : Mirrored g.store) (found : g.store.get? .vertex id = some r) :
    g.edgesReadable id r.edgeRefs a = .ok () ↔
      ∀ j e, g.store.get? .edge j = some e → g.goesWith id .edge j → e.visibility.readableBy a := by
  have goes := mem_edgeIds_iff_goesWith mirrored found
  constructor
  · intro ok j e he goesWith
    exact Graph.readable_of_edgesReadable ok ((goes j).mpr goesWith) he
  · intro each
    have refs : r.edgeRefs.all (·.visibility.readableBy a) = true := by
      rw [List.all_eq_true]
      intro ref mem
      obtain ⟨e, he, refers⟩ := (mirrored.refers_iff found (by simp) ref).mp mem
      rw [refers.visibility]
      exact each _ e he ((goes _).mp (mem_edgeIds.mpr ⟨ref, mem, rfl⟩))
    unfold Graph.edgesReadable
    rw [if_neg (by simp [refs]), forM_ok_iff]
    intro j mem
    cases he : g.store.get? .edge j with
    | none => rfl
    | some e =>
      have readable := each j e he ((goes j).mp mem)
      simp only [readable, Bool.not_true, Bool.false_eq_true, if_false]

theorem removable_iff (mirrored : Mirrored g.store) : g.Removable id a ↔
    ∃ r, g.writable .vertex id a = .ok r ∧ g.edgesReadable id r.edgeRefs a = .ok () := by
  unfold Graph.Removable
  constructor
  · rintro ⟨r, found, readable, shown, edges⟩
    refine ⟨r, ?_, (edgesReadable_ok_iff mirrored found).mpr edges⟩
    have allowed := Commit.requireWritable_ok_iff.mpr ⟨readable, anyReadableBy_eq_false_iff.mpr shown⟩
    unfold Graph.writable
    rw [found]
    simp only [allowed]
    rfl
  · rintro ⟨r, writable, edges⟩
    obtain ⟨found, allowed⟩ := Graph.writable_ok writable
    obtain ⟨readable, shown⟩ := Commit.requireWritable_ok_iff.mp allowed
    exact ⟨r, found, readable, anyReadableBy_eq_false_iff.mp shown, (edgesReadable_ok_iff mirrored found).mp edges⟩

/-! ### Exactness -/

theorem rest_withoutEdges (g : Graph Memory) (ids : List String) (exceptAt : Option String) :
    (g.withoutEdges ids exceptAt).config = g.config ∧ (g.withoutEdges ids exceptAt).kinds = g.kinds ∧
      (g.withoutEdges ids exceptAt).names = g.names ∧ (g.withoutEdges ids exceptAt).minted = g.minted := by
  induction ids generalizing g with
  | nil => exact ⟨rfl, rfl, rfl, rfl⟩
  | cons id ids ih =>
    have one : (g.withoutEdge id exceptAt).config = g.config ∧ (g.withoutEdge id exceptAt).kinds = g.kinds ∧
        (g.withoutEdge id exceptAt).names = g.names ∧ (g.withoutEdge id exceptAt).minted = g.minted := by
      unfold Graph.withoutEdge
      split <;> exact ⟨rfl, rfl, rfl, rfl⟩
    obtain ⟨config, kinds, names, minted⟩ := ih (g.withoutEdge id exceptAt)
    exact ⟨config.trans one.1, kinds.trans one.2.1, names.trans one.2.2.1, minted.trans one.2.2.2⟩

theorem rest_withoutVertex (g : Graph Memory) (id : String) : (g.withoutVertex id).config = g.config ∧
    (g.withoutVertex id).kinds = g.kinds ∧ (g.withoutVertex id).names = g.names ∧
      (g.withoutVertex id).minted = g.minted := by
  unfold Graph.withoutVertex
  split <;> exact ⟨rfl, rfl, rfl, rfl⟩

section

variable {ids : List String} (mirrored : Mirrored g.store) (goes : ∀ j, j ∈ ids ↔ g.goesWith id .edge j)
include mirrored goes

theorem kept?_cascade_eq_some : ((g.withoutEdges ids (some id)).withoutVertex id).store.kept? key = some content ↔
    g.store.kept? key = some content ∧ ∀ t j, g.goesWith id t j → ¬g.Owns t j key := by
  have weaker := mirrored.weaken id
  have owns : (g.withoutEdges ids (some id)).Owns .vertex id key ↔ g.Owns .vertex id key :=
    (sameBut_withoutEdges weaker ids id).owns_iff
  rw [kept?_withoutVertex_eq_some, kept?_withoutEdges_eq_some weaker, owns, and_assoc]
  refine and_congr_right fun _ => ⟨?_, fun free => ⟨?_, ?_⟩⟩
  · rintro ⟨edges, vertex⟩ t j goesWith
    cases t with
    | vertex => exact of_decide_eq_true goesWith ▸ vertex
    | edge => exact edges j ((goes j).mpr goesWith)
  · exact fun j mem => free .edge j ((goes j).mp mem)
  · exact free .vertex id (decide_eq_true rfl)

theorem unlists_cascade (agrees : g.IndexAgrees) (found : g.store.get? .vertex id = some r) :
    g.Unlists (g.goesWith id) ((g.withoutEdges ids (some id)).withoutVertex id) := by
  have weaker := mirrored.weaken id
  have first := unlists_withoutEdges weaker agrees ids
  obtain ⟨f, same⟩ := sameBut_withoutEdges weaker ids id
  rw [found] at same
  have second := unlists_withoutVertex (weaker.withoutEdges_store ids).filed (first.agrees agrees) same
  refine (first.trans second).congr fun t j => ?_
  cases t with
  | vertex => simp [Graph.goesWith]
  | edge =>
    have stored : j ∈ ids → (g.store.get? .edge j).isSome := by
      intro mem
      obtain ⟨e, -, he, -⟩ := goesWith_edge_iff.mp ((goes j).mp mem)
      rw [he]
      rfl
    simpa [← goes] using stored

end

theorem loses_withoutVertex (mirrored : Mirrored g.store) (agrees : g.IndexAgrees)
    (found : g.store.get? .vertex id = some r) :
    g.Loses id ((g.withoutEdges (edgeIds r.edgeRefs) (some id)).withoutVertex id) := by
  have weaker := mirrored.weaken id
  have goes := mem_edgeIds_iff_goesWith mirrored found
  generalize edgeIds r.edgeRefs = ids at goes
  have edges (j : String) : ((g.withoutEdges ids (some id)).withoutVertex id).store.get? .edge j =
      if j ∈ ids then none else g.store.get? .edge j := by
    rw [get?_withoutVertex, if_neg (by simp), get?_edge_withoutEdges weaker]
  have before := rest_withoutEdges g ids (some id)
  have rest := rest_withoutVertex (g.withoutEdges ids (some id)) id
  constructor
  · intro t j goesWith
    cases t with
    | vertex => rw [get?_withoutVertex, if_pos ⟨rfl, of_decide_eq_true goesWith⟩]
    | edge => rw [edges, if_pos ((goes j).mpr goesWith)]
  · intro j stays
    rw [edges, if_neg]
    intro mem
    rw [(goes j).mp mem] at stays
    exact absurd stays (by simp)
  · intro v other
    rw [get?_withoutVertex, if_neg fun own => other own.2,
      get?_vertex_withoutEdges weaker ids fun own => other (Option.some.inj own)]
    congr 2
    funext refs
    refine List.filter_congr fun ref _ => ?_
    rw [Bool.eq_iff_iff]
    simp [goes]
  · exact fun key content => kept?_cascade_eq_some mirrored goes
  · exact unlists_cascade mirrored goes agrees found
  · exact rest.1.trans before.1
  · exact rest.2.1.trans before.2.1
  · exact rest.2.2.1.trans before.2.2.1
  · exact rest.2.2.2.trans before.2.2.2

/-! ### Runs -/

/-- Operations lead from one graph to another. -/
inductive Graph.Leads (g : Graph Memory) : Graph Memory → Prop
  | here : Leads g g
  | step {h : Graph Memory} (o : Operation) : Leads g h → Leads g (o.after h)

variable {config : Config} {index : Option Search.Index} {names : Names}

theorem Graph.Leads.reachable (leads : (Graph.ofStore Memory.empty config index names).Leads g) : g.Reachable := by
  induction leads with
  | here => exact .start config index names
  | step o _ ih => exact .step o ih

def Graph.IndexMade (g : Graph Memory) : Prop := ∀ x, g.index = some x → x.Made

theorem Graph.IndexMade.change {f : Search.Index → Search.Index} (made : g.IndexMade)
    (changed : h.index = g.index.map f) (keeps : ∀ x, x.Made → (f x).Made) : h.IndexMade := by
  intro y there
  rw [changed] at there
  obtain ⟨x, here, rfl⟩ := Option.map_eq_some_iff.mp there
  exact keeps x (made x here)

theorem Graph.IndexMade.withoutEdges (made : g.IndexMade) (ids : List String) (exceptAt : Option String) :
    (g.withoutEdges ids exceptAt).IndexMade := by
  induction ids generalizing g with
  | nil => exact made
  | cons id ids ih =>
    have one : (g.withoutEdge id exceptAt).IndexMade := by
      unfold Graph.withoutEdge
      split
      · exact made
      · exact made.change rfl fun x here => here.remove _ _
    exact ih one

theorem Graph.IndexMade.withoutVertex (made : g.IndexMade) (id : String) : (g.withoutVertex id).IndexMade := by
  unfold Graph.withoutVertex
  split
  · exact made
  · exact made.change rfl fun x here => here.remove _ _

theorem Graph.IndexMade.written (made : g.IndexMade) (v : Revision) : (g.written v).IndexMade := by
  unfold Graph.written Graph.indexed
  split
  · exact made.change rfl fun x here => here.insert _ _ _
  · exact made

theorem Operation.Does.indexMade {o : Operation} (does : o.Does g h) (made : g.IndexMade) : h.IndexMade := by
  cases does with
  | refuse grown => exact fun x there => made x (grown.index ▸ there)
  | write prepared => exact Graph.IndexMade.written (fun x there => made x (prepared.grown.index ▸ there)) _
  | removeVertex _ _ => exact (made.withoutEdges _ _).withoutVertex _
  | removeEdge _ => exact made.withoutEdges [_] none
  | hide _ => exact made
  | unhide _ => exact made
  | declare => exact made

theorem Graph.Leads.indexMade (leads : (Graph.ofStore Memory.empty config index names).Leads g)
    (made : ∀ x, index = some x → x.Made) : g.IndexMade := by
  induction leads with
  | here => exact made
  | step o leads ih =>
    exact (o.does_after (mirrored_of_reachable leads.reachable).filed).indexMade ih

/-- A vertex is removed exactly if it is there and not hidden from the writer, who can read it and all its edges.
Then it goes with its edges and nothing else does; otherwise nothing changes. -/
theorem removeVertex_exact (made : ∀ x, index = some x → x.Made)
    (leads : (Graph.ofStore Memory.empty config index names).Leads g) (id : String) (a : Authorizations) :
    ((Operation.removeVertex id a).outcome g = .ok () ↔ g.Removable id a) ∧
    ((Operation.removeVertex id a).outcome g = .ok () → g.Loses id ((Operation.removeVertex id a).after g)) ∧
    ∀ e, (Operation.removeVertex id a).outcome g = .error e → (Operation.removeVertex id a).after g = g := by
  have mirrored := mirrored_of_reachable leads.reachable
  have agrees : g.IndexAgrees := fun x here => (leads.indexMade made x here).agrees
  unfold Operation.outcome Operation.after Operation.commit
  rw [removable_iff mirrored]
  simp only [Commit.exec_removeVertex]
  cases writable : g.writable .vertex id a with
  | error e => exact ⟨by simp [bind, Except.bind], by simp [bind, Except.bind], fun _ _ => rfl⟩
  | ok r =>
    have found := (Graph.writable_ok writable).1
    cases readable : g.edgesReadable id r.edgeRefs a with
    | error e => simp [bind, Except.bind, readable]
    | ok _ => simpa [bind, Except.bind, pure, Except.pure, readable] using loses_withoutVertex mirrored agrees found

def joining (id source target : String) : Save :=
  .edge ⟨some id, .unrestricted, [.set "" "note" (.string "in short") .unrestricted .empty,
    .set "" "text" (.stream (.ofText "at some length")) .unrestricted .empty]⟩ ⟨"knows", source, target⟩

/-- Edges both ways between two vertices, and a loop at each, with texts that are kept outside their records. -/
def knotGraph : Graph Memory :=
  let g := (Operation.save (.vertex ⟨some "v", .unrestricted, []⟩) .empty).after
    (.ofStore .empty ⟨8, none, true⟩ (some .empty))
  let g := (Operation.save (.vertex ⟨some "w", .unrestricted, []⟩) .empty).after g
  let g := (Operation.save (joining "to" "v" "w") .empty).after g
  let g := (Operation.save (joining "fro" "w" "v") .empty).after g
  let g := (Operation.save (joining "round" "v" "v") .empty).after g
  (Operation.save (joining "apart" "w" "w") .empty).after g

theorem removeVertex_exact_knot :
    (Graph.ofStore Memory.empty ⟨8, none, true⟩ (some .empty)).Leads knotGraph ∧ knotGraph.Removable "v" .empty ∧
      knotGraph.Loses "v" ((Operation.removeVertex "v" .empty).after knotGraph) ∧
      ["to", "fro", "round", "apart"].map (knotGraph.goesWith "v" .edge) = [true, true, true, false] ∧
      ((Operation.removeVertex "v" .empty).after knotGraph).index.map (·.search .edge "short") = some ["apart"] ∧
      ((Operation.removeVertex "v" .empty).after knotGraph).store.contents.size = 1 := by
  have leads : (Graph.ofStore Memory.empty ⟨8, none, true⟩ (some .empty)).Leads knotGraph :=
    .step _ (.step _ (.step _ (.step _ (.step _ (.step _ .here)))))
  have made : ∀ x, some Search.Index.empty = some x → x.Made := by
    intro x own
    obtain rfl := Option.some.inj own
    exact .empty
  obtain ⟨removable, loses, -⟩ := removeVertex_exact made leads "v" .empty
  have done : ((Operation.removeVertex "v" .empty).outcome knotGraph).toOption = some () := by decide +kernel
  cases outcome : (Operation.removeVertex "v" .empty).outcome knotGraph with
  | error e =>
    rw [outcome] at done
    exact absurd done (by simp [Except.toOption])
  | ok _ =>
    exact ⟨leads, removable.mp outcome, loses outcome, by decide +kernel, by decide +kernel, by decide +kernel⟩

end GuardedGraph

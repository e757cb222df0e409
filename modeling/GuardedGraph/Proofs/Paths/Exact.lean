import GuardedGraph.Proofs.Adjacency.Runs
import GuardedGraph.Proofs.Paths.Search
import GuardedGraph.Proofs.Reading.Seen

/-! Which paths a search finds: over a graph whose references at vertices are exact, all that the reader can see
(`paths_exact`). -/

namespace GuardedGraph

open Store (Memory)
open Outcome

theorem nodup_eraseDups (l : List String) : l.eraseDups.Nodup := by
  cases l with
  | nil => exact .nil
  | cons x xs =>
    rw [List.eraseDups_cons]
    refine List.nodup_cons.mpr ⟨?_, nodup_eraseDups (xs.filter fun y => !y == x)⟩
    simp
termination_by l.length
decreasing_by
  rw [List.length_cons]
  exact Nat.lt_succ_of_le (List.length_filter_le ..)

theorem edge_of_view {r : Record} {a : Authorizations} {e : Edge} (view : r.view? .edge a = .ok (some e)) :
    r.visibleTo a ∧ r.endpoints = some e.endpoints := by
  obtain ⟨-, visible, ps, links, -, linked, rfl⟩ := view?_some_iff.mp view
  refine ⟨visible, ?_⟩
  rw [Record.links] at linked
  split at linked
  · next ends endpoints => exact endpoints.trans (congrArg some (Except.ok.inj linked))
  · exact absurd linked (by simp)

theorem vertex_of_view {r : Record} {a : Authorizations} {v : Vertex} (view : r.view? .vertex a = .ok (some v)) :
    v.id = r.id ∧ ∀ id, id ∈ edgeIds (Vertex.edgeRefs v) ↔ ∃ ref ∈ r.edgeRefs, ref.visibleTo a ∧ ref.edge = id := by
  obtain ⟨-, -, ps, links, -, linked, rfl⟩ := view?_some_iff.mp view
  obtain rfl := Except.ok.inj linked
  refine ⟨rfl, fun id => ?_⟩
  rw [mem_edgeIds]
  simp [Vertex.edgeRefs, and_assoc]

theorem otherId?_iff {e : Edge} {u v : String} (apart : u ≠ v) :
    e.otherId? v = some u ↔
      (e.endpoints.source = v ∧ e.endpoints.target = u) ∨ (e.endpoints.source = u ∧ e.endpoints.target = v) := by
  simp only [Edge.otherId?, Endpoints.other?]
  grind

namespace Graph

/-- The vertex is stored, and the reader can see it. -/
def InView (g : Graph Memory) (a : Authorizations) (vertex : String) : Prop :=
  ∃ r, g.store.get? .vertex vertex = some r ∧ r.visibleTo a

/-- An edge that the reader can see is between the two vertices, in one direction or the other. -/
def Joins (g : Graph Memory) (a : Authorizations) (u v : String) : Prop :=
  ∃ id e ends, g.store.get? .edge id = some e ∧ e.visibleTo a ∧ e.endpoints = some ends ∧
    ((ends.source = u ∧ ends.target = v) ∨ (ends.source = v ∧ ends.target = u))

/-- A path between two vertices, of at most `hops` edges, that the reader can see all along. -/
structure IsPath (g : Graph Memory) (a : Authorizations) (start target : String) (hops : Nat) (p : List String) :
    Prop where
  first : p.head? = some start
  last : p.getLast? = some target
  distinct : p.Nodup
  short : p.length ≤ hops + 1
  shown : ∀ v ∈ p, g.InView a v
  joined : p.IsChain (g.Joins a)

variable {g : Graph Memory} {a : Authorizations}

/-! ### What is in view -/

theorem get?_some_iff {t : ElementType} {id : String} {v : View t} :
    g.get? t id a = .ok (some v) ↔ ∃ r, g.store.get? t id = some r ∧ r.view? t a = .ok (some v) := by
  cases found : g.store.get? t id with
  | none => simp [get?_none found]
  | some r => simp [get?_some found]

theorem view_of_visible (filed : g.store.Filed) (decodes : g.Decodes) {t : ElementType} {id : String} {r : Record}
    (found : g.store.get? t id = some r) (visible : r.visibleTo a) : ∃ v, r.view? t a = .ok (some v) := by
  obtain ⟨rfl, -⟩ := filed _ _ _ found
  obtain ⟨v, hv⟩ := get?_ok decodes r.type id a
  rw [get?_some found] at hv
  cases v with
  | some v => exact ⟨v, hv⟩
  | none =>
    rw [view?_of_visible visible] at hv
    obtain ⟨_, -, hv⟩ := bind_ok hv
    obtain ⟨_, -, hv⟩ := bind_ok hv
    exact absurd (pure_ok hv) (by simp)

theorem inView_iff (filed : g.store.Filed) (decodes : g.Decodes) {vertex : String} :
    g.InView a vertex ↔ ∃ v, g.get? .vertex vertex a = .ok (some v) := by
  simp only [get?_some_iff]
  constructor
  · rintro ⟨r, found, visible⟩
    obtain ⟨v, view⟩ := view_of_visible filed decodes found visible
    exact ⟨v, r, found, view⟩
  · rintro ⟨v, r, found, view⟩
    exact ⟨r, found, (view?_some_iff.mp view).2.1⟩

theorem get?_of_not_inView (filed : g.store.Filed) (decodes : g.Decodes) {vertex : String}
    (hidden : ¬g.InView a vertex) : g.get? .vertex vertex a = .ok none := by
  obtain ⟨v, got⟩ := get?_ok decodes .vertex vertex a
  cases v with
  | none => exact got
  | some v => exact absurd ((inView_iff filed decodes).mpr ⟨v, got⟩) hidden

/-- The edges that are fetched by their ids, as far as they are in view. -/
theorem fetchAll_ok (decodes : g.Decodes) (t : ElementType) (ids : List String) (a : Authorizations) :
    ∃ vs, g.fetchAll t ids a = .ok vs ∧ ∀ v, v ∈ vs ↔ ∃ id ∈ ids, g.get? t id a = .ok (some v) :=
  ⟨g.seen t ids a, fetchAll_seen decodes, fun _ => mem_seen⟩

/-! ### Neighbours -/

/-- A reference at an endpoint of an edge, as visible as the edge. -/
theorem AdjacencyExact.ref (exact : g.AdjacencyExact) {id : String} {e : Record} {ends : Endpoints}
    (found : g.store.get? .edge id = some e) (endpoints : e.endpoints = some ends) {v : String}
    (mem : v ∈ ends.toList) : ∃ s, g.store.get? .vertex v = some s ∧
      ∃ ref ∈ s.edgeRefs, ref.edge = id ∧ ref.visibleTo a = e.visibleTo a := by
  obtain ⟨-, ends', source, target, endpoints', hs, ht, out, into⟩ := exact.edges id e found
  obtain rfl := Option.some.inj (endpoints.symm.trans endpoints')
  simp only [Endpoints.toList, List.mem_cons, List.not_mem_nil, or_false] at mem
  rcases mem with rfl | rfl
  · refine ⟨source, hs, ⟨id, ends.label, ends.target, .outgoing, e.visibility, e.hidden⟩, ?_, rfl, rfl⟩
    exact (List.mem_filter.mp (out ▸ List.mem_singleton_self _)).1
  · refine ⟨target, ht, ⟨id, ends.label, ends.source, .incoming, e.visibility, e.hidden⟩, ?_, rfl, rfl⟩
    exact (List.mem_filter.mp (into ▸ List.mem_singleton_self _)).1

/-- What the search finds around a vertex: the other vertices that visible edges join it to, each once. -/
theorem around_ok (filed : g.store.Filed) (exact : g.AdjacencyExact) (decodes : g.Decodes) (a : Authorizations)
    (vertex : String) : ∃ others, PathSearch.around g a vertex = .ok others ∧ others.Nodup ∧
      ∀ u, u ∈ others ↔ u ≠ vertex ∧ g.InView a vertex ∧ g.Joins a vertex u := by
  by_cases seen : g.InView a vertex
  · obtain ⟨v, got⟩ := (inView_iff filed decodes).mp seen
    obtain ⟨r, found, view⟩ := get?_some_iff.mp got
    obtain ⟨edges, fetched, mem⟩ := fetchAll_ok decodes .edge (edgeIds (Vertex.edgeRefs v)) a
    refine ⟨(othersAcross v.id edges).filter (· ≠ vertex), ?_, (nodup_eraseDups _).filter _, fun u => ?_⟩
    · rw [PathSearch.around, got]
      simp only [bind, Except.bind, fetched]
      rfl
    · obtain ⟨own, refs⟩ := vertex_of_view view
      obtain rfl : v.id = vertex := own.trans (filed _ _ _ found).2
      simp only [othersAcross, List.mem_filter, List.mem_eraseDups, List.mem_filterMap, decide_eq_true_eq]
      constructor
      · rintro ⟨⟨e, he, other⟩, apart⟩
        obtain ⟨id, -, got⟩ := (mem e).mp he
        obtain ⟨s, stored, view⟩ := get?_some_iff.mp got
        obtain ⟨visible, endpoints⟩ := edge_of_view view
        exact ⟨apart, seen, id, s, Edge.endpoints e, stored, visible, endpoints, (otherId?_iff apart).mp other⟩
      · rintro ⟨apart, -, id, s, ends, stored, visible, endpoints, across⟩
        obtain ⟨e, view⟩ := view_of_visible filed decodes stored visible
        obtain rfl : Edge.endpoints e = ends := Option.some.inj ((edge_of_view view).2.symm.trans endpoints)
        have here : v.id ∈ (Edge.endpoints e).toList := by
          rcases across with ⟨source, -⟩ | ⟨-, target⟩
          · simp [Endpoints.toList, source]
          · simp [Endpoints.toList, target]
        obtain ⟨r', found', ref, href, edge, shown⟩ := exact.ref (a := a) stored endpoints here
        obtain rfl := Option.some.inj (found.symm.trans found')
        refine ⟨⟨e, (mem e).mpr ⟨id, (refs id).mpr ⟨ref, href, shown.trans visible, edge⟩, ?_⟩, ?_⟩, apart⟩
        · exact get?_some_iff.mpr ⟨s, stored, view⟩
        · exact (otherId?_iff apart).mpr across
  · refine ⟨[], ?_, .nil, fun u => ?_⟩
    · rw [PathSearch.around, get?_of_not_inView filed decodes seen]
      rfl
    · simp [seen]

end Graph

/-! ### Where a search begins -/

namespace PathSearch

variable {g : Graph Memory} {a : Authorizations} {start target : String}

theorem exhaust_idle {s : PathSearch} (left : Nat) (level : s.level = []) (top : s.deeper = []) :
    s.exhaust g left = .ok s.found := by
  cases left with
  | zero =>
    rw [exhaust, level]
    rfl
  | succ left =>
    rw [exhaust, level]
    show (if s.deeper.isEmpty then _ else _) = _
    rw [top]
    rfl

theorem begin_of_hidden {s : PathSearch} (filed : g.store.Filed) (decodes : g.Decodes)
    (hidden : ¬(g.InView s.reader s.start ∧ g.InView s.reader s.target)) : s.begin g = .ok s := by
  by_cases seen : g.InView s.reader s.start
  · obtain ⟨v, got⟩ := (Graph.inView_iff filed decodes).mp seen
    rw [begin, got, Graph.get?_of_not_inView filed decodes fun also => hidden ⟨seen, also⟩]
    rfl
  · rw [begin, Graph.get?_of_not_inView filed decodes seen]
    rfl

theorem begin_of_inView {s : PathSearch} (filed : g.store.Filed) (decodes : g.Decodes)
    (seen : g.InView s.reader s.start) (also : g.InView s.reader s.target) :
    s.begin g = .ok (if s.start = s.target then { s with found := [[s.start]] } else if s.hops = 0 then s else
      { s with level := [⟨s.start, []⟩] }) := by
  obtain ⟨v, got⟩ := (Graph.inView_iff filed decodes).mp seen
  obtain ⟨w, got'⟩ := (Graph.inView_iff filed decodes).mp also
  rw [begin, got, got']
  simp only [bind, Except.bind, Option.isNone_some, Bool.false_eq_true, if_false]
  split
  · rfl
  · split <;> rfl

variable (filed : g.store.Filed) (decodes : g.Decodes)
include filed decodes

theorem rest_of_hidden (hidden : ¬(g.InView a start ∧ g.InView a target)) (hops : Nat) :
    (between start target hops a).rest g = .ok [] := by
  rw [rest_eq, if_neg (by simp [between]), begin_of_hidden filed decodes hidden]
  exact exhaust_idle _ rfl rfl

theorem rest_of_same (seen : g.InView a start) (hops : Nat) :
    (between start start hops a).rest g = .ok [[start]] := by
  have begun := begin_of_inView (s := between start start hops a) filed decodes seen seen
  rw [rest_eq, if_neg (by simp [between]), begun.trans (congrArg Except.ok (if_pos rfl))]
  exact exhaust_idle _ rfl rfl

theorem rest_of_apart {beside : String → List String} (readable : ∀ v, around g a v = .ok (beside v))
    (seen : g.InView a start) (also : g.InView a target) (apart : start ≠ target) (hops : Nat) :
    (between start target hops a).rest g = .ok (Trail.pathsFrom beside target start hops) := by
  have begun := begin_of_inView (s := between start target hops a) filed decodes seen also
  rw [rest_eq, if_neg (by simp [between]), begun.trans (congrArg Except.ok (if_neg apart))]
  cases hops with
  | zero => exact exhaust_idle _ rfl rfl
  | succ left =>
    exact exhaust_eq (s := { between start target (left + 1) a with level := [⟨start, []⟩] }) readable
      (fun v others known => absurd known (by simp [between])) rfl rfl

end PathSearch

/-! ### All paths -/

namespace Graph

variable {g : Graph Memory} {a : Authorizations} {start target : String} {hops : Nat} {p : List String}

theorem isPath_same (seen : g.InView a start) : g.IsPath a start start hops p ↔ p = [start] := by
  constructor
  · rintro ⟨first, last, distinct, -, -, -⟩
    cases p with
    | nil => simp at first
    | cons v rest =>
      obtain rfl : v = start := by simpa using first
      cases rest with
      | nil => rfl
      | cons u rest =>
        have again : v ∈ u :: rest := List.mem_of_getLast? (by simpa using last)
        exact absurd again (List.nodup_cons.mp distinct).1
  · rintro rfl
    exact ⟨rfl, rfl, by simp, by simp, by simpa using seen, .singleton _⟩

theorem IsPath.ends (path : g.IsPath a start target hops p) : g.InView a start ∧ g.InView a target :=
  ⟨path.shown _ (List.mem_of_mem_head? path.first), path.shown _ (List.mem_of_getLast? path.last)⟩

theorem IsPath.start_eq_target (path : g.IsPath a start target 0 p) : start = target := by
  obtain ⟨first, last, -, short, -, -⟩ := path
  obtain ⟨v, rfl⟩ : ∃ v, p = [v] := by
    cases p with
    | nil => simp at first
    | cons v rest => exact ⟨v, by simpa using short⟩
  simp_all

section

variable {beside : String → List String} (mem : ∀ v u, u ∈ beside v ↔ u ≠ v ∧ g.InView a v ∧ g.Joins a v u)
include mem

theorem isChain_beside_iff (also : g.InView a target) {v : String} {rest : List String} (distinct : (v :: rest).Nodup)
    (last : (v :: rest).getLast? = some target) : (v :: rest).IsChain (fun u w => w ∈ beside u) ↔
      (∀ u ∈ v :: rest, g.InView a u) ∧ (v :: rest).IsChain (g.Joins a) := by
  induction rest generalizing v with
  | nil =>
    obtain rfl : v = target := by simpa using last
    simpa using also
  | cons u rest ih =>
    obtain ⟨new, distinct⟩ := List.nodup_cons.mp distinct
    have apart : u ≠ v := fun same => new (same ▸ List.mem_cons_self)
    rw [List.isChain_cons_cons, List.isChain_cons_cons, ih distinct (by simpa using last), mem,
      List.forall_mem_cons (a := v)]
    tauto

/-- The paths that the trail at one vertex comes to are those to the other that the reader can see. -/
theorem mem_pathsFrom_iff (also : g.InView a target) (apart : start ≠ target) :
    p ∈ Trail.pathsFrom beside target start hops ↔ g.IsPath a start target hops p := by
  cases hops with
  | zero => exact ⟨fun none => absurd none List.not_mem_nil, fun path => absurd path.start_eq_target apart⟩
  | succ left =>
    simp only [Trail.mem_pathsFrom, Trail.completes_iff]
    constructor
    · rintro ⟨rest, ⟨chain, distinct, new, last, short⟩, rfl⟩
      have distinct : (start :: rest).Nodup :=
        List.nodup_cons.mpr ⟨fun again => new start again List.mem_cons_self, distinct⟩
      have last : (start :: rest).getLast? = some target := by
        rw [List.getLast?_cons, last]
        rfl
      obtain ⟨shown, joined⟩ := (isChain_beside_iff mem also distinct last).mp chain
      exact ⟨rfl, last, distinct, by simpa using short, shown, joined⟩
    · rintro ⟨first, last, distinct, short, shown, joined⟩
      cases p with
      | nil => simp at first
      | cons v rest =>
        obtain rfl : v = start := by simpa using first
        have chain := (isChain_beside_iff mem also distinct last).mpr ⟨shown, joined⟩
        obtain ⟨new, distinct⟩ := List.nodup_cons.mp distinct
        refine ⟨rest, ⟨chain, distinct, fun u hu visited => new ?_, ?_, by simpa using short⟩, rfl⟩
        · obtain rfl : u = v := List.mem_singleton.mp visited
          exact hu
        · cases rest with
          | nil => exact absurd (by simpa using last) apart
          | cons u rest => simpa using last

end

theorem joins_stored (exact : g.AdjacencyExact) {u v : String} (joins : g.Joins a u v) :
    v ∈ g.store.ids (.all .vertex) := by
  obtain ⟨id, e, ends, found, -, endpoints, across⟩ := joins
  obtain ⟨s, stored, -⟩ := exact.ref (a := a) found endpoints (v := v) (by
    rcases across with ⟨-, target⟩ | ⟨source, -⟩
    · simp [Endpoints.toList, target]
    · simp [Endpoints.toList, source])
  exact mem_ids.mpr ⟨s, stored⟩

/-- A search gives all paths that its reader can see, each once and shorter ones first, and then ends: from some
number of edges on, which is no more than there are vertices, a greater one makes no difference. There is one
path from a vertex in view to itself, and none from or to one that is not in view. -/
theorem paths_exact {g : Graph Memory} (filed : g.store.Filed) (exact : g.AdjacencyExact) (decodes : g.Decodes)
    (start target : String) (hops : Nat) (a : Authorizations) :
    ∃ ps, (PathSearch.between start target hops a).Gives g ps ∧
      (PathSearch.between start target hops a).rest g = .ok ps ∧
      ps.Nodup ∧ ps.Pairwise (·.length ≤ ·.length) ∧ (∀ p, p ∈ ps ↔ g.IsPath a start target hops p) ∧
      (start = target ∧ g.InView a start → ps = [[start]]) ∧
      (¬(g.InView a start ∧ g.InView a target) → ps = []) ∧
      ((g.store.ids (.all .vertex)).length ≤ hops → ∀ more, hops ≤ more →
        (PathSearch.between start target more a).rest g = .ok ps) := by
  choose beside readable distinct mem using around_ok filed exact decodes a
  by_cases shown : g.InView a start ∧ g.InView a target
  · by_cases same : start = target
    · obtain rfl := same
      have all := PathSearch.rest_of_same filed decodes shown.1
      refine ⟨[[start]], PathSearch.gives_of_rest (all hops), all hops, by simp, by simp, fun p => ?_, fun _ => rfl,
        fun hidden => absurd shown hidden, fun _ more _ => all more⟩
      rw [isPath_same shown.1, List.mem_singleton]
    · have all := PathSearch.rest_of_apart filed decodes readable shown.1 shown.2 same
      refine ⟨_, PathSearch.gives_of_rest (all hops), all hops, Trail.nodup_pathsFrom distinct start hops,
        Trail.sorted_pathsFrom start hops, fun p => mem_pathsFrom_iff mem shown.2 same, fun both => absurd both.1 same,
        fun hidden => absurd shown hidden, fun enough more further => ?_⟩
      obtain ⟨r, found, -⟩ := shown.1
      have within : ∀ u, ∀ v ∈ beside u, v ∈ g.store.ids (.all .vertex) :=
        fun u v next => joins_stored exact ((mem u v).mp next).2.2
      rw [all, Trail.pathsFrom_beyond within (mem_ids.mpr ⟨r, found⟩) enough further]
  · have all := PathSearch.rest_of_hidden filed decodes shown
    refine ⟨[], PathSearch.gives_of_rest (all hops), all hops, .nil, .nil, fun p => ?_, fun both => ?_, fun _ => rfl,
      fun _ more _ => all more⟩
    · exact ⟨fun none => absurd none List.not_mem_nil, fun path => absurd path.ends shown⟩
    · exact absurd ⟨both.2, both.1 ▸ both.2⟩ shown

/-! ### Two edges and a loop -/

theorem mem_of_get?_foldl_put {rs : List Record} {m : Memory} {t : ElementType} {id : String} {r : Record}
    (found : (rs.foldl Memory.put m).get? t id = some r) :
    (r ∈ rs ∧ r.type = t ∧ r.id = id) ∨ m.get? t id = some r := by
  induction rs generalizing m with
  | nil => exact .inr found
  | cons s rs ih =>
    rcases ih found with ⟨mem, own⟩ | found
    · exact .inl ⟨List.mem_cons_of_mem s mem, own⟩
    · rw [Memory.get?_put] at found
      split at found
      · next own =>
        obtain rfl := Option.some.inj found
        exact .inl ⟨List.mem_cons_self, own⟩
      · exact .inr found

def plainEdge (id source target : String) : Record :=
  ⟨.edge, id, .unrestricted, [], [], some ⟨"to", source, target⟩, []⟩

def plainRef (id other : String) (d : Direction) : EdgeRef := ⟨id, "to", other, d, .unrestricted, []⟩

def crossed : Record := ⟨.vertex, "a", .unrestricted, [], [], none,
  [plainRef "e" "b" .outgoing, plainRef "f" "b" .incoming, plainRef "l" "a" .outgoing, plainRef "l" "a" .incoming]⟩

def crossing : Record := ⟨.vertex, "b", .unrestricted, [], [], none,
  [plainRef "e" "a" .incoming, plainRef "f" "a" .outgoing]⟩

/-- Two vertices with an edge in each direction between them, and a loop at one of them. -/
def crossedGraph : Graph Memory := .ofStore ([crossed, crossing, plainEdge "e" "a" "b", plainEdge "f" "b" "a",
  plainEdge "l" "a" "a"].foldl Memory.put .empty) .standard none

theorem stored_crossedGraph {t : ElementType} {id : String} {r : Record}
    (found : crossedGraph.store.get? t id = some r) : t = r.type ∧ id = r.id ∧
      (r = crossed ∨ r = crossing ∨ r = plainEdge "e" "a" "b" ∨ r = plainEdge "f" "b" "a" ∨
        r = plainEdge "l" "a" "a") := by
  rcases mem_of_get?_foldl_put found with ⟨mem, type, own⟩ | none
  · exact ⟨type.symm, own.symm, by simpa using mem⟩
  · cases t <;> simp [Memory.get?, Memory.empty, PerType.get] at none

theorem decodes_crossedGraph : crossedGraph.Decodes := by
  intro t id r found
  obtain ⟨rfl, rfl, rfl | rfl | rfl | rfl | rfl⟩ := stored_crossedGraph found
  all_goals exact ⟨⟨_, rfl⟩, by decide⟩

theorem adjacencyExact_crossedGraph : crossedGraph.AdjacencyExact := by
  have a : crossedGraph.store.get? .vertex "a" = some crossed := by decide +kernel
  have b : crossedGraph.store.get? .vertex "b" = some crossing := by decide +kernel
  have e : crossedGraph.store.get? .edge "e" = some (plainEdge "e" "a" "b") := by decide +kernel
  have f : crossedGraph.store.get? .edge "f" = some (plainEdge "f" "b" "a") := by decide +kernel
  have l : crossedGraph.store.get? .edge "l" = some (plainEdge "l" "a" "a") := by decide +kernel
  constructor
  · intro id r found
    obtain ⟨type, rfl, own⟩ := stored_crossedGraph found
    rcases own with rfl | rfl | rfl | rfl | rfl
    · exact absurd type (by decide)
    · exact absurd type (by decide)
    · exact ⟨rfl, _, _, _, rfl, a, b, by decide +kernel, by decide +kernel⟩
    · exact ⟨rfl, _, _, _, rfl, b, a, by decide +kernel, by decide +kernel⟩
    · exact ⟨rfl, _, _, _, rfl, a, a, by decide +kernel, by decide +kernel⟩
  · intro v s found r mem
    obtain ⟨type, rfl, own⟩ := stored_crossedGraph found
    rcases own with rfl | rfl | rfl | rfl | rfl
    · simp only [crossed, List.mem_cons, List.not_mem_nil, or_false] at mem
      rcases mem with rfl | rfl | rfl | rfl
      · exact ⟨by decide, _, _, e, rfl, .inl ⟨rfl, rfl⟩⟩
      · exact ⟨by decide, _, _, f, rfl, .inr ⟨rfl, rfl⟩⟩
      · exact ⟨by decide, _, _, l, rfl, .inl ⟨rfl, rfl⟩⟩
      · exact ⟨by decide, _, _, l, rfl, .inr ⟨rfl, rfl⟩⟩
    · simp only [crossing, List.mem_cons, List.not_mem_nil, or_false] at mem
      rcases mem with rfl | rfl
      · exact ⟨by decide, _, _, e, rfl, .inr ⟨rfl, rfl⟩⟩
      · exact ⟨by decide, _, _, f, rfl, .inl ⟨rfl, rfl⟩⟩
    all_goals exact absurd type (by decide)

theorem paths_exact_crossed : ∃ ps, (PathSearch.between "a" "b" 1000000 .empty).rest crossedGraph = .ok ps ∧
    ps = [["a", "b"]] ∧ ∀ p, p ∈ ps ↔ crossedGraph.IsPath .empty "a" "b" 1000000 p := by
  obtain ⟨ps, -, all, -, -, mem, -, -, -⟩ := paths_exact
    (fun _ _ _ found => ⟨(stored_crossedGraph found).1.symm, (stored_crossedGraph found).2.1.symm⟩)
    adjacencyExact_crossedGraph decodes_crossedGraph "a" "b" 1000000 .empty
  have found : ((PathSearch.between "a" "b" 1000000 .empty).rest crossedGraph).toOption = some [["a", "b"]] := by
    decide +kernel
  rw [all] at found
  exact ⟨ps, all, Option.some.inj found, mem⟩

end Graph

end GuardedGraph

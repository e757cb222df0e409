import GuardedGraph.Proofs.Adjacency.Reads
import GuardedGraph.Proofs.Contents.Owned

/-!
Hiding elements and showing them again. To those who satisfy the marker the element is gone, to everyone else nothing
has changed, and showing it again restores the graph (`hide_unhide_exact`).
-/

namespace GuardedGraph

open Store (Memory)
open Outcome

/-! ### Markers -/

theorem sees_addMarker (a : Authorizations) (v : Visibility) (hidden : List Visibility) (marker : Visibility) :
    a.sees v (addMarker hidden marker) = (a.sees v hidden && !marker.readableBy a) := by
  have any : Visibility.anyReadableBy (addMarker hidden marker) a =
      (Visibility.anyReadableBy hidden a || marker.readableBy a) := by
    unfold addMarker Visibility.anyReadableBy
    split
    · rename_i there
      cases readable : marker.readableBy a with
      | false => rw [Bool.or_false]
      | true =>
        rw [Bool.or_true, List.any_eq_true]
        exact ⟨marker, List.contains_iff_mem.mp there, readable⟩
    · rw [List.any_append, List.any_cons, List.any_nil, Bool.or_false]
  rw [Authorizations.sees, Authorizations.sees, any, Bool.not_or, Bool.and_assoc]

theorem dropMarker_addMarker {hidden : List Visibility} {marker : Visibility} (fresh : marker ∉ hidden) :
    dropMarker (addMarker hidden marker) marker = hidden := by
  rw [addMarker, if_neg (by simpa using fresh), dropMarker, List.filter_append]
  have kept : hidden.filter (· ≠ marker) = hidden :=
    List.filter_eq_self.mpr fun v mem => decide_eq_true fun same => fresh (same ▸ mem)
  rw [kept]
  simp

/-! ### Marking in the records -/

def EdgeRef.remark (id : String) (hidden : List Visibility) (ref : EdgeRef) : EdgeRef :=
  if ref.edge = id then { ref with hidden } else ref

/-- What other markers on an element make of the record of kind `u` and id `j`: those of an edge are also on its
references at vertices. -/
def Record.remark (t : ElementType) (id : String) (hidden : List Visibility) (u : ElementType) (j : String)
    (r : Record) : Record :=
  if u = t ∧ j = id then r.under hidden
  else if t = .edge ∧ u = .vertex then r.mapRefs (List.map (EdgeRef.remark id hidden))
  else r

theorem EdgeRef.remark_remark (id : String) (before hidden : List Visibility) (ref : EdgeRef) :
    (ref.remark id before).remark id hidden = ref.remark id hidden := by
  by_cases own : ref.edge = id
  · simp only [remark, own, if_true]
  · simp only [remark, own, if_false]

theorem Record.remark_remark (t : ElementType) (id : String) (before hidden : List Visibility) (u : ElementType)
    (j : String) (r : Record) : (r.remark t id before u j).remark t id hidden u j = r.remark t id hidden u j := by
  unfold remark
  split
  · rfl
  · split
    · rw [mapRefs, mapRefs, List.map_map, Function.comp_def]
      simp only [EdgeRef.remark_remark]
      rfl
    · rfl

variable {g : Graph Memory} {t : ElementType} {id : String} {r : Record}

theorem get?_remark (mirrored : Mirrored g.store) (found : g.store.get? t id = some r) (hidden : List Visibility)
    (u : ElementType) (j : String) :
    (g.marked r hidden).store.get? u j = (g.store.get? u j).map (Record.remark t id hidden u j) := by
  obtain ⟨type, rfl⟩ := mirrored.filed _ _ _ found
  have filed := mirrored.filed.put (r.under hidden)
  have put : (g.store.put (r.under hidden)).get? u j =
      if u = t ∧ j = r.id then some (r.under hidden) else g.store.get? u j := by
    rw [Memory.get?_put]
    simp only [Record.under, type, eq_comm]
  have aside (apart : ¬(t = .edge ∧ u = .vertex)) : (g.store.put (r.under hidden)).get? u j =
      (g.store.get? u j).map (Record.remark t r.id hidden u j) := by
    rw [put]
    split
    · rename_i own
      rw [own.1, own.2, found, Option.map_some, Record.remark, if_pos ⟨rfl, rfl⟩]
    · rename_i other
      cases g.store.get? u j with
      | none => rfl
      | some s => rw [Option.map_some, Record.remark, if_neg other, if_neg apart]
  cases t with
  | vertex =>
    rw [Graph.marked_vertex (mirrored.vertex _ r found)]
    exact aside (by simp)
  | edge =>
    obtain ⟨ends, endpoints, -⟩ := mirrored.edge _ r found
    rw [Graph.marked_edge endpoints]
    cases u with
    | edge =>
      rw [Memory.get?_edge_mapEnds filed]
      exact aside (by simp)
    | vertex =>
      have twice := map_own_twice r.id (fun ref => { ref with hidden }) (fun _ => rfl) fun _ => rfl
      rw [Memory.get?_vertex_mapEnds filed ends twice, put, if_neg (by simp)]
      cases at_vertex : g.store.get? .vertex j with
      | none => rfl
      | some s =>
        rw [Option.map_some, Option.map_some, Record.remark, if_neg (by simp), if_pos ⟨rfl, rfl⟩]
        by_cases mem : j ∈ ends.toList
        · simp only [mem, if_true]
          rfl
        · -- away from its endpoints an edge has no references
          have other (ref : EdgeRef) (there : ref ∈ s.edgeRefs) : ref.remark r.id hidden = ref :=
            if_neg fun own => mem ((mirrored.own_of_mem found at_vertex (by simp) there own).mem endpoints)
          simp only [mem, if_false]
          rw [Record.mapRefs, Record.mapRefs, List.map_congr_left other, List.map_id']

theorem get?_marked_own (mirrored : Mirrored g.store) (found : g.store.get? t id = some r)
    (hidden : List Visibility) : (g.marked r hidden).store.get? t id = some (r.under hidden) := by
  rw [get?_remark mirrored found, found, Option.map_some, Record.remark, if_pos ⟨rfl, rfl⟩]

/-- A record is that of the element, or may keep references with the markers of the element, or is left alone. -/
theorem remark_cases (mirrored : Mirrored g.store) (found : g.store.get? t id = some r) (hidden : List Visibility)
    {u : ElementType} {j : String} {s : Record} (there : g.store.get? u j = some s) :
    (s = r ∧ s.remark t id hidden u j = r.under hidden) ∨
    (u = .vertex ∧ (∀ ref ∈ s.edgeRefs, ref.edge = id → ref.hidden = r.hidden) ∧
      s.remark t id hidden u j = s.mapRefs (List.map (EdgeRef.remark id hidden))) ∨
    s.remark t id hidden u j = s := by
  by_cases own : u = t ∧ j = id
  · rw [Record.remark, if_pos own]
    rw [own.1, own.2, found] at there
    obtain rfl := Option.some.inj there
    exact .inl ⟨rfl, rfl⟩
  · rw [Record.remark, if_neg own]
    by_cases refs : t = .edge ∧ u = .vertex
    · rw [if_pos refs]
      obtain ⟨rfl, rfl⟩ := refs
      exact .inr (.inl ⟨rfl, fun ref mem own => (mirrored.own_of_mem found there (by simp) mem own).hidden, rfl⟩)
    · rw [if_neg refs]
      exact .inr (.inr rfl)

/-- Marking an element with the markers that it has changes no record. -/
theorem remark_self (mirrored : Mirrored g.store) (found : g.store.get? t id = some r) {u : ElementType} {j : String}
    {s : Record} (there : g.store.get? u j = some s) : s.remark t id r.hidden u j = s := by
  obtain ⟨rfl, own⟩ | ⟨-, current, refs⟩ | aside := remark_cases mirrored found r.hidden there
  · rw [own]
    rfl
  · have same (ref : EdgeRef) (mem : ref ∈ s.edgeRefs) : ref.remark id r.hidden = ref := by
      unfold EdgeRef.remark
      split
      · rename_i own
        rw [← current ref mem own]
      · rfl
    rw [refs, Record.mapRefs, List.map_congr_left same, List.map_id']
  · exact aside

theorem Store.Memory.ext_get? {m n : Memory} (records : ∀ t id, m.get? t id = n.get? t id)
    (contents : m.contents = n.contents) : m = n := by
  obtain ⟨⟨vertices, edges⟩, kept⟩ := m
  obtain ⟨⟨vertices', edges'⟩, kept'⟩ := n
  obtain rfl : vertices = vertices' := Table.ext_get? (records .vertex)
  obtain rfl : edges = edges' := Table.ext_get? (records .edge)
  obtain rfl : kept = kept' := contents
  rfl

theorem marked_back (mirrored : Mirrored g.store) (found : g.store.get? t id = some r) (hidden : List Visibility) :
    (g.marked r hidden).marked (r.under hidden) r.hidden = g := by
  have mid := mirrored_marked mirrored found hidden
  have changed := get?_marked_own mirrored found hidden
  have same : ((g.marked r hidden).marked (r.under hidden) r.hidden).store = g.store := by
    refine Memory.ext_get? (fun u j => ?_) ((contents_marked _ _ _).trans (contents_marked _ _ _))
    rw [get?_remark mid changed, get?_remark mirrored found, Option.map_map]
    cases there : g.store.get? u j with
    | none => rfl
    | some s =>
      rw [Option.map_some, Function.comp_apply, Record.remark_remark, remark_self mirrored found there]
  exact congrArg (fun store => { g with store }) same

/-! ### What readers see -/

theorem view?_under {u : ElementType} {hidden : List Visibility} {b : Authorizations}
    (same : b.sees r.visibility hidden = b.sees r.visibility r.hidden) :
    (r.under hidden).view? u b = r.view? u b := by
  have visible : (r.under hidden).visibleTo b = r.visibleTo b := same
  unfold Record.view?
  rw [visible]
  cases u <;> rfl

theorem view?_mapRefs {f : List EdgeRef → List EdgeRef} {b : Authorizations}
    (same : ((f r.edgeRefs).filter (·.visibleTo b)).map (fun ref => { ref with hidden := [] }) =
      (r.edgeRefs.filter (·.visibleTo b)).map fun ref => { ref with hidden := [] }) :
    (r.mapRefs f).view? .vertex b = r.view? .vertex b := by
  have links : (r.mapRefs f).links b .vertex = r.links b .vertex := congrArg Except.ok same
  unfold Record.view?
  rw [links]
  rfl

/-- To those who do not satisfy it, one more marker makes no difference. -/
theorem view?_remark (mirrored : Mirrored g.store) (found : g.store.get? t id = some r) {marker : Visibility}
    {b : Authorizations} (blind : marker.readableBy b = false) {u : ElementType} {j : String} {s : Record}
    (there : g.store.get? u j = some s) :
    (s.remark t id (addMarker r.hidden marker) u j).view? u b = s.view? u b := by
  have sees (v : Visibility) : b.sees v (addMarker r.hidden marker) = b.sees v r.hidden := by
    rw [sees_addMarker, blind, Bool.not_false, Bool.and_true]
  obtain ⟨rfl, own⟩ | ⟨rfl, current, refs⟩ | aside := remark_cases mirrored found (addMarker r.hidden marker) there
  · rw [own]
    exact view?_under (sees _)
  · have visible (ref : EdgeRef) (mem : ref ∈ s.edgeRefs) :
        (ref.remark id (addMarker r.hidden marker)).visibleTo b = ref.visibleTo b := by
      unfold EdgeRef.remark
      split
      · rename_i own
        rw [EdgeRef.visibleTo, EdgeRef.visibleTo, sees, current ref mem own]
      · rfl
    have stripped (ref : EdgeRef) : { ref.remark id (addMarker r.hidden marker) with hidden := [] } =
        { ref with hidden := [] } := by
      unfold EdgeRef.remark
      split <;> rfl
    rw [refs]
    refine view?_mapRefs ?_
    rw [List.filter_map, List.map_map]
    exact (List.map_congr_left fun ref _ => stripped ref).trans (congrArg _ (List.filter_congr visible))
  · rw [aside]

theorem candidates_ofIds {q : Query} {cursor : Store.Cursor} (asked : q.candidates g t = .ok cursor) :
    ∃ ids, cursor = .ofIds t ids := by
  unfold Query.candidates at asked
  split at asked
  · exact ⟨_, (Except.ok.inj asked).symm⟩
  · split at asked
    · exact ⟨_, (Except.ok.inj asked).symm⟩
    · exact nomatch asked
  · cases t with
    | edge => exact ⟨_, (Except.ok.inj asked).symm⟩
    | vertex =>
      obtain ⟨edges, -, asked⟩ := bind_ok asked
      exact ⟨_, (Except.ok.inj asked).symm⟩

/-- Results by ids show elements as the reader gets them by id. -/
theorem get?_of_mem_ofIds (filed : g.store.Filed) {ids : List String} {b : Authorizations} {keep : View t → Bool}
    {skip : Nat} {limit : Option Nat} {v : View t}
    (mem : .ok v ∈ Results.toList (g.found t) ⟨.ofIds t ids, b, keep, skip, limit⟩) :
    g.get? t v.id b = .ok (some v) := by
  have sound : v ∈ Results.sound (Results.toList (g.found t) ⟨.ofIds t ids, b, keep, skip, limit⟩) :=
    List.mem_filterMap.mpr ⟨_, mem, rfl⟩
  rw [Graph.sound_toList] at sound
  obtain ⟨id, -, got⟩ := Graph.mem_seen.mp (List.mem_filter.mp (Results.mem_of_mem_cut sound)).1
  rw [Graph.id_of_get? filed got]
  exact got

/-- No read shows the element to the reader. -/
structure Graph.Conceals (g : Graph Memory) (t : ElementType) (id : String) (b : Authorizations) : Prop where
  get : g.get? t id b = .ok none
  scan : ∃ items, g.answers (g.scan t b) = .ok items ∧ ∀ v, .ok v ∈ items → v.id ≠ id
  fetch : ∀ ids, ∃ items, g.answers (g.fetch t ids b) = .ok items ∧ ∀ v, .ok v ∈ items → v.id ≠ id
  query : ∀ (q : Query) items, q.reader = b → g.answers (q.run g t) = .ok items → ∀ v, .ok v ∈ items → v.id ≠ id
  refs : t = .edge → ∀ vertex v, g.get? .vertex vertex b = .ok (some v) → ∀ ref ∈ Vertex.edgeRefs v, ref.edge ≠ id

theorem conceals_of_get {b : Authorizations} (filed : g.store.Filed) (hidden : g.get? t id b = .ok none)
    (refs : t = .edge → ∀ vertex v, g.get? .vertex vertex b = .ok (some v) →
      ∀ ref ∈ Vertex.edgeRefs v, ref.edge ≠ id) : g.Conceals t id b := by
  have other {ids : List String} {keep : View t → Bool} {skip : Nat} {limit : Option Nat} (v : View t)
      (mem : .ok v ∈ Results.toList (g.found t) ⟨.ofIds t ids, b, keep, skip, limit⟩) : v.id ≠ id := by
    rintro rfl
    have got := get?_of_mem_ofIds filed mem
    rw [hidden] at got
    exact nomatch got
  exact {
    get := hidden
    scan := ⟨_, rfl, other⟩
    fetch := fun ids => ⟨_, rfl, other⟩
    query := by
      rintro q items rfl answered v mem
      obtain ⟨r, run, rfl⟩ := map_ok answered
      obtain ⟨_, -, run⟩ := bind_ok run
      obtain ⟨cursor, asked, run⟩ := bind_ok run
      obtain ⟨ids, rfl⟩ := candidates_ofIds asked
      obtain rfl := pure_ok run
      exact other v mem
    refs := refs }

/-! ### The two operations -/

theorem exec_mark_ok {change : List Visibility → Visibility → List Visibility} {marker : Visibility}
    {a : Authorizations} (filed : g.store.Filed) (found : g.store.get? t id = some r)
    (readable : r.visibility.readableBy a) (satisfied : marker.readableBy a) :
    Commit.exec (Commit.mark change t id marker a) g = (.ok (), g.marked r (change r.hidden marker)) := by
  have markable : g.markable t id marker a = .ok r := by
    simp only [Graph.markable, satisfied, found, readable, Bool.not_true, Bool.false_eq_true, if_false]
  rw [Commit.exec_mark _ _ _ _ _ filed, markable]

theorem conceals_marked (mirrored : Mirrored g.store) (found : g.store.get? t id = some r) {marker : Visibility}
    {b : Authorizations} (satisfied : marker.readableBy b) :
    (g.marked r (addMarker r.hidden marker)).Conceals t id b := by
  have mid := mirrored_marked mirrored found (addMarker r.hidden marker)
  have marked := get?_marked_own mirrored found (addMarker r.hidden marker)
  have blocked (v : Visibility) : b.sees v (addMarker r.hidden marker) = false := by
    rw [sees_addMarker, satisfied, Bool.not_true, Bool.and_false]
  refine conceals_of_get mid.filed ?_ ?_
  · rw [Graph.get?_some marked]
    refine view?_of_not_visible fun visible => ?_
    exact absurd visible.2 (by simp [Record.visibleTo, Record.under, blocked])
  · rintro rfl vertex v got ref mem own
    obtain ⟨s, at_vertex, view⟩ := Graph.get?_some_iff.mp got
    rw [edgeRefs_of_view view] at mem
    obtain ⟨stored, there, rfl⟩ := List.mem_map.mp mem
    obtain ⟨there, visible⟩ := List.mem_filter.mp there
    have refers := mid.own_of_mem marked at_vertex (by simp) there own
    rw [EdgeRef.visibleTo, refers.hidden] at visible
    exact absurd visible (by simp [Record.under, blocked])

theorem get?_marked_blind (mirrored : Mirrored g.store) (found : g.store.get? t id = some r) {marker : Visibility}
    {b : Authorizations} (blind : marker.readableBy b = false) (u : ElementType) (j : String) :
    (g.marked r (addMarker r.hidden marker)).get? u j b = g.get? u j b := by
  have marked := get?_remark mirrored found (addMarker r.hidden marker) u j
  cases there : g.store.get? u j with
  | none =>
    rw [there] at marked
    rw [Graph.get?_none there, Graph.get?_none marked]
  | some s =>
    rw [there] at marked
    rw [Graph.get?_some there, Graph.get?_some marked, view?_remark mirrored found blind there]

/-- Hiding an element conceals it from exactly those who satisfy the marker, and showing it again, which its hider
can, undoes the hiding. -/
theorem hide_unhide_exact (reachable : g.Reachable) (found : g.store.get? t id = some r) {a : Authorizations}
    (readable : r.visibility.readableBy a) {marker : Visibility} (satisfied : marker.readableBy a)
    (fresh : marker ∉ r.hidden) :
    (Operation.hide t id marker a).outcome g = .ok () ∧
    (∀ b, marker.readableBy b → ((Operation.hide t id marker a).after g).Conceals t id b) ∧
    (∀ b, marker.readableBy b = false →
      ∀ u j, ((Operation.hide t id marker a).after g).get? u j b = g.get? u j b) ∧
    (Operation.unhide t id marker a).outcome ((Operation.hide t id marker a).after g) = .ok () ∧
    (Operation.unhide t id marker a).after ((Operation.hide t id marker a).after g) = g := by
  have mirrored := mirrored_of_reachable reachable
  have hide : Commit.exec (Operation.hide t id marker a).commit g =
      (.ok (), g.marked r (addMarker r.hidden marker)) := exec_mark_ok mirrored.filed found readable satisfied
  have hidden : (Operation.hide t id marker a).after g = g.marked r (addMarker r.hidden marker) :=
    congrArg Prod.snd hide
  have unhide : Commit.exec (Operation.unhide t id marker a).commit (g.marked r (addMarker r.hidden marker)) =
      (.ok (), (g.marked r (addMarker r.hidden marker)).marked (r.under (addMarker r.hidden marker))
        (dropMarker (addMarker r.hidden marker) marker)) :=
    exec_mark_ok (mirrored_marked mirrored found _).filed (get?_marked_own mirrored found _) readable satisfied
  rw [dropMarker_addMarker fresh, marked_back mirrored found] at unhide
  rw [hidden]
  exact ⟨congrArg Prod.fst hide, fun b => conceals_marked mirrored found,
    fun b blind => get?_marked_blind mirrored found blind, congrArg Prod.fst unhide, congrArg Prod.snd unhide⟩

/-- Two vertices and an edge between them. -/
def pairGraph : Graph Memory :=
  let g := (Operation.save (.vertex ⟨some "v1", .unrestricted, []⟩) .empty).after (.ofStore .empty .standard none)
  let g := (Operation.save (.vertex ⟨some "v2", .unrestricted, []⟩) .empty).after g
  (Operation.save (.edge ⟨some "e", .unrestricted, []⟩ ⟨"knows", "v1", "v2"⟩) .empty).after g

theorem hide_unhide_exact_pair : ∃ r, pairGraph.store.get? .edge "e" = some r ∧
    ((Operation.hide .edge "e" onlyB (.ofList ["b"])).after pairGraph).Conceals .edge "e" (.ofList ["b"]) ∧
    (∀ u j, ((Operation.hide .edge "e" onlyB (.ofList ["b"])).after pairGraph).get? u j .empty =
      pairGraph.get? u j .empty) ∧
    (Operation.unhide .edge "e" onlyB (.ofList ["b"])).after
      ((Operation.hide .edge "e" onlyB (.ofList ["b"])).after pairGraph) = pairGraph := by
  have reachable : pairGraph.Reachable := .step _ (.step _ (.step _ (.start _ _ _)))
  have stored : (pairGraph.store.get? .edge "e").map (fun r => (r.visibility, r.hidden)) =
      some (.unrestricted, []) := by decide +kernel
  obtain ⟨r, found, shape⟩ := Option.map_eq_some_iff.mp stored
  obtain ⟨visibility, hidden⟩ := Prod.mk.inj shape
  have readable : r.visibility.readableBy (.ofList ["b"]) := visibility ▸ rfl
  have satisfied : onlyB.readableBy (.ofList ["b"]) := by decide +kernel
  have fresh : onlyB ∉ r.hidden := hidden ▸ List.not_mem_nil
  obtain ⟨-, conceals, blind, -, back⟩ := hide_unhide_exact reachable found readable satisfied fresh
  exact ⟨r, found, conceals _ satisfied, blind _ (by decide +kernel), back⟩

end GuardedGraph

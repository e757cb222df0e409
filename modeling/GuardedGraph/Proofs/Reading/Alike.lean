import GuardedGraph.Query.Basic
import GuardedGraph.Graph.Paths
import GuardedGraph.Proofs.Reading.Views
import GuardedGraph.Proofs.Record.Decoding

/-!
What a reader can tell about a store. Two graphs in which a reader has the same view of every element
give that reader the same answers to everything (`read_alike`).
-/

namespace GuardedGraph

open Store (Backend Cursor Memory)
open Outcome

/-! ### The strings of a record -/

/-- The strings among the property values of a record, as far as they decode. -/
def Record.texts (r : Record) : List String :=
  r.properties.filterMap fun p => (decodeAttached p.value).toOption.bind Value.text?

theorem mem_texts_of_view {t : ElementType} {r : Record} {a : Authorizations} {v : View t} {p : Property} {s : String}
    (h : r.view? t a = .ok (some v)) (hp : p ∈ v.properties) (hs : p.value.text? = some s) : s ∈ r.texts := by
  obtain ⟨-, -, ps, links, hps, -, rfl⟩ := view?_some_iff.mp h
  obtain ⟨q, hq, e⟩ := exists_left_of_mem (mapM_ok_iff.mp hps) hp
  refine List.mem_filterMap.mpr ⟨q, (List.mem_filter.mp hq).1, ?_⟩
  rw [decodeWith_value e]
  exact hs

theorem mem_terms_of_showsTerms {t : ElementType} {r : Record} {a : Authorizations} {v : View t} {terms : List String}
    (h : r.view? t a = .ok (some v)) (hs : Query.showsTerms terms v) {term : String} (ht : term ∈ terms) :
    term ∈ r.texts.flatMap Search.terms := by
  have one := List.all_eq_true.mp hs term ht
  obtain ⟨p, hp, hany⟩ := List.any_eq_true.mp one
  obtain ⟨s, hs, hc⟩ := (Option.any_eq_true _ _).mp hany
  exact List.mem_flatMap.mpr ⟨s, mem_texts_of_view h hp hs, List.contains_iff_mem.mp hc⟩

/-! ### Searching an index -/

theorem mem_search {x : Search.Index} {t : ElementType} {text id : String} :
    id ∈ x.search t text ↔
      Search.terms text ≠ [] ∧ ∀ term ∈ Search.terms text, ((x.get t).ids term).contains id := by
  unfold Search.Index.search
  cases Search.terms text with
  | nil => simp
  | cons first rest =>
    have first_iff : id ∈ ((x.get t).ids first).keys ↔ ((x.get t).ids first).contains id :=
      Table.mem_keys_iff_contains
    simp [first_iff]

theorem ascending_search (x : Search.Index) (t : ElementType) (text : String) :
    (x.search t text).Pairwise (· < ·) := by
  unfold Search.Index.search
  split
  · exact .nil
  · exact (Table.ascending_keys _).filter _

/-! ### Sound graphs and equal views -/

namespace Graph

/-- All records decode, and edges have endpoints. -/
def Decodes (g : Graph Memory) : Prop :=
  ∀ t id r, g.store.get? t id = some r → (∃ w, r.whole = .ok w) ∧ (t = .edge → r.endpoints.isSome)

/-- The index holds, for each stored element, exactly the terms of its strings. -/
def IndexedBy (g : Graph Memory) (x : Search.Index) : Prop :=
  ∀ t id r, g.store.get? t id = some r →
    ∀ term, ((x.get t).ids term).contains id ↔ term ∈ r.texts.flatMap Search.terms

/-- A reader has the same view of each element in both graphs, whose indexes hold the same kinds of terms. -/
structure SameViews (a : Authorizations) (g h : Graph Memory) : Prop where
  decodes : g.Decodes ∧ h.Decodes
  kinds : g.kinds = h.kinds
  indexes : (g.index = none ∧ h.index = none) ∨
    ∃ x y, g.index = some x ∧ h.index = some y ∧ g.IndexedBy x ∧ h.IndexedBy y
  views : ∀ t id, g.get? t id a = h.get? t id a

def answers {t : ElementType} (g : Graph Memory) (r : Except Error (Results t)) :
    Except Error (List (Except Error (View t))) := r.map (·.toList (g.found t))

/-- Every read of `a` is answered alike: elements by id, scans, lists of ids, queries with any predicates,
labels, direction and page, walks from a vertex that `a` holds, and path searches from any point on. -/
structure ReadAlike (a : Authorizations) (g h : Graph Memory) : Prop where
  get : ∀ t id, g.get? t id a = h.get? t id a
  scan : ∀ t, g.answers (g.scan t a) = h.answers (h.scan t a)
  fetch : ∀ t ids, g.answers (g.fetch t ids a) = h.answers (h.fetch t ids a)
  query : ∀ t (q : Query), q.reader = a → g.answers (q.run g t) = h.answers (q.run h t)
  edgesOf : ∀ v d labels, g.edgesOf v d labels a = h.edgesOf v d labels a
  edgesTo : ∀ v other d, g.edgesTo v other d a = h.edgesTo v other d a
  neighbours : ∀ v d, g.neighbours v d a = h.neighbours v d a
  nextPath : ∀ s : PathSearch, s.reader = a → s.next g = s.next h
  paths : ∀ s : PathSearch, s.reader = a → s.rest g = s.rest h

variable {g h : Graph Memory} {a : Authorizations}

/-! ### Reads by views -/

theorem get?_ok (decodes : g.Decodes) (t : ElementType) (id : String) (a : Authorizations) :
    ∃ v, g.get? t id a = .ok v := by
  cases found : g.store.get? t id with
  | none => exact ⟨none, get?_none found⟩
  | some r =>
    obtain ⟨⟨w, hw⟩, endpoints⟩ := decodes t id r found
    rw [get?_some found]
    by_cases ht : r.type = t
    · exact view?_ok_of_whole hw (fun e => endpoints (ht.symm.trans e)) t a
    · exact ⟨none, view?_of_not_visible fun v => ht v.1⟩

section

variable (views : ∀ t id, g.get? t id a = h.get? t id a)
include views

theorem fetchAll_congr (t : ElementType) (ids : List String) : g.fetchAll t ids a = h.fetchAll t ids a := by
  simp only [fetchAll_eq, views]

theorem edgesOf_congr (v : Vertex) (d : Direction) (labels : List String) :
    g.edgesOf v d labels a = h.edgesOf v d labels a := fetchAll_congr views _ _

theorem neighbours_congr (v : Vertex) (d : Direction) : g.neighbours v d a = h.neighbours v d a := by
  simp only [neighbours, edgesOf_congr views, fetchAll_congr views]

theorem fetch_congr (t : ElementType) (ids : List String) (keep : View t → Bool) (skip : Nat) (limit : Option Nat) :
    g.answers (.ok ⟨.ofIds t ids, a, keep, skip, limit⟩) = h.answers (.ok ⟨.ofIds t ids, a, keep, skip, limit⟩) := by
  simp only [answers, Except.map, Results.toList_ofIds, views]

theorem ascending_congr {t : ElementType} {l m : List String} {keep : View t → Bool} (skip : Nat) (limit : Option Nat)
    (hl : l.Pairwise (· < ·)) (hm : m.Pairwise (· < ·))
    (same : ∀ id, (Results.shown keep (g.get? t id a)).isSome → (id ∈ l ↔ id ∈ m)) :
    g.answers (.ok ⟨.ofIds t l, a, keep, skip, limit⟩) = h.answers (.ok ⟨.ofIds t m, a, keep, skip, limit⟩) := by
  simp only [answers, Except.map, Results.toList_ofIds, ← views]
  rw [ascending_filterMap_congr hl hm same]

theorem scan_congr {t : ElementType} (keep : View t → Bool) (skip : Nat) (limit : Option Nat) :
    g.answers (.ok ⟨.ofIds t (g.store.ids (.all t)), a, keep, skip, limit⟩) =
      h.answers (.ok ⟨.ofIds t (h.store.ids (.all t)), a, keep, skip, limit⟩) := by
  refine ascending_congr views skip limit ((Table.ascending_keys _).filter _) ((Table.ascending_keys _).filter _)
    fun id shown => ?_
  have stored : ∀ k : Graph Memory, k.get? t id a = g.get? t id a → id ∈ k.store.ids (.all t) := by
    intro k hk
    cases found : k.store.get? t id with
    | none =>
      rw [get?_none found] at hk
      rw [← hk] at shown
      exact absurd shown (by simp [Results.shown])
    | some r => exact mem_ids.mpr ⟨r, found⟩
  exact ⟨fun _ => stored h (views t id).symm, fun _ => stored g rfl⟩

end

/-! ### Queries -/

/-- An element that a text query shows is under all terms of the text, wherever the reader sees them. -/
theorem mem_search_of_shown {x : Search.Index} {t : ElementType} {q : Query} {text id : String} (decodes : g.Decodes)
    (indexed : g.IndexedBy x) (source : q.source = .text text)
    (shown : (Results.shown q.keeps (g.get? t id q.reader)).isSome) :
    id ∈ x.search t text ↔ Search.terms text ≠ [] := by
  rw [mem_search]
  refine ⟨fun found => found.1, fun nonempty => ⟨nonempty, fun term ht => ?_⟩⟩
  obtain ⟨v, hv⟩ := get?_ok decodes t id q.reader
  rw [hv] at shown
  cases v with
  | none => exact absurd shown (by simp [Results.shown])
  | some v =>
    have kept : q.keeps v = true := by
      by_contra dropped
      simp [Results.shown, dropped] at shown
    simp only [Query.keeps, Query.terms, source, Bool.and_eq_true] at kept
    cases found : g.store.get? t id with
    | none => rw [get?_none found] at hv; exact absurd (Except.ok.inj hv) (by simp)
    | some r =>
      rw [get?_some found] at hv
      exact (indexed t id r found term).mpr (mem_terms_of_showsTerms hv kept.1.2 ht)

theorem query_congr (same : SameViews a g h) (t : ElementType) (q : Query) (reader : q.reader = a) :
    g.answers (q.run g t) = h.answers (q.run h t) := by
  obtain ⟨decodes, kinds, indexes, views⟩ := same
  subst reader
  unfold Query.run
  rw [kinds]
  cases q.predicates.forM fun p => p.check (h.kinds.get? p.name) with
  | error e => rfl
  | ok _ =>
    cases hs : q.source with
    | everything =>
      simp only [Query.candidates, hs]
      exact scan_congr views q.keeps q.skip q.limit
    | around v =>
      cases t with
      | edge =>
        simp only [Query.candidates, hs]
        exact fetch_congr views .edge _ q.keeps q.skip q.limit
      | vertex =>
        simp only [Query.candidates, hs, fetchAll_congr views]
        cases h.fetchAll .edge (edgeIds (q.followed v)) q.reader with
        | error e => rfl
        | ok edges => exact fetch_congr views .vertex _ q.keeps q.skip q.limit
    | text text =>
      rcases indexes with ⟨hg, hh⟩ | ⟨x, y, hg, hh, hx, hy⟩
      · simp only [Query.candidates, hs, hg, hh]
        rfl
      · simp only [Query.candidates, hs, hg, hh]
        refine ascending_congr views q.skip q.limit (ascending_search ..) (ascending_search ..) fun id shown => ?_
        rw [mem_search_of_shown decodes.1 hx hs shown]
        rw [views] at shown
        rw [mem_search_of_shown decodes.2 hy hs shown]

end Graph

/-! ### Paths -/

namespace PathSearch

variable {g h : Graph Memory} {a : Authorizations} (views : ∀ t id, g.get? t id a = h.get? t id a)
include views

theorem begin_congr {s : PathSearch} (reader : s.reader = a) : s.begin g = s.begin h := by
  subst reader
  simp only [begin, views]

theorem neighbours_congr {s : PathSearch} (reader : s.reader = a) (vertex : String) :
    s.neighbours g vertex = s.neighbours h vertex := by
  subst reader
  simp only [neighbours, views, Graph.fetchAll_congr views]

theorem extend_congr {s : PathSearch} (reader : s.reader = a) (w : Trail) : s.extend g w = s.extend h w := by
  simp only [extend, neighbours_congr views reader]

omit views in
theorem reader_extend {s s' : PathSearch} {w : Trail} (done : s.extend g w = .ok s') : s'.reader = s.reader := by
  obtain ⟨others, -, done⟩ := bind_ok done
  rw [← pure_ok done]

omit views in
theorem reader_begin {s s' : PathSearch} (done : s.begin g = .ok s') : s'.reader = s.reader := by
  obtain ⟨first, -, done⟩ := bind_ok done
  split at done
  · rw [← pure_ok done]
  · obtain ⟨second, -, done⟩ := bind_ok done
    repeat' split at done
    all_goals rw [← pure_ok done]

theorem sweep_congr (ws : List Trail) {s : PathSearch} (reader : s.reader = a) : sweep g ws s = sweep h ws s := by
  induction ws generalizing s with
  | nil => rfl
  | cons w ws ih =>
    rw [sweep, sweep, extend_congr views reader]
    cases done : s.extend h w with
    | error e => rfl
    | ok s' =>
      simp only
      rw [ih ((reader_extend done).trans reader)]

omit views in
theorem reader_sweep (ws : List Trail) (s : PathSearch) : (sweep g ws s).2.reader = s.reader := by
  induction ws generalizing s with
  | nil => rfl
  | cons w ws ih =>
    rw [sweep]
    cases done : s.extend g w with
    | error e => rfl
    | ok s' =>
      simp only
      have kept := reader_extend done
      split
      · exact (ih s').trans kept
      · exact kept

theorem seek_congr (left : Nat) {s : PathSearch} (reader : s.reader = a) : seek g left s = seek h left s := by
  induction left generalizing s with
  | zero =>
    rw [seek, seek, sweep_congr views _ reader]
    rcases sweep h s.level s with ⟨e | _, s'⟩
    · rfl
    · cases hf : s'.found <;> simp only [hf]
  | succ left ih =>
    rw [seek, seek, sweep_congr views _ reader]
    have kept := (reader_sweep (g := h) s.level s).trans reader
    rcases hs : sweep h s.level s with ⟨e | _, s'⟩
    · rfl
    · rw [hs] at kept
      cases hf : s'.found with
      | nil =>
        simp only [hf]
        rw [ih (show (s'.descend left).reader = a from kept)]
      | cons p ps => simp only [hf]

theorem next_congr {s : PathSearch} (reader : s.reader = a) : s.next g = s.next h := by
  have begun : (if s.started then .ok s else s.begin g : Except Error PathSearch) =
      if s.started then .ok s else s.begin h := by
    rw [begin_congr views reader]
  simp only [next, begun]
  rcases hb : (if s.started then .ok s else s.begin h : Except Error PathSearch) with e | s'
  · rfl
  · have kept : s'.reader = a := by
      split at hb
      · rw [← Except.ok.inj hb, reader]
      · exact (reader_begin hb).trans reader
    simp only [seek_congr views s'.left (s := { s' with started := true }) kept]

theorem foldlM_extend_congr (ws : List Trail) {s : PathSearch} (reader : s.reader = a) :
    ws.foldlM (extend g) s = ws.foldlM (extend h) s := by
  induction ws generalizing s with
  | nil => rfl
  | cons w ws ih =>
    rw [List.foldlM_cons, List.foldlM_cons, extend_congr views reader]
    cases done : s.extend h w with
    | error e => rfl
    | ok s' => exact ih ((reader_extend done).trans reader)

omit views in
theorem reader_foldlM_extend {ws : List Trail} {s s' : PathSearch} (done : ws.foldlM (extend g) s = .ok s') :
    s'.reader = s.reader := by
  induction ws generalizing s with
  | nil => rw [← pure_ok done]
  | cons w ws ih =>
    rw [List.foldlM_cons] at done
    obtain ⟨next, step, done⟩ := bind_ok done
    exact (ih done).trans (reader_extend step)

theorem exhaust_congr (left : Nat) {s : PathSearch} (reader : s.reader = a) : exhaust g left s = exhaust h left s := by
  induction left generalizing s with
  | zero => rw [exhaust, exhaust, foldlM_extend_congr views _ reader]
  | succ left ih =>
    rw [exhaust, exhaust, foldlM_extend_congr views _ reader]
    cases done : s.level.foldlM (extend h) s with
    | error e => rfl
    | ok s' =>
      have kept : (s'.descend left).reader = a := (reader_foldlM_extend done).trans reader
      show (if s'.deeper.isEmpty then _ else exhaust g left (s'.descend left)) =
        if s'.deeper.isEmpty then _ else exhaust h left (s'.descend left)
      rw [ih kept]

theorem rest_congr {s : PathSearch} (reader : s.reader = a) : s.rest g = s.rest h := by
  cases started : s.started with
  | true =>
    simp only [rest, started, if_true]
    exact exhaust_congr views s.left reader
  | false =>
    simp only [rest, started, Bool.false_eq_true, if_false, begin_congr views reader]
    cases hb : s.begin h with
    | error e => rfl
    | ok s' => exact exhaust_congr views s'.left ((reader_begin hb).trans reader)

end PathSearch

/-! ### All reads -/

namespace Graph

variable {g h : Graph Memory} {a : Authorizations}

theorem readAlike_of_sameViews (same : SameViews a g h) : ReadAlike a g h where
  get := same.views
  scan _ := scan_congr same.views _ 0 none
  fetch t ids := fetch_congr same.views t ids _ 0 none
  query t q reader := query_congr same t q reader
  edgesOf := edgesOf_congr same.views
  edgesTo _ _ _ := fetchAll_congr same.views .edge _
  neighbours := neighbours_congr same.views
  nextPath _ reader := PathSearch.next_congr same.views reader
  paths _ reader := PathSearch.rest_congr same.views reader

/-- The graph as if an element had never been stored; what an index has of it may remain. -/
def without (g : Graph Memory) (t : ElementType) (id : String) : Graph Memory :=
  { g with store := g.store.delete t id }

theorem stored_without {t u : ElementType} {id j : String} {r : Record}
    (found : (g.without t id).store.get? u j = some r) : g.store.get? u j = some r := by
  have lookup := Memory.get?_delete g.store t u id j
  rw [show (g.store.delete t id).get? u j = some r from found] at lookup
  split at lookup
  · simp at lookup
  · exact lookup.symm

theorem sameViews_without {t : ElementType} {id : String} (decodes : g.Decodes)
    (indexed : ∀ x, g.index = some x → g.IndexedBy x) (hidden : g.get? t id a = .ok none) :
    SameViews a g (g.without t id) where
  decodes := ⟨decodes, fun u j r found => decodes u j r (stored_without found)⟩
  kinds := rfl
  indexes := by
    cases hx : g.index with
    | none => exact .inl ⟨rfl, hx⟩
    | some x =>
      exact .inr ⟨x, x, rfl, hx, indexed x hx, fun u j r found => indexed x hx u j r (stored_without found)⟩
  views u j := by
    have lookup := Memory.get?_delete g.store t u id j
    by_cases here : t = u ∧ id = j
    · obtain ⟨rfl, rfl⟩ := here
      rw [if_pos ⟨rfl, rfl⟩] at lookup
      rw [hidden, get?_none (g := g.without t id) lookup]
    · rw [if_neg here] at lookup
      cases found : g.store.get? u j with
      | none => rw [get?_none found, get?_none (g := g.without t id) (lookup.trans found)]
      | some r => rw [get?_some found, get?_some (g := g.without t id) (lookup.trans found)]

/-- Reads depend on nothing but the reader's views. So no read tells an element that is hidden from its
reader, or that the reader cannot read, from one that is not stored. -/
theorem read_alike (a : Authorizations) :
    (∀ g h : Graph Memory, SameViews a g h → ReadAlike a g h) ∧
      ∀ (g : Graph Memory) (t : ElementType) (id : String), g.Decodes → (∀ x, g.index = some x → g.IndexedBy x) →
        g.get? t id a = .ok none → ReadAlike a g (g.without t id) :=
  ⟨fun _ _ same => readAlike_of_sameViews same,
    fun _ _ _ decodes indexed hidden => readAlike_of_sameViews (sameViews_without decodes indexed hidden)⟩

end Graph

/-! ### A secret vertex -/

def onlyB : Visibility := ⟨"b", some (.term "b"), by decide⟩

namespace Graph

/-- A vertex with a text, for holders of `b` alone. -/
def secretVertex : Record :=
  ⟨.vertex, "v1", ⟨"b", some (.term "b"), by decide⟩, [],
    [⟨"", "name", .unrestricted, (Value.string "secret").encode, [], []⟩], none, []⟩

def secretIndex : Search.Index :=
  ⟨⟨Table.empty.insert "v1" (Table.empty.insert "secret" ()),
    Table.empty.insert "secret" (Table.empty.insert "v1" ())⟩, .empty⟩

def secretGraph : Graph Memory := .ofStore (Memory.empty.put secretVertex) .standard (some secretIndex)

theorem stored_secretGraph {t : ElementType} {id : String} {r : Record}
    (found : secretGraph.store.get? t id = some r) : t = .vertex ∧ id = "v1" ∧ r = secretVertex := by
  have lookup := Memory.get?_put Memory.empty secretVertex t id
  rw [show (Memory.empty.put secretVertex).get? t id = some r from found] at lookup
  split at lookup
  · next here => exact ⟨here.1.symm, here.2.symm, Option.some.inj lookup⟩
  · cases t <;> simp [Memory.get?, Memory.empty, PerType.get] at lookup

theorem decodes_secretGraph : secretGraph.Decodes := by
  intro t id r found
  obtain ⟨rfl, rfl, rfl⟩ := stored_secretGraph found
  exact ⟨ok_of_isOk (by decide +kernel), by simp⟩

theorem indexedBy_secretIndex : secretGraph.IndexedBy secretIndex := by
  intro t id r found term
  obtain ⟨rfl, rfl, rfl⟩ := stored_secretGraph found
  rw [show secretVertex.texts.flatMap Search.terms = ["secret"] by decide +kernel]
  by_cases ht : "secret" = term
  · subst ht
    decide
  · simp [secretIndex, PerType.get, Search.Shelf.ids, Table.get?_insert, Table.contains, ht, Ne.symm ht]

theorem views_secretGraph (t : ElementType) (id : String) : secretGraph.get? t id .empty = .ok none := by
  cases found : secretGraph.store.get? t id with
  | none => exact get?_none found
  | some r =>
    obtain ⟨rfl, rfl, rfl⟩ := stored_secretGraph found
    rw [get?_some found]
    exact view?_of_not_visible (by decide)

theorem read_alike_secret : ReadAlike .empty secretGraph (.ofStore .empty .standard (some .empty)) ∧
    ReadAlike .empty secretGraph (secretGraph.without .vertex "v1") := by
  refine ⟨(read_alike .empty).1 _ _ ⟨⟨decodes_secretGraph, fun t id r found => ?_⟩, rfl,
    .inr ⟨secretIndex, .empty, rfl, rfl, indexedBy_secretIndex, fun t id r found => ?_⟩, fun t id => ?_⟩,
    (read_alike .empty).2 _ _ _ decodes_secretGraph
      (fun x hx => Option.some.inj hx ▸ indexedBy_secretIndex) (views_secretGraph .vertex "v1")⟩
  · cases t <;> simp [ofStore, Memory.get?, Memory.empty, PerType.get] at found
  · cases t <;> simp [ofStore, Memory.get?, Memory.empty, PerType.get] at found
  · rw [views_secretGraph]
    cases t <;> rfl

end Graph

end GuardedGraph

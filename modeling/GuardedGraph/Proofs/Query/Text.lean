import GuardedGraph.Proofs.Query.Exact
import GuardedGraph.Proofs.Search.Indexed

/-!
Queries by text against queries of everything. Over an index that knows all that is stored, a query by text gives
what the same query of everything gives, restricted to elements that show all terms (`text_queries_exact`).
-/

namespace GuardedGraph

open Store (Memory)
open Query (checked)

/-- Every term is one of some text among the values that the reader sees. -/
def View.Mentions {t : ElementType} (v : View t) (terms : List String) : Prop :=
  ∀ term ∈ terms, ∃ p ∈ v.properties, ∃ text, p.value = .string text ∧ term ∈ Search.terms text

theorem Value.text?_eq_some {v : Value} {text : String} : v.text? = some text ↔ v = .string text := by
  cases v <;> simp [text?]

theorem Query.showsTerms_iff {t : ElementType} {terms : List String} {v : View t} :
    showsTerms terms v ↔ v.Mentions terms := by
  simp [showsTerms, View.Mentions, Option.any_eq_true, Value.text?_eq_some]

instance {t : ElementType} (v : View t) (terms : List String) : Decidable (v.Mentions terms) :=
  decidable_of_iff _ Query.showsTerms_iff

namespace Query

/-- The query of everything, unpaged, that a query by text is compared with. -/
def plain (q : Query) : Query := { q with source := .everything, skip := 0, limit := none }

def byText (q : Query) (text : String) : Query := { q with source := .text text }

theorem keeps_byText {t : ElementType} (q : Query) (text : String) :
    (q.byText text).keeps = fun v : View t => decide (v.Mentions (Search.terms text)) && q.plain.keeps v := by
  funext v
  rw [Bool.eq_iff_iff, keeps_iff, Bool.and_eq_true, keeps_iff, decide_eq_true_iff, ← showsTerms_iff]
  simp [plain, byText, terms, showsTerms, and_comm]

end Query

namespace Graph

variable {g : Graph Memory} {x : Search.Index} {t : ElementType} {text : String}

theorem answers_plain (decodes : g.Decodes) (q : Query) :
    g.answers (q.plain.run g t) = (checked g.kinds q.predicates).map fun _ =>
      ((g.seen t (g.store.ids (.all t)) q.reader).filter q.plain.keeps).map .ok := by
  rw [Query.run_eq_checked]
  show g.answers (checked g.kinds q.predicates >>= fun _ => _) = _
  cases checked g.kinds q.predicates with
  | error e => rfl
  | ok _ => exact congrArg Except.ok (toList_seen decodes q.plain.keeps 0 none)

theorem candidates_byText (index : g.index = some x) (q : Query) (text : String) :
    (q.byText text).candidates g t = .ok (.ofIds t (x.search t text)) := by
  simp only [Query.candidates, Query.byText, index]
  rfl

theorem answers_byText (index : g.index = some x) (q : Query) (text : String) :
    g.answers ((q.byText text).run g t) = (checked g.kinds q.predicates).map fun _ =>
      Results.toList (g.found t) ⟨.ofIds t (x.search t text), q.reader, (q.byText text).keeps, q.skip, q.limit⟩ := by
  rw [Query.run_eq_checked, candidates_byText index]
  show g.answers (checked g.kinds q.predicates >>= fun _ => _) = _
  cases checked g.kinds q.predicates <;> rfl

/-- Under terms, the ids that an index finds are as good as all ids. -/
theorem toList_search (decodes : g.Decodes) (indexed : g.IndexedBy x) (nonempty : Search.terms text ≠ []) (q : Query) :
    Results.toList (g.found t) ⟨.ofIds t (x.search t text), q.reader, (q.byText text).keeps (t := t), q.skip, q.limit⟩ =
      Results.toList (g.found t)
        ⟨.ofIds t (g.store.ids (.all t)), q.reader, (q.byText text).keeps (t := t), q.skip, q.limit⟩ := by
  rw [Results.toList_ofIds, Results.toList_ofIds]
  congr 1
  refine ascending_filterMap_congr (ascending_search ..) ((Table.ascending_keys _).filter _) fun id shown => ?_
  rw [mem_search_of_shown decodes indexed (q := q.byText text) rfl shown]
  refine iff_of_true nonempty ?_
  cases found : g.store.get? t id with
  | none => simp [get?_none found, Results.shown] at shown
  | some r => exact mem_ids.mpr ⟨r, found⟩

/-- A query by text fails where the same query of everything does. Otherwise it gives the elements that this gives,
in the same order, as far as they mention all terms of the text, and its page is one of those; without terms
it gives nothing. -/
theorem text_queries_exact {config : Config} {names : Names} (indexing : config.indexing = true) (made : x.Made)
    (leads : (Graph.ofStore Memory.empty config (some x) names).Leads g) (decodes : g.Decodes) (t : ElementType)
    (q : Query) (text : String) :
    (∃ e, g.answers (q.plain.run g t) = .error e ∧ g.answers ((q.byText text).run g t) = .error e) ∨
      ∃ items : List (View t), g.answers (q.plain.run g t) = .ok (items.map .ok) ∧
        g.answers ((q.byText text).run g t) = .ok ((Results.cut q.skip q.limit
          (if Search.terms text = [] then [] else items.filter (·.Mentions (Search.terms text)))).map .ok) := by
  obtain ⟨y, index, indexed⟩ := leads.indexedBy indexing made
  rw [answers_plain decodes, answers_byText index]
  cases checked g.kinds q.predicates with
  | error e => exact .inl ⟨e, rfl, rfl⟩
  | ok _ =>
    refine .inr ⟨_, rfl, congrArg Except.ok ?_⟩
    split
    · next none =>
      have nothing : y.search t text = [] := by rw [Search.Index.search, none]
      rw [nothing, toList_seen decodes]
      rfl
    · next nonempty =>
      rw [toList_search decodes indexed nonempty, toList_seen decodes, List.filter_filter, Query.keeps_byText]

/-! ### A text that the reader does not see -/

def noted (id text : String) (visibility : Visibility) (writer : Authorizations) : Operation :=
  .save (.vertex ⟨some id, .unrestricted, [.set "" "note" (.string text) visibility .empty]⟩) writer

/-- Three vertices with a note each, the third of them for holders of `b` alone. -/
def notedGraph : Graph Memory :=
  [noted "v1" "Hello, world" .unrestricted .empty, noted "v2" "hello" .unrestricted .empty,
    noted "v3" "hello world" onlyB (.ofList ["b"])].foldl (fun g o => o.after g)
    (.ofStore .empty .standard (some .empty))

theorem text_queries_exact_noted : ∃ items : List Vertex,
    notedGraph.answers ((Query.ofSource .everything .empty).plain.run notedGraph .vertex) = .ok (items.map .ok) ∧
    items.map (·.id) = ["v1", "v2", "v3"] ∧
    notedGraph.answers (((Query.ofSource .everything .empty).byText "world hello").run notedGraph .vertex) =
      .ok ((items.filter (·.Mentions ["world", "hello"])).map .ok) ∧
    (items.filter (·.Mentions ["world", "hello"])).map (·.id) = ["v1"] := by
  have leads : (Graph.ofStore Memory.empty .standard (some .empty)).Leads notedGraph :=
    .step _ (.step _ (.step _ .here))
  have decodes : notedGraph.Decodes := decodes_of_ids (by decide +kernel)
  have plain : ((notedGraph.answers ((Query.ofSource .everything .empty).plain.run notedGraph .vertex)).toOption.any
      fun l => l.filterMap (·.toOption.map (·.id)) == ["v1", "v2", "v3"]) = true := by decide +kernel
  have found : ((notedGraph.answers (((Query.ofSource .everything .empty).byText "world hello").run notedGraph
      .vertex)).toOption.any fun l => l.filterMap (·.toOption.map (·.id)) == ["v1"]) = true := by decide +kernel
  have terms : Search.terms "world hello" = ["world", "hello"] := by decide +kernel
  rcases text_queries_exact rfl .empty leads decodes .vertex (.ofSource .everything .empty) "world hello" with
    ⟨e, failed, -⟩ | ⟨items, all, some⟩
  · rw [failed] at plain
    exact absurd plain (by simp [Except.toOption])
  · rw [terms, if_neg (by simp)] at some
    rw [all] at plain
    rw [some] at found
    simp only [Except.toOption, Option.any_some, List.filterMap_map, beq_iff_eq] at plain found
    refine ⟨items, all, ?_, some, ?_⟩
    · rw [← List.filterMap_eq_map]
      exact plain
    · rw [← List.filterMap_eq_map]
      exact found

end Graph

end GuardedGraph

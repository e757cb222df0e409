import GuardedGraph.Proofs.Query.Calls
import GuardedGraph.Proofs.Reading.Seen

/-!
Queries against their reference: the stored ids, what the reader sees of them, the conditions, and a cut
(`queries_exact`).
-/

namespace GuardedGraph

open Store (Backend Memory)
open Outcome
open Query (Call conditions lastSet checked)

/-! ### The reference -/

namespace View

variable {t : ElementType}

/-- The label of an edge; vertices have none. -/
def label? : {t : ElementType} → View t → Option String
  | .vertex, _ => none
  | .edge, e => some e.links.label

/-- Each condition is met by a value, and where there are labels to choose from, an edge has one of them. -/
def Meets (labels : List String) (conditions : List Predicate) (v : View t) : Prop :=
  (labels = [] ∨ ∀ label ∈ v.label?, label ∈ labels) ∧ ∀ p ∈ conditions, ∃ x ∈ v.values p.name, p.holds x

instance (labels : List String) (conditions : List Predicate) (v : View t) : Decidable (v.Meets labels conditions) :=
  inferInstanceAs (Decidable ((_ ∨ _) ∧ _))

end View

namespace Graph

/-- What a query of everything is to give that is made by some calls. -/
def matching (g : Graph Memory) (t : ElementType) (a : Authorizations) (calls : List Call) : List (View t) :=
  Results.cut ((lastSet Call.skip? calls).getD 0) (lastSet Call.limit? calls)
    ((g.seen t (g.store.ids (.all t)) a).filter (·.Meets ((lastSet Call.labels? calls).getD []) (conditions calls)))

/-! ### The answer -/

/-- The results of a query of everything that is made by some calls. -/
def asked {σ : Type} [Backend σ] (g : Graph σ) (t : ElementType) (a : Authorizations) (calls : List Call) :
    Except Error (Results t) :=
  (calls.foldl (Query.Making.call g.kinds) (.ofSource .everything a)).run g t

def Refuses (g : Graph Memory) (t : ElementType) (a : Authorizations) (calls : List Call) : Prop :=
  ∃ e, g.asked t a calls = .error e

/-- The results, taken one by one, are these elements, and faults among them. -/
def Yields (g : Graph Memory) (t : ElementType) (a : Authorizations) (calls : List Call) (items : List (View t)) :
    Prop :=
  ∃ r l, g.asked t a calls = .ok r ∧ r.Gives (g.found t) l ∧ Results.sound l = items

/-- All conditions make sense for the kinds that are declared. -/
def Sensible {σ : Type} (g : Graph σ) (calls : List Call) : Prop :=
  ∀ p ∈ conditions calls, p.check (g.kinds.get? p.name) = .ok ()

end Graph

/-! ### What is kept -/

theorem Query.labelFits_iff {t : ElementType} {q : Query} {v : View t} :
    q.labelFits v ↔ q.labels = [] ∨ ∀ label ∈ v.label?, label ∈ q.labels := by
  cases t with
  | vertex => simp [labelFits, View.label?]
  | edge => simp [labelFits, View.label?]

theorem Query.keeps_iff {t : ElementType} {q : Query} {v : View t} :
    q.keeps v ↔ v.Meets q.labels q.predicates ∧ showsTerms q.terms v := by
  simp only [keeps, Bool.and_eq_true, labelFits_iff, View.Meets, List.all_eq_true, Predicate.metBy, List.any_eq_true]
  exact and_right_comm

namespace Graph

variable {t : ElementType} {a : Authorizations}

/-! ### Queries of everything -/

theorem keeps_foldl_call (calls : List Call) : (calls.foldl Query.call (.ofSource .everything a)).keeps =
    fun v : View t => decide (v.Meets ((lastSet Call.labels? calls).getD []) (conditions calls)) := by
  funext v
  rw [Bool.eq_iff_iff, Query.keeps_iff, decide_eq_true_iff, Query.labels_foldl_call, Query.predicates_foldl_call,
    Query.terms, Query.source_foldl_call]
  simp [Query.ofSource, Query.showsTerms]

theorem asked_eq {σ : Type} [Backend σ] {g : Graph σ} (calls : List Call) : g.asked t a calls = (do
    checked g.kinds (conditions calls)
    return ⟨← Backend.scan g.store (.all t), a,
      fun v => v.Meets ((lastSet Call.labels? calls).getD []) (conditions calls),
      (lastSet Call.skip? calls).getD 0, lastSet Call.limit? calls⟩) := by
  have skip := Query.skip_foldl_call calls (.ofSource .everything a)
  have limit := Query.limit_foldl_call calls (.ofSource .everything a)
  have reader := Query.reader_foldl_call calls (.ofSource .everything a)
  have source := Query.source_foldl_call calls (.ofSource .everything a)
  rw [asked, Query.Making.run_made, Query.run_eq_checked, Query.predicates_foldl_call, skip, limit, reader,
    keeps_foldl_call, Query.candidates, source]
  simp only [Query.ofSource, List.nil_append, Option.or_none]

theorem checked_ok_iff {σ : Type} {g : Graph σ} {calls : List Call} :
    checked g.kinds (conditions calls) = .ok () ↔ g.Sensible calls := forM_ok_iff

variable {g : Graph Memory}

theorem refuses_iff {calls : List Call} : g.Refuses t a calls ↔ ¬g.Sensible calls := by
  rw [Refuses, asked_eq, ← checked_ok_iff]
  cases checked g.kinds (conditions calls) with
  | ok _ => simp [bind, Except.bind, pure, Except.pure]
  | error e => simp [bind, Except.bind]

theorem yields_iff {calls : List Call} {items : List (View t)} :
    g.Yields t a calls items ↔ g.Sensible calls ∧ items = g.matching t a calls := by
  rw [Yields, asked_eq, ← checked_ok_iff]
  cases checks : checked g.kinds (conditions calls) with
  | error e => simp [bind, Except.bind]
  | ok _ =>
    constructor
    · rintro ⟨r, l, asked, gives, rfl⟩
      obtain rfl := pure_ok asked
      refine ⟨rfl, ?_⟩
      rw [gives.unique (Results.gives_toList ..)]
      exact sound_toList ..
    · rintro ⟨-, rfl⟩
      exact ⟨_, _, rfl, Results.gives_toList .., sound_toList ..⟩

/-! ### Orders of calls, and pages -/

theorem sensible_perm {calls others : List Call} (perm : calls.Perm others) :
    g.Sensible calls ↔ g.Sensible others := by
  have same := perm.filterMap Call.condition?
  exact ⟨fun h p hp => h p (same.mem_iff.mpr hp), fun h p hp => h p (same.mem_iff.mp hp)⟩

theorem matching_perm {calls others : List Call} (perm : calls.Perm others)
    (labels : calls.filterMap Call.labels? = others.filterMap Call.labels?)
    (skip : (calls.filterMap Call.skip?).length ≤ 1) (limit : (calls.filterMap Call.limit?).length ≤ 1) :
    g.matching t a calls = g.matching t a others := by
  have same := perm.filterMap Call.condition?
  have meets (labels : List String) (v : View t) :
      v.Meets labels (conditions calls) ↔ v.Meets labels (conditions others) :=
    and_congr_right fun _ => forall_congr' fun p => imp_congr_left same.mem_iff
  have last : lastSet Call.labels? calls = lastSet Call.labels? others := congrArg List.getLast? labels
  simp only [matching, Query.lastSet_perm perm skip, Query.lastSet_perm perm limit, last, meets]

/-- A page of a query that has no page yet. -/
theorem matching_page {calls : List Call} (noSkip : calls.filterMap Call.skip? = [])
    (noLimit : calls.filterMap Call.limit? = []) (skip limit : Nat) :
    g.matching t a (calls ++ [.skip skip, .limit limit]) = Results.cut skip (some limit) (g.matching t a calls) := by
  have whole (l : List (View t)) : Results.cut 0 none l = l := rfl
  simp [matching, lastSet, conditions, List.filterMap_append, noSkip, noLimit, whole, Call.condition?, Call.labels?,
    Call.skip?, Call.limit?, List.filterMap_cons]

theorem sensible_page {calls : List Call} (skip limit : Nat) :
    g.Sensible (calls ++ [.skip skip, .limit limit]) ↔ g.Sensible calls := by
  simp [Sensible, conditions, List.filterMap_append, Call.condition?, List.filterMap_cons]

/-- A query of everything fails if and only if one of its conditions makes no sense. Otherwise what it gives,
besides faults, is what the reader sees of the stored elements by ascending id, as far as it meets conditions and
labels, cut. So the order of calls does not matter, and pages of one size make up the whole. -/
theorem queries_exact (g : Graph Memory) (t : ElementType) (a : Authorizations) :
    ((g.store.ids (.all t)).Pairwise (· < ·) ∧ ∀ id, id ∈ g.store.ids (.all t) ↔ ∃ r, g.store.get? t id = some r) ∧
    (∀ calls, (g.Refuses t a calls ↔ ¬g.Sensible calls) ∧
      ∀ items, g.Yields t a calls items ↔ g.Sensible calls ∧ items = g.matching t a calls) ∧
    (∀ calls others : List Call, calls.Perm others →
      calls.filterMap Call.labels? = others.filterMap Call.labels? →
      (calls.filterMap Call.skip?).length ≤ 1 → (calls.filterMap Call.limit?).length ≤ 1 →
      (g.Refuses t a calls ↔ g.Refuses t a others) ∧
        ∀ items, g.Yields t a calls items ↔ g.Yields t a others items) ∧
    ∀ calls items, g.Yields t a calls items → calls.filterMap Call.skip? = [] → calls.filterMap Call.limit? = [] →
      ∀ size, 0 < size → ∃ pages : Nat → List (View t),
        (∀ k, g.Yields t a (calls ++ [.skip (k * size), .limit size]) (pages k)) ∧
        (∀ n, (List.range n).flatMap pages = items.take (n * size)) ∧
        (List.range items.length).flatMap pages = items := by
  refine ⟨⟨(Table.ascending_keys _).filter _, fun _ => mem_ids⟩, fun calls => ⟨refuses_iff, fun _ => yields_iff⟩,
    fun calls others perm labels skip limit => ?_, fun calls items yields noSkip noLimit size positive => ?_⟩
  · simp only [refuses_iff, yields_iff, sensible_perm perm, matching_perm perm labels skip limit, implies_true,
      and_self]
  · obtain ⟨sensible, rfl⟩ := yields_iff.mp yields
    refine ⟨fun k => Results.cut (k * size) (some size) (g.matching t a calls), fun k => ?_,
      fun n => Results.flatMap_pages size n _, ?_⟩
    · rw [yields_iff, sensible_page, matching_page noSkip noLimit]
      exact ⟨sensible, rfl⟩
    · rw [Results.flatMap_pages]
      exact List.take_of_length_le (Nat.le_mul_of_pos_right _ positive)

/-! ### Pages past a hidden vertex -/

def counted (id : String) (visibility : Visibility) (n : Int64) : Record :=
  ⟨.vertex, id, visibility, [], [⟨"", "n", .unrestricted, (Value.int n).encode, [], []⟩], none, []⟩

/-- Three vertices with a number each, the second of them for holders of `b` alone. -/
def countedGraph : Graph Memory :=
  .ofStore (((Memory.empty.put (counted "v1" .unrestricted 1)).put (counted "v2" onlyB 2)).put
    (counted "v3" .unrestricted 3)) .standard none

def positive : List Call := [.having (.has "n" .greater (.int 0))]

theorem sensible_positive : countedGraph.Sensible positive := by
  simp only [Sensible, positive, conditions, Call.condition?, List.filterMap_cons, List.filterMap_nil,
    List.forall_mem_singleton]
  rfl

theorem queries_exact_counted : ∃ items pages, countedGraph.Yields .vertex .empty positive items ∧
    items.map (·.id) = ["v1", "v3"] ∧
    (∀ k, countedGraph.Yields .vertex .empty (positive ++ [.skip (k * 1), .limit 1]) (pages k)) ∧
    (List.range 2).flatMap pages = items := by
  obtain ⟨-, answer, -, paged⟩ := queries_exact countedGraph .vertex .empty
  have yields := ((answer positive).2 _).mpr ⟨sensible_positive, rfl⟩
  have ids : (countedGraph.matching .vertex .empty positive).map (·.id) = ["v1", "v3"] := by decide +kernel
  obtain ⟨pages, each, -, all⟩ := paged positive _ yields rfl rfl 1 Nat.one_pos
  have two : (countedGraph.matching .vertex .empty positive).length = 2 := by
    rw [← List.length_map (·.id), ids]
    rfl
  rw [two] at all
  exact ⟨_, pages, yields, ids, each, all⟩

end Graph

end GuardedGraph

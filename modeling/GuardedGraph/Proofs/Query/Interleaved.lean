import GuardedGraph.Proofs.Query.Exact
import GuardedGraph.Proofs.Writing.Filing

/-!
Results that are taken one by one while the graph changes. The ids are those stored when the results were opened,
and everything else is as it is when an id is reached (`pulls_exact`).
-/

namespace GuardedGraph

open Store (Memory Cursor Pending)
open Query (Call conditions lastSet)

/-! ### Events -/

/-- What happens while results are open. -/
inductive Event
  | pull
  | operation (o : Operation)

/-- One pull: the graph at that moment, the ids that the cursor goes over, and the item, if there is one. -/
structure Pull (t : ElementType) where
  graph : Graph Memory
  reached : List String
  given : Option (Except Error (View t))

def Store.Pending.id : Pending → String
  | .lookup id => id
  | .refuse id _ => id
  | .fetched r => r.id

namespace Results

variable {t : ElementType}

def pull (r : Results t) (g : Graph Memory) : Pull t :=
  let pending := r.cursor.pending
  ⟨g, (pending.take (pending.length - (r.next (g.found t)).2.cursor.pending.length)).map (·.id),
    (r.next (g.found t)).1⟩

/-- The pulls among events that begin with a graph and results on it. -/
def pulls (r : Results t) (g : Graph Memory) : List Event → List (Pull t)
  | [] => []
  | .pull :: events => r.pull g :: pulls (r.next (g.found t)).2 g events
  | .operation o :: events => pulls r (o.after g) events

/-! ### One pull -/

/-- Where results by ids are: the ids ahead, and what is left of the page. -/
structure Place where
  ids : List String
  skip : Nat
  limit : Option Nat

variable {α : Type}

/-- All ways in which a pull goes over ids and gives an item or none; `answer` is what there is under an id. -/
inductive Place.Pulls (answer : String → Option (Except Error α)) :
    Place → List String → Option (Except Error α) → Place → Prop
  | full {ids : List String} {skip : Nat} : Pulls answer ⟨ids, skip, some 0⟩ [] none ⟨ids, skip, some 0⟩
  | done {skip : Nat} {limit : Option Nat} : Pulls answer ⟨[], skip, limit⟩ [] none ⟨[], skip, limit⟩
  | fault {id : String} {ids : List String} {skip : Nat} {limit : Option Nat} {e : Error} : limit ≠ some 0 →
      answer id = some (.error e) →
      Pulls answer ⟨id :: ids, skip, limit⟩ [id] (some (.error e)) ⟨ids, skip, limit⟩
  | give {id : String} {ids : List String} {limit : Option Nat} {v : α} : limit ≠ some 0 →
      answer id = some (.ok v) →
      Pulls answer ⟨id :: ids, 0, limit⟩ [id] (some (.ok v)) ⟨ids, 0, limit.map (· - 1)⟩
  | skip {id : String} {ids reached : List String} {skip : Nat} {limit : Option Nat} {v : α}
      {x : Option (Except Error α)} {after : Place} : limit ≠ some 0 → answer id = some (.ok v) →
      Pulls answer ⟨ids, skip, limit⟩ reached x after →
      Pulls answer ⟨id :: ids, skip + 1, limit⟩ (id :: reached) x after
  | pass {id : String} {ids reached : List String} {skip : Nat} {limit : Option Nat}
      {x : Option (Except Error α)} {after : Place} : limit ≠ some 0 → answer id = none →
      Pulls answer ⟨ids, skip, limit⟩ reached x after → Pulls answer ⟨id :: ids, skip, limit⟩ (id :: reached) x after

def Place.results (p : Place) (a : Authorizations) (keep : View t → Bool) : Results t :=
  ⟨.ofIds t p.ids, a, keep, p.skip, p.limit⟩

variable {a : Authorizations} {keep : View t → Bool}

/-- What results have under an id. -/
def answer (g : Graph Memory) (a : Authorizations) (keep : View t → Bool) (id : String) :
    Option (Except Error (View t)) := shown keep (g.get? t id a)

theorem answer_ok {g : Graph Memory} {id : String} {v : View t} :
    answer g a keep id = some (.ok v) ↔ g.get? t id a = .ok (some v) ∧ keep v := by
  unfold answer
  rcases g.get? t id a with e | _ | w
  · simp [shown]
  · simp [shown]
  · by_cases kept : keep w
    · simp only [shown, if_pos kept, Option.some.injEq, Except.ok.injEq]
      exact ⟨fun same => ⟨same, same ▸ kept⟩, And.left⟩
    · simp only [shown, if_neg kept, Except.ok.injEq, Option.some.injEq]
      exact ⟨fun given => absurd given (by simp), fun both => absurd (both.1 ▸ both.2) kept⟩

theorem answer_error {g : Graph Memory} {id : String} {e : Error} :
    answer g a keep id = some (.error e) ↔ g.get? t id a = .error e := by
  unfold answer
  rcases g.get? t id a with e | _ | w
  · simp [shown]
  · simp [shown]
  · simp only [shown]
    split <;> simp

theorem pulls_advance (g : Graph Memory) (ahead : List String) (skip : Nat) {limit : Option Nat}
    (left : limit ≠ some 0) (ids : List String) (n : Nat) : ∃ reached after,
      Place.Pulls (answer g a keep) ⟨ids, n, limit⟩ reached
        (advance (g.found t) (Place.results ⟨ahead, skip, limit⟩ a keep) (ids.map .lookup) n).1 after ∧
      (advance (g.found t) (Place.results ⟨ahead, skip, limit⟩ a keep) (ids.map .lookup) n).2 =
        after.results a keep := by
  induction ids generalizing n with
  | nil => exact ⟨[], ⟨[], n, limit⟩, .done, rfl⟩
  | cons id ids ih =>
    have found : outcome (g.found t) (Place.results ⟨ahead, skip, limit⟩ a keep) (.lookup id) = answer g a keep id :=
      outcome_lookup g _ id
    cases here : answer g a keep id with
    | none =>
      obtain ⟨reached, after, pulled, rest⟩ := ih n
      simp only [List.map_cons, advance, found.trans here]
      exact ⟨_, after, .pass left here pulled, rest⟩
    | some x =>
      cases x with
      | error e =>
        cases n <;> simp only [List.map_cons, advance, found.trans here]
        all_goals exact ⟨_, ⟨ids, _, limit⟩, .fault left here, rfl⟩
      | ok v =>
        cases n with
        | zero =>
          simp only [List.map_cons, advance, found.trans here]
          exact ⟨_, ⟨ids, 0, limit.map (· - 1)⟩, .give left here, rfl⟩
        | succ n =>
          obtain ⟨reached, after, pulled, rest⟩ := ih n
          simp only [List.map_cons, advance, found.trans here]
          exact ⟨_, after, .skip left here pulled, rest⟩

theorem pulls_next (g : Graph Memory) (a : Authorizations) (keep : View t → Bool) (p : Place) : ∃ reached after,
    p.Pulls (answer g a keep) reached ((p.results a keep).next (g.found t)).1 after ∧
      ((p.results a keep).next (g.found t)).2 = after.results a keep := by
  obtain ⟨ids, skip, limit⟩ := p
  by_cases full : limit = some 0
  · subst full
    exact ⟨[], ⟨ids, skip, some 0⟩, .full, rfl⟩
  · have left : (Place.results ⟨ids, skip, limit⟩ a keep).remaining ≠ some 0 := full
    rw [next, if_neg left]
    exact pulls_advance g ids skip full ids skip

namespace Place.Pulls

variable {answer : String → Option (Except Error α)} {p after : Place} {reached : List String}
  {x : Option (Except Error α)}

theorem ids (pulls : p.Pulls answer reached x after) : p.ids = reached ++ after.ids := by
  induction pulls with
  | full => rfl
  | done => rfl
  | fault => rfl
  | give => rfl
  | skip _ _ _ ih => exact congrArg (_ :: ·) ih
  | pass _ _ _ ih => exact congrArg (_ :: ·) ih

/-- What is found under the ids that a pull reaches comes off the page. -/
theorem page_found (pulls : p.Pulls answer reached x after) (more : List (Except Error α)) :
    page p.skip p.limit (reached.filterMap answer ++ more) = x.toList ++ page after.skip after.limit more := by
  induction pulls with
  | full => exact (page_limit_zero _ _).trans (page_limit_zero _ _).symm
  | done => rfl
  | @fault _ _ skip _ _ left found =>
    rw [List.filterMap_cons, found]
    cases skip <;> simp only [List.filterMap_nil, List.cons_append, List.nil_append, page, if_neg left] <;> rfl
  | give left found =>
    rw [List.filterMap_cons, found]
    simp only [List.filterMap_nil, List.cons_append, List.nil_append, page, if_neg left]
    rfl
  | skip _ found _ ih =>
    rw [List.filterMap_cons, found]
    exact ih
  | pass _ found _ ih =>
    rw [List.filterMap_cons, found]
    exact ih

/-- The item is what there is under the last id that is reached. -/
theorem given {y : Except Error α} (pulls : p.Pulls answer reached (some y) after) :
    ∃ before id, reached = before ++ [id] ∧ answer id = some y := by
  generalize item : some y = x at pulls
  induction pulls with
  | full => exact nomatch item
  | done => exact nomatch item
  | fault _ found => exact ⟨[], _, rfl, item ▸ found⟩
  | give _ found => exact ⟨[], _, rfl, item ▸ found⟩
  | skip _ _ _ ih =>
    obtain ⟨before, id, rfl, found⟩ := ih item
    exact ⟨_ :: before, id, rfl, found⟩
  | pass _ _ _ ih =>
    obtain ⟨before, id, rfl, found⟩ := ih item
    exact ⟨_ :: before, id, rfl, found⟩

theorem end_of_none (pulls : p.Pulls answer reached none after) : after.limit = some 0 ∨ after.ids = [] := by
  generalize item : none = x at pulls
  induction pulls with
  | full => exact .inl rfl
  | done => exact .inr rfl
  | fault => exact nomatch item
  | give => exact nomatch item
  | skip _ _ _ ih => exact ih item
  | pass _ _ _ ih => exact ih item

/-- The limit counts the sound items. -/
theorem limit (pulls : p.Pulls answer reached x after) {n : Nat} (left : after.limit = some n) :
    p.limit = some (n + (sound x.toList).length) := by
  induction pulls with
  | full => exact left
  | done => exact left
  | fault => exact left
  | @give _ _ limit _ nonzero _ =>
    cases limit with
    | none => exact nomatch left
    | some m =>
      cases m with
      | zero => exact absurd rfl nonzero
      | succ m => exact congrArg (fun k => some (k + 1)) (Option.some.inj left)
  | skip _ _ _ ih => exact ih left
  | pass _ _ _ ih => exact ih left

theorem skip_le (pulls : p.Pulls answer reached x after) : after.skip ≤ p.skip := by
  induction pulls with
  | full => exact Nat.le_refl _
  | done => exact Nat.le_refl _
  | fault => exact Nat.le_refl _
  | give => exact Nat.le_refl _
  | skip _ _ _ ih => exact Nat.le_succ_of_le ih
  | pass _ _ _ ih => exact ih

end Place.Pulls

theorem pulls_pull (g : Graph Memory) (a : Authorizations) (keep : View t → Bool) (p : Place) : ∃ after,
    p.Pulls (answer g a keep) ((p.results a keep).pull g).reached ((p.results a keep).pull g).given after ∧
      ((p.results a keep).next (g.found t)).2 = after.results a keep := by
  obtain ⟨reached, after, pulled, rest⟩ := pulls_next g a keep p
  have before : (p.results a keep).cursor.pending = (reached ++ after.ids).map .lookup :=
    congrArg (List.map Pending.lookup) pulled.ids
  have behind : ((p.results a keep).next (g.found t)).2.cursor.pending = after.ids.map .lookup := by
    rw [rest]
    rfl
  have same : ((p.results a keep).pull g).reached = reached := by
    rw [pull, before, behind, List.length_map, List.length_map, List.length_append, Nat.add_sub_cancel,
      ← List.map_take, List.take_left, List.map_map]
    exact List.map_id' reached
  rw [same]
  exact ⟨after, pulled, rest⟩

/-! ### Pull after pull -/

/-- Pulls that follow each other, with the graph as it is at each of them. -/
inductive Place.Runs (a : Authorizations) (keep : View t → Bool) : Place → List (Pull t) → Prop
  | done {p : Place} : Runs a keep p []
  | pull {p after : Place} {x : Pull t} {xs : List (Pull t)} :
      p.Pulls (answer x.graph a keep) x.reached x.given after → Runs a keep after xs → Runs a keep p (x :: xs)

theorem runs_pulls (g : Graph Memory) (a : Authorizations) (keep : View t → Bool) (p : Place) (events : List Event) :
    p.Runs a keep ((p.results a keep).pulls g events) := by
  induction events generalizing g p with
  | nil => exact .done
  | cons event events ih =>
    cases event with
    | pull =>
      obtain ⟨after, pulled, rest⟩ := pulls_pull g a keep p
      rw [pulls, rest]
      exact .pull pulled (ih g after)
    | operation o => exact ih (o.after g) p

namespace Place.Runs

variable {p : Place} {xs : List (Pull t)}

theorem reached (runs : p.Runs a keep xs) : xs.flatMap (·.reached) <+: p.ids := by
  induction runs with
  | done => exact List.nil_prefix
  | pull pulled _ ih =>
    rw [List.flatMap_cons, pulled.ids]
    exact (List.prefix_append_right_inj _).mpr ih

theorem page (runs : p.Runs a keep xs) : xs.filterMap (·.given) =
    Results.page p.skip p.limit (xs.flatMap fun x => x.reached.filterMap (answer x.graph a keep)) := by
  induction runs with
  | done => exact (page_nil _ _).symm
  | @pull _ _ x _ pulled _ ih =>
    rw [List.flatMap_cons, pulled.page_found, ← ih, List.filterMap_cons]
    cases x.given <;> rfl

theorem given (runs : p.Runs a keep xs) {x : Pull t} (mem : x ∈ xs) {y : Except Error (View t)}
    (item : x.given = some y) : ∃ before id, x.reached = before ++ [id] ∧ answer x.graph a keep id = some y := by
  induction runs with
  | done => exact absurd mem List.not_mem_nil
  | pull pulled _ ih =>
    rcases List.mem_cons.mp mem with rfl | mem
    · rw [item] at pulled
      exact pulled.given
    · exact ih mem

theorem unpaged (runs : p.Runs a keep xs) (skip : p.skip = 0) (limit : p.limit = none) {x : Pull t} (mem : x ∈ xs) :
    x.reached.filterMap (answer x.graph a keep) = x.given.toList := by
  induction runs with
  | done => exact absurd mem List.not_mem_nil
  | @pull _ after y _ pulled _ ih =>
    have skip' : after.skip = 0 := Nat.le_zero.mp (skip ▸ pulled.skip_le)
    have limit' : after.limit = none := by
      cases left : after.limit with
      | none => rfl
      | some n => exact nomatch limit.symm.trans (pulled.limit left)
    rcases List.mem_cons.mp mem with rfl | mem
    · have found := pulled.page_found []
      rwa [skip, limit, page_all, List.append_nil, page_nil, List.append_nil] at found
    · exact ih skip' limit' mem

/-- When there is no more item, the limit is used up or all ids have been reached. -/
theorem ended (runs : p.Runs a keep xs) {x : Pull t} (mem : x ∈ xs) (none : x.given = none) :
    p.limit = some (sound (xs.filterMap (·.given))).length ∨ xs.flatMap (·.reached) = p.ids := by
  induction runs with
  | done => exact absurd mem List.not_mem_nil
  | @pull p after y ys pulled rest ih =>
    have later : after.limit = some (sound (ys.filterMap (·.given))).length ∨ ys.flatMap (·.reached) = after.ids := by
      rcases List.mem_cons.mp mem with rfl | mem
      · rw [none] at pulled
        rcases pulled.end_of_none with full | empty
        · rw [rest.page, full, page_limit_zero]
          exact .inl rfl
        · have reached := rest.reached
          rw [empty] at reached ⊢
          exact .inr (List.prefix_nil.mp reached)
      · exact ih mem
    rcases later with used | all
    · refine .inl ((pulled.limit used).trans ?_)
      rw [List.filterMap_cons]
      rcases y.given with _ | e | v
      · rfl
      · rfl
      · rfl
    · rw [List.flatMap_cons, all, pulled.ids]
      exact .inr rfl

/-- Sound items come from ids that are reached, in their order. -/
theorem ids_given (runs : p.Runs a keep xs) (filed : ∀ x ∈ xs, x.graph.store.Filed) :
    ((sound (xs.filterMap (·.given))).map (·.id)).Sublist (xs.flatMap (·.reached)) := by
  induction runs with
  | done => exact .slnil
  | @pull p after y ys pulled _ ih =>
    have rest := ih fun x mem => filed x (List.mem_cons_of_mem _ mem)
    rw [List.filterMap_cons, List.flatMap_cons]
    cases item : y.given with
    | none => exact rest.trans (List.sublist_append_right _ _)
    | some x =>
      cases x with
      | error e => exact rest.trans (List.sublist_append_right _ _)
      | ok v =>
        rw [item] at pulled
        obtain ⟨before, id, reached, found⟩ := pulled.given
        have own := Graph.id_of_get? (filed y List.mem_cons_self) (answer_ok.mp found).1
        rw [reached, List.append_assoc, ← own]
        exact (List.Sublist.cons_cons v.id rest).trans (List.sublist_append_right _ _)

end Place.Runs

theorem filed_pulls {g : Graph Memory} {r : Results t} (filed : g.store.Filed) {events : List Event} {x : Pull t}
    (mem : x ∈ r.pulls g events) : x.graph.store.Filed := by
  induction events generalizing g r with
  | nil => exact absurd mem List.not_mem_nil
  | cons event events ih =>
    cases event with
    | pull =>
      rcases List.mem_cons.mp mem with rfl | mem
      · exact filed
      · exact ih filed mem
    | operation o => exact ih (filed_after filed o) mem

end Results

/-! ### Results over everything stored -/

/-- The view meets the conditions that some calls add, and has one of the labels that they set. -/
def View.Suits {t : ElementType} (v : View t) (calls : List Call) : Prop :=
  v.Meets ((lastSet Call.labels? calls).getD []) (conditions calls)

instance {t : ElementType} (v : View t) (calls : List Call) : Decidable (v.Suits calls) :=
  inferInstanceAs (Decidable (v.Meets _ _))

namespace Graph

variable {t : ElementType} {a : Authorizations}

/-- Results are opened over all elements of a kind, or by a query of everything that is made by some calls. -/
inductive Opens (g : Graph Memory) (t : ElementType) (a : Authorizations) : List Call → Results t → Prop
  | scan {r : Results t} : g.scan t a = .ok r → Opens g t a [] r
  | query {calls : List Call} {r : Results t} : g.asked t a calls = .ok r → Opens g t a calls r

/-- Why there is no item for an id. -/
inductive Lacks (g : Graph Memory) (t : ElementType) (a : Authorizations) (calls : List Call) (id : String) : Prop
  | gone : g.store.get? t id = none → Lacks g t a calls id
  | unseen {r : Record} : g.store.get? t id = some r → r.visibleTo a = false → Lacks g t a calls id
  | unfit {r : Record} {v : View t} : g.store.get? t id = some r → r.view? t a = .ok (some v) → ¬v.Suits calls →
      Lacks g t a calls id

/-- What there is for an id in results that are made by some calls. -/
def item (g : Graph Memory) (t : ElementType) (a : Authorizations) (calls : List Call) (id : String) :
    Option (Except Error (View t)) := Results.answer g a (fun v => v.Suits calls) id

/-- What pulls give of the elements that were stored in a graph when the results were opened. -/
structure Given (g : Graph Memory) (t : ElementType) (a : Authorizations) (calls : List Call)
    (pulls : List (Pull t)) : Prop where
  reached : pulls.flatMap (·.reached) <+: g.store.ids (.all t)
  ascending : ((Results.sound (pulls.filterMap (·.given))).map (·.id)).Pairwise (· < ·)
  stored : ∀ v ∈ Results.sound (pulls.filterMap (·.given)), ∃ r, g.store.get? t v.id = some r
  current : ∀ p ∈ pulls, ∀ v, p.given = some (.ok v) →
    p.reached.getLast? = some v.id ∧ p.graph.get? t v.id a = .ok (some v) ∧ v.Suits calls
  fault : ∀ p ∈ pulls, ∀ e, p.given = some (.error e) →
    ∃ id, p.reached.getLast? = some id ∧ p.graph.get? t id a = .error e
  page : pulls.filterMap (·.given) = Results.page ((lastSet Call.skip? calls).getD 0) (lastSet Call.limit? calls)
    (pulls.flatMap fun p => p.reached.filterMap (p.graph.item t a calls))
  unpaged : lastSet Call.skip? calls = none → lastSet Call.limit? calls = none →
    ∀ p ∈ pulls, p.reached.filterMap (p.graph.item t a calls) = p.given.toList
  passed : ∀ p ∈ pulls, ∀ id ∈ p.reached, p.graph.item t a calls id = none ↔ p.graph.Lacks t a calls id
  ended : (∃ p ∈ pulls, p.given = none) →
    lastSet Call.limit? calls = some (Results.sound (pulls.filterMap (·.given))).length ∨
      pulls.flatMap (·.reached) = g.store.ids (.all t)

theorem item_none {g : Graph Memory} (filed : g.store.Filed) {calls : List Call} {id : String} :
    g.item t a calls id = none ↔ g.Lacks t a calls id := by
  unfold item Results.answer
  constructor
  · intro nothing
    cases found : g.store.get? t id with
    | none => exact .gone found
    | some r =>
      rw [get?_some found] at nothing
      obtain ⟨rfl, -⟩ := filed _ _ _ found
      cases visible : r.visibleTo a with
      | false => exact .unseen found visible
      | true =>
        rcases view : r.view? r.type a with e | _ | v
        · rw [view] at nothing
          exact nomatch nothing
        · rw [view?_of_visible visible] at view
          obtain ⟨ps, -, view⟩ := Outcome.bind_ok view
          obtain ⟨links, -, view⟩ := Outcome.bind_ok view
          exact nomatch Outcome.pure_ok view
        · refine .unfit found view fun meets => ?_
          simp [view, Results.shown, meets] at nothing
  · intro lacks
    cases lacks with
    | gone missing =>
      rw [get?_none missing]
      rfl
    | unseen found hidden =>
      rw [get?_some found, view?_of_not_visible (by simp [hidden])]
      rfl
    | unfit found view unmet =>
      rw [get?_some found, view]
      simp [Results.shown, unmet]

theorem opens_eq {g : Graph Memory} {calls : List Call} {r : Results t} (opens : g.Opens t a calls r) :
    r = Results.Place.results ⟨g.store.ids (.all t), (lastSet Call.skip? calls).getD 0, lastSet Call.limit? calls⟩ a
      fun v => v.Suits calls := by
  cases opens with
  | scan scanned =>
    obtain rfl := Except.ok.inj scanned
    have all : (fun _ => true) = fun v : View t => decide (v.Suits []) :=
      funext fun v => (decide_eq_true ⟨.inl rfl, fun p mem => absurd mem List.not_mem_nil⟩).symm
    rw [Results.all, all]
    rfl
  | query asked =>
    rw [asked_eq] at asked
    obtain ⟨_, -, asked⟩ := Outcome.bind_ok asked
    exact (Outcome.pure_ok asked).symm

/-- However pulls are interleaved with operations, they reach the ids that were stored at the opening in ascending
order, and give what is there for an id when it is reached. -/
theorem pulls_exact {g : Graph Memory} (filed : g.store.Filed) {calls : List Call} {r : Results t}
    (opens : g.Opens t a calls r) (events : List Event) : g.Given t a calls (r.pulls g events) := by
  have graphs : ∀ p ∈ r.pulls g events, p.graph.store.Filed := fun p => Results.filed_pulls filed
  obtain rfl := opens_eq opens
  have runs := Results.runs_pulls g a (fun v : View t => v.Suits calls)
    ⟨g.store.ids (.all t), (lastSet Call.skip? calls).getD 0, lastSet Call.limit? calls⟩ events
  have ids := (runs.ids_given graphs).trans runs.reached.sublist
  have ascending : (g.store.ids (.all t)).Pairwise (· < ·) := (Table.ascending_keys _).filter _
  exact {
    reached := runs.reached
    ascending := ascending.sublist ids
    stored := fun v mem => mem_ids.mp (ids.subset (List.mem_map_of_mem mem))
    current := by
      intro p mem v item
      obtain ⟨before, id, reached, found⟩ := runs.given mem item
      obtain ⟨got, meets⟩ := Results.answer_ok.mp found
      obtain rfl := id_of_get? (graphs p mem) got
      exact ⟨by rw [reached, List.getLast?_append, List.getLast?_singleton]; rfl, got, of_decide_eq_true meets⟩
    fault := by
      intro p mem e item
      obtain ⟨before, id, reached, found⟩ := runs.given mem item
      exact ⟨id, by rw [reached, List.getLast?_append, List.getLast?_singleton]; rfl, Results.answer_error.mp found⟩
    page := runs.page
    unpaged := fun skip limit p => runs.unpaged (by rw [skip]; rfl) limit
    passed := fun p mem id _ => item_none (graphs p mem)
    ended := fun ⟨p, mem, nothing⟩ => runs.ended mem nothing }

/-! ### A vertex that goes and one that comes -/

/-- Behind the first pull the last of the vertices is removed, and another one is added. -/
def departing : List Event :=
  [.pull, .operation (.removeVertex "v3" .empty), .operation (.save (.vertex ⟨some "v4", .unrestricted, []⟩) .empty),
    .pull]

theorem pulls_exact_departing : ∃ r, countedGraph.Opens .vertex .empty [] r ∧
    (r.pulls countedGraph departing).map (·.reached) = [["v1"], ["v2", "v3"]] ∧
    countedGraph.Given .vertex .empty [] (r.pulls countedGraph departing) := by
  have filed : countedGraph.store.Filed := ((Memory.filed_empty.put _).put _).put _
  have ids : countedGraph.store.ids (.all .vertex) = ["v1", "v2", "v3"] := by decide +kernel
  have opens : countedGraph.Opens .vertex .empty [] (.all (.ofIds .vertex ["v1", "v2", "v3"]) .empty) :=
    .scan (ids ▸ rfl)
  exact ⟨_, opens, by decide +kernel, pulls_exact filed opens departing⟩

end Graph

end GuardedGraph

import GuardedGraph.Proofs.Query.Exact
import GuardedGraph.Store.Scripted

/-!
Queries over any store, which may fail to open a cursor, and whose cursors may have faults in the place of records. A
query gives a page of what its reader sees at the items of the cursor; faults are neither skipped nor counted
(`run_exact`). A scan that refuses a record gives all the others (`asked_refusing`).
-/

namespace GuardedGraph

open Store (Backend Cursor Pending Memory Scripted)
open Query (Call conditions lastSet checked)

variable {t : ElementType} {a : Authorizations}

/-! ### Cursors -/

namespace Store

/-- What a reader sees at an item of a cursor; nothing if no record is there. -/
def Pending.seen (found : String → Option Record) (a : Authorizations) (p : Pending) : Except Error (Option (View t)) :=
  match Cursor.reach found p with
  | none => .ok none
  | some record => record.bind (·.view? t a)

/-- What a reader sees at the items of a cursor, as far as it is kept, and all faults. -/
def Cursor.results (found : String → Option Record) (a : Authorizations) (keep : View t → Bool) (c : Cursor) :
    List (Except Error (View t)) :=
  c.pending.filterMap fun p => Results.shown keep (p.seen found a)

end Store

namespace Results

theorem outcome_eq (found : String → Option Record) (r : Results t) (p : Pending) :
    r.outcome found p = shown r.keep (p.seen found r.reader) := by
  unfold outcome Pending.seen
  rcases Cursor.reach found p with _ | e | record
  · rfl
  · rfl
  · simp only [Except.bind]
    rcases record.view? t r.reader with _ | _ | _ <;> rfl

/-- What is given one by one is a page of what is seen at the items of the cursor. -/
theorem gives_iff {found : String → Option Record} {r : Results t} {l : List (Except Error (View t))} :
    r.Gives found l ↔ l = page r.skip r.remaining (r.cursor.results found r.reader r.keep) := by
  have listed : r.toList found = page r.skip r.remaining (r.cursor.results found r.reader r.keep) := by
    simp only [toList, Cursor.results, outcome_eq]
  rw [← listed]
  exact ⟨fun gives => gives.unique (gives_toList found r), fun same => same ▸ gives_toList found r⟩

end Results

/-! ### Queries -/

/-- A query fails as its first condition does that makes no sense, or else as the store does that is asked for
candidates. Otherwise it gives a page of what its reader sees at the items of the cursor, with the faults. -/
theorem Query.run_exact {σ : Type} [Backend σ] (g : Graph σ) (t : ElementType) (q : Query) :
    (∀ e, q.run g t = .error e ↔ checked g.kinds q.predicates = .error e ∨
      checked g.kinds q.predicates = .ok () ∧ q.candidates g t = .error e) ∧
    ∀ r, q.run g t = .ok r → ∃ c, q.candidates g t = .ok c ∧ ∀ found, ∃ l, (∀ m, r.Gives found m ↔ m = l) ∧
      Results.PageOf q.skip q.limit (c.results found q.reader q.keeps) l := by
  rw [run_eq_checked]
  cases checked g.kinds q.predicates with
  | error e => simp [bind, Except.bind]
  | ok _ =>
    cases candidates : q.candidates g t with
    | error e => simp [bind, Except.bind]
    | ok c =>
      refine ⟨fun e => by simp [bind, Except.bind, pure, Except.pure], fun r run => ?_⟩
      obtain rfl := Outcome.pure_ok run
      exact ⟨c, rfl, fun found => ⟨_, fun m => Results.gives_iff, Results.pageOf_page _ _ _⟩⟩

/-! ### A record that is refused -/

namespace Graph

/-- The graph over the memory of a script, without one of its records. -/
def lacking (g : Graph Scripted) (t : ElementType) (id : String) : Graph Memory :=
  ⟨g.store.memory.delete t id, g.config, g.index, g.kinds, g.names, g.minted⟩

/-- A cursor over all records, one of which it refuses. -/
def refusing (g : Graph Scripted) (t : ElementType) (id message : String) : Cursor :=
  Scripted.cursor t (g.store.memory.ids (.all t)) (some (.refuse id message))

/-- The faults among stored records, by ascending id, of which one is refused. -/
def faultsRefusing (g : Graph Scripted) (t : ElementType) (a : Authorizations) (id message : String) : List Error :=
  (g.store.memory.ids (.all t)).filterMap fun j =>
    if j = id then some (.storage (.reported message)) else Results.fault? ((g.lacking t id).get? t j a)

variable {g : Graph Scripted} {id message : String}

theorem stored_lacking (j : String) :
    (g.lacking t id).store.get? t j = if j = id then none else g.store.memory.get? t j := by
  refine (Memory.get?_delete ..).trans ?_
  simp only [true_and, eq_comm]

theorem get?_lacking_self : (g.lacking t id).get? t id a = .ok none :=
  get?_none ((stored_lacking id).trans (if_pos rfl))

theorem seen_lacking {j : String} (other : j ≠ id) :
    (Pending.lookup j).seen (g.found t) a = (g.lacking t id).get? t j a := by
  have same : (g.lacking t id).store.get? t j = g.store.memory.get? t j := (stored_lacking j).trans (if_neg other)
  have found : g.found t = g.store.memory.get? t := rfl
  cases there : g.store.memory.get? t j with
  | none =>
    rw [get?_none (same.trans there)]
    simp only [Pending.seen, Cursor.reach, found, there, Option.map_none]
  | some r =>
    rw [get?_some (same.trans there)]
    simp only [Pending.seen, Cursor.reach, found, there, Option.map_some]
    rfl

theorem seen_ids_lacking : ((g.lacking t id).seen t (g.store.memory.ids (.all t)) a) =
    (g.lacking t id).seen t ((g.lacking t id).store.ids (.all t)) a := by
  refine ascending_filterMap_congr ((Table.ascending_keys _).filter _) ((Table.ascending_keys _).filter _)
    fun j shown => ?_
  have other : j ≠ id := by
    rintro rfl
    rw [get?_lacking_self] at shown
    exact absurd shown (by simp [Except.toOption])
  rw [mem_ids, mem_ids, stored_lacking, if_neg other]

theorem results_refusing (keep : View t → Bool) : (g.refusing t id message).results (g.found t) a keep =
      (g.store.memory.ids (.all t)).filterMap fun j =>
        if j = id then some (.error (.storage (.reported message)))
        else Results.shown keep ((g.lacking t id).get? t j a) := by
  simp only [refusing, Scripted.cursor, Cursor.results, List.filterMap_map]
  refine List.filterMap_congr fun j mem => ?_
  obtain ⟨r, there⟩ := mem_ids.mp mem
  have found : g.found t j = some r := there
  show Results.shown keep (Pending.seen (g.found t) a (if j = id then _ else _)) = _
  by_cases own : j = id
  · rw [if_pos own, if_pos own]
    subst own
    simp only [Pending.seen, Cursor.reach, found, Option.map_some]
    rfl
  · rw [if_neg own, if_neg own, seen_lacking own]

theorem sound_refusing (keep : View t → Bool) :
    Results.sound ((g.refusing t id message).results (g.found t) a keep) =
      ((g.lacking t id).seen t ((g.lacking t id).store.ids (.all t)) a).filter keep := by
  rw [results_refusing, Results.sound, List.filterMap_filterMap, ← seen_ids_lacking, seen, List.filter_filterMap]
  refine List.filterMap_congr fun j _ => ?_
  by_cases own : j = id
  · subst own
    rw [if_pos rfl, get?_lacking_self]
    rfl
  · rw [if_neg own, Results.toOption_shown]

theorem faults_refusing (keep : View t → Bool) :
    Results.faults ((g.refusing t id message).results (g.found t) a keep) = g.faultsRefusing t a id message := by
  rw [results_refusing, Results.faults, List.filterMap_filterMap]
  refine List.filterMap_congr fun j _ => ?_
  by_cases own : j = id
  · rw [if_pos own, if_pos own]
    rfl
  · rw [if_neg own, if_neg own]
    rcases (g.lacking t id).get? t j a with e | _ | v
    · rfl
    · rfl
    · cases kept : keep v <;> simp [Results.shown, Results.fault?, kept]

/-- Where the scan refuses a record, a query of everything gives what it would give if the record were not there, and
besides it the faults of other records and one more in the place of this record, if it is there. -/
theorem asked_refusing {calls : List Call} (sensible : g.Sensible calls)
    (refuses : g.store.effect? .scan (some t) none = some (.refuse id message)) :
    ∃ r l, g.asked t a calls = .ok r ∧ r.Gives (g.found t) l ∧
      Results.sound l = (g.lacking t id).matching t a calls ∧
      Results.faults l <+: g.faultsRefusing t a id message ∧
      (lastSet Call.limit? calls = none → Results.faults l = g.faultsRefusing t a id message) := by
  have scan : Backend.scan g.store (.all t) = .ok (g.refusing t id message) := by
    show g.store.calling .scan (some t) none _ = _
    rw [Scripted.calling, refuses]
    rfl
  have asked := asked_eq (g := g) (t := t) (a := a) calls
  rw [checked_ok_iff.mpr sensible, scan] at asked
  have page := Results.pageOf_page ((lastSet Call.skip? calls).getD 0) (lastSet Call.limit? calls)
    ((g.refusing t id message).results (g.found t) a
      fun v : View t => decide (v.Meets ((lastSet Call.labels? calls).getD []) (conditions calls)))
  refine ⟨_, _, asked, Results.gives_iff.mpr rfl, ?_, ?_, fun unlimited => ?_⟩
  · exact page.cut.trans (by rw [sound_refusing, matching])
  · have part := page.faults
    rwa [faults_refusing] at part
  · have all := page.unlimited unlimited
    rwa [faults_refusing] at all

/-- One rule is enough for a scan that refuses a record. -/
example : Scripted.effect? ⟨[⟨.scan, .vertex, none, .refuse "v2" "bad page"⟩], .empty⟩ .scan (some .vertex) none =
    some (.refuse "v2" "bad page") := by
  decide

end Graph

end GuardedGraph

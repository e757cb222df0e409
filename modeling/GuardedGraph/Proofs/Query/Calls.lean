import GuardedGraph.Proofs.Outcome
import GuardedGraph.Query.Making

/-!
What a list of calls makes of a query: all the conditions, and of everything else what was set last. Checks when
conditions are added come to the same as checks when the query is run (`run_made`).
-/

namespace GuardedGraph.Query

open Outcome

/-! ### What is called for -/

namespace Call

def condition? : Call → Option Predicate
  | .having p => some p
  | _ => none

def labels? : Call → Option (List String)
  | .labels l => some l
  | _ => none

def skip? : Call → Option Nat
  | .skip n => some n
  | _ => none

def limit? : Call → Option Nat
  | .limit n => some n
  | _ => none

end Call

def conditions (calls : List Call) : List Predicate := calls.filterMap Call.condition?

/-- What is set by the last of the calls that set it. -/
def lastSet {α : Type} (set? : Call → Option α) (calls : List Call) : Option α := (calls.filterMap set?).getLast?

theorem lastSet_perm {α : Type} {set? : Call → Option α} {calls others : List Call} (perm : calls.Perm others)
    (once : (calls.filterMap set?).length ≤ 1) : lastSet set? calls = lastSet set? others := by
  have same := perm.filterMap set?
  rw [lastSet, lastSet]
  rcases hc : calls.filterMap set? with _ | ⟨x, _ | ⟨y, l⟩⟩
  · rw [hc] at same
    rw [same.nil_eq]
  · rw [hc] at same
    rw [List.singleton_perm.mp same]
  · rw [hc] at once
    exact absurd once (by simp)

/-! ### What has been called -/

/-- A field that some calls set, the others leaving it alone, is as the last of those calls has it. -/
theorem foldl_call_field {α β : Type} (field : Query → β) (set? : Call → Option α) (put : α → β)
    (step : ∀ q c, field (call q c) = ((set? c).map put).getD (field q)) (calls : List Call) (q : Query) :
    field (calls.foldl call q) = ((lastSet set? calls).map put).getD (field q) := by
  induction calls generalizing q with
  | nil => rfl
  | cons c calls ih =>
    rw [List.foldl_cons, ih, step, lastSet, lastSet, List.filterMap_cons]
    cases set? c with
    | none => rfl
    | some x => cases h : (calls.filterMap set?).getLast? <;> simp [List.getLast?_cons, h]

variable (calls : List Call) (q : Query)

theorem predicates_foldl_call : (calls.foldl call q).predicates = q.predicates ++ conditions calls := by
  induction calls generalizing q with
  | nil => exact (List.append_nil _).symm
  | cons c calls ih =>
    rw [List.foldl_cons, ih]
    cases c <;> simp [call, having, conditions, Call.condition?, List.filterMap_cons]

theorem labels_foldl_call : (calls.foldl call q).labels = (lastSet Call.labels? calls).getD q.labels := by
  have set := foldl_call_field labels Call.labels? (fun l => l) (fun _ c => by cases c <;> rfl) calls q
  rwa [Option.map_id'] at set

theorem skip_foldl_call : (calls.foldl call q).skip = (lastSet Call.skip? calls).getD q.skip := by
  have set := foldl_call_field skip Call.skip? (fun n => n) (fun _ c => by cases c <;> rfl) calls q
  rwa [Option.map_id'] at set

theorem limit_foldl_call : (calls.foldl call q).limit = (lastSet Call.limit? calls).or q.limit := by
  have set := foldl_call_field limit Call.limit? some (fun _ c => by cases c <;> rfl) calls q
  rw [set]
  cases lastSet Call.limit? calls <;> rfl

theorem reader_foldl_call : (calls.foldl call q).reader = q.reader := by
  induction calls generalizing q with
  | nil => rfl
  | cons c calls ih => rw [List.foldl_cons, ih]; cases c <;> rfl

theorem source_foldl_call : (calls.foldl call q).source = q.source := by
  induction calls generalizing q with
  | nil => rfl
  | cons c calls ih => rw [List.foldl_cons, ih]; cases c <;> rfl

/-! ### Checks on the way -/

/-- That all conditions make sense, or what the first is told that makes none. -/
def checked (kinds : Table Value.Kind) (l : List Predicate) : Except Error Unit :=
  l.forM fun p => p.check (kinds.get? p.name)

theorem run_eq_checked {σ : Type} [Store.Backend σ] (g : Graph σ) (t : ElementType) (q : Query) :
    q.run g t = (do
      checked g.kinds q.predicates
      return ⟨← q.candidates g t, q.reader, q.keeps, q.skip, q.limit⟩) := rfl

namespace Making

variable (kinds : Table Value.Kind)

theorem fault_foldl_call {m : Making} {e : Error} (fault : m.fault = some e) :
    (calls.foldl (call kinds) m).fault = some e := by
  induction calls generalizing m with
  | nil => exact fault
  | cons c calls ih =>
    refine ih ?_
    cases c <;> simp [call, fault]

theorem foldl_call_sound {calls : List Call} (checks : checked kinds (conditions calls) = .ok ()) :
    calls.foldl (call kinds) ⟨q, none⟩ = ⟨calls.foldl Query.call q, none⟩ := by
  induction calls generalizing q with
  | nil => rfl
  | cons c calls ih =>
    cases c with
    | having p =>
      obtain ⟨_, check, checks⟩ := bind_ok (show (p.check (kinds.get? p.name) >>= fun _ => _) = _ from checks)
      have first : call kinds ⟨q, none⟩ (.having p) = ⟨q.having p, none⟩ := by simp [call, check, add]
      rw [List.foldl_cons, first]
      exact ih _ checks
    | _ => exact ih _ checks

theorem fault_of_unsound {calls : List Call} {e : Error} (bad : checked kinds (conditions calls) = .error e) :
    (calls.foldl (call kinds) ⟨q, none⟩).fault = some e := by
  induction calls generalizing q with
  | nil => exact absurd bad (by simp [checked, conditions, pure, Except.pure])
  | cons c calls ih =>
    cases c with
    | having p =>
      have split : (p.check (kinds.get? p.name) >>= fun _ => checked kinds (conditions calls)) = .error e := bad
      rw [List.foldl_cons]
      cases check : p.check (kinds.get? p.name) with
      | error e' =>
        rw [check] at split
        refine fault_foldl_call calls kinds ?_
        simpa [call, check, add] using Except.error.inj split
      | ok _ =>
        rw [check] at split
        have first : call kinds ⟨q, none⟩ (.having p) = ⟨q.having p, none⟩ := by simp [call, check, add]
        rw [first]
        exact ih _ split
    | _ => exact ih _ bad

/-- A query that is checked while it is made is the query of the same calls, checked when it is run. -/
theorem run_made {σ : Type} [Store.Backend σ] (g : Graph σ) (t : ElementType) (source : Source)
    (a : Authorizations) : (calls.foldl (call g.kinds) (.ofSource source a)).run g t =
      (calls.foldl Query.call (.ofSource source a)).run g t := by
  rw [run_eq_checked, predicates_foldl_call]
  show _ = (checked g.kinds (conditions calls) >>= fun _ => _)
  cases checks : checked g.kinds (conditions calls) with
  | ok _ =>
    rw [show Making.ofSource source a = ⟨.ofSource source a, none⟩ from rfl, foldl_call_sound _ _ checks]
    rfl
  | error e =>
    have fault := fault_of_unsound (.ofSource source a) g.kinds checks
    rw [run, show Making.ofSource source a = ⟨.ofSource source a, none⟩ from rfl, fault]
    rfl

end Making

end GuardedGraph.Query

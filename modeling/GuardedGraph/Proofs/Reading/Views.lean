import GuardedGraph.Graph.Adjacent
import GuardedGraph.Store.Memory
import Mathlib.Data.List.Sort

/-! Reads of a graph in memory, by the views that the reader has of single elements. -/

namespace GuardedGraph

open Store (Backend Cursor Memory)

/-! ### Ascending ids -/

theorem ascending_filterMap_congr {α : Type} {f : String → Option α} {l m : List String}
    (hl : l.Pairwise (· < ·)) (hm : m.Pairwise (· < ·))
    (h : ∀ id, (f id).isSome → (id ∈ l ↔ id ∈ m)) : l.filterMap f = m.filterMap f := by
  have hfil : l.filter (fun id => (f id).isSome) = m.filter (fun id => (f id).isSome) := by
    refine (hl.filter _).eq_of_mem_iff (hm.filter _) fun id => ?_
    simp only [List.mem_filter]
    exact ⟨fun ⟨hi, hs⟩ => ⟨(h id hs).mp hi, hs⟩, fun ⟨hi, hs⟩ => ⟨(h id hs).mpr hi, hs⟩⟩
  have drop : ∀ k : List String, k.filterMap f = (k.filter (fun id => (f id).isSome)).filterMap f := by
    intro k
    rw [List.filterMap_filter]
    refine List.filterMap_congr fun id _ => ?_
    cases f id <;> rfl
  rw [drop l, drop m, hfil]

theorem mem_ids {m : Memory} {t : ElementType} {id : String} :
    id ∈ m.ids (.all t) ↔ ∃ r, m.get? t id = some r := by
  simp only [Memory.ids, List.mem_filter, Store.Range.has, Store.Range.all, Option.all_none, Bool.and_self,
    and_true]
  exact Table.mem_keys_iff

namespace Graph

variable {g : Graph Memory} {t : ElementType} {id : String} {a : Authorizations}

theorem get?_none (h : g.store.get? t id = none) : g.get? t id a = .ok none := by
  show (Except.ok (g.store.get? t id) >>= _) = _
  rw [h]
  rfl

theorem get?_some {r : Record} (h : g.store.get? t id = some r) : g.get? t id a = r.view? t a := by
  show (Except.ok (g.store.get? t id) >>= _) = _
  rw [h]
  rfl

end Graph

/-! ### Results by ids -/

namespace Results

variable {t : ElementType}

def shown (keep : View t → Bool) : Except Error (Option (View t)) → Option (Except Error (View t))
  | .error e => some (.error e)
  | .ok none => none
  | .ok (some v) => if keep v then some (.ok v) else none

theorem outcome_lookup (g : Graph Memory) (r : Results t) (id : String) :
    r.outcome (g.found t) (.lookup id) = shown r.keep (g.get? t id r.reader) := by
  have found : g.found t = g.store.get? t := rfl
  cases h : g.store.get? t id with
  | none =>
    rw [Graph.get?_none h]
    simp only [outcome, Cursor.reach, found, h, Option.map_none, shown]
  | some record =>
    rw [Graph.get?_some h]
    simp only [outcome, Cursor.reach, found, h, Option.map_some]
    rcases record.view? t r.reader with _ | _ | _ <;> rfl

theorem page_all {α : Type} (l : List (Except Error α)) : page 0 none l = l := by
  induction l with
  | nil => rfl
  | cons x l ih => cases x <;> simp [page, ih]

theorem toList_ofIds (g : Graph Memory) (ids : List String) (a : Authorizations) (keep : View t → Bool)
    (skip : Nat) (limit : Option Nat) :
    toList (g.found t) ⟨.ofIds t ids, a, keep, skip, limit⟩ =
      page skip limit (ids.filterMap fun id => shown keep (g.get? t id a)) := by
  simp only [toList, Cursor.ofIds, List.filterMap_map]
  congr 1
  exact List.filterMap_congr fun id _ => outcome_lookup g _ id

end Results

namespace Graph

theorem fetchAll_eq (g : Graph Memory) (t : ElementType) (ids : List String) (a : Authorizations) :
    g.fetchAll t ids a = (ids.filterMap fun id => Results.shown (fun _ => true) (g.get? t id a)).mapM id := by
  show (Results.toList (g.found t) ⟨.ofIds t ids, a, fun _ => true, 0, none⟩).mapM id = _
  rw [Results.toList_ofIds, Results.page_all]

end Graph

end GuardedGraph

import GuardedGraph.Proofs.Reading.Alike
import GuardedGraph.Proofs.Reading.Pages
import GuardedGraph.Proofs.Writing.References

/-!
What a reader sees of the elements of ids. Results by ids are a page of it (`sound_toList`), and where all records
decode they are nothing else (`toList_seen`).
-/

namespace GuardedGraph

open Store (Memory)

namespace Results

variable {t : ElementType} {α : Type}

theorem toOption_shown (keep : View t → Bool) (x : Except Error (Option (View t))) :
    (shown keep x).bind Except.toOption = x.toOption.join.filter keep := by
  rcases x with e | _ | v
  · rfl
  · rfl
  · cases h : keep v <;> simp [shown, h, Except.toOption, Option.filter]

theorem page_map_ok (skip : Nat) (limit : Option Nat) (l : List α) :
    page skip limit (l.map .ok) = (cut skip limit l).map .ok := by
  induction l generalizing skip limit with
  | nil => rcases limit with _ | n <;> simp [page_nil, cut]
  | cons x l ih =>
    by_cases full : limit = some 0
    · rw [full, page_limit_zero, cut_limit_zero]
      rfl
    · cases skip with
      | zero => rw [cut_cons limit x l full, List.map_cons, page, if_neg full, ih, List.map_cons]
      | succ skip => exact ih skip limit

end Results

namespace Graph

variable {g : Graph Memory} {t : ElementType} {a : Authorizations} {ids : List String}

/-- What a reader sees of the elements of ids. Elements at fault are left out. -/
def seen (g : Graph Memory) (t : ElementType) (ids : List String) (a : Authorizations) : List (View t) :=
  ids.filterMap fun id => (g.get? t id a).toOption.join

theorem join_toOption_eq_some {α : Type} {x : Except Error (Option α)} {y : α} :
    x.toOption.join = some y ↔ x = .ok (some y) := by
  rcases x with e | _ | z <;> simp [Except.toOption]

theorem mem_seen {v : View t} : v ∈ g.seen t ids a ↔ ∃ id ∈ ids, g.get? t id a = .ok (some v) := by
  simp only [seen, List.mem_filterMap, join_toOption_eq_some]

theorem id_of_get? (filed : g.store.Filed) {id : String} {v : View t} (got : g.get? t id a = .ok (some v)) :
    v.id = id := by
  cases found : g.store.get? t id with
  | none => simp [get?_none found] at got
  | some r =>
    rw [get?_some found] at got
    obtain ⟨-, -, ps, links, -, -, rfl⟩ := view?_some_iff.mp got
    exact (filed _ _ _ found).2

theorem nodup_seen (filed : g.store.Filed) (distinct : ids.Nodup) : ((g.seen t ids a).map (·.id)).Nodup := by
  have part : ((g.seen t ids a).map (·.id)).Sublist ids := by
    clear distinct
    induction ids with
    | nil => exact .slnil
    | cons id ids ih =>
      rw [seen, List.filterMap_cons]
      rcases got : g.get? t id a with e | _ | v
      · exact ih.cons id
      · exact ih.cons id
      · obtain rfl := id_of_get? filed got
        exact ih.cons_cons v.id
  exact distinct.sublist part

/-- Besides faults, results by ids are a page of what the reader sees and the results keep. -/
theorem sound_toList (keep : View t → Bool) (skip : Nat) (limit : Option Nat) :
    Results.sound (Results.toList (g.found t) ⟨.ofIds t ids, a, keep, skip, limit⟩) =
      Results.cut skip limit ((g.seen t ids a).filter keep) := by
  rw [Results.toList_ofIds, Results.sound_page, Results.sound, seen, List.filterMap_filterMap,
    List.filter_filterMap]
  simp only [Results.toOption_shown]

/-! ### Where all records decode -/

theorem decodes_of_ids (sound : ∀ t ∈ [ElementType.vertex, .edge], ∀ id ∈ g.store.ids (.all t),
    (g.store.get? t id).all fun r => r.whole.isOk && (t == .vertex || r.endpoints.isSome)) : g.Decodes := by
  intro t id r found
  have one := sound t (by cases t <;> simp) id (mem_ids.mpr ⟨r, found⟩)
  rw [found, Option.all_some, Bool.and_eq_true, Bool.or_eq_true] at one
  refine ⟨Outcome.ok_of_isOk one.1, ?_⟩
  rintro rfl
  exact one.2.resolve_left (by simp)

section

variable (decodes : g.Decodes)
include decodes

theorem shown_seen (keep : View t → Bool) : (ids.filterMap fun id => Results.shown keep (g.get? t id a)) =
    ((g.seen t ids a).filter keep).map .ok := by
  rw [seen, List.filter_filterMap, List.map_filterMap]
  refine List.filterMap_congr fun id _ => ?_
  obtain ⟨v, got⟩ := get?_ok decodes t id a
  rw [got]
  rcases v with _ | v
  · rfl
  · cases kept : keep v <;> simp [Results.shown, kept, Except.toOption, Option.filter]

theorem toList_seen (keep : View t → Bool) (skip : Nat) (limit : Option Nat) :
    Results.toList (g.found t) ⟨.ofIds t ids, a, keep, skip, limit⟩ =
      (Results.cut skip limit ((g.seen t ids a).filter keep)).map .ok := by
  rw [Results.toList_ofIds, shown_seen decodes, Results.page_map_ok]

theorem fetchAll_seen : g.fetchAll t ids a = .ok (g.seen t ids a) := by
  rw [fetchAll_eq, shown_seen decodes, List.filter_true]
  generalize g.seen t ids a = l
  induction l with
  | nil => rfl
  | cons v l ih =>
    rw [List.map_cons, List.mapM_cons, ih]
    rfl

end

end Graph

end GuardedGraph

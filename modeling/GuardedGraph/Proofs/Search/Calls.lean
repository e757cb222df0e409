import GuardedGraph.Proofs.Search.Listing
import Mathlib.Data.List.Induction

/-!
What an index holds after any calls: every element under the terms that its last call has inserted it with, and
nothing of those whose last call has removed them (`index_exact`). No term stays behind without ids, so that an index
is determined by the terms of its ids, and an element that is inserted again is as if it had been inserted once
(`Index.Made.insert_insert`).
-/

namespace GuardedGraph

theorem PerType.update_update {α : Type} (p : PerType α) (t : ElementType) (f g : α → α) :
    (p.update t f).update t g = p.update t (g ∘ f) := by
  cases t <;> rfl

namespace Search

variable {id j term : String}

/-! ### Terms with ids -/

/-- Every term of the table has an id. -/
def Filled (idsOf : Table (Table Unit)) : Prop := ∀ term ids, idsOf.get? term = some ids → ids.isEmpty = false

variable {idsOf : Table (Table Unit)}

theorem Filled.erase (filled : Filled idsOf) (term : String) : Filled (idsOf.erase term) := by
  intro u ids found
  rw [Table.get?_erase] at found
  split at found
  · exact absurd found (by simp)
  · exact filled u ids found

theorem Filled.insert (filled : Filled idsOf) (term : String) {ids : Table Unit} (some : ids.isEmpty = false) :
    Filled (idsOf.insert term ids) := by
  intro u ids' found
  rw [Table.get?_insert] at found
  split at found
  · obtain rfl := Option.some.inj found
    exact some
  · exact filled u ids' found

theorem Filled.pull (filled : Filled idsOf) (id term : String) : Filled (Shelf.pull id idsOf term) := by
  unfold Shelf.pull
  cases idsOf.get? term with
  | none => exact filled
  | some ids =>
    simp only
    split
    · exact filled.erase term
    · next left => exact filled.insert term (Bool.not_eq_true _ ▸ left)

theorem Filled.file (filled : Filled idsOf) (id term : String) : Filled (Shelf.file id idsOf term) := by
  refine filled.insert term ?_
  rw [← Bool.not_eq_true]
  exact fun empty => contains_of_isEmpty empty (contains_insert _ |>.mpr (.inr rfl))

theorem Filled.foldl {f : Table (Table Unit) → String → Table (Table Unit)}
    (keeps : ∀ idsOf term, Filled idsOf → Filled (f idsOf term)) (filled : Filled idsOf) (terms : List String) :
    Filled (terms.foldl f idsOf) := by
  induction terms generalizing idsOf with
  | nil => exact filled
  | cons term terms ih => exact ih (keeps idsOf term filled)

namespace Shelf

variable {s u : Shelf}

theorem filled_remove (filled : Filled s.idsOf) (id : String) : Filled (s.remove id).idsOf := by
  unfold remove
  cases s.termsOf.get? id with
  | none => exact filled
  | some terms => exact filled.foldl (fun _ term here => here.pull id term) terms.keys

theorem filled_insert (filled : Filled s.idsOf) (id : String) (terms : Table Unit) :
    Filled (s.insert id terms).idsOf :=
  (filled_remove filled id).foldl (fun _ term here => here.file id term) terms.keys

theorem termsOf_insert (s : Shelf) (id : String) (terms : Table Unit) (j : String) :
    (s.insert id terms).termsOf.get? j = if j = id then some terms else s.termsOf.get? j := by
  refine (Table.get?_insert (s.remove id).termsOf id j terms).trans ?_
  rw [termsOf_remove]
  by_cases own : j = id
  · simp [own]
  · simp [own, Ne.symm own]

theorem unit_ext {x y : Table Unit} (same : ∀ k, x.contains k ↔ y.contains k) : x = y := by
  refine Table.ext_get? fun k => ?_
  have here := same k
  unfold Table.contains at here
  cases hx : x.get? k <;> cases hy : y.get? k <;> simp_all

/-- The terms of the ids determine the ids of the terms. -/
theorem ext_termsOf (agrees : s.Agrees ∧ u.Agrees) (filled : Filled s.idsOf ∧ Filled u.idsOf)
    (same : ∀ id, s.termsOf.get? id = u.termsOf.get? id) : s = u := by
  have listed (term : String) : s.ids term = u.ids term := unit_ext fun id => by
    rw [agrees.1 id term, agrees.2 id term, same]
  have idsOf : s.idsOf = u.idsOf := Table.ext_get? fun term => by
    have here := listed term
    unfold ids at here
    cases hs : s.idsOf.get? term with
    | none =>
      cases hu : u.idsOf.get? term with
      | none => rfl
      | some ids =>
        rw [hs, hu] at here
        exact absurd (filled.2 term ids hu) (by rw [← show _ = ids from here]; decide)
    | some ids =>
      cases hu : u.idsOf.get? term with
      | none =>
        rw [hs, hu] at here
        exact absurd (filled.1 term ids hs) (by rw [show ids = _ from here]; decide)
      | some ids' =>
        rw [hs, hu] at here
        exact congrArg some here
  obtain ⟨termsOf, _⟩ := s
  obtain ⟨termsOf', _⟩ := u
  obtain rfl : termsOf = termsOf' := Table.ext_get? same
  obtain rfl := idsOf
  rfl

theorem insert_insert (agrees : s.Agrees) (filled : Filled s.idsOf) (id : String) (terms terms' : Table Unit) :
    (s.insert id terms).insert id terms' = s.insert id terms' := by
  refine ext_termsOf ⟨(agrees.insert id terms).insert id terms', agrees.insert id terms'⟩
    ⟨filled_insert (filled_insert filled id terms) id terms', filled_insert filled id terms'⟩ fun j => ?_
  rw [termsOf_insert, termsOf_insert, termsOf_insert]
  split <;> rfl

end Shelf

namespace Index

variable {x : Index}

theorem Made.filled (made : x.Made) (t : ElementType) : Filled (x.get t).idsOf := by
  induction made with
  | empty => cases t <;> exact fun _ _ none => nomatch none
  | insert u id fields _ ih =>
    unfold Index.insert
    rw [PerType.get_update]
    split
    · exact Shelf.filled_insert ih id _
    · exact ih
  | remove u id _ ih =>
    unfold Index.remove
    rw [PerType.get_update]
    split
    · exact Shelf.filled_remove ih id
    · exact ih

/-- Of an element that is inserted twice nothing is left but what it was inserted with last. -/
theorem Made.insert_insert (made : x.Made) (t : ElementType) (id : String) (fields fields' : List (String × String)) :
    (x.insert t id fields).insert t id fields' = x.insert t id fields' := by
  have again := Shelf.insert_insert (made.agrees t) (made.filled t) id
  unfold Index.insert
  rw [PerType.update_update]
  cases t with
  | vertex => exact congrArg (fun shelf => ({ x with vertices := shelf } : Index)) (again _ _)
  | edge => exact congrArg (fun shelf => ({ x with edges := shelf } : Index)) (again _ _)

end Index

/-! ### Calls -/

/-- A call that changes an index. -/
inductive Call
  | insert (type : ElementType) (id : String) (fields : List (String × String))
  | remove (type : ElementType) (id : String)

namespace Call

def apply (x : Index) : Call → Index
  | insert t id fields => x.insert t id fields
  | remove t id => x.remove t id

/-- The element that a call is about. -/
def subject : Call → ElementType × String
  | insert t id _ => (t, id)
  | remove t id => (t, id)

/-- The terms under which a call leaves its element. -/
def terms? : Call → Option (Table Unit)
  | insert _ _ fields => some (.ofList (fields.flatMap fun f => (terms f.2).map (·, ())))
  | remove .. => none

/-- A call settles the terms of its own element and changes those of no other. -/
theorem termsOf_apply (c : Call) (x : Index) (t : ElementType) (id : String) :
    ((apply x c).get t).termsOf.get? id = if c.subject = (t, id) then c.terms? else (x.get t).termsOf.get? id := by
  cases c with
  | insert u j fields =>
    show ((x.insert u j fields).get t).termsOf.get? id = _
    rw [Index.insert, PerType.get_update]
    by_cases type : u = t
    · rw [if_pos type, Shelf.termsOf_insert]
      simp only [subject, terms?, type, Prod.mk.injEq, true_and, eq_comm]
    · simp [subject, type]
  | remove u j =>
    show ((x.remove u j).get t).termsOf.get? id = _
    rw [Index.remove, PerType.get_update]
    by_cases type : u = t
    · rw [if_pos type, Shelf.termsOf_remove]
      simp only [subject, terms?, type, Prod.mk.injEq, true_and, eq_comm]
    · simp [subject, type]

end Call

variable {calls : List Call} {t : ElementType} {fields : List (String × String)}

/-- The index that the calls make of an empty one. -/
def Index.after (calls : List Call) : Index := calls.foldl Call.apply .empty

/-- The last call about the element has inserted it with the fields. -/
def LastInserted (calls : List Call) (t : ElementType) (id : String) (fields : List (String × String)) : Prop :=
  ∃ before later, calls = before ++ .insert t id fields :: later ∧ ∀ c ∈ later, c.subject ≠ (t, id)

theorem lastInserted_concat {c : Call} :
    LastInserted (calls ++ [c]) t id fields ↔
      c = .insert t id fields ∨ c.subject ≠ (t, id) ∧ LastInserted calls t id fields := by
  constructor
  · rintro ⟨before, later, split, others⟩
    obtain rfl | ⟨later, d, rfl⟩ := List.eq_nil_or_concat later
    · exact .inl (List.singleton_inj.mp (List.append_inj' split rfl).2)
    · rw [List.concat_eq_append, ← List.cons_append, ← List.append_assoc] at split
      obtain ⟨rfl, last⟩ := List.append_inj' split rfl
      obtain rfl := List.singleton_inj.mp last
      exact .inr ⟨others c (by simp), before, later, rfl, fun d there => others d (by simp [there])⟩
  · rintro (rfl | ⟨other, before, later, rfl, others⟩)
    · exact ⟨calls, [], rfl, nofun⟩
    · refine ⟨before, later ++ [c], by simp, fun d there => ?_⟩
      obtain earlier | last := List.mem_append.mp there
      · exact others d earlier
      · exact List.mem_singleton.mp last ▸ other

namespace Index

theorem after_concat (calls : List Call) (c : Call) : after (calls ++ [c]) = Call.apply (after calls) c := by
  simp [after]

theorem made_after (calls : List Call) : (after calls).Made := by
  induction calls using List.reverseRecOn with
  | nil => exact .empty
  | append_singleton calls c ih =>
    rw [after_concat]
    cases c with
    | insert t id fields => exact ih.insert t id fields
    | remove t id => exact ih.remove t id

/-- An element is filed if its last call has inserted it, under the terms that it came with. -/
theorem termsOf_after {terms : Table Unit} :
    ((after calls).get t).termsOf.get? id = some terms ↔
      ∃ fields, LastInserted calls t id fields ∧ (Call.insert t id fields).terms? = some terms := by
  induction calls using List.reverseRecOn with
  | nil =>
    constructor
    · cases t <;> exact nofun
    · rintro ⟨fields, ⟨before, later, split, -⟩, -⟩
      simp at split
  | append_singleton calls c ih =>
    rw [after_concat, Call.termsOf_apply]
    simp only [lastInserted_concat]
    split
    · next own =>
      simp only [own, ne_eq, not_true, false_and, or_false]
      cases c with
      | insert u j fields =>
        obtain ⟨rfl, rfl⟩ := Prod.mk.inj own
        exact ⟨fun filed => ⟨fields, rfl, filed⟩, fun ⟨_, same, filed⟩ => same ▸ filed⟩
      | remove u j => exact ⟨nofun, fun ⟨_, same, _⟩ => nomatch same⟩
    · next other =>
      have not (fields : List (String × String)) : c ≠ .insert t id fields := fun same => other (same ▸ rfl)
      simp only [not, other, ne_eq, not_false_eq_true, true_and, false_or]
      exact ih

theorem listed_after {term : String} :
    (((after calls).get t).ids term).contains id ↔
      ∃ fields, LastInserted calls t id fields ∧ term ∈ fields.flatMap (terms ·.2) := by
  rw [(made_after calls).agrees t id term]
  have named (fields : List (String × String)) (filed : Table Unit)
      (made : (Call.insert t id fields).terms? = some filed) :
      filed.contains term ↔ term ∈ fields.flatMap (terms ·.2) := by
    rw [← Option.some.inj made, ← contains_ofList, List.map_flatMap]
  simp only [termsOf_after]
  constructor
  · rintro ⟨filed, ⟨fields, last, made⟩, there⟩
    exact ⟨fields, last, (named fields filed made).mp there⟩
  · rintro ⟨fields, last, there⟩
    exact ⟨_, ⟨fields, last, rfl⟩, (named fields _ rfl).mpr there⟩

end Index

theorem LastInserted.unique {fields' : List (String × String)} (last : LastInserted calls t id fields)
    (last' : LastInserted calls t id fields') : fields = fields' := by
  induction calls using List.reverseRecOn with
  | nil =>
    obtain ⟨before, later, split, -⟩ := last
    simp at split
  | append_singleton calls c ih =>
    obtain rfl | ⟨other, last⟩ := lastInserted_concat.mp last
    · obtain same | ⟨other, -⟩ := lastInserted_concat.mp last'
      · exact (Call.insert.inj same).2.2
      · exact absurd rfl other
    · obtain rfl | ⟨-, last'⟩ := lastInserted_concat.mp last'
      · exact absurd rfl other
      · exact ih last last'

/-- After any calls a search finds, in ascending order and each once, exactly the elements whose last call has inserted
them with every term of the text, and nothing for a text without terms; both tables of the index say the same, and no
term is without ids. -/
theorem index_exact (calls : List Call) (t : ElementType) :
    (∀ text, terms text = [] → (Index.after calls).search t text = []) ∧
      (∀ text, ((Index.after calls).search t text).Pairwise (· < ·)) ∧
      (∀ text id, terms text ≠ [] → (id ∈ (Index.after calls).search t text ↔
        ∃ fields, LastInserted calls t id fields ∧ ∀ term ∈ terms text, term ∈ fields.flatMap (terms ·.2))) ∧
      (∀ id term, (((Index.after calls).get t).ids term).contains id ↔
        ∃ filed, ((Index.after calls).get t).termsOf.get? id = some filed ∧ filed.contains term) ∧
      (∀ term ids, ((Index.after calls).get t).idsOf.get? term = some ids → ids.isEmpty = false) := by
  have made := Index.made_after calls
  refine ⟨fun text none => ?_, fun text => ascending_search _ t text, fun text id some => ?_, made.agrees t,
    made.filled t⟩
  · rw [Index.search, none]
  · rw [mem_search, and_iff_right some]
    simp only [Index.listed_after]
    obtain ⟨first, mem⟩ := List.exists_mem_of_ne_nil _ some
    constructor
    · intro listed
      obtain ⟨fields, last, -⟩ := listed first mem
      refine ⟨fields, last, fun term there => ?_⟩
      obtain ⟨fields', last', listed⟩ := listed term there
      exact last.unique last' ▸ listed
    · rintro ⟨fields, last, all⟩ term there
      exact ⟨fields, last, all term there⟩

/-- A vertex and an edge of one id, of which the vertex is inserted again and the edge is removed. -/
def reindexed : List Call :=
  [.insert .vertex "x" [("text", "old words")], .insert .edge "x" [("text", "new words")],
    .insert .vertex "x" [("title", "New"), ("text", "new words")], .insert .vertex "y" [("text", "old news")],
    .remove .edge "x", .remove .edge "z"]

theorem index_exact_reindexed :
    terms "words, New words" ≠ [] ∧ "x" ∈ (Index.after reindexed).search .vertex "words, New words" ∧
      "x" ∉ (Index.after reindexed).search .vertex "old" ∧ "x" ∉ (Index.after reindexed).search .edge "new" := by
  obtain ⟨-, -, vertices, -, -⟩ := index_exact reindexed .vertex
  obtain ⟨-, -, edges, -, -⟩ := index_exact reindexed .edge
  have last : LastInserted reindexed .vertex "x" [("title", "New"), ("text", "new words")] :=
    ⟨reindexed.take 2, reindexed.drop 3, rfl, by decide⟩
  have some : terms "words, New words" ≠ [] := by decide +kernel
  refine ⟨some, (vertices _ _ some).mpr ⟨_, last, by decide +kernel⟩, fun found => ?_, fun found => ?_⟩
  · obtain ⟨fields, last', all⟩ := (vertices "old" "x" (by decide +kernel)).mp found
    obtain rfl := last.unique last'
    exact absurd all (by decide +kernel)
  · obtain ⟨fields, last', -⟩ := (edges "new" "x" (by decide +kernel)).mp found
    have removed : ((Index.after reindexed).get .edge).termsOf.get? "x" = none := by decide +kernel
    rw [Index.termsOf_after.mpr ⟨fields, last', rfl⟩] at removed
    exact absurd removed (by simp)

end Search

end GuardedGraph

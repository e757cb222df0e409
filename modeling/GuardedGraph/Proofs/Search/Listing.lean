import GuardedGraph.Proofs.Reading.Alike

/-! What an index lists under a term. In every index that has been made by inserting and removing, an id is
listed under the terms that it was last inserted with, and under no others, so that removing an id leaves
nothing of it. -/

namespace GuardedGraph.Search

variable {id j term : String}

/-- The table has the id under the term. -/
def Listed (idsOf : Table (Table Unit)) (term id : String) : Prop := ((idsOf.get? term).getD .empty).contains id

theorem contains_erase (t : Table Unit) : (t.erase id).contains j ↔ t.contains j ∧ j ≠ id := by
  unfold Table.contains
  rw [Table.get?_erase]
  split
  · next own => simp [own]
  · next other => simp [Ne.symm other]

theorem contains_insert (t : Table Unit) : (t.insert id ()).contains j ↔ t.contains j ∨ j = id := by
  unfold Table.contains
  rw [Table.get?_insert]
  split
  · next own => simp [own]
  · next other => simp [Ne.symm other]

theorem contains_of_isEmpty {t : Table Unit} (empty : t.isEmpty) : ¬t.contains j := by
  intro here
  obtain ⟨v, found⟩ := Option.isSome_iff_exists.mp here
  have mem := Table.get?_eq_some_iff.mp found
  rw [List.isEmpty_iff.mp empty] at mem
  exact List.not_mem_nil mem

theorem listed_pull (idsOf : Table (Table Unit)) (u : String) :
    Listed (Shelf.pull id idsOf u) term j ↔ Listed idsOf term j ∧ ¬(term = u ∧ j = id) := by
  unfold Shelf.pull
  cases found : idsOf.get? u with
  | none =>
    refine ⟨fun listed => ⟨listed, ?_⟩, fun both => both.1⟩
    rintro ⟨rfl, rfl⟩
    rw [Listed, found] at listed
    exact absurd listed (by simp [Table.contains])
  | some ids =>
    by_cases own : term = u
    · subst own
      have before : Listed idsOf term j ↔ ids.contains j := by rw [Listed, found, Option.getD_some]
      have erased : Listed idsOf term j ∧ ¬(term = term ∧ j = id) ↔ (ids.erase id).contains j := by
        rw [before, contains_erase]
        simp
      rw [erased]
      show Listed (if _ then _ else _) _ _ ↔ _
      split
      · next empty =>
        rw [Listed, Table.get?_erase, if_pos rfl]
        exact ⟨fun none => absurd none (by simp [Table.contains]), fun here => absurd here (contains_of_isEmpty empty)⟩
      · rw [Listed, Table.get?_insert, if_pos rfl, Option.getD_some]
    · have kept : Listed idsOf term j ∧ ¬(term = u ∧ j = id) ↔ Listed idsOf term j := by simp [own]
      rw [kept]
      show Listed (if _ then _ else _) _ _ ↔ _
      split
      · rw [Listed, Table.get?_erase, if_neg (Ne.symm own)]
        rfl
      · rw [Listed, Table.get?_insert, if_neg (Ne.symm own)]
        rfl

theorem listed_foldl_pull (terms : List String) (idsOf : Table (Table Unit)) :
    Listed (terms.foldl (Shelf.pull id) idsOf) term j ↔ Listed idsOf term j ∧ ¬(term ∈ terms ∧ j = id) := by
  induction terms generalizing idsOf with
  | nil => simp
  | cons u terms ih =>
    rw [List.foldl_cons, ih, listed_pull, List.mem_cons]
    grind

theorem listed_file (idsOf : Table (Table Unit)) (u : String) :
    Listed (Shelf.file id idsOf u) term j ↔ Listed idsOf term j ∨ (term = u ∧ j = id) := by
  unfold Listed Shelf.file
  rw [Table.get?_insert]
  by_cases own : u = term
  · subst own
    rw [if_pos rfl, Option.getD_some, contains_insert]
    simp
  · rw [if_neg own]
    simp [Ne.symm own]

theorem listed_foldl_file (terms : List String) (idsOf : Table (Table Unit)) :
    Listed (terms.foldl (Shelf.file id) idsOf) term j ↔ Listed idsOf term j ∨ (term ∈ terms ∧ j = id) := by
  induction terms generalizing idsOf with
  | nil => simp
  | cons u terms ih =>
    rw [List.foldl_cons, ih, listed_file, List.mem_cons]
    grind

namespace Shelf

/-- Both tables of the shelf say the same. -/
def Agrees (s : Shelf) : Prop :=
  ∀ id term, (s.ids term).contains id ↔ ∃ terms, s.termsOf.get? id = some terms ∧ terms.contains term

variable {s : Shelf}

theorem agrees_empty : Shelf.empty.Agrees := by
  intro id term
  constructor
  · intro none
    exact absurd none (by simp [empty, ids, Table.contains])
  · rintro ⟨terms, none, -⟩
    exact absurd none (by simp [empty])

theorem ids_remove (agrees : s.Agrees) (id j term : String) :
    ((s.remove id).ids term).contains j ↔ (s.ids term).contains j ∧ j ≠ id := by
  unfold remove
  cases found : s.termsOf.get? id with
  | none =>
    refine ⟨fun listed => ⟨listed, ?_⟩, fun both => both.1⟩
    rintro rfl
    obtain ⟨terms, filed, -⟩ := (agrees j term).mp listed
    rw [found] at filed
    exact absurd filed (by simp)
  | some terms =>
    refine (listed_foldl_pull terms.keys s.idsOf).trans (and_congr_right fun listed => not_congr ?_)
    refine ⟨fun both => both.2, ?_⟩
    rintro rfl
    obtain ⟨terms', filed, mem⟩ := (agrees j term).mp listed
    obtain rfl := Option.some.inj (found.symm.trans filed)
    exact ⟨Table.mem_keys_iff_contains.mpr mem, rfl⟩

theorem termsOf_remove (s : Shelf) (id j : String) :
    (s.remove id).termsOf.get? j = if j = id then none else s.termsOf.get? j := by
  unfold remove
  cases found : s.termsOf.get? id with
  | none =>
    show s.termsOf.get? j = _
    split
    · next own => rw [own, found]
    · rfl
  | some terms =>
    refine (Table.get?_erase _ _ _).trans ?_
    simp only [eq_comm]

theorem ids_insert (agrees : s.Agrees) (id : String) (terms : Table Unit) (j term : String) :
    ((s.insert id terms).ids term).contains j ↔
      ((s.ids term).contains j ∧ j ≠ id) ∨ (terms.contains term ∧ j = id) := by
  rw [← ids_remove agrees, ← Table.mem_keys_iff_contains (t := terms)]
  exact listed_foldl_file _ _

theorem Agrees.insert (agrees : s.Agrees) (id : String) (terms : Table Unit) : (s.insert id terms).Agrees := by
  intro j term
  have filed : (s.insert id terms).termsOf.get? j = if id = j then some terms else (s.remove id).termsOf.get? j :=
    Table.get?_insert _ _ _ _
  rw [filed, ids_insert agrees, termsOf_remove, agrees j term]
  by_cases own : j = id
  · subst own
    simp
  · simp [own, Ne.symm own]

end Shelf

/-- Both tables of both shelves say the same. -/
def Index.Agrees (x : Index) : Prop := ∀ t, (x.get t).Agrees

namespace Index

variable {x : Index}

theorem agrees_empty : Index.empty.Agrees := by
  intro t
  cases t <;> exact Shelf.agrees_empty

theorem Agrees.insert (agrees : x.Agrees) (t : ElementType) (id : String) (fields : List (String × String)) :
    (x.insert t id fields).Agrees := by
  intro u
  unfold Index.insert
  rw [PerType.get_update]
  split
  · exact (agrees u).insert id _
  · exact agrees u

theorem contains_ofList {l : List String} {term : String} :
    (Table.ofList (l.map (·, ()))).contains term ↔ term ∈ l := by
  have fold (t : Table Unit) :
      ((l.map (·, ())).foldl (fun t e => t.insert e.1 e.2) t).contains term ↔ t.contains term ∨ term ∈ l := by
    induction l generalizing t with
    | nil => simp
    | cons x l ih =>
      rw [List.map_cons, List.foldl_cons, ih, contains_insert, List.mem_cons, or_assoc]
  rw [Table.ofList, fold]
  simp [Table.contains]

/-- An element that is inserted is listed under the terms of its fields, and the others as they were. -/
theorem Agrees.ids_insert (agrees : x.Agrees) (t : ElementType) (id : String) (fields : List (String × String))
    (u : ElementType) (j term : String) : (((x.insert t id fields).get u).ids term).contains j ↔
      if u = t ∧ j = id then term ∈ (fields.map (·.2)).flatMap terms else ((x.get u).ids term).contains j := by
  have flat : fields.flatMap (fun f => (terms f.2).map (·, ())) = ((fields.map (·.2)).flatMap terms).map (·, ()) := by
    rw [List.map_flatMap, List.flatMap_map]
  unfold Index.insert
  rw [PerType.get_update]
  by_cases type : t = u
  · subst type
    rw [if_pos rfl, Shelf.ids_insert (agrees t), flat, contains_ofList]
    by_cases own : j = id <;> simp [own]
  · rw [if_neg type, if_neg fun here => type here.1.symm]

/-! ### Dropping elements -/

/-- The index has become `y` by losing some elements, and nothing else. -/
structure Drops (x : Index) (dropped : ElementType → String → Bool) (y : Index) : Prop where
  termsOf : ∀ t id, (y.get t).termsOf.get? id = if dropped t id then none else (x.get t).termsOf.get? id
  ids : ∀ t id term, ((y.get t).ids term).contains id = (((x.get t).ids term).contains id && !dropped t id)
  search : ∀ t text, y.search t text = (x.search t text).filter (!dropped t ·)

variable {y z : Index} {dropped others : ElementType → String → Bool}

/-- What is found follows from what is listed. -/
theorem Drops.of_ids
    (termsOf : ∀ t id, (y.get t).termsOf.get? id = if dropped t id then none else (x.get t).termsOf.get? id)
    (ids : ∀ t id term, ((y.get t).ids term).contains id = (((x.get t).ids term).contains id && !dropped t id)) :
    x.Drops dropped y := by
  refine ⟨termsOf, ids, fun t text => ?_⟩
  refine (ascending_search y t text).eq_of_mem_iff ((ascending_search x t text).filter _) fun id => ?_
  rw [List.mem_filter, mem_search, mem_search]
  simp only [ids, Bool.and_eq_true]
  constructor
  · rintro ⟨some, listed⟩
    obtain ⟨first, mem⟩ := List.exists_mem_of_ne_nil _ some
    exact ⟨⟨some, fun term there => (listed term there).1⟩, (listed first mem).2⟩
  · rintro ⟨⟨some, listed⟩, kept⟩
    exact ⟨some, fun term there => ⟨listed term there, kept⟩⟩

theorem drops_none (x : Index) : x.Drops (fun _ _ => false) x :=
  .of_ids (by simp) (by simp)

theorem Drops.trans (first : x.Drops dropped y) (second : y.Drops others z) :
    x.Drops (fun t id => dropped t id || others t id) z := by
  refine .of_ids (fun t id => ?_) fun t id term => ?_
  · rw [second.termsOf, first.termsOf]
    cases dropped t id <;> cases others t id <;> rfl
  · rw [second.ids, first.ids, Bool.not_or, Bool.and_assoc]

theorem Drops.agrees (drops : x.Drops dropped y) (agrees : x.Agrees) : y.Agrees := by
  intro t id term
  rw [drops.ids, drops.termsOf, Bool.and_eq_true, agrees t id term]
  cases dropped t id <;> simp

theorem Agrees.drops_remove (agrees : x.Agrees) (t : ElementType) (id : String) :
    x.Drops (fun u j => u = t ∧ j = id) (x.remove t id) := by
  unfold Index.remove
  refine .of_ids (fun u j => ?_) fun u j term => ?_
  · rw [PerType.get_update]
    split
    · next own =>
      subst own
      rw [Shelf.termsOf_remove]
      simp
    · next other => simp [Ne.symm other]
  · rw [PerType.get_update]
    split
    · next own =>
      subst own
      rw [Bool.eq_iff_iff, Shelf.ids_remove (agrees t)]
      simp
    · next other => simp [Ne.symm other]

/-! ### Indexes in use -/

/-- An index that inserting and removing have led to. -/
inductive Made : Index → Prop
  | empty : Made .empty
  | insert {x : Index} (t : ElementType) (id : String) (fields : List (String × String)) : Made x →
      Made (x.insert t id fields)
  | remove {x : Index} (t : ElementType) (id : String) : Made x → Made (x.remove t id)

theorem Made.agrees (made : x.Made) : x.Agrees := by
  induction made with
  | empty => exact agrees_empty
  | insert t id fields _ ih => exact ih.insert t id fields
  | remove t id _ ih => exact (ih.drops_remove t id).agrees ih

end Index

end GuardedGraph.Search

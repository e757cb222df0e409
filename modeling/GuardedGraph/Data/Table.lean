/-!
Tables keyed by text, kept in ascending order of their keys. A table is determined by its lookups
(`Table.ext_get?`), and each operation has one lookup equation.
-/

namespace GuardedGraph

/-- Entries in strictly ascending order of their keys. -/
structure Table (α : Type) where
  entries : List (String × α)
  ascending : entries.Pairwise (fun a b => a.1 < b.1)
  deriving DecidableEq

namespace Table

variable {α β : Type}

/-- The value under the first entry of a key. -/
def lookup (k : String) : List (String × α) → Option α
  | [] => none
  | (j, v) :: rest => if j = k then some v else lookup k rest

/-- One pass that places an entry before the first larger key, in the stead of an equal one. -/
def place (k : String) (v : α) : List (String × α) → List (String × α)
  | [] => [(k, v)]
  | (j, w) :: rest =>
    if k < j then (k, v) :: (j, w) :: rest
    else if j = k then (k, v) :: rest
    else (j, w) :: place k v rest

theorem mem_place {k : String} {v : α} {e : String × α} {l : List (String × α)} :
    e ∈ place k v l → e = (k, v) ∨ e ∈ l := by
  induction l with
  | nil => simp [place]
  | cons hd tl ih =>
    obtain ⟨j, w⟩ := hd
    rw [place]
    split
    · grind
    · split <;> grind

theorem ascending_place {k : String} {v : α} {l : List (String × α)}
    (h : l.Pairwise (fun a b => a.1 < b.1)) : (place k v l).Pairwise (fun a b => a.1 < b.1) := by
  induction l with
  | nil => simp [place]
  | cons hd tl ih =>
    obtain ⟨j, w⟩ := hd
    rw [List.pairwise_cons] at h
    rw [place]
    split
    · rename_i hlt
      rw [List.pairwise_cons]
      refine ⟨fun e he => ?_, List.pairwise_cons.mpr h⟩
      rcases List.mem_cons.mp he with rfl | he
      · exact hlt
      · exact String.lt_trans hlt (h.1 e he)
    · rename_i hnlt
      split
      · rename_i heq
        subst heq
        exact List.pairwise_cons.mpr ⟨fun e he => h.1 e he, h.2⟩
      · rename_i hne
        refine List.pairwise_cons.mpr ⟨fun e he => ?_, ih h.2⟩
        rcases mem_place he with rfl | he
        · exact Std.lt_of_le_of_ne (String.not_lt.mp hnlt) hne
        · exact h.1 e he

def empty : Table α := ⟨[], .nil⟩

instance : Inhabited (Table α) := ⟨empty⟩

def get? (t : Table α) (k : String) : Option α := lookup k t.entries

def contains (t : Table α) (k : String) : Bool := (t.get? k).isSome

def insert (t : Table α) (k : String) (v : α) : Table α := ⟨place k v t.entries, ascending_place t.ascending⟩

def filter (t : Table α) (keep : String × α → Bool) : Table α :=
  ⟨t.entries.filter keep, t.ascending.filter keep⟩

def erase (t : Table α) (k : String) : Table α := t.filter (fun e => !(e.1 == k))

def keys (t : Table α) : List String := t.entries.map (·.1)

def size (t : Table α) : Nat := t.entries.length

def isEmpty (t : Table α) : Bool := t.entries.isEmpty

/-- Inserts in order, so that of entries with one key the last remains. -/
def ofList (l : List (String × α)) : Table α := l.foldl (fun t e => t.insert e.1 e.2) empty

/-! ### Lookups -/

theorem lookup_place (k j : String) (v : α) (l : List (String × α)) :
    lookup j (place k v l) = if k = j then some v else lookup j l := by
  induction l with
  | nil => simp [place, lookup]
  | cons hd tl ih =>
    obtain ⟨i, w⟩ := hd
    rw [place]
    split
    · simp [lookup]
    · split
      · rename_i hik
        subst hik
        by_cases h : i = j <;> simp [lookup, h]
      · rename_i hne
        by_cases h : i = j
        · subst h
          simp [lookup, Ne.symm hne]
        · simp [lookup, h, ih]

@[simp] theorem get?_empty (k : String) : (empty : Table α).get? k = none := rfl

theorem get?_insert (t : Table α) (k j : String) (v : α) :
    (t.insert k v).get? j = if k = j then some v else t.get? j := lookup_place k j v t.entries

theorem mem_of_lookup {k : String} {v : α} {l : List (String × α)} (h : lookup k l = some v) : (k, v) ∈ l := by
  induction l with
  | nil => simp [lookup] at h
  | cons hd tl ih =>
    obtain ⟨j, w⟩ := hd
    rw [lookup] at h
    split at h
    · simp_all
    · exact List.mem_cons_of_mem _ (ih h)

theorem lookup_of_mem {k : String} {v : α} {l : List (String × α)} (s : l.Pairwise (fun a b => a.1 < b.1))
    (h : (k, v) ∈ l) : lookup k l = some v := by
  induction l with
  | nil => simp at h
  | cons hd tl ih =>
    obtain ⟨j, w⟩ := hd
    rw [List.pairwise_cons] at s
    rcases List.mem_cons.mp h with h | h
    · simp only [Prod.mk.injEq] at h
      simp [lookup, h]
    · have : j ≠ k := fun e => String.lt_irrefl k (by simpa [e] using s.1 _ h)
      rw [lookup, if_neg this, ih s.2 h]

theorem get?_eq_some_iff {t : Table α} {k : String} {v : α} : t.get? k = some v ↔ (k, v) ∈ t.entries :=
  ⟨mem_of_lookup, lookup_of_mem t.ascending⟩

theorem mem_keys_iff {t : Table α} {k : String} : k ∈ t.keys ↔ ∃ v, t.get? k = some v := by
  simp [keys, get?_eq_some_iff]

theorem mem_keys_iff_contains {t : Table α} {k : String} : k ∈ t.keys ↔ t.contains k := by
  rw [mem_keys_iff, contains, Option.isSome_iff_exists]

theorem get?_filter (t : Table α) (keep : String × α → Bool) (k : String) :
    (t.filter keep).get? k = (t.get? k).filter (fun v => keep (k, v)) := by
  ext v
  rw [get?_eq_some_iff, Option.filter_eq_some_iff, get?_eq_some_iff]
  simp [filter]

theorem get?_erase (t : Table α) (k j : String) :
    (t.erase k).get? j = if k = j then none else t.get? j := by
  rw [erase, get?_filter]
  by_cases h : k = j
  · subst h
    cases t.get? k <;> simp [Option.filter]
  · rw [if_neg h]
    cases t.get? j <;> simp [Option.filter, Ne.symm h]

theorem ascending_keys (t : Table α) : t.keys.Pairwise (· < ·) := by
  simpa [keys, List.pairwise_map] using t.ascending

theorem eq_of_mem_iff {l m : List (String × α)} (hl : l.Pairwise (fun a b => a.1 < b.1))
    (hm : m.Pairwise (fun a b => a.1 < b.1)) (h : ∀ e, e ∈ l ↔ e ∈ m) : l = m := by
  induction l generalizing m with
  | nil =>
    cases m with
    | nil => rfl
    | cons e _ => exact absurd ((h e).mpr (by simp)) (by simp)
  | cons a l ih =>
    cases m with
    | nil => exact absurd ((h a).mp (by simp)) (by simp)
    | cons b m =>
      rw [List.pairwise_cons] at hl hm
      have hab : a = b := by
        rcases List.mem_cons.mp ((h a).mp (by simp)) with e | e
        · exact e
        · rcases List.mem_cons.mp ((h b).mpr (by simp)) with f | f
          · exact f.symm
          · exact absurd (String.lt_trans (hl.1 _ f) (hm.1 _ e)) (String.lt_irrefl _)
      subst hab
      refine congrArg _ (ih hl.2 hm.2 fun e => ⟨fun he => ?_, fun he => ?_⟩)
      · rcases List.mem_cons.mp ((h e).mp (List.mem_cons_of_mem _ he)) with e' | e'
        · exact absurd (e' ▸ hl.1 _ he) (String.lt_irrefl _)
        · exact e'
      · rcases List.mem_cons.mp ((h e).mpr (List.mem_cons_of_mem _ he)) with e' | e'
        · exact absurd (e' ▸ hm.1 _ he) (String.lt_irrefl _)
        · exact e'

theorem ext_get? {s t : Table α} (h : ∀ k, s.get? k = t.get? k) : s = t := by
  obtain ⟨l, hl⟩ := s
  obtain ⟨m, hm⟩ := t
  have : l = m := eq_of_mem_iff hl hm fun ⟨k, v⟩ => by
    have h : lookup k l = lookup k m := h k
    exact ⟨fun e => mem_of_lookup (h ▸ lookup_of_mem hl e), fun e => mem_of_lookup (h ▸ lookup_of_mem hm e)⟩
  subst this
  rfl

end Table

end GuardedGraph

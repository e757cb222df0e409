import GuardedGraph.Proofs.Contents.Places

/-! Metadata that a writer cannot read. It stays where it is, also before entries of the writer under the same names,
whatever the writer does short of removing or moving properties. -/

namespace GuardedGraph

open Outcome

/-! ### Tables of entries -/

theorem Table.get?_foldl_insert {α : Type} {l : List (String × α)} (ascending : l.Pairwise fun x y => x.1 < y.1)
    (t : Table α) (k : String) :
    (l.foldl (fun t e => t.insert e.1 e.2) t).get? k = (Table.lookup k l).or (t.get? k) := by
  induction l generalizing t with
  | nil => rfl
  | cons e l ih =>
    obtain ⟨before, ascending⟩ := List.pairwise_cons.mp ascending
    rw [List.foldl_cons, ih ascending, Table.get?_insert, Table.lookup]
    by_cases own : e.1 = k
    · -- No later entry has the name again.
      subst own
      have last : Table.lookup e.1 l = none := by
        cases found : Table.lookup e.1 l with
        | none => rfl
        | some v => exact absurd (before _ (Table.mem_of_lookup found)) (String.lt_irrefl e.1)
      simp [last]
    · simp [own]

namespace Metadata

variable {a : Authorizations} {m n : Metadata}

theorem get?_under (m top : Metadata) (k : String) : (m.under top).get? k = (top.get? k).or (m.get? k) :=
  Table.get?_foldl_insert top.ascending m k

theorem get?_unreadable (m : Metadata) (a : Authorizations) (k : String) :
    (m.unreadable a).get? k = (m.get? k).filter fun e => !e.visibility.readableBy a :=
  Table.get?_filter m _ k

/-- The entries of `n` are those of `old` that `a` cannot read, and those of `m` under other names than these have. -/
def Merged (a : Authorizations) (old m n : Metadata) : Prop :=
  ∀ k e, n.get? k = some e ↔ (old.get? k = some e ∧ e.visibility.readableBy a = false) ∨
    (m.get? k = some e ∧ ∀ held, old.get? k = some held → held.visibility.readableBy a = true)

theorem merged_under (a : Authorizations) (old m : Metadata) : Merged a old m (m.under (old.unreadable a)) := by
  intro k e
  rw [get?_under, get?_unreadable]
  cases old.get? k with
  | none => simp
  | some held =>
    cases readable : held.visibility.readableBy a with
    | true =>
      simpa [Option.filter, readable] using fun same unreadable => absurd (same ▸ readable) (by simp [unreadable])
    | false => simpa [Option.filter, readable] using fun same => same ▸ readable

theorem Merged.unreadable {old : Metadata} (merged : Merged a old m n)
    (readable : ∀ e ∈ m.entries, e.2.visibility.readableBy a = true) : n.unreadable a = old.unreadable a := by
  refine Table.ext_get? fun k => Option.ext fun e => ?_
  rw [get?_unreadable, get?_unreadable, Option.filter_eq_some_iff, Option.filter_eq_some_iff, merged k e]
  refine and_congr_left fun unreadable => ⟨fun here => ?_, fun here => .inl ⟨here, by simpa using unreadable⟩⟩
  rcases here with ⟨here, -⟩ | ⟨own, -⟩
  · exact here
  · simp [readable _ (Table.get?_eq_some_iff.mp own)] at unreadable

/-- At most the entry of a name differs, and none where there is one of that name that `a` cannot read. -/
structure Annotated (a : Authorizations) (name : String) (entry : Entry) (m n : Metadata) : Prop where
  others : ∀ k, k ≠ name → n.get? k = m.get? k
  free : (∀ held, m.get? name = some held → held.visibility.readableBy a = true) → n.get? name = some entry
  held : ∀ held, m.get? name = some held → held.visibility.readableBy a = false → n = m

theorem contains_unreadable_iff {name : String} :
    (m.unreadable a).contains name = true ↔ ∃ held, m.get? name = some held ∧ held.visibility.readableBy a = false := by
  rw [Table.contains, get?_unreadable, Option.isSome_iff_exists]
  simp only [Option.filter_eq_some_iff, Bool.not_eq_true']

theorem Annotated.unreadable {name : String} {entry : Entry} (annotated : Annotated a name entry m n)
    (readable : entry.visibility.readableBy a = true) : n.unreadable a = m.unreadable a := by
  by_cases shadowed : ∃ held, m.get? name = some held ∧ held.visibility.readableBy a = false
  · obtain ⟨held, there, unreadable⟩ := shadowed
    rw [annotated.held held there unreadable]
  · have free : ∀ held, m.get? name = some held → held.visibility.readableBy a = true := by simpa using shadowed
    refine Table.ext_get? fun k => ?_
    rw [get?_unreadable, get?_unreadable]
    by_cases own : k = name
    · subst own
      rw [annotated.free free, Option.filter_eq_none_iff.mpr (by simpa using readable),
        Option.filter_eq_none_iff.mpr (by simpa using free)]
    · rw [annotated.others k own]

end Metadata

namespace Property

variable {a : Authorizations}

theorem annotated_annotate (name : String) (entry : Entry) (p : Property) :
    Metadata.Annotated a name entry p.metadata (p.annotate a name entry).metadata := by
  unfold annotate
  split
  · rename_i shadowed
    obtain ⟨held, there, unreadable⟩ := Metadata.contains_unreadable_iff.mp shadowed
    exact ⟨fun _ _ => rfl, fun free => absurd (free held there) (by simp [unreadable]), fun _ _ _ => rfl⟩
  · rename_i open_
    refine ⟨fun k other => ?_, fun _ => ?_, fun held there unreadable =>
      absurd (Metadata.contains_unreadable_iff.mpr ⟨held, there, unreadable⟩) open_⟩
    · exact (Table.get?_insert p.metadata name k entry).trans (if_neg other.symm)
    · exact (Table.get?_insert p.metadata name name entry).trans (if_pos rfl)

/-- The property is where it was, with the same of the metadata that `a` cannot read. -/
structure KeepsUnreadable (a : Authorizations) (p q : Property) : Prop where
  place : q.place = p.place
  metadata : q.metadata.unreadable a = p.metadata.unreadable a

theorem KeepsUnreadable.refl (p : Property) : p.KeepsUnreadable a p := ⟨rfl, rfl⟩

theorem KeepsUnreadable.trans {p q r : Property} (first : p.KeepsUnreadable a q) (second : q.KeepsUnreadable a r) :
    p.KeepsUnreadable a r :=
  ⟨second.place.trans first.place, second.metadata.trans first.metadata⟩

theorem keepsUnreadable_exchange {l r : List Property} {p q : Property} (keeps : p.KeepsUnreadable a q) :
    ∀ x ∈ l ++ p :: r, ∃ y ∈ l ++ q :: r, x.KeepsUnreadable a y := by
  intro x mem
  by_cases own : x = p
  · exact ⟨q, List.mem_append_right l List.mem_cons_self, own ▸ keeps⟩
  · exact ⟨x, mem_exchange mem own, .refl x⟩

end Property

/-! ### Changes -/

namespace Change

variable {a : Authorizations} {ps qs : List Property}

/-- The change neither removes properties nor moves one. -/
def Retains : Change → Prop
  | removeAll .. | remove .. | move .. => False
  | set .. | annotate .. | relabel .. | hide .. | unhide .. => True

/-- The entries of metadata that the change gives. -/
def entries : Change → List (String × Entry)
  | set _ _ _ _ metadata => metadata.entries
  | annotate _ _ name value visibility => [(name, ⟨value, visibility⟩)]
  | _ => []

theorem entries_readable {c : Change} (ok : c.properties a ps = .ok qs) :
    ∀ e ∈ c.entries, e.2.visibility.readableBy a = true := by
  cases c with
  | set key name value v m =>
    unfold properties at ok
    simp only at ok
    split at ok
    · exact absurd ok (by simp [bind, Except.bind, throw, throwThe, MonadExceptOf.throw])
    · obtain ⟨_, -, ok⟩ := bind_ok ok
      obtain ⟨_, required, -⟩ := bind_ok ok
      exact fun e mem => require_ok (forM_ok_iff.mp required e mem)
  | annotate key name entry value v =>
    obtain ⟨_, required, -⟩ := bind_ok ok
    exact List.forall_mem_singleton.mpr (require_ok required)
  | _ => exact fun e mem => absurd mem List.not_mem_nil

theorem Does.keepsUnreadable {c : Change} (does : Does a ps c qs) (retains : c.Retains)
    (readable : ∀ e ∈ c.entries, e.2.visibility.readableBy a = true) :
    ∀ p ∈ ps, ∃ q ∈ qs, p.KeepsUnreadable a q := by
  cases does with
  | replace middle fit =>
    subst middle
    exact Property.keepsUnreadable_exchange ⟨rfl, (Metadata.merged_under a _ _).unreadable readable⟩
  | add free => exact fun p mem => ⟨p, List.mem_append_left _ mem, .refl p⟩
  | annotate key name entry value v =>
    intro p mem
    refine ⟨_, List.mem_map_of_mem mem, ?_⟩
    split
    · exact ⟨Property.place_annotate a entry ⟨value, v⟩ p,
        (Property.annotated_annotate entry ⟨value, v⟩ p).unreadable
          (readable _ (List.mem_singleton_self _))⟩
    · exact .refl p
  | relabel v => exact fun p mem => ⟨p, mem, .refl p⟩
  | hide marker middle fit =>
    subst middle
    exact Property.keepsUnreadable_exchange ⟨rfl, rfl⟩
  | unhide marker middle fit =>
    subst middle
    exact Property.keepsUnreadable_exchange ⟨rfl, rfl⟩
  | _ => exact retains.elim

/-- What `a` makes of a property when it sets an entry of the properties of a key and name. -/
def Notes (a : Authorizations) (key name entry : String) (given : Entry) (p q : Property) : Prop :=
  if p.named key name && p.visibleTo a then
    ∃ n, q = { p with metadata := n } ∧ Metadata.Annotated a entry given p.metadata n
  else q = p

variable {key name : String} {value : Value} {v : Visibility}

theorem Does.merged {m : Metadata} (does : Does a ps (Change.set key name value v m) qs)
    (distinct : Property.Distinct ps) {p : Property} (mem : p ∈ ps) (there : p.place = (key, name, v)) :
    ∃ l r n, ps = l ++ p :: r ∧ qs = l ++ { p with value, metadata := n } :: r ∧
      Metadata.Merged a p.metadata m n := by
  have fit : p.isAt key name v = true := Property.isAt_iff.mpr there
  cases does with
  | @replace l r p₀ _ _ _ _ _ middle fit₀ =>
    have own : p₀ = p := distinct.eq (middle ▸ List.mem_append_right l List.mem_cons_self) mem
      ((Property.isAt_iff.mp fit₀).trans there.symm)
    subst own
    exact ⟨l, r, _, middle, rfl, Metadata.merged_under a p₀.metadata m⟩
  | add free => exact absurd fit (by simp [free p mem])

theorem Does.notes {entry : String} (does : Does a ps (Change.annotate key name entry value v) qs) :
    List.Forall₂ (Notes a key name entry ⟨value, v⟩) ps qs := by
  cases does
  rw [List.forall₂_map_right_iff, List.forall₂_same]
  intro p _
  unfold Notes
  split
  · refine ⟨_, ?_, Property.annotated_annotate entry ⟨value, v⟩ p⟩
    unfold Property.annotate
    split <;> rfl
  · rfl

end Change

/-! ### Elements -/

theorem Element.apply_keepsUnreadable {a : Authorizations} {changes : List Change} {e f : Element}
    (retains : ∀ c ∈ changes, c.Retains) (applied : e.apply a changes = .ok f) :
    ∀ p ∈ e.properties, ∃ q ∈ f.properties, p.KeepsUnreadable a q := by
  refine apply_keeps (P := fun qs => ∀ p ∈ e.properties, ∃ q ∈ qs, p.KeepsUnreadable a q)
    (fun mem ok before p there => ?_) applied fun p there => ⟨p, there, .refl p⟩
  obtain ⟨q, there, keeps⟩ := before p there
  obtain ⟨r, there, again⟩ :=
    (Change.does_of_ok ok).keepsUnreadable (retains _ mem) (Change.entries_readable ok) q there
  exact ⟨r, there, keeps.trans again⟩

/-- What becomes of metadata that `a` cannot read where `a` changes `e` into `f`. -/
structure Element.EntriesKept (a : Authorizations) (changes : List Change) (e f : Element) : Prop where
  distinct : Property.Distinct f.properties
  unreadable : (∀ c ∈ changes, c.Retains) → ∀ p ∈ e.properties, ∃ q ∈ f.properties, p.KeepsUnreadable a q
  merged : ∀ key name value v m, changes = [.set key name value v m] → ∀ p ∈ e.properties, p.place = (key, name, v) →
    ∃ l r n, e.properties = l ++ p :: r ∧ f.properties = l ++ { p with value, metadata := n } :: r ∧
      Metadata.Merged a p.metadata m n
  notes : ∀ key name entry value v, changes = [.annotate key name entry value v] →
    List.Forall₂ (Change.Notes a key name entry ⟨value, v⟩) e.properties f.properties

theorem unreadable_entries_kept {a : Authorizations} {changes : List Change} {e f : Element}
    (distinct : Property.Distinct e.properties) (applied : e.apply a changes = .ok f) :
    Element.EntriesKept a changes e f := by
  have alone {c : Change} (only : changes = [c]) : Change.Does a e.properties c f.properties :=
    Element.does_of_apply (only ▸ applied)
  exact {
    distinct := Element.apply_distinct applied distinct
    unreadable := fun retains => Element.apply_keepsUnreadable retains applied
    merged := fun _ _ _ _ _ only _ mem there => (alone only).merged distinct mem there
    notes := fun _ _ _ _ _ only => (alone only).notes }

def chair : Visibility := ⟨"chair", some (.term "chair"), by decide⟩

/-- Minutes with an entry that only the chair can read. -/
def minutes : Element :=
  ⟨"v", .unrestricted, [⟨"", "text", .string "draft", .unrestricted,
    .ofList [("by", ⟨.string "the chair", chair⟩), ("at", ⟨.string "noon", .unrestricted⟩)], []⟩], []⟩

/-- A new text with an entry of a name that is taken, and once more such an entry. -/
def amending : List Change :=
  [.set "" "text" (.string "final") .unrestricted
    (.ofList [("by", ⟨.string "a clerk", .unrestricted⟩), ("seen", ⟨.string "by all", .unrestricted⟩)]),
    .annotate "" "text" "by" (.string "a clerk") .unrestricted]

def Element.noted (e : Element) : List (List (String × Option String)) :=
  e.properties.map fun p => p.metadata.entries.map fun entry => (entry.1, entry.2.value.text?)

theorem unreadable_entries_kept_minutes :
    ∃ f, minutes.apply .empty amending = .ok f ∧ f.noted = [[("by", some "the chair"), ("seen", some "by all")]] ∧
      ∀ p ∈ minutes.properties, ∃ q ∈ f.properties, p.KeepsUnreadable .empty q := by
  have noted : (minutes.apply .empty amending).toOption.map Element.noted =
      some [[("by", some "the chair"), ("seen", some "by all")]] := by decide +kernel
  cases applied : minutes.apply .empty amending with
  | error e =>
    rw [applied] at noted
    exact absurd noted (by simp [Except.toOption])
  | ok f =>
    rw [applied] at noted
    have distinct : Property.Distinct minutes.properties := List.nodup_singleton _
    have kept := unreadable_entries_kept distinct applied
    exact ⟨f, rfl, Option.some.inj noted, kept.unreadable (by simp [amending, Change.Retains])⟩

end GuardedGraph

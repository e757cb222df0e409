import GuardedGraph.Proofs.Contents.Streams
import GuardedGraph.Proofs.Element.Blindness

/-!
Changes do not look at values. What they do to an element, and whether they fail, is decided by the places of its
properties, their markers and the names and visibilities of their metadata; so that of two elements with related values
the same changes make two elements with related values (`Element.apply_alike`).
-/

namespace GuardedGraph

namespace Outcome

variable {α β γ δ ε : Type}

/-- Both computations fail with the same error, or both give results, and these are related. -/
inductive Matches (R : α → β → Prop) : Except ε α → Except ε β → Prop
  | ok {x : α} {y : β} : R x y → Matches R (.ok x) (.ok y)
  | error (e : ε) : Matches R (.error e) (.error e)

theorem Matches.bind {R : α → β → Prop} {S : γ → δ → Prop} {x : Except ε α} {y : Except ε β} {k : α → Except ε γ}
    {l : β → Except ε δ} (first : Matches R x y) (next : ∀ u v, R u v → Matches S (k u) (l v)) :
    Matches S (x >>= k) (y >>= l) := by
  cases first with
  | ok related => exact next _ _ related
  | error e => exact .error e

theorem Matches.same {S : γ → δ → Prop} {x : Except ε α} {k : α → Except ε γ} {l : α → Except ε δ}
    (next : ∀ u, Matches S (k u) (l u)) : Matches S (x >>= k) (x >>= l) := by
  cases x with
  | error e => exact .error e
  | ok u => exact next u

theorem Matches.of_ok {R : α → β → Prop} {x : Except ε α} {y : β} (matching : Matches R x (.ok y)) :
    ∃ u, x = .ok u ∧ R u y := by
  cases matching with
  | ok related => exact ⟨_, rfl, related⟩

end Outcome

open Outcome

variable {a : Authorizations} {V : Value → Value → Prop}

/-! ### Metadata -/

/-- The entries differ in nothing but values, which are related. -/
def EntryAlike (V : Value → Value → Prop) (e d : String × Entry) : Prop :=
  d.1 = e.1 ∧ d.2.visibility = e.2.visibility ∧ V e.2.value d.2.value

namespace Metadata

/-- The metadata differ in nothing but values, which are related. -/
def Alike (V : Value → Value → Prop) (m n : Metadata) : Prop := List.Forall₂ (EntryAlike V) m.entries n.entries

variable {m n : Metadata}

theorem alike_refl (same : ∀ v, V v v) (m : Metadata) : m.Alike V m :=
  List.forall₂_same.mpr fun e _ => ⟨rfl, rfl, same e.2.value⟩

theorem Alike.insert (alike : m.Alike V n) (name : String) {x y : Entry} (visibility : y.visibility = x.visibility)
    (value : V x.value y.value) : Alike V (m.insert name x) (n.insert name y) := by
  have own : EntryAlike V (name, x) (name, y) := ⟨rfl, visibility, value⟩
  have placed {l r : List (String × Entry)} (each : List.Forall₂ (EntryAlike V) l r) :
      List.Forall₂ (EntryAlike V) (Table.place name x l) (Table.place name y r) := by
    induction each with
    | nil => exact .cons own .nil
    | @cons e d l r here rest ih =>
      obtain ⟨j, e⟩ := e
      obtain ⟨k, d⟩ := d
      obtain rfl : k = j := here.1
      rw [Table.place, Table.place]
      split
      · exact .cons own (.cons here rest)
      · split
        · exact .cons own rest
        · exact .cons here ih
  exact placed alike

theorem Alike.unreadable (alike : m.Alike V n) : Alike V (m.unreadable a) (n.unreadable a) := by
  refine List.rel_filter (fun e d here => ?_) alike
  simp only [here.2.1]

theorem Alike.inserted (alike : m.Alike V n) {l r : List (String × Entry)} (each : List.Forall₂ (EntryAlike V) l r) :
    Alike V (l.foldl (fun t e => t.insert e.1 e.2) m) (r.foldl (fun t e => t.insert e.1 e.2) n) := by
  induction each generalizing m n with
  | nil => exact alike
  | @cons e d l r here rest ih =>
    have first := alike.insert e.1 here.2.1 here.2.2
    rw [List.foldl_cons, List.foldl_cons, here.1]
    exact ih first

theorem Alike.under {top top' : Metadata} (alike : m.Alike V n) (above : top.Alike V top') :
    Alike V (m.under top) (n.under top') := alike.inserted above

theorem alike_ofList {l r : List (String × Entry)} (each : List.Forall₂ (EntryAlike V) l r) :
    Alike V (.ofList l) (.ofList r) := Alike.inserted (m := .empty) (n := .empty) .nil each

theorem Alike.contains (alike : m.Alike V n) (name : String) : n.contains name = m.contains name := by
  have names : n.keys = m.keys := map_eq_of_forall₂ alike fun e d here => here.1
  rw [Bool.eq_iff_iff, ← Table.mem_keys_iff_contains, ← Table.mem_keys_iff_contains, names]

end Metadata

/-! ### Properties -/

namespace Property

/-- The properties differ in nothing but values, which are related. -/
structure Alike (V : Value → Value → Prop) (p q : Property) : Prop where
  place : q.place = p.place
  hidden : q.hidden = p.hidden
  value : V p.value q.value
  metadata : p.metadata.Alike V q.metadata

variable {p q : Property}

theorem alike_refl (same : ∀ v, V v v) (p : Property) : p.Alike V p :=
  ⟨rfl, rfl, same p.value, Metadata.alike_refl same p.metadata⟩

theorem Alike.key (alike : p.Alike V q) : q.key = p.key := (Prod.mk.inj alike.place).1

theorem Alike.name (alike : p.Alike V q) : q.name = p.name := (Prod.mk.inj (Prod.mk.inj alike.place).2).1

theorem Alike.visibility (alike : p.Alike V q) : q.visibility = p.visibility :=
  (Prod.mk.inj (Prod.mk.inj alike.place).2).2

theorem Alike.replace (same : ∀ v, V v v) (alike : p.Alike V q) (value : Value) (m : Metadata) :
    (p.replace a value m).Alike V (q.replace a value m) where
  place := alike.place
  hidden := alike.hidden
  value := same value
  metadata := (Metadata.alike_refl same m).under alike.metadata.unreadable

theorem Alike.annotate (same : ∀ v, V v v) (alike : p.Alike V q) (name : String) (entry : Entry) :
    (p.annotate a name entry).Alike V (q.annotate a name entry) := by
  unfold Property.annotate
  rw [alike.metadata.unreadable.contains name]
  split
  · exact alike
  · exact ⟨alike.place, alike.hidden, alike.value, alike.metadata.insert name rfl (same entry.value)⟩

theorem Alike.hide (alike : p.Alike V q) (marker : Visibility) : (p.hide marker).Alike V (q.hide marker) :=
  ⟨alike.place, congrArg (addMarker · marker) alike.hidden, alike.value, alike.metadata⟩

theorem Alike.unhide (alike : p.Alike V q) (marker : Visibility) : (p.unhide marker).Alike V (q.unhide marker) :=
  ⟨alike.place, congrArg (dropMarker · marker) alike.hidden, alike.value, alike.metadata⟩

theorem Alike.move (alike : p.Alike V q) (visibility : Visibility) :
    Alike V { p with visibility } { q with visibility } := by
  refine ⟨?_, alike.hidden, alike.value, alike.metadata⟩
  show (q.key, q.name, visibility) = (p.key, p.name, visibility)
  rw [alike.key, alike.name]

theorem Alike.fit (alike : p.Alike V q) {fits : Property → Bool} (here : Local fits) : fits q = fits p :=
  here p q alike.place alike.hidden

/-! ### Lists of properties -/

variable {ps qs : List Property} {fits : Property → Bool} (here : Local fits)
include here

theorem filter_alike (each : List.Forall₂ (Alike V) ps qs) :
    List.Forall₂ (Alike V) (ps.filter fits) (qs.filter fits) :=
  List.rel_filter (fun p q alike => by simp only [alike.fit here]) each

theorem any_alike (each : List.Forall₂ (Alike V) ps qs) : qs.any fits = ps.any fits := by
  induction each with
  | nil => rfl
  | cons alike _ ih => rw [List.any_cons, List.any_cons, alike.fit here, ih]

theorem changeFirst?_alike {f : Property → Property} (keeps : ∀ p q, p.Alike V q → (f p).Alike V (f q))
    (each : List.Forall₂ (Alike V) ps qs) :
    Option.Rel (List.Forall₂ (Alike V)) (changeFirst? fits f ps) (changeFirst? fits f qs) := by
  induction each with
  | nil => exact .none
  | @cons p q ps qs alike rest ih =>
    rw [changeFirst?, changeFirst?, alike.fit here]
    split
    · exact .some (.cons (keeps p q alike) rest)
    · generalize changeFirst? fits f ps = x, changeFirst? fits f qs = y at ih
      cases ih with
      | none => exact .none
      | some each => exact .some (.cons alike each)

theorem removeFirst?_alike (each : List.Forall₂ (Alike V) ps qs) :
    Option.Rel (List.Forall₂ (Alike V)) (removeFirst? fits ps) (removeFirst? fits qs) := by
  induction each with
  | nil => exact .none
  | @cons p q ps qs alike rest ih =>
    rw [removeFirst?, removeFirst?, alike.fit here]
    split
    · exact .some rest
    · generalize removeFirst? fits ps = x, removeFirst? fits qs = y at ih
      cases ih with
      | none => exact .none
      | some each => exact .some (.cons alike each)

theorem moveOnly_alike (key name : String) (v : Visibility) (each : List.Forall₂ (Alike V) ps qs) :
    List.Forall₂ (Alike V) (moveOnly fits key name v ps) (moveOnly fits key name v qs) := by
  refine List.rel_filterMap (fun p q alike => ?_) each
  rw [alike.fit here, alike.fit (local_isAt key name v)]
  split
  · exact .some (alike.move v)
  · split
    · exact .none
    · exact .some alike

theorem map_alike {f : Property → Property} (keeps : ∀ p q, p.Alike V q → (f p).Alike V (f q))
    (each : List.Forall₂ (Alike V) ps qs) :
    List.Forall₂ (Alike V) (ps.map fun p => if fits p then f p else p) (qs.map fun p => if fits p then f p else p) := by
  refine List.rel_map (fun p q alike => ?_) each
  simp only [alike.fit here]
  split
  · exact keeps p q alike
  · exact alike

omit here in
theorem present_alike (key name : String) {x y : Option (List Property)}
    (both : Option.Rel (List.Forall₂ (Alike V)) x y) :
    Matches (List.Forall₂ (Alike V)) (present key name x) (present key name y) := by
  cases both with
  | none => exact .error _
  | some each => exact .ok each

end Property

/-! ### Changes -/

open Property

/-- The same change makes alike properties of alike properties, or fails alike. -/
theorem Change.properties_alike (same : ∀ v, V v v) (c : Change) {ps qs : List Property}
    (each : List.Forall₂ (Property.Alike V) ps qs) :
    Matches (List.Forall₂ (Property.Alike V)) (c.properties a ps) (c.properties a qs) := by
  cases c with
  | set key name value v m =>
    unfold properties
    simp only
    split
    · exact .error _
    · refine .same fun _ => .same fun _ => .ok ?_
      have changed := changeFirst?_alike (local_isAt key name v)
        (fun p q alike => alike.replace (a := a) same value m) each
      generalize changeFirst? (·.isAt key name v) (replace a value m) ps = x,
        changeFirst? (·.isAt key name v) (replace a value m) qs = y at changed
      cases changed with
      | none => exact List.rel_append each (.cons (alike_refl same _) .nil)
      | some changed => exact changed
  | removeAll key name =>
    refine .ok (filter_alike ?_ each)
    have named : Local fun p => p.name == name && key.all (· == p.key) && p.visibleTo a :=
      (local_of_place (fun place => place.2.1 == name && key.all (· == place.1)) fun _ => rfl).and (local_visibleTo a)
    intro p q place hidden
    simp only [named p q place hidden]
  | remove key name v =>
    exact .same fun _ => present_alike key name (removeFirst?_alike ((local_isAt key name v).and (local_shown a)) each)
  | move key name source v =>
    refine .same fun _ => .same fun _ => ?_
    have here := (choice_move a key name source).here
    have versions := filter_alike here each
    simp only
    generalize ps.filter (fun p => p.named key name && p.visibleTo a && source.all (· == p.visibility)) = fit,
      qs.filter (fun p => p.named key name && p.visibleTo a && source.all (· == p.visibility)) = fit' at versions
    cases versions with
    | nil => exact .error _
    | @cons p q _ _ alike rest =>
      cases rest with
      | nil =>
        simp only [alike.visibility]
        refine .ok ?_
        split
        · exact each
        · exact moveOnly_alike here key name v each
      | cons _ others =>
        simp only [List.length_cons, others.length_eq]
        exact .error _
  | annotate key name entry value v =>
    refine .same fun _ => ?_
    have here := (choice_named a key name).here
    simp only [any_alike here each]
    split
    · exact .ok (map_alike here (fun p q alike => alike.annotate same entry ⟨value, v⟩) each)
    · exact .error _
  | relabel v => exact .ok each
  | hide key name v marker =>
    exact .same fun _ => .same fun _ => present_alike key name
      (changeFirst?_alike (local_isAt key name v) (fun p q alike => alike.hide marker) each)
  | unhide key name v marker =>
    exact .same fun _ => .same fun _ => present_alike key name
      (changeFirst?_alike (local_isAt key name v) (fun p q alike => alike.unhide marker) each)

namespace Element

/-- The elements differ in nothing but values, which are related. -/
structure Alike (V : Value → Value → Prop) (e f : Element) : Prop where
  id : f.id = e.id
  visibility : f.visibility = e.visibility
  hidden : f.hidden = e.hidden
  properties : List.Forall₂ (Property.Alike V) e.properties f.properties

variable {e f : Element}

theorem apply_one_alike (same : ∀ v, V v v) (c : Change) (alike : e.Alike V f) :
    Matches (Element.Alike V) (c.apply a e) (c.apply a f) := by
  rw [Change.apply, Change.apply, alike.visibility]
  refine .same fun v => (Change.properties_alike same c alike.properties).bind fun ps qs each => .ok ?_
  exact ⟨alike.id, rfl, alike.hidden, each⟩

/-- The same changes make alike elements of alike elements, or fail alike. -/
theorem apply_alike (same : ∀ v, V v v) (changes : List Change) (alike : e.Alike V f) :
    Matches (Element.Alike V) (e.apply a changes) (f.apply a changes) := by
  induction changes generalizing e f with
  | nil => exact .ok alike
  | cons c cs ih =>
    unfold apply
    rw [List.foldlM_cons, List.foldlM_cons]
    exact (apply_one_alike same c alike).bind fun _ _ alike => ih alike

theorem apply_concat (a : Authorizations) (first second : List Change) (e : Element) :
    e.apply a (first ++ second) = e.apply a first >>= fun f => f.apply a second := List.foldlM_append

end Element

end GuardedGraph

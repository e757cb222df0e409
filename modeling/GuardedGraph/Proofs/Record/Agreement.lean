import GuardedGraph.Proofs.Record.Restored

/-! The two decodings of an element that has been encoded. Writers get back all of it, and readers what the markers
and visibilities of the element itself leave them. -/

namespace GuardedGraph

open Outcome

variable {a : Authorizations} {v : Value} {p : Property} {w : Whole}

/-! ### Equality of what elements stand for -/

/-- The same entries in the same order, with equal values. -/
def Metadata.Same (m n : Metadata) : Prop :=
  List.Forall₂ (fun d e => d.1 = e.1 ∧ d.2.visibility = e.2.visibility ∧ d.2.value.same e.2.value = true)
    m.entries n.entries

structure Property.Same (p q : Property) : Prop where
  key : p.key = q.key
  name : p.name = q.name
  value : p.value.same q.value = true
  visibility : p.visibility = q.visibility
  metadata : p.metadata.Same q.metadata
  hidden : p.hidden = q.hidden

structure Element.Same (e f : Element) : Prop where
  id : e.id = f.id
  visibility : e.visibility = f.visibility
  properties : List.Forall₂ Property.Same e.properties f.properties
  hidden : e.hidden = f.hidden

structure Whole.Same (w x : Whole) : Prop where
  type : w.type = x.type
  element : w.element.Same x.element
  endpoints : w.endpoints = x.endpoints
  edgeRefs : w.edgeRefs = x.edgeRefs

/-! ### What is left to a reader -/

def Property.shownTo (a : Authorizations) (p : Property) : Property :=
  { p with metadata := p.metadata.readable a, hidden := [] }

def Element.shownTo (a : Authorizations) (e : Element) : Element :=
  ⟨e.id, e.visibility, (e.properties.filter (·.visibleTo a)).map (·.shownTo a), []⟩

namespace Whole

/-- The values of the properties and of their metadata. -/
def values (w : Whole) : List Value :=
  w.element.properties.flatMap fun p => p.value :: p.metadata.entries.map (·.2.value)

/-- What sets the kind of element apart, as far as it is visible. -/
def linksTo? (w : Whole) (a : Authorizations) : (t : ElementType) → Option (Links t)
  | .vertex => some ((w.edgeRefs.filter (·.visibleTo a)).map fun ref => { ref with hidden := [] })
  | .edge => w.endpoints

end Whole

/-! ### Values and properties that are read back -/

/-- The stored form of the value is read as an equal value. -/
def Value.ReadsBack (v : Value) : Prop := ∃ u, Value.decode v.encode = .ok u ∧ u.same v = true

theorem Value.same_attach (u v : Value) : u.attach.same v = u.same v := by
  cases u with
  | stream s =>
    obtain ⟨kind, source⟩ := s
    cases source with
    | inline content => rfl
    | external key length attached =>
      cases v with
      | stream t =>
        obtain ⟨kind', other⟩ := t
        cases other <;> simp only [Value.attach, Stream.attach, Value.same, Stream.same]
      | _ => simp only [Value.attach, Stream.attach, Value.same]
  | _ => rfl

theorem Value.ReadsBack.attached (back : v.ReadsBack) : ∃ u, decodeAttached v.encode = .ok u ∧ u.same v = true := by
  obtain ⟨u, read, same⟩ := back
  exact ⟨u.attach, by rw [decodeAttached, read]; rfl, by rwa [Value.same_attach]⟩

/-- Of an encoded property, the part with some entries of its metadata is read as that part of the property. -/
theorem decodeWith_encode {keep : EntryRecord → Bool} (value : p.value.ReadsBack)
    (entries : ∀ e ∈ p.metadata.entries, e.2.value.ReadsBack) (hidden : List Visibility) :
    ∃ q, p.encode.decodeWith (p.encode.metadata.filter keep) hidden = .ok q ∧
      q.Same { p with
        metadata := p.metadata.filter fun e => keep ⟨e.1, e.2.visibility, e.2.value.encode⟩, hidden } := by
  obtain ⟨u, read, same⟩ := value.attached
  obtain ⟨metadata, decoded⟩ :=
    mapM_ok_of_forall (f := EntryRecord.decode) (l := p.encode.metadata.filter keep) fun r mem => by
      obtain ⟨e, there, rfl⟩ := List.mem_map.mp (List.mem_filter.mp mem).1
      obtain ⟨x, read, -⟩ := (entries e there).attached
      exact ⟨_, by rw [EntryRecord.decode, read]; rfl⟩
  have whole : p.encode.decodeWith (p.encode.metadata.filter keep) hidden =
      .ok ⟨p.key, p.name, u, p.visibility, .ofList metadata, hidden⟩ :=
    decodeWith_ok_iff.mpr ⟨metadata, u, decoded, read, rfl⟩
  refine ⟨_, whole, rfl, rfl, same, rfl, ?_, rfl⟩
  have each : ∀ e ∈ p.metadata.entries.filter (fun e => keep ⟨e.1, e.2.visibility, e.2.value.encode⟩),
      e.2.value.ReadsBack := fun e mem => entries e (List.mem_filter.mp mem).1
  have reread := (List.forall₂_and_left _ _).mpr ⟨each, entries_of_decodeWith whole⟩
  refine reread.flip.imp fun d e there => ?_
  obtain ⟨back, name, visibility, stored⟩ := there
  obtain ⟨x, read, same⟩ := back.attached
  obtain rfl := Except.ok.inj (stored.symm.trans read)
  exact ⟨name, visibility, same⟩

theorem whole_encode_property (value : p.value.ReadsBack) (entries : ∀ e ∈ p.metadata.entries, e.2.value.ReadsBack) :
    ∃ q, p.encode.whole = .ok q ∧ q.Same p := by
  have each (q : Property) : (p.encode.decodeWith (p.encode.metadata.filter fun _ => true) p.hidden = .ok q) =
      (p.encode.whole = .ok q) := by rw [List.filter_true]; rfl
  obtain ⟨q, read, same⟩ := decodeWith_encode value entries p.hidden
  refine ⟨q, (each q).mp read, ?_⟩
  have all : (p.metadata.filter fun _ => true) = p.metadata := Table.ext_get? fun k => by
    rw [Table.get?_filter]
    cases p.metadata.get? k <;> rfl
  rwa [all] at same

theorem view_encode_property (value : p.value.ReadsBack) (entries : ∀ e ∈ p.metadata.entries, e.2.value.ReadsBack)
    (a : Authorizations) : ∃ q, p.encode.view a = .ok q ∧ q.Same (p.shownTo a) :=
  decodeWith_encode value entries []

/-! ### Elements -/

theorem mapM_forall₂ {α β γ : Type} {ε : Type} {f : α → Except ε β} {R : β → γ → Prop} {l : List α} {g : α → γ}
    (each : ∀ x ∈ l, ∃ y, f x = .ok y ∧ R y (g x)) : ∃ ys, l.mapM f = .ok ys ∧ List.Forall₂ R ys (l.map g) := by
  induction l with
  | nil => exact ⟨[], rfl, .nil⟩
  | cons x xs ih =>
    obtain ⟨y, read, same⟩ := each x List.mem_cons_self
    obtain ⟨ys, rest, others⟩ := ih fun z mem => each z (List.mem_cons_of_mem _ mem)
    exact ⟨y :: ys, by rw [List.mapM_cons, read, rest]; rfl, .cons same others⟩

theorem readsBack_of_mem (back : ∀ v ∈ w.values, v.ReadsBack) (mem : p ∈ w.element.properties) :
    p.value.ReadsBack ∧ ∀ e ∈ p.metadata.entries, e.2.value.ReadsBack := by
  have all (v : Value) (here : v ∈ p.value :: p.metadata.entries.map (·.2.value)) : v.ReadsBack :=
    back v (List.mem_flatMap.mpr ⟨p, mem, here⟩)
  exact ⟨all _ List.mem_cons_self, fun e there => all _ (List.mem_cons_of_mem _ (List.mem_map_of_mem there))⟩

theorem whole_encode (back : ∀ v ∈ w.values, v.ReadsBack) : ∃ x, w.encode.whole = .ok x ∧ x.Same w := by
  obtain ⟨ps, read, same⟩ := mapM_forall₂ (f := fun p : Property => p.encode.whole) (R := Property.Same) (g := id)
    (l := w.element.properties) fun p mem => by
      obtain ⟨value, entries⟩ := readsBack_of_mem back mem
      exact whole_encode_property value entries
  rw [List.map_id] at same
  refine ⟨_, whole_ok_iff.mpr ⟨ps, ?_, rfl⟩, rfl, ⟨rfl, rfl, same, rfl⟩, rfl, rfl⟩
  rw [← read]
  exact List.mapM_map ..

theorem links_encode (ends : w.type = .edge → w.endpoints.isSome) (a : Authorizations) :
    ∃ links, w.encode.links a w.type = .ok links ∧ w.linksTo? a w.type = some links := by
  generalize type : w.type = t at *
  cases t with
  | vertex => exact ⟨_, rfl, rfl⟩
  | edge =>
    obtain ⟨e, here⟩ := Option.isSome_iff_exists.mp (ends rfl)
    refine ⟨e, ?_, here⟩
    rw [Record.links, show w.encode.endpoints = some e from here]

theorem view_encode (back : ∀ v ∈ w.values, v.ReadsBack) (ends : w.type = .edge → w.endpoints.isSome)
    (visible : a.sees w.element.visibility w.element.hidden) :
    ∃ v, w.encode.view? w.type a = .ok (some v) ∧ v.element.Same (w.element.shownTo a) ∧
      w.linksTo? a w.type = some v.links := by
  obtain ⟨links, read, shown⟩ := links_encode ends a
  obtain ⟨ps, properties, same⟩ := mapM_forall₂ (f := fun p : Property => p.encode.view a) (R := Property.Same)
    (g := (·.shownTo a)) (l := w.element.properties.filter (·.visibleTo a)) fun p mem => by
      obtain ⟨value, entries⟩ := readsBack_of_mem back (List.mem_filter.mp mem).1
      exact view_encode_property value entries a
  refine ⟨⟨⟨w.element.id, w.element.visibility, ps, []⟩, links⟩, ?_, ⟨rfl, rfl, same, rfl⟩, shown⟩
  refine view?_some_iff.mpr ⟨rfl, visible, ps, links, ?_, read, rfl⟩
  have kept : w.encode.properties.filter (·.visibleTo a) =
      (w.element.properties.filter (·.visibleTo a)).map Property.encode := List.filter_map ..
  rw [kept, ← properties]
  exact List.mapM_map ..

theorem sees_eq_false_iff {v : Visibility} {hidden : List Visibility} :
    a.sees v hidden = false ↔ v.readableBy a = false ∨ ∃ marker ∈ hidden, marker.readableBy a = true := by
  unfold Authorizations.sees Visibility.anyReadableBy
  cases v.readableBy a <;> simp

/-- What has been encoded is all there for a writer. A reader gets nothing if the element is not visible, and else
its visible properties with the metadata and references that are visible too, and no markers. -/
theorem decodings_agree (w : Whole) (back : ∀ v ∈ w.values, v.ReadsBack) :
    (∃ x, w.encode.whole = .ok x ∧ x.Same w) ∧
    ∀ a, (w.type = .edge → w.endpoints.isSome) →
      (w.encode.view? w.type a = .ok none ↔
        w.element.visibility.readableBy a = false ∨ ∃ marker ∈ w.element.hidden, marker.readableBy a = true) ∧
      (w.encode.view? w.type a ≠ .ok none → ∃ v, w.encode.view? w.type a = .ok (some v) ∧
        v.element.Same (w.element.shownTo a) ∧ w.linksTo? a w.type = some v.links) := by
  refine ⟨whole_encode back, fun a ends => ?_⟩
  rw [← sees_eq_false_iff]
  cases visible : a.sees w.element.visibility w.element.hidden with
  | false =>
    have none : w.encode.view? w.type a = .ok none := view?_of_not_visible fun both => by
      have seen : a.sees w.element.visibility w.element.hidden = true := both.2
      rw [visible] at seen
      exact absurd seen (by simp)
    simp [none]
  | true =>
    obtain ⟨v, view, same, links⟩ := view_encode back ends visible
    exact ⟨by simp [view], fun _ => ⟨v, view, same, links⟩⟩

theorem readsBack_of_any (v : Value) (read : (Value.decode v.encode).toOption.any (·.same v) = true) : v.ReadsBack := by
  cases decoded : Value.decode v.encode with
  | error e =>
    rw [decoded] at read
    exact absurd read (by simp [Except.toOption])
  | ok u =>
    rw [decoded] at read
    exact ⟨u, decoded, read⟩

def insiders : Visibility := ⟨"in", some (.term "in"), by decide⟩

/-- A note of which outsiders do not read the author, with a draft and an edge that are not for them either. -/
def guardedNote : Whole :=
  ⟨.vertex, ⟨"v", .unrestricted,
    [⟨"", "note", .string "in short", .unrestricted,
        .ofList [("author", ⟨.string "a", insiders⟩), ("year", ⟨.int 1999, .unrestricted⟩)], [insiders]⟩,
      ⟨"", "draft", .list [.null, .bool true], insiders, .empty, []⟩], []⟩, none,
    [⟨"e", "knows", "w", .outgoing, .unrestricted, [insiders]⟩, ⟨"f", "knows", "w", .incoming, insiders, []⟩]⟩

theorem decodings_agree_note :
    (∀ v ∈ guardedNote.values, v.ReadsBack) ∧ (∃ x, guardedNote.encode.whole = .ok x ∧ x.Same guardedNote) ∧
      (guardedNote.element.shownTo .empty).properties.map (fun p => (p.name, p.metadata.keys)) =
        [("note", ["year"])] ∧
      ∃ v : Vertex, guardedNote.encode.view? .vertex .empty = .ok (some v) ∧
        v.element.Same (guardedNote.element.shownTo .empty) ∧
          v.edgeRefs = [⟨"e", "knows", "w", .outgoing, .unrestricted, []⟩] := by
  have read : guardedNote.values.all fun v => (Value.decode v.encode).toOption.any (·.same v) := by decide +kernel
  have back : ∀ v ∈ guardedNote.values, v.ReadsBack := fun v mem =>
    readsBack_of_any v (List.all_eq_true.mp read v mem)
  obtain ⟨whole, views⟩ := decodings_agree guardedNote back
  obtain ⟨hidden, view⟩ := views .empty fun edge => absurd edge (by decide)
  have shown : guardedNote.encode.view? .vertex .empty ≠ .ok none := fun none =>
    absurd (hidden.mp none) (by decide)
  obtain ⟨v, found, same, links⟩ := view shown
  exact ⟨back, whole, by decide +kernel, v, found, same, (Option.some.inj links).symm⟩

end GuardedGraph

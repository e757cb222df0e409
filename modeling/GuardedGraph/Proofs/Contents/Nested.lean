import GuardedGraph.Proofs.Contents.Places
import GuardedGraph.Proofs.Record.Restored
import GuardedGraph.Proofs.Value.Stored
import GuardedGraph.Proofs.Writing.Settling

/-! Streams inside lists and in the metadata. Nothing that happens to a property but a change to it touches them: they
are neither copied nor attached where a property's own stream is, so that they are told by their keys. -/

namespace GuardedGraph

open Store (Memory)
open Outcome

/-! ### Tables -/

namespace Table

variable {α β : Type}

theorem lookup_map (f : α → β) (k : String) (l : List (String × α)) :
    lookup k (l.map fun e => (e.1, f e.2)) = (lookup k l).map f := by
  induction l with
  | nil => rfl
  | cons e l ih =>
    rw [List.map_cons, lookup, lookup, ih]
    split <;> rfl

theorem place_map (f : α → β) (k : String) (v : α) (l : List (String × α)) :
    place k (f v) (l.map fun e => (e.1, f e.2)) = (place k v l).map fun e => (e.1, f e.2) := by
  induction l with
  | nil => rfl
  | cons e l ih =>
    rw [List.map_cons, place, place, ih]
    split
    · rfl
    · split <;> rfl

end Table

/-! ### Outlines -/

namespace Value

/-- What reads and stores leave as it is of the streams in a value: its own, and all, but for where they can be
read. -/
structure Outline where
  own : Option Stream
  streams : List Stream

def outline (v : Value) : Outline := ⟨v.stream?.map Stream.detached, v.streams.map Stream.detached⟩

/-- The streams of a value of the outline as they come from a store: its own is attached, others are not. -/
def Outline.restored (o : Outline) : List Stream := if o.own.isSome then o.streams.map Stream.attach else o.streams

/-- The value, unless it is a stream itself. All streams in it are inside lists. -/
def nested? (v : Value) : Option Value := if v.stream?.isSome then none else some v

namespace Stream

theorem detached_detached (s : Stream) : s.detached.detached = s.detached := by
  obtain ⟨kind, source⟩ := s
  cases source <;> rfl

theorem detached_attach (s : Stream) : s.attach.detached = s.detached := by
  obtain ⟨kind, source⟩ := s
  cases source <;> rfl

end Stream

theorem outline_attach (v : Value) : v.attach.outline = v.outline := by
  cases v with
  | stream s => simp [attach, outline, stream?, streams, Stream.detached_attach]
  | _ => rfl

theorem outline_stored {v w : Value} (read : decodeAttached v.encode = .ok w) : w.outline = v.outline := by
  obtain ⟨u, decoded, rfl⟩ := map_ok read
  obtain ⟨streams, own⟩ := decode_encode_eq decoded
  have twice : Stream.detached ∘ Stream.detached = Stream.detached := funext Stream.detached_detached
  rw [outline_attach, outline, outline, streams, own, List.map_map, Option.map_map, twice]

theorem streams_stored {v w : Value} (read : decodeAttached v.encode = .ok w) : w.streams = v.outline.restored := by
  obtain ⟨u, decoded, rfl⟩ := map_ok read
  obtain ⟨streams, own⟩ := decode_encode_eq decoded
  rw [Outline.restored, outline, ← streams, ← own]
  cases u <;> rfl

theorem own_outline (v : Value) : v.outline.own.isSome = v.stream?.isSome := Option.isSome_map

end Value

def Entry.outline (e : Entry) : Visibility × Value.Outline := (e.visibility, e.value.outline)

def Metadata.outline (m : Metadata) : List (String × Visibility × Value.Outline) :=
  m.entries.map fun e => (e.1, e.2.outline)

namespace Property

/-- What reads and stores leave as it is of a property, as far as its streams go: not its own, which is copied. -/
structure Outline where
  place : String × String × Visibility
  hidden : List Visibility
  items : Option Value.Outline
  entries : List (String × Visibility × Value.Outline)

def outline (p : Property) : Outline := ⟨p.place, p.hidden, p.value.nested?.map Value.outline, p.metadata.outline⟩

/-- The places of a property where streams are neither copied nor released. -/
inductive Spot
  | items
  | entry (name : String)

/-- The value that the property has at the spot. -/
def nested? (p : Property) : Spot → Option Value
  | .items => p.value.nested?
  | .entry name => (p.metadata.get? name).map (·.value)

/-- Whoever sees the property sees what it has at the spot, unless it is an entry that they cannot read. -/
def Discloses (p : Property) (spot : Spot) (a : Authorizations) : Prop :=
  match spot with
  | .items => True
  | .entry name => ∃ e, p.metadata.get? name = some e ∧ e.visibility.readableBy a = true

end Property

theorem lookup_outline (m : Metadata) (name : String) :
    Table.lookup name m.outline = (m.get? name).map Entry.outline := Table.lookup_map Entry.outline name m.entries

variable {p q : Property} {a : Authorizations}

theorem nested?_outline (same : q.outline = p.outline) (spot : Property.Spot) :
    (q.nested? spot).map Value.outline = (p.nested? spot).map Value.outline := by
  cases spot with
  | items => exact congrArg Property.Outline.items same
  | entry name =>
    have entries := congrArg (fun o => (Table.lookup name o.entries).map (·.2)) same
    simp only [Property.outline, lookup_outline, Option.map_map] at entries
    rw [Property.nested?, Property.nested?, Option.map_map, Option.map_map]
    exact entries

theorem discloses_outline (same : q.outline = p.outline) {spot : Property.Spot} (discloses : p.Discloses spot a) :
    q.Discloses spot a := by
  cases spot with
  | items => trivial
  | entry name =>
    obtain ⟨e, found, readable⟩ := discloses
    have entries := congrArg (fun o => (Table.lookup name o.entries).map (·.1)) same
    simp only [Property.outline, lookup_outline, Option.map_map, found] at entries
    obtain ⟨d, there, visibility⟩ := Option.map_eq_some_iff.mp entries
    exact ⟨d, there, by rw [show d.visibility = e.visibility from visibility]; exact readable⟩

/-! ### Changes -/

theorem contains_unreadable (m : Metadata) (a : Authorizations) (name : String) :
    (m.unreadable a).contains name = (Table.lookup name m.outline).any fun o => !o.1.readableBy a := by
  rw [lookup_outline, Table.contains, Metadata.unreadable, Table.get?_filter]
  cases m.get? name with
  | none => rfl
  | some e => cases h : e.visibility.readableBy a <;> simp [Option.filter, Entry.outline, h]

theorem outline_annotate (same : q.outline = p.outline) (name : String) (entry : Entry) :
    (q.annotate a name entry).outline = (p.annotate a name entry).outline := by
  have entries : q.metadata.outline = p.metadata.outline := congrArg Property.Outline.entries same
  unfold Property.annotate
  rw [contains_unreadable, contains_unreadable, entries]
  split
  · exact same
  · have placed (m : Metadata) : Metadata.outline (m.insert name entry) = Table.place name entry.outline m.outline :=
      (Table.place_map Entry.outline name entry m.entries).symm
    obtain ⟨place, hidden, items, -⟩ := Property.Outline.mk.inj same
    exact Property.Outline.mk.injEq .. ▸ ⟨place, hidden, items, by rw [placed, placed, entries]⟩

namespace Change

/-- The property with what the change notes in its metadata. -/
def noted (a : Authorizations) : Change → Property → Property
  | annotate key name entry value visibility, p =>
    if p.named key name && p.visibleTo a then p.annotate a entry ⟨value, visibility⟩ else p
  | _, p => p

theorem keep?_metadata {c : Change} (kept : c.keep? a p = some q) : q.metadata = (c.noted a p).metadata := by
  cases c with
  | annotate key name entry value visibility =>
    rw [noted]
    simp only [keep?] at kept
    split at kept <;> rename_i fit <;> obtain rfl := Option.some.inj kept
    · rw [if_pos fit]
    · rw [if_neg fit]
  | relabel visibility => exact congrArg Property.metadata (Option.some.inj kept).symm
  | _ =>
    simp only [keep?] at kept
    repeat' split at kept
    all_goals first
      | obtain rfl := Option.some.inj kept
        rfl
      | exact absurd kept (by simp)

theorem noted_outline (same : q.outline = p.outline) (c : Change) : (c.noted a q).outline = (c.noted a p).outline := by
  cases c with
  | annotate key name entry value visibility =>
    obtain ⟨place, hidden, -, -⟩ := Property.Outline.mk.inj same
    obtain ⟨hkey, hname, hvis⟩ : q.key = p.key ∧ q.name = p.name ∧ q.visibility = p.visibility := by
      simpa [Property.place] using place
    have fits : (q.named key name && q.visibleTo a) = (p.named key name && p.visibleTo a) := by
      rw [Property.named, Property.named, Property.visibleTo, Property.visibleTo, hkey, hname, hvis, hidden]
    rw [noted, noted, fits]
    split
    · exact outline_annotate same entry _
    · exact same
  | _ => exact same

/-- What becomes of the outline of a property is decided by the outline. -/
theorem keep?_outline {c : Change} {p' : Property} (same : q.outline = p.outline) (kept : c.keep? a p = some p') :
    ∃ q', c.keep? a q = some q' ∧ q'.outline = p'.outline := by
  obtain ⟨place, hidden, items, -⟩ := Property.Outline.mk.inj same
  obtain ⟨q', kept', place', hidden'⟩ := keep?_congr place hidden kept
  have entries : q'.metadata.outline = p'.metadata.outline := by
    rw [keep?_metadata kept, keep?_metadata kept']
    exact congrArg Property.Outline.entries (noted_outline same c)
  refine ⟨q', kept', ?_⟩
  rw [Property.outline, Property.outline, place', hidden', keep?_value kept, keep?_value kept', items, entries]

theorem keepAll?_outline {changes : List Change} {p' : Property} (same : q.outline = p.outline)
    (kept : keepAll? a changes p = some p') : ∃ q', keepAll? a changes q = some q' ∧ q'.outline = p'.outline := by
  induction changes generalizing p q with
  | nil =>
    obtain rfl := Option.some.inj kept
    exact ⟨q, rfl, same⟩
  | cons c cs ih =>
    obtain ⟨mid, here, later⟩ := keepAll?_cons kept
    obtain ⟨mid', here', same'⟩ := keep?_outline same here
    obtain ⟨q', later', same''⟩ := ih same' later
    refine ⟨q', ?_, same''⟩
    unfold keepAll? at later' ⊢
    rw [List.foldlM_cons, here']
    exact later'

end Change

/-! ### Storing and reading -/

theorem Placed.outline {t : ElementType} {id : String} {owned : List String} {g h : Graph Memory}
    (placed : Placed t id owned g h p q) : q.outline = p.outline := by
  obtain ⟨rfl, -⟩ | ⟨s, n, content, mid, value, -, -, -, -, -, -, rfl, -⟩ := placed
  · rfl
  · unfold Property.outline
    rw [value]
    rfl

theorem outline_of_whole (whole : p.encode.whole = .ok q) : q.outline = p.outline := by
  have entries : q.metadata.outline = p.metadata.outline := by
    unfold Metadata.outline
    refine map_eq_of_forall₂ (entries_of_whole whole) fun e d ⟨name, visibility, stored⟩ => ?_
    rw [name, Entry.outline, Entry.outline, visibility, Value.outline_stored stored]
  obtain ⟨metadata, value, -, stored, rfl⟩ := decodeWith_ok_iff.mp whole
  have same := Value.outline_stored stored
  have own : value.stream?.isSome = p.value.stream?.isSome := by
    rw [← Value.own_outline, ← Value.own_outline, same]
  have items : value.nested?.map Value.outline = p.value.nested?.map Value.outline := by
    rw [Value.nested?, Value.nested?, own]
    split
    · rfl
    · exact congrArg some same
  exact Property.Outline.mk.injEq .. ▸ ⟨rfl, rfl, items, entries⟩

/-- What a reader gets to see of a stored property, at each spot. -/
theorem nested?_of_view (read : p.encode.view a = .ok q) (spot : Property.Spot) :
    ((p.nested? spot).isSome → p.Discloses spot a → (q.nested? spot).isSome) ∧
      ∀ u, q.nested? spot = some u → ∃ v, p.nested? spot = some v ∧ u.streams = v.outline.restored := by
  cases spot with
  | items =>
    obtain ⟨metadata, value, -, stored, rfl⟩ := decodeWith_ok_iff.mp read
    have own : value.stream?.isSome = p.value.stream?.isSome := by
      rw [← Value.own_outline, ← Value.own_outline, Value.outline_stored stored]
    simp only [Property.nested?, Value.nested?, own]
    split
    · exact ⟨fun none _ => none, fun u found => absurd found (by simp)⟩
    · refine ⟨fun some _ => rfl, fun u found => ⟨_, rfl, ?_⟩⟩
      obtain rfl := Option.some.inj found
      exact Value.streams_stored stored
  | entry name =>
    have each := entries_of_decodeWith read
    refine ⟨fun _ ⟨e, found, readable⟩ => ?_, fun u found => ?_⟩
    · obtain ⟨d, there, same, -⟩ := exists_right_of_mem each
        (List.mem_filter.mpr ⟨Table.get?_eq_some_iff.mp found, readable⟩)
      have found : q.metadata.get? name = some d.2 := by
        rw [Table.get?_eq_some_iff, ← show d.1 = name from same]
        exact there
      rw [Property.nested?, found]
      rfl
    · obtain ⟨d, shown, rfl⟩ := Option.map_eq_some_iff.mp found
      obtain ⟨e, there, same, -, stored⟩ := exists_left_of_mem each (Table.get?_eq_some_iff.mp shown)
      have found : p.metadata.get? name = some e.2 := by
        rw [Table.get?_eq_some_iff, show name = e.1 from same]
        exact (List.mem_filter.mp there).1
      exact ⟨e.2.value, by rw [Property.nested?, found]; rfl, Value.streams_stored stored⟩

end GuardedGraph

import GuardedGraph.Proofs.Contents.Places
import GuardedGraph.Proofs.Record.Decoding
import GuardedGraph.Proofs.Value.Stored

/-! Streams that are true to their contents. They remain so in stored forms, in views and under changes. -/

namespace GuardedGraph

open Outcome

/-- Contents by key: what a graph has ever kept. -/
abbrev Ledger := String → Option ByteArray

/-- The second ledger has all that the first has. -/
def Ledger.Within (l m : Ledger) : Prop := ∀ key content, l key = some content → m key = some content

namespace Value

/-- The stream gives the length of its content. That of content in memory fits into 64 bits. -/
def Stream.Honest (l : Ledger) (s : Stream) : Prop :=
  match s.source with
  | .inline content => content.size < 0x10000000000000000
  | .external key length _ => length < 0x10000000000000000 ∧ ∃ content, l key = some content ∧ content.size = length

def Honest (l : Ledger) (v : Value) : Prop := ∀ s ∈ v.streams, s.Honest l

namespace Stream

variable {l m : Ledger} {s : Stream}

theorem Honest.mono (honest : s.Honest l) (within : l.Within m) : s.Honest m := by
  unfold Honest at *
  split
  · rename_i source
    rwa [source] at honest
  · rename_i source
    rw [source] at honest
    obtain ⟨small, content, found, size⟩ := honest
    exact ⟨small, content, within _ _ found, size⟩

theorem Honest.measured (honest : s.Honest l) : s.source.Measured := by
  unfold Honest at honest
  unfold Source.Measured
  split <;> rename_i source <;> rw [source] at honest
  · trivial
  · exact honest.1

theorem honest_detached : s.detached.Honest l ↔ s.Honest l := by
  obtain ⟨kind, source⟩ := s
  cases source <;> rfl

theorem honest_attach : s.attach.Honest l ↔ s.Honest l := by
  obtain ⟨kind, source⟩ := s
  cases source <;> rfl

end Stream

variable {l m : Ledger} {v w : Value}

theorem Honest.mono (honest : v.Honest l) (within : l.Within m) : v.Honest m := fun s mem =>
  (honest s mem).mono within

theorem honest_attach : v.attach.Honest l ↔ v.Honest l := by
  cases v with
  | stream s =>
    show (∀ t ∈ [s.attach], t.Honest l) ↔ ∀ t ∈ [s], t.Honest l
    simp [Stream.honest_attach]
  | _ => rfl

theorem Honest.stored (honest : v.Honest l) (h : decode v.encode = .ok w) : w.Honest l := by
  intro s mem
  rw [(decode_encode_eq h).1] at mem
  obtain ⟨t, there, rfl⟩ := List.mem_map.mp mem
  exact Stream.honest_detached.mpr (honest t there)

end Value

/-! ### Properties and records -/

structure Property.Honest (l : Ledger) (p : Property) : Prop where
  value : p.value.Honest l
  entries : ∀ e ∈ p.metadata.entries, e.2.value.Honest l

structure PropertyRecord.Honest (l : Ledger) (r : PropertyRecord) : Prop where
  value : ∀ v, Value.decode r.value = .ok v → v.Honest l
  entries : ∀ e ∈ r.metadata, ∀ v, Value.decode e.value = .ok v → v.Honest l

variable {l m : Ledger}

theorem Property.Honest.mono {p : Property} (honest : p.Honest l) (within : l.Within m) : p.Honest m :=
  ⟨honest.value.mono within, fun e mem => (honest.entries e mem).mono within⟩

theorem PropertyRecord.Honest.mono {r : PropertyRecord} (honest : r.Honest l) (within : l.Within m) : r.Honest m :=
  ⟨fun v h => (honest.value v h).mono within, fun e mem v h => (honest.entries e mem v h).mono within⟩

theorem Property.Honest.encode {p : Property} (honest : p.Honest l) : p.encode.Honest l where
  value v h := honest.value.stored h
  entries r mem v h := by
    obtain ⟨e, there, rfl⟩ := List.mem_map.mp mem
    exact (honest.entries e there).stored h

theorem Table.mem_insert {α : Type} {t : Table α} {k : String} {v : α} {e : String × α}
    (mem : e ∈ (t.insert k v).entries) : e = (k, v) ∨ e ∈ t.entries := mem_place mem

theorem Table.mem_foldl_insert {α : Type} {es : List (String × α)} {t : Table α} {e : String × α}
    (mem : e ∈ (es.foldl (fun t e => t.insert e.1 e.2) t).entries) : e ∈ es ∨ e ∈ t.entries := by
  induction es generalizing t with
  | nil => exact .inr mem
  | cons d es ih =>
    rcases ih mem with later | here
    · exact .inl (List.mem_cons_of_mem _ later)
    · rcases mem_insert here with rfl | before
      · exact .inl List.mem_cons_self
      · exact .inr before

theorem decodeAttached_honest {b : ByteArray} {v : Value} (h : decodeAttached b = .ok v)
    (honest : ∀ w, Value.decode b = .ok w → w.Honest l) : v.Honest l := by
  obtain ⟨w, read, rfl⟩ := map_ok h
  exact Value.honest_attach.mpr (honest w read)

theorem PropertyRecord.Honest.decodeWith {r : PropertyRecord} (honest : r.Honest l) {entries : List EntryRecord}
    {hidden : List Visibility} {p : Property} (h : r.decodeWith entries hidden = .ok p)
    (sub : ∀ e ∈ entries, e ∈ r.metadata) : p.Honest l := by
  obtain ⟨metadata, value, hm, hv, rfl⟩ := decodeWith_ok_iff.mp h
  refine ⟨decodeAttached_honest hv honest.value, fun e mem => ?_⟩
  rcases Table.mem_foldl_insert mem with mem | mem
  · obtain ⟨d, there, read⟩ := exists_left_of_mem (mapM_ok_iff.mp hm) mem
    obtain ⟨v, decoded, rfl⟩ := map_ok read
    exact decodeAttached_honest decoded (honest.entries d (sub d there))
  · simp [Table.empty] at mem

/-! ### Changes -/

/-- The streams that come with a change. -/
def Change.streams : Change → List Value.Stream
  | set _ _ value _ metadata => value.streams ++ metadata.entries.flatMap (·.2.value.streams)
  | annotate _ _ _ value _ => value.streams
  | _ => []

theorem mem_under {m top : Metadata} {e : String × Entry} (mem : e ∈ (m.under top).entries) :
    e ∈ top.entries ∨ e ∈ m.entries := Table.mem_foldl_insert mem

namespace Change

variable {a : Authorizations} {ps qs : List Property} {c : Change}

theorem set_honest {key name : String} {value : Value} {v : Visibility} {metadata : Metadata}
    (supplied : ∀ s ∈ (set key name value v metadata).streams, s.Honest l) :
    value.Honest l ∧ ∀ e ∈ metadata.entries, e.2.value.Honest l :=
  ⟨fun s mem => supplied s (List.mem_append_left _ mem),
    fun e mem s there => supplied s (List.mem_append_right _ (List.mem_flatMap.mpr ⟨e, mem, there⟩))⟩

theorem replace_honest {p : Property} {value : Value} {metadata : Metadata} (honest : p.Honest l)
    (own : value.Honest l) (entries : ∀ e ∈ metadata.entries, e.2.value.Honest l) :
    (p.replace a value metadata).Honest l := by
  refine ⟨own, fun e mem => ?_⟩
  rcases mem_under mem with mem | mem
  · exact honest.entries e (List.mem_filter.mp mem).1
  · exact entries e mem

theorem annotate_honest {p : Property} {name : String} {entry : Entry} (honest : p.Honest l)
    (own : entry.value.Honest l) : (p.annotate a name entry).Honest l := by
  unfold Property.annotate
  split
  · exact honest
  · refine ⟨honest.value, fun e mem => ?_⟩
    rcases Table.mem_insert mem with rfl | mem
    · exact own
    · exact honest.entries e mem

theorem Does.honest (does : Does a ps c qs) (supplied : ∀ s ∈ c.streams, s.Honest l) (honest : ∀ p ∈ ps, p.Honest l) :
    ∀ q ∈ qs, q.Honest l := by
  have exchange {l₁ l₂ : List Property} {p q : Property} (middle : ps = l₁ ++ p :: l₂)
      (new : p.Honest l → q.Honest l) : ∀ x ∈ l₁ ++ q :: l₂, x.Honest l := by
    subst middle
    rw [List.forall_mem_append, List.forall_mem_cons] at honest ⊢
    exact ⟨honest.1, new honest.2.1, honest.2.2⟩
  cases does with
  | replace middle fit =>
    obtain ⟨own, entries⟩ := set_honest supplied
    exact exchange middle fun old => replace_honest old own entries
  | add free =>
    obtain ⟨own, entries⟩ := set_honest supplied
    rw [List.forall_mem_append, List.forall_mem_singleton]
    exact ⟨honest, own, entries⟩
  | removeAll key name => exact fun q mem => honest q (List.mem_filter.mp mem).1
  | remove middle fit =>
    subst middle
    rw [List.forall_mem_append, List.forall_mem_cons] at honest
    exact List.forall_mem_append.mpr ⟨honest.1, honest.2.2⟩
  | stay only => exact honest
  | move middle fit unfit =>
    subst middle
    rw [List.forall_mem_append, List.forall_mem_cons] at honest ⊢
    refine ⟨fun q mem => honest.1 q (List.mem_filter.mp mem).1, ⟨honest.2.1.value, honest.2.1.entries⟩, fun q mem => ?_⟩
    exact honest.2.2 q (List.mem_filter.mp mem).1
  | annotate key name entry value v =>
    rw [List.forall_mem_map]
    intro p mem
    split
    · exact annotate_honest (honest p mem) supplied
    · exact honest p mem
  | relabel v => exact honest
  | hide marker middle fit => exact exchange middle fun old => ⟨old.value, old.entries⟩
  | unhide marker middle fit => exact exchange middle fun old => ⟨old.value, old.entries⟩

end Change

theorem Element.apply_honest {a : Authorizations} {changes : List Change} {e f : Element}
    (h : e.apply a changes = .ok f) (supplied : ∀ c ∈ changes, ∀ s ∈ c.streams, s.Honest l)
    (honest : ∀ p ∈ e.properties, p.Honest l) : ∀ p ∈ f.properties, p.Honest l :=
  apply_keeps (fun mem ok before => (Change.does_of_ok ok).honest (supplied _ mem) before) h honest

end GuardedGraph

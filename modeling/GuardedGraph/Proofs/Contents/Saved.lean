import GuardedGraph.Proofs.Contents.Owned

/-! Saves keep the ledger: an element that is written owns what its stored form stands for, and what is let go of
it has owned alone. -/

namespace GuardedGraph

open Store (Memory)
open GuardedGraph.Graph (NewKey MadeKey Grown)
open Outcome

variable {l : Ledger} {g h : Graph Memory} {t : ElementType} {id key : String} {r : Record} {a : Authorizations}

/-! ### Stored elements -/

theorem Whole.mem_keptKeys {w : Whole} :
    key ∈ w.keptKeys ↔ ∃ p ∈ w.element.properties, ∃ s, p.value = .stream s ∧ s.key? = some key := by
  unfold keptKeys
  rw [List.mem_filterMap]
  refine exists_congr fun p => and_congr_right fun _ => ?_
  rw [Option.bind_eq_some_iff]
  refine exists_congr fun s => and_congr_left fun _ => ⟨stream?_eq_some, fun value => by rw [value]; rfl⟩

theorem key?_attach (s : Value.Stream) : s.attach.key? = s.key? := by
  obtain ⟨kind, source⟩ := s
  cases source <;> rfl

theorem attach_eq_stream {v : Value} {s : Value.Stream} (h : v.attach = .stream s) :
    ∃ s₀, v = .stream s₀ ∧ s = s₀.attach := by
  cases v with
  | stream s₀ => exact ⟨s₀, rfl, (Value.stream.inj h).symm⟩
  | _ => exact absurd h (by simp [Value.attach])

section

variable {w : Whole} (whole : r.whole = .ok w)
include whole

theorem honest_of_whole (honest : ∀ p ∈ r.properties, p.Honest l) : ∀ p ∈ w.element.properties, p.Honest l := by
  obtain ⟨ps, hps, rfl⟩ := whole_ok_iff.mp whole
  intro p mem
  obtain ⟨q, there, decoded⟩ := exists_left_of_mem (mapM_ok_iff.mp hps) mem
  exact (honest q there).decodeWith decoded fun e mem => mem

theorem distinct_of_whole (distinct : (r.properties.map PropertyRecord.place).Nodup) :
    Property.Distinct w.element.properties := by
  obtain ⟨ps, hps, rfl⟩ := whole_ok_iff.mp whole
  have places : r.properties.map PropertyRecord.place = ps.map Property.place := by
    refine (map_eq_of_forall₂ (mapM_ok_iff.mp hps) fun p q decoded => ?_).symm
    obtain ⟨metadata, value, -, -, rfl⟩ := decodeWith_ok_iff.mp decoded
    rfl
  rw [places] at distinct
  exact distinct

theorem keptKeys_of_whole (mem : key ∈ w.keptKeys) : key ∈ r.keptKeys := by
  obtain ⟨ps, hps, rfl⟩ := whole_ok_iff.mp whole
  obtain ⟨p, mem, s, value, found⟩ := Whole.mem_keptKeys.mp mem
  obtain ⟨q, there, decoded⟩ := exists_left_of_mem (mapM_ok_iff.mp hps) mem
  obtain ⟨v, read, attached⟩ := map_ok (decodeWith_value decoded)
  obtain ⟨s₀, rfl, rfl⟩ := attach_eq_stream (attached.trans value)
  exact Record.mem_keptKeys.mpr ⟨q, there, s₀, read, (key?_attach s₀).symm.trans found⟩

end

theorem stored_stream {v : Value} {s : Value.Stream} (h : Value.decode v.encode = .ok (.stream s)) :
    ∃ s₀, v = .stream s₀ ∧ s = s₀.detached := by
  obtain ⟨s₀, stream, rfl⟩ := Option.map_eq_some_iff.mp (Value.decode_encode_eq h).2.symm
  exact ⟨s₀, stream?_eq_some stream, rfl⟩

theorem keptKeys_of_encode {w : Whole} (mem : key ∈ w.encode.keptKeys) : key ∈ w.keptKeys := by
  obtain ⟨p, mem, s, read, found⟩ := Record.mem_keptKeys.mp mem
  obtain ⟨q, there, rfl⟩ := List.mem_map.mp mem
  obtain ⟨s₀, value, rfl⟩ := stored_stream read
  refine Whole.mem_keptKeys.mpr ⟨q, there, s₀, value, ?_⟩
  obtain ⟨kind, source⟩ := s₀
  cases source <;> exact found

/-! ### Saves -/

theorem kept?_rewritten (m : Memory) (v : Revision) (key : String) :
    (Graph.rewritten m v).kept? key =
      if key ∈ v.base.keptKeys ∧ key ∉ v.after.keptKeys then none else m.kept? key := by
  have linked (m : Memory) (ends : Endpoints) : (Graph.linked m v ends).contents = m.contents := by
    unfold Graph.linked
    split
    · exact Memory.contents_attachEnds _ _ _
    · split
      · exact Memory.contents_mapEnds _ _ _
      · rfl
  have same : (Graph.rewritten m v).contents =
      ((v.base.keptKeys.filter fun key => !v.after.keptKeys.contains key).foldl Memory.discard
        (m.put v.after.encode)).contents := by
    unfold Graph.rewritten
    cases v.after.endpoints with
    | none => rfl
    | some ends => exact linked _ ends
  rw [Memory.kept?, same]
  refine (Memory.kept?_discardAll _ _ key).trans ?_
  simp only [List.mem_filter, List.contains_eq_mem, Bool.not_eq_true', decide_eq_false_iff_not]
  rfl

/-- The content of an honest stream is found as it was before, and it has the length that the stream gives. -/
theorem Value.Stream.Honest.found {s : Value.Stream} {content : ByteArray} (honest : s.Honest l)
    (ledgered : Ledgered l g) (grown : g.Grown h) (found : s.contentIn h.store = some content) :
    s.contentIn g.store = some content ∧ content.size = s.length ∧ s.length < 0x10000000000000000 := by
  obtain ⟨kind, source⟩ := s
  cases source with
  | inline c =>
    obtain rfl := Option.some.inj found
    exact ⟨rfl, rfl, honest⟩
  | external key length attached =>
    obtain ⟨small, c, known, size⟩ := honest
    obtain ⟨n, old, made⟩ := ledgered.made key c known
    have before : g.store.kept? key = some content := (grown.kept?_made made old).symm.trans found
    have same := ledgered.kept key content before
    obtain rfl := Option.some.inj (same.symm.trans known)
    exact ⟨before, size, small⟩

variable {s : Save} {v : Revision}

theorem Prepared.base (prepared : Prepared s a g h v) (ledgered : Ledgered l g) (filed : g.store.Filed) :
    (∀ p ∈ v.base.element.properties, p.Honest l) ∧ Property.Distinct v.base.element.properties ∧
      ∀ key ∈ v.base.keptKeys, g.Owns v.after.type v.after.element.id key := by
  cases prepared.origin filed with
  | new _ none =>
    rw [Whole.keptKeys, none]
    exact ⟨by simp, List.nodup_nil, by simp⟩
  | stored _ found whole =>
    have fit := ledgered.fit _ _ _ found
    exact ⟨honest_of_whole whole fit.honest, distinct_of_whole whole fit.distinct, fun key mem =>
      ⟨_, found, keptKeys_of_whole whole mem⟩⟩

theorem places_of_placed {owned : List String} {ps qs : List Property}
    (placed : List.Forall₂ (Placed t id owned g h) ps qs) : qs.map Property.place = ps.map Property.place := by
  refine map_eq_of_forall₂ placed fun p q here => ?_
  obtain ⟨rfl, -⟩ | ⟨s₁, n, c, mid, -, -, -, -, -, -, -, rfl, -⟩ := here <;> rfl

/-- No two properties that a save writes are at the same place. -/
theorem Prepared.distinct (prepared : Prepared s a g h v) (base : Property.Distinct v.base.element.properties) :
    (v.after.encode.properties.map PropertyRecord.place).Nodup := by
  obtain ⟨element, ps, applied, placed, after⟩ := prepared.changed
  have same : v.after.encode.properties.map PropertyRecord.place = ps.map Property.place := by
    rw [after]
    exact List.map_map
  rw [same, places_of_placed placed]
  exact Element.apply_distinct applied base

theorem Prepared.placed (prepared : Prepared s a g h v) (ledgered : Ledgered l g) (filed : g.store.Filed)
    (supplied : ∀ c ∈ s.changes, ∀ s ∈ c.streams, s.Honest l) :
    ∃ ps, List.Forall₂ (Placed v.base.type v.base.element.id v.base.keptKeys g h) ps v.after.element.properties ∧
      ∀ p ∈ ps, p.Honest l := by
  obtain ⟨element, ps, applied, placed, after⟩ := prepared.changed
  obtain ⟨honest, -, -⟩ := prepared.base ledgered filed
  refine ⟨element.properties, ?_, Element.apply_honest applied supplied honest⟩
  rw [after]
  exact placed

theorem Prepared.kept (prepared : Prepared s a g h v) (ledgered : Ledgered l g) (filed : g.store.Filed)
    (mem : key ∈ v.after.keptKeys) :
    (h.store.kept? key).isSome ∧ (g.Owns v.after.type v.after.element.id key ∨ NewKey g h key) := by
  obtain ⟨element, ps, applied, placed, after⟩ := prepared.changed
  obtain ⟨-, -, owns⟩ := prepared.base ledgered filed
  obtain ⟨q, there, s, value, found⟩ := Whole.mem_keptKeys.mp mem
  rw [after] at there
  obtain ⟨p, -, here⟩ := exists_left_of_mem placed there
  obtain ⟨rfl, belongs⟩ | ⟨s₀, n, content, mid, -, -, -, -, -, low, high, rfl, kept⟩ := here
  · have owned : key ∈ v.base.keptKeys := by
      have here := belongs s value
      unfold Value.Stream.Belongs at here
      unfold Value.Stream.key? at found
      split at found
      · exact absurd found (by simp)
      · rename_i source
        rw [source] at here
        exact Option.some.inj found ▸ here
    have before := owns key owned
    obtain ⟨n, old, made⟩ := ledgered.old_of_owns before
    rw [prepared.grown.kept?_made made old]
    exact ⟨ledgered.held _ _ key before, .inl before⟩
  · obtain rfl := Value.stream.inj value
    obtain rfl := Option.some.inj found
    exact ⟨by rw [kept]; rfl, .inr ⟨n, low, high, _, _, p, rfl⟩⟩

theorem kept_written (h : Graph Memory) {v : Revision} (mem : key ∈ v.after.keptKeys) :
    (h.written v).store.kept? key = h.store.kept? key := by
  rw [Graph.written, Commit.indexed_store]
  exact (kept?_rewritten _ v key).trans (if_neg fun gone => gone.2 mem)

section

variable (prepared : Prepared s a g h v) (ledgered : Ledgered l g) (filed : g.store.Filed)
include prepared ledgered filed

theorem Prepared.honest (supplied : ∀ c ∈ s.changes, ∀ s ∈ c.streams, s.Honest l) :
    ∀ q ∈ v.after.element.properties, q.Honest (l.and (h.written v).store) := by
  intro q mem
  obtain ⟨ps, placed, honest⟩ := prepared.placed ledgered filed supplied
  obtain ⟨p, there, here⟩ := exists_left_of_mem placed mem
  have before := (honest p there).mono (l.within_and (h.written v).store)
  obtain ⟨rfl, -⟩ | ⟨s₀, n, content, mid, value, -, early, -, found, low, high, rfl, kept⟩ := here
  · exact before
  · refine ⟨fun s only => ?_, before.entries⟩
    obtain rfl := List.mem_singleton.mp only
    have own := (honest p there).value s₀ (by rw [value]; exact List.mem_singleton_self s₀)
    obtain ⟨-, size, small⟩ := own.found ledgered early found
    have owned := Whole.mem_keptKeys.mpr ⟨_, mem, _, rfl, rfl⟩
    refine ⟨small, content, ?_, size⟩
    rw [ledgered.and_new (h := h) ⟨n, low, high, _, _, p, rfl⟩, kept_written h owned]
    exact kept

theorem Prepared.fit (supplied : ∀ c ∈ s.changes, ∀ s ∈ c.streams, s.Honest l) :
    v.after.encode.Fit (l.and (h.written v).store) g.config.threshold := by
  have honest := prepared.honest ledgered filed supplied
  obtain ⟨ps, placed, -⟩ := prepared.placed ledgered filed supplied
  refine ⟨List.forall_mem_map.mpr fun q mem => (honest q mem).encode, ?_, ?_⟩
  · rw [show v.after.encode.properties = v.after.element.properties.map Property.encode from rfl, List.forall_mem_map]
    intro q mem s content read source
    obtain ⟨s₀, value, rfl⟩ := stored_stream read
    have inline : s₀.source = .inline content := by
      obtain ⟨kind, source₀⟩ := s₀
      cases source₀ with
      | inline c => exact source
      | external key length attached => exact absurd source (by simp [Value.Stream.detached, Value.Source.detached])
    obtain ⟨p, -, ⟨rfl, belongs⟩ | ⟨s₁, n, c, mid, -, -, -, -, -, -, -, rfl, -⟩⟩ := exists_left_of_mem placed mem
    · have here := belongs s₀ value
      unfold Value.Stream.Belongs at here
      rwa [inline] at here
    · obtain rfl := Value.stream.inj value
      exact absurd inline (by simp [Value.Stream.keptUnder])
  · exact prepared.distinct (prepared.base ledgered filed).2.1

end

theorem names_written (h : Graph Memory) (v : Revision) :
    (h.written v).names = h.names ∧ (h.written v).minted = h.minted ∧ (h.written v).config = h.config := by
  unfold Graph.written Graph.indexed
  split <;> exact ⟨rfl, rfl, rfl⟩

/-- A save gives its element contents of its own. -/
theorem Ledgered.written (ledgered : Ledgered l g) (mirrored : Mirrored g.store) (prepared : Prepared s a g h v)
    (supplied : ∀ c ∈ s.changes, ∀ s ∈ c.streams, s.Honest l) :
    Ledgered (l.and (h.written v).store) (h.written v) := by
  have grown := prepared.grown
  have reached := get?_written mirrored prepared
  have ⟨names, minted, config⟩ := names_written h v
  have fit := prepared.fit ledgered mirrored.filed supplied
  have other {t : ElementType} {id : String} (away : ¬(t = v.after.type ∧ id = v.after.element.id)) :
      Carried g (h.written v) t id := by
    have same := reached t id
    rw [if_neg away] at same
    exact same.carried
  have own {key : String} (owns : (h.written v).Owns v.after.type v.after.element.id key) : key ∈ v.after.keptKeys := by
    obtain ⟨r, found, mem⟩ := owns
    obtain rfl := Option.some.inj ((get?_written_own mirrored prepared).symm.trans found)
    exact keptKeys_of_encode mem
  have contents (key : String) : (h.written v).store.kept? key =
      if key ∈ v.base.keptKeys ∧ key ∉ v.after.keptKeys then none else h.store.kept? key := by
    rw [Graph.written, Commit.indexed_store]
    exact kept?_rewritten h.store v key
  have new {key : String} (made : NewKey g h key) : NewKey g (h.written v) key := by
    obtain ⟨n, low, high, made⟩ := made
    exact ⟨n, low, minted ▸ high, made⟩
  refine ledgered.step (v.after.type, v.after.element.id) (names.trans grown.names) (minted ▸ grown.minted)
    (fun key content kept => ?_) (fun t id r found => ?_) (fun t id key owns => ?_) fun t id key owns => ?_
  · rw [contents] at kept
    split at kept
    · exact absurd kept (by simp)
    · rcases grown.contents key with same | made
      · exact .inl (same ▸ kept)
      · exact .inr (new made)
  · rw [config, grown.config]
    by_cases here : t = v.after.type ∧ id = v.after.element.id
    · have same := reached t id
      rw [if_pos here] at same
      obtain rfl := Option.some.inj (same.symm.trans found)
      exact fit
    · obtain ⟨old, there, same⟩ := other here r found
      exact ((ledgered.fit t id old there).congr same).mono (l.within_and _)
  · by_cases here : t = v.after.type ∧ id = v.after.element.id
    · obtain ⟨rfl, rfl⟩ := here
      rcases (prepared.kept ledgered mirrored.filed (own owns)).2 with before | made
      · exact .inl before
      · exact .inr ⟨rfl, new made⟩
    · exact .inl ((other here).owns owns)
  · by_cases here : t = v.after.type ∧ id = v.after.element.id
    · obtain ⟨rfl, rfl⟩ := here
      rw [kept_written h (own owns)]
      exact (prepared.kept ledgered mirrored.filed (own owns)).1
    · have before := (other here).owns owns
      obtain ⟨n, old, made⟩ := ledgered.old_of_owns before
      rw [contents, if_neg, grown.kept?_made made old]
      · exact ledgered.held t id key before
      · intro gone
        exact here (ledgered.own _ _ _ _ key before ((prepared.base ledgered mirrored.filed).2.2 key gone.1))

end GuardedGraph

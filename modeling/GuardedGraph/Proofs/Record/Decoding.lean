import GuardedGraph.Proofs.Outcome
import GuardedGraph.Record.Codec

/-! What the two decodings of a record give, and when: the whole state and a reader's view. -/

namespace GuardedGraph

open Outcome

variable {a : Authorizations}

/-! ### Properties -/

theorem decodeWith_ok_iff {r : PropertyRecord} {entries : List EntryRecord} {hidden : List Visibility} {p : Property} :
    r.decodeWith entries hidden = .ok p ↔ ∃ metadata value, entries.mapM EntryRecord.decode = .ok metadata ∧
      decodeAttached r.value = .ok value ∧ p = ⟨r.key, r.name, value, r.visibility, .ofList metadata, hidden⟩ := by
  constructor
  · intro h
    obtain ⟨metadata, hm, h⟩ := bind_ok h
    obtain ⟨value, hv, h⟩ := bind_ok h
    exact ⟨metadata, value, hm, hv, (pure_ok h).symm⟩
  · rintro ⟨metadata, value, hm, hv, rfl⟩
    rw [PropertyRecord.decodeWith, hm, hv]
    rfl

theorem decodeWith_value {r : PropertyRecord} {entries : List EntryRecord} {hidden : List Visibility} {p : Property}
    (h : r.decodeWith entries hidden = .ok p) : decodeAttached r.value = .ok p.value := by
  obtain ⟨metadata, value, -, hv, rfl⟩ := decodeWith_ok_iff.mp h
  exact hv

theorem decodeWith_subset {r : PropertyRecord} {entries fewer : List EntryRecord} {hidden hidden' : List Visibility}
    {p : Property} (h : r.decodeWith entries hidden = .ok p) (sub : ∀ e ∈ fewer, e ∈ entries) :
    ∃ q, r.decodeWith fewer hidden' = .ok q := by
  obtain ⟨metadata, value, hm, hv, rfl⟩ := decodeWith_ok_iff.mp h
  obtain ⟨metadata', hm'⟩ := mapM_ok_of_forall (f := EntryRecord.decode) (l := fewer) fun e he => by
    obtain ⟨y, -, hy⟩ := exists_right_of_mem (mapM_ok_iff.mp hm) (sub e he)
    exact ⟨y, hy⟩
  exact ⟨_, decodeWith_ok_iff.mpr ⟨metadata', value, hm', hv, rfl⟩⟩

/-! ### Records -/

theorem whole_ok_iff {r : Record} {w : Whole} :
    r.whole = .ok w ↔ ∃ ps, r.properties.mapM PropertyRecord.whole = .ok ps ∧
      w = ⟨r.type, ⟨r.id, r.visibility, ps, r.hidden⟩, r.endpoints, r.edgeRefs⟩ := by
  constructor
  · intro h
    obtain ⟨ps, hps, h⟩ := bind_ok h
    exact ⟨ps, hps, (pure_ok h).symm⟩
  · rintro ⟨ps, hps, rfl⟩
    rw [Record.whole, hps]
    rfl

theorem view?_of_not_visible {t : ElementType} {r : Record} (h : ¬(r.type = t ∧ r.visibleTo a)) :
    r.view? t a = .ok none := by
  rw [Record.view?, if_pos]
  by_cases ht : r.type = t
  · exact .inr (by simpa using fun v => h ⟨ht, v⟩)
  · exact .inl ht

theorem view?_of_visible {r : Record} (h : r.visibleTo a) :
    r.view? r.type a = (do
      let properties ← (r.properties.filter (·.visibleTo a)).mapM (·.view a)
      let links ← r.links a r.type
      return some ⟨⟨r.id, r.visibility, properties, []⟩, links⟩) := by
  rw [Record.view?, if_neg]
  simp [h]

theorem view?_some_iff {t : ElementType} {r : Record} {v : View t} :
    r.view? t a = .ok (some v) ↔ r.type = t ∧ r.visibleTo a ∧ ∃ ps links,
      (r.properties.filter (·.visibleTo a)).mapM (·.view a) = .ok ps ∧ r.links a t = .ok links ∧
        v = ⟨⟨r.id, r.visibility, ps, []⟩, links⟩ := by
  by_cases visible : r.type = t ∧ r.visibleTo a
  · obtain ⟨rfl, hv⟩ := visible
    rw [view?_of_visible hv]
    constructor
    · intro h
      obtain ⟨ps, hps, h⟩ := bind_ok h
      obtain ⟨links, hl, h⟩ := bind_ok h
      exact ⟨rfl, hv, ps, links, hps, hl, (Option.some.inj (pure_ok h)).symm⟩
    · rintro ⟨-, -, ps, links, hps, hl, rfl⟩
      rw [hps, hl]
      rfl
  · rw [view?_of_not_visible visible]
    exact ⟨fun h => absurd (Except.ok.inj h) (by simp), fun h => absurd ⟨h.1, h.2.1⟩ visible⟩

theorem links_ok {r : Record} (endpoints : r.type = .edge → r.endpoints.isSome) (a : Authorizations) :
    ∃ links, r.links a r.type = .ok links := by
  generalize ht : r.type = t
  cases t with
  | vertex => exact ⟨_, rfl⟩
  | edge =>
    obtain ⟨e, he⟩ := Option.isSome_iff_exists.mp (endpoints ht)
    exact ⟨e, by rw [Record.links, he]⟩

/-- A record that decodes as a whole has a view for everyone. -/
theorem view?_ok_of_whole {r : Record} {w : Whole} (h : r.whole = .ok w)
    (endpoints : r.type = .edge → r.endpoints.isSome) (t : ElementType) (a : Authorizations) :
    ∃ v, r.view? t a = .ok v := by
  by_cases visible : r.type = t ∧ r.visibleTo a
  · obtain ⟨rfl, hv⟩ := visible
    obtain ⟨whole, hw, -⟩ := whole_ok_iff.mp h
    obtain ⟨ps, hps⟩ := mapM_ok_of_forall (f := fun p : PropertyRecord => p.view a)
      (l := r.properties.filter (·.visibleTo a)) fun p hp => by
        obtain ⟨q, -, hq⟩ := exists_right_of_mem (mapM_ok_iff.mp hw) (List.mem_filter.mp hp).1
        exact decodeWith_subset hq fun e he => (List.mem_filter.mp he).1
    obtain ⟨links, hl⟩ := links_ok endpoints a
    exact ⟨_, view?_some_iff.mpr ⟨rfl, hv, ps, links, hps, hl, rfl⟩⟩
  · exact ⟨none, view?_of_not_visible visible⟩

end GuardedGraph

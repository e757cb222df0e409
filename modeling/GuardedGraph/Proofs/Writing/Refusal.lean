import GuardedGraph.Proofs.Writing.Frames

/-! Saves that fail. They change no record, unless the element that they have come to write holds something
that its writer cannot read again from the stored form. -/

namespace GuardedGraph

open Store (Memory)
open Outcome Commit

/-- The stored form of the value is that of a value. -/
def Value.Legible (v : Value) : Prop := ∃ w, Value.decode v.encode = .ok w

/-- All that `a` sees of the element can be read again from its stored form. -/
def Element.Legible (e : Element) (a : Authorizations) : Prop :=
  ∀ p ∈ e.properties, p.visibleTo a → p.value.Legible ∧
    ∀ entry ∈ p.metadata.entries, entry.2.visibility.readableBy a → entry.2.value.Legible

variable {g h : Graph Memory} {a : Authorizations}

/-! ### Views of what has been written -/

theorem decodeAttached_ok_iff {v : Value} : (∃ w, decodeAttached v.encode = .ok w) ↔ v.Legible := by
  constructor
  · rintro ⟨w, hw⟩
    obtain ⟨u, hu, -⟩ := map_ok hw
    exact ⟨u, hu⟩
  · rintro ⟨w, hw⟩
    exact ⟨w.attach, by rw [decodeAttached, hw]; rfl⟩

theorem decodeEntry_ok_iff {name : String} {entry : Entry} :
    (∃ e, EntryRecord.decode ⟨name, entry.visibility, entry.value.encode⟩ = .ok e) ↔ entry.value.Legible := by
  rw [← decodeAttached_ok_iff]
  constructor
  · rintro ⟨e, he⟩
    obtain ⟨w, hw, -⟩ := map_ok he
    exact ⟨w, hw⟩
  · rintro ⟨w, hw⟩
    exact ⟨_, by rw [EntryRecord.decode, hw]; rfl⟩

theorem encode_view_ok_iff {p : Property} : (∃ q, p.encode.view a = .ok q) ↔ p.value.Legible ∧
    ∀ entry ∈ p.metadata.entries, entry.2.visibility.readableBy a → entry.2.value.Legible := by
  constructor
  · rintro ⟨q, hq⟩
    obtain ⟨metadata, value, hm, hv, -⟩ := decodeWith_ok_iff.mp hq
    refine ⟨decodeAttached_ok_iff.mp ⟨value, hv⟩, fun entry mem readable => ?_⟩
    have stored : (⟨entry.1, entry.2.visibility, entry.2.value.encode⟩ : EntryRecord) ∈
        p.encode.metadata.filter (·.visibility.readableBy a) :=
      List.mem_filter.mpr ⟨List.mem_map_of_mem mem, readable⟩
    obtain ⟨e, -, he⟩ := exists_right_of_mem (mapM_ok_iff.mp hm) stored
    exact decodeEntry_ok_iff.mp ⟨e, he⟩
  · rintro ⟨value, entries⟩
    obtain ⟨w, hw⟩ := decodeAttached_ok_iff.mpr value
    obtain ⟨metadata, hm⟩ := mapM_ok_of_forall (f := EntryRecord.decode)
      (l := p.encode.metadata.filter (·.visibility.readableBy a)) fun r hr => by
        obtain ⟨stored, readable⟩ := List.mem_filter.mp hr
        obtain ⟨entry, mem, rfl⟩ := List.mem_map.mp stored
        exact decodeEntry_ok_iff.mpr (entries entry mem readable)
    exact ⟨_, decodeWith_ok_iff.mpr ⟨metadata, w, hm, hw, rfl⟩⟩

theorem shownTo_ok_iff {w : Whole} (readable : w.element.visibility.readableBy a = true)
    (shown : Visibility.anyReadableBy w.element.hidden a = false) (endpoints : w.type = .edge → w.endpoints.isSome) :
    (∃ v, w.encode.shownTo w.type a = .ok v) ↔ w.element.Legible a := by
  have visible : w.encode.visibleTo a = true := by
    simp [Record.visibleTo, Authorizations.sees, Whole.encode, readable, shown]
  constructor
  · rintro ⟨v, hv⟩ p mem sees
    obtain ⟨-, -, ps, links, hps, -⟩ := view?_some_iff.mp (Record.shownTo_eq_ok.mp hv)
    have stored : p.encode ∈ w.encode.properties.filter (·.visibleTo a) :=
      List.mem_filter.mpr ⟨List.mem_map_of_mem mem, sees⟩
    obtain ⟨q, -, hq⟩ := exists_right_of_mem (mapM_ok_iff.mp hps) stored
    exact encode_view_ok_iff.mp ⟨q, hq⟩
  · intro legible
    obtain ⟨ps, hps⟩ := mapM_ok_of_forall (f := fun p : PropertyRecord => p.view a)
      (l := w.encode.properties.filter (·.visibleTo a)) fun r hr => by
        obtain ⟨stored, sees⟩ := List.mem_filter.mp hr
        obtain ⟨p, mem, rfl⟩ := List.mem_map.mp stored
        exact encode_view_ok_iff.mpr (legible p mem sees)
    obtain ⟨links, hl⟩ := links_ok (r := w.encode) endpoints a
    exact ⟨_, Record.shownTo_eq_ok.mpr (view?_some_iff.mpr ⟨rfl, visible, ps, links, hps, hl, rfl⟩)⟩

/-! ### Failed saves -/

theorem prepared_shown_iff {s : Save} {v : Revision} (mirrored : Mirrored g.store) (prepared : Prepared s a g h v) :
    (∃ w, v.after.encode.shownTo s.type a = .ok w) ↔ v.after.element.Legible a := by
  obtain ⟨element, ps, applied, -, after⟩ := prepared.changed
  have kept := Element.apply_kept applied
  have readable : v.after.element.visibility.readableBy a = true := by
    rw [after]
    exact kept.readable prepared.readable
  have shown : Visibility.anyReadableBy v.after.element.hidden a = false := by
    rw [after]
    exact kept.hidden ▸ prepared.shown
  rw [← prepared.type mirrored.filed]
  refine shownTo_ok_iff readable shown fun edge => ?_
  obtain ⟨ends, endpoints, -⟩ :=
    (mirrored_written mirrored prepared).edge _ _ (edge ▸ get?_written_own mirrored prepared)
  exact Option.isSome_iff_exists.mpr ⟨ends, endpoints⟩

theorem legible_of_whole {w b : Whole} (whole : w.encode.whole = .ok b) : w.element.Legible a := by
  intro p mem _
  obtain ⟨ps, hps, -⟩ := whole_ok_iff.mp whole
  obtain ⟨q, -, hq⟩ := exists_right_of_mem (mapM_ok_iff.mp hps) (List.mem_map_of_mem mem)
  exact encode_view_ok_iff.mp (decodeWith_subset hq fun e he => (List.mem_filter.mp he).1)

/-- What was stored before could be read, so that an element that cannot is a change. -/
theorem records_ne_of_illegible {s : Save} {v : Revision} (mirrored : Mirrored g.store) (prepared : Prepared s a g h v)
    (illegible : ¬v.after.element.Legible a) : (h.written v).store.records ≠ g.store.records := by
  intro unchanged
  have own := get?_written_own mirrored prepared
  rw [Memory.get?, unchanged] at own
  cases prepared.origin mirrored.filed with
  | new free _ => exact absurd (free.symm.trans own) (by simp)
  | stored _ found whole =>
    obtain rfl := Option.some.inj (found.symm.trans own)
    exact illegible (legible_of_whole whole)

/-- A save fails and changes records nevertheless exactly when it comes to writing an element of which its
writer cannot read again what it sees of it. -/
theorem failed_save_writes_iff (reachable : g.Reachable) (s : Save) (a : Authorizations) :
    ((∃ e, (Operation.save s a).outcome g = .error e) ∧
      ((Operation.save s a).after g).store.records ≠ g.store.records) ↔
    ∃ v h, exec (prepare a s) g = (.ok v, h) ∧ ¬v.after.element.Legible a := by
  have mirrored := mirrored_of_reachable reachable
  unfold Operation.outcome Operation.after
  rw [Operation.exec_save_commit s a mirrored.filed]
  have grown := grows_prepare a s g
  rcases run : exec (prepare a s) g with ⟨e | v, h⟩
  · rw [run] at grown
    constructor
    · rintro ⟨-, changed⟩
      exact absurd grown.records changed
    · rintro ⟨v, _, same, -⟩
      exact absurd (Prod.mk.inj same).1 (by simp)
  · have prepared := prepare_ok run
    have shown := prepared_shown_iff mirrored prepared
    simp only
    constructor
    · rintro ⟨⟨e, failed⟩, -⟩
      refine ⟨v, h, rfl, fun legible => ?_⟩
      obtain ⟨w, hw⟩ := shown.mpr legible
      rw [hw] at failed
      exact absurd failed (by simp [Except.map])
    · rintro ⟨_, _, same, illegible⟩
      obtain ⟨here, rfl⟩ := Prod.mk.inj same
      obtain rfl := Except.ok.inj here
      refine ⟨?_, records_ne_of_illegible mirrored prepared illegible⟩
      cases result : v.after.encode.shownTo s.type a with
      | error e => exact ⟨e, rfl⟩
      | ok w => exact absurd (shown.mp ⟨w, result⟩) illegible

def nanVertex : Save :=
  .vertex ⟨some "v", .unrestricted, [.set "" "x" (.float (.ofBits 0x7ff8000000000000)) .unrestricted .empty]⟩

def emptyGraph : Graph Memory := .ofStore .empty .standard none

theorem failed_save_writes_nan :
    emptyGraph.Reachable ∧
      (Operation.save nanVertex .empty).outcome emptyGraph = .error .undecodable ∧
      ((Operation.save nanVertex .empty).after emptyGraph).store.records ≠ emptyGraph.store.records ∧
      ∃ v h, exec (prepare Authorizations.empty nanVertex) emptyGraph = (.ok v, h) ∧
        ¬v.after.element.Legible .empty := by
  have reachable : emptyGraph.Reachable := .start _ _ _
  have failed : (Operation.save nanVertex .empty).outcome emptyGraph = .error .undecodable := by decide +kernel
  have changed : ((Operation.save nanVertex .empty).after emptyGraph).store.records ≠ emptyGraph.store.records := by
    decide +kernel
  exact ⟨reachable, failed, changed, (failed_save_writes_iff reachable _ _).mp ⟨⟨_, failed⟩, changed⟩⟩

end GuardedGraph

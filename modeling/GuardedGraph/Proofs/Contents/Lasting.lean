import GuardedGraph.Proofs.Contents.Runs

/-! The content of a property that was set to a stream. It lasts as long as the property is neither replaced nor
removed, and neither is its element, whatever else is done. -/

namespace GuardedGraph

open Store (Memory)
open Outcome Commit

variable {l m : Ledger} {g h : Graph Memory} {t : ElementType} {id : String} {a : Authorizations}
  {p q : Property} {c : ByteArray}

/-! ### Contents in a ledger -/

/-- The content of the stream, as the ledger has it. -/
def Value.Stream.Means (s : Value.Stream) (l : Ledger) (c : ByteArray) : Prop :=
  match s.source with
  | .inline content => content = c
  | .external key _ _ => l key = some c

theorem Value.Stream.Means.mono {s : Value.Stream} (means : s.Means l c) (within : l.Within m) : s.Means m c := by
  obtain ⟨kind, source⟩ := s
  cases source with
  | inline content => exact means
  | external key length attached => exact within key c means

theorem means_detached {s : Value.Stream} : s.detached.Means l c ↔ s.Means l c := by
  obtain ⟨kind, source⟩ := s
  cases source <;> rfl

theorem means_attach {s : Value.Stream} : s.attach.Means l c ↔ s.Means l c := by
  obtain ⟨kind, source⟩ := s
  cases source <;> rfl

/-- The element holds a property at the place of `p` and under its markers, with the content `c`. -/
def Graph.Holds (g : Graph Memory) (t : ElementType) (id : String) (p : Property) (l : Ledger) (c : ByteArray) : Prop :=
  ∃ r, g.store.get? t id = some r ∧ ∃ q ∈ r.properties, q.place = p.place ∧ q.hidden = p.hidden ∧
    ∃ s, Value.decode q.value = .ok (.stream s) ∧ s.Means l c

theorem Value.Stream.Means.unique {s : Value.Stream} {d : ByteArray} (first : s.Means l c) (second : s.Means l d) :
    c = d := by
  obtain ⟨kind, source⟩ := s
  cases source with
  | inline content => exact first.symm.trans second
  | external key length attached => exact Option.some.inj (first.symm.trans second)

theorem means_of_found {s : Value.Stream} (ledgered : Ledgered l g) (found : s.contentIn g.store = some c) :
    s.Means l c := by
  obtain ⟨kind, source⟩ := s
  cases source with
  | inline content => exact Option.some.inj found
  | external key length attached => exact ledgered.kept key c found

theorem Placed.means {owned : List String} (placed : Placed t id owned g h p q) {s : Value.Stream}
    (value : p.value = .stream s) (honest : s.Honest l) (means : s.Means l c) (ledgered : Ledgered l g) {k : Memory}
    (remains : ∀ s key, q.value = .stream s → s.key? = some key → k.kept? key = h.store.kept? key) :
    ∃ s', q.value = .stream s' ∧ s'.Means (l.and k) c ∧ q.place = p.place ∧ q.hidden = p.hidden := by
  obtain ⟨rfl, -⟩ | ⟨s₀, n, content, mid, value₀, -, early, -, found, low, high, rfl, kept⟩ := placed
  · exact ⟨s, value, means.mono (l.within_and k), rfl, rfl⟩
  · obtain rfl := Value.stream.inj (value₀.symm.trans value)
    obtain ⟨before, -, -⟩ := honest.found ledgered early found
    obtain rfl := (means_of_found ledgered before).unique means
    refine ⟨_, rfl, ?_, rfl, rfl⟩
    show l.and k _ = some content
    rw [ledgered.and_new (h := h) ⟨n, low, high, _, _, p, rfl⟩, remains _ _ rfl rfl]
    exact kept

section

variable {s : Save} {v : Revision} {element : Element} (prepared : Prepared s a g h v) (ledgered : Ledgered l g)
  (mirrored : Mirrored g.store) (supplied : ∀ c ∈ s.changes, ∀ s ∈ c.streams, s.Honest l)
  (applied : v.base.element.apply a s.changes = .ok element)
include prepared ledgered mirrored supplied applied

theorem Prepared.holds (mem : p ∈ element.properties) {st : Value.Stream} (value : p.value = .stream st)
    (means : st.Means l c) :
    (h.written v).Holds v.after.type v.after.element.id p (l.and (h.written v).store) c := by
  obtain ⟨element', ps, applied', placed, after⟩ := prepared.changed
  obtain rfl := Except.ok.inj (applied.symm.trans applied')
  obtain ⟨base, -, -⟩ := prepared.base ledgered mirrored.filed
  have honest : st.Honest l :=
    (Element.apply_honest applied supplied base p mem).value st (by rw [value]; exact List.mem_singleton_self st)
  obtain ⟨q, there, here⟩ := exists_right_of_mem placed mem
  have there : q ∈ v.after.element.properties := by rwa [after]
  obtain ⟨s', value', means', place, hidden⟩ := here.means value honest means ledgered (k := (h.written v).store)
    fun s key value found => kept_written h (Whole.mem_keptKeys.mpr ⟨q, there, s, value, found⟩)
  have settled := (prepared.honest ledgered mirrored.filed supplied q there).value s'
    (by rw [value']; exact List.mem_singleton_self s')
  refine ⟨_, get?_written_own mirrored prepared, q.encode, List.mem_map_of_mem there, place, hidden, s'.detached, ?_,
    means_detached.mpr means'⟩
  show Value.decode q.value.encode = _
  rw [value']
  exact Value.decode_encode_stream settled.measured

end

/-! ### Following a property -/

/-- What becomes of a property of an element under an operation: nothing if the element is gone, else what the
changes of a save make of it that comes to writing the element. -/
def Operation.keep? (o : Operation) (g : Graph Memory) (t : ElementType) (id : String) (p : Property) :
    Option Property :=
  if ((o.after g).store.get? t id).isNone then none
  else match o with
    | .save (.stored u j changes) a =>
      if u = t ∧ j = id ∧ (exec (prepare a (.stored u j changes)) g).1.isOk then Change.keepAll? a changes p else some p
    | _ => some p

theorem after_save {s : Save} {v : Revision} (filed : g.store.Filed) (run : exec (prepare a s) g = (.ok v, h)) :
    (Operation.save s a).after g = h.written v := by
  unfold Operation.after
  rw [Operation.exec_save_commit s a filed, run]

theorem Graph.Holds.congr (holds : g.Holds t id p l c) (place : p.place = q.place) (hidden : p.hidden = q.hidden) :
    g.Holds t id q l c := by
  obtain ⟨r, found, x, mem, place', hidden', s, decoded, means⟩ := holds
  exact ⟨r, found, x, mem, place'.trans place, hidden'.trans hidden, s, decoded, means⟩

/-- Changes to a stored element keep what its properties hold. -/
theorem Graph.Holds.changed {changes : List Change} {v : Revision} (holds : g.Holds t id p l c)
    (prepared : Prepared (.stored t id changes) a g h v) (ledgered : Ledgered l g) (mirrored : Mirrored g.store)
    (supplied : ∀ c ∈ changes, ∀ s ∈ c.streams, s.Honest l) (kept : Change.keepAll? a changes p = some q) :
    (h.written v).Holds v.after.type v.after.element.id q (l.and (h.written v).store) c := by
  obtain ⟨r, found, x, mem, place, hidden, s, decoded, means⟩ := holds
  obtain ⟨-, r', found', -, whole⟩ := prepared.starts
  obtain rfl := Option.some.inj (found.symm.trans found')
  have distinct := distinct_of_whole whole (ledgered.fit t id r found).distinct
  obtain ⟨ps, hps, base⟩ := whole_ok_iff.mp whole
  obtain ⟨b, there, read⟩ := exists_right_of_mem (mapM_ok_iff.mp hps) mem
  obtain ⟨metadata, value, -, attached, rfl⟩ := decodeWith_ok_iff.mp read
  have stream : value = .stream s.attach := by
    rw [decodeAttached, decoded] at attached
    exact (Except.ok.inj attached).symm
  obtain ⟨b', kept', place', hidden'⟩ :=
    Change.keepAll?_congr (q := ⟨x.key, x.name, value, x.visibility, .ofList metadata, x.hidden⟩) place hidden kept
  obtain ⟨element, _, applied, -, -⟩ := prepared.changed
  obtain ⟨inside, value'⟩ := Element.mem_of_keepAll? applied distinct (by rw [base]; exact there) kept'
  exact (prepared.holds ledgered mirrored supplied applied inside (value'.trans stream) (means_attach.mpr means)).congr
    place' hidden'

theorem Operation.keep?_some {o : Operation} (kept : o.keep? g t id p = some q) :
    (o.after g).store.get? t id ≠ none ∧
      (q = p ∨ ∃ changes a, o = .save (.stored t id changes) a ∧
        (exec (prepare a (.stored t id changes)) g).1.isOk ∧ Change.keepAll? a changes p = some q) := by
  unfold keep? at kept
  split at kept
  · exact absurd kept (by simp)
  · rename_i there
    refine ⟨fun gone => there (by rw [gone]; rfl), ?_⟩
    split at kept
    · split at kept
      · rename_i own
        obtain ⟨rfl, rfl, ok⟩ := own
        exact .inr ⟨_, _, rfl, ok, kept⟩
      · exact .inl (Option.some.inj kept).symm
    · exact .inl (Option.some.inj kept).symm

theorem Operation.keep?_stored {changes : List Change} {v : Revision}
    (run : exec (prepare a (.stored t id changes)) g = (.ok v, h))
    (kept : (Operation.save (.stored t id changes) a).keep? g t id p = some q) :
    Change.keepAll? a changes p = some q := by
  unfold keep? at kept
  split at kept
  · exact absurd kept (by simp)
  · simpa [run, Except.isOk, Except.toBool] using kept

/-- Where a property of a stored element is kept, the properties of the element have stayed as they are stored, or
changes have been written that keep it. -/
theorem Operation.keep?_cases {o : Operation} {r : Record} (mirrored : Mirrored g.store)
    (found : g.store.get? t id = some r) (kept : o.keep? g t id p = some q) :
    (q = p ∧ ∃ r', (o.after g).store.get? t id = some r' ∧ r'.properties = r.properties) ∨
      ∃ changes a v mid, o = .save (.stored t id changes) a ∧
        exec (prepare a (.stored t id changes)) g = (.ok v, mid) ∧ t = v.after.type ∧ id = v.after.element.id ∧
          Change.keepAll? a changes p = some q := by
  obtain ⟨there, same⟩ := keep?_some kept
  have carried (same : SameBut g.store (o.after g).store t id) :
      ∃ r', (o.after g).store.get? t id = some r' ∧ r'.properties = r.properties := by
    obtain ⟨f, same⟩ := same
    exact ⟨r.mapRefs f, by rw [same, found]; rfl, rfl⟩
  have does := does_after mirrored.filed o
  cases o with
  | save s a =>
    rcases run : exec (prepare a s) g with ⟨e | v, mid⟩
    · have after : (save s a).after g = mid := by
        unfold Operation.after
        rw [exec_save_commit s a mirrored.filed, run]
      have grown := grows_prepare a s g
      rw [run] at grown
      rcases same with same | ⟨changes, a', own, ok, -⟩
      · exact .inl ⟨same, carried (after ▸ sameBut_of_eq (grown.get? t id))⟩
      · obtain ⟨rfl, rfl⟩ := save.inj own
        rw [run] at ok
        exact absurd ok (by simp [Except.isOk, Except.toBool])
    · have prepared := prepare_ok run
      by_cases own : t = v.after.type ∧ id = v.after.element.id
      -- the element is stored, so that what is written to it are changes, not a draft
      · obtain ⟨rfl, rfl⟩ := own
        cases prepared.origin mirrored.filed with
        | new free _ => exact absurd (free.symm.trans found) (by simp)
        | stored own _ _ =>
          subst own
          exact .inr ⟨_, a, v, mid, rfl, run, rfl, rfl, keep?_stored run kept⟩
      · have reached := get?_written mirrored prepared t id
        rw [if_neg own] at reached
        rcases same with same | ⟨changes, a', save, -⟩
        · exact .inl ⟨same, carried (after_save mirrored.filed run ▸ reached)⟩
        · obtain ⟨rfl, rfl⟩ := Operation.save.inj save
          exact absurd (prepared.named mirrored.filed) own
  | _ =>
    have unchanged : q = p := by
      rcases same with same | ⟨changes, a', save, -⟩
      · exact same
      · exact absurd save (by simp)
    refine .inl ⟨unchanged, ?_⟩
    cases does.fate mirrored t id with
    | same same => exact carried same
    | gone _ gone => exact absurd gone there
    | written _ save _ _ _ _ _ => exact absurd save (by simp)
    | marked _ before reached =>
      obtain rfl := Option.some.inj (found.symm.trans before)
      exact ⟨_, reached, rfl⟩

/-- What a property holds it goes on to hold where it is kept. -/
theorem Graph.Holds.step {o : Operation} (holds : g.Holds t id p l c) (mirrored : Mirrored g.store)
    (ledgered : Ledgered l g) (supplied : ∀ c ∈ o.changes, ∀ s ∈ c.streams, s.Honest l)
    (kept : o.keep? g t id p = some q) :
    ∃ m, l.Within m ∧ Ledgered m (o.after g) ∧ (o.after g).Holds t id q m c := by
  have ⟨r, found, x, mem, place, hidden, s, decoded, means⟩ := holds
  rcases Operation.keep?_cases mirrored found kept with
    ⟨rfl, r', reached, same⟩ | ⟨changes, a, v, mid, rfl, run, rfl, rfl, through⟩
  · obtain ⟨m, within, ledgered⟩ := (Operation.does_after mirrored.filed o).continues ledgered mirrored supplied
    exact ⟨m, within, ledgered, r', reached, x, same ▸ mem, place, hidden, s, decoded, means.mono within⟩
  · have prepared := prepare_ok run
    rw [after_save mirrored.filed run]
    exact ⟨_, l.within_and _, ledgered.written mirrored prepared supplied,
      holds.changed prepared ledgered mirrored supplied through⟩

/-! ### Reading -/

/-- Whoever reads the element finds the property where it is visible to it, and reads the content from it. -/
def Graph.Reads (g : Graph Memory) (t : ElementType) (id : String) (p : Property) (c : ByteArray) : Prop :=
  ∀ a (v : View t), g.get? t id a = .ok (some v) →
    (∀ q ∈ v.properties, q.place = p.place → ∃ s, q.value = .stream s ∧ s.read g.kept = .ok c) ∧
      (p.visibleTo a → ∃ q ∈ v.properties, q.place = p.place)

theorem read_of_means {s : Value.Stream} (ledgered : Ledgered l g) (honest : s.Honest l) (means : s.Means l c)
    (held : ∀ key, s.key? = some key → (g.store.kept? key).isSome) : s.attach.read g.kept = .ok c := by
  obtain ⟨kind, source⟩ := s
  cases source with
  | inline content => exact congrArg Except.ok means
  | external key length attached =>
    obtain ⟨content, kept⟩ := Option.isSome_iff_exists.mp (held key rfl)
    obtain ⟨-, d, known, size⟩ := honest
    obtain rfl := Option.some.inj ((ledgered.kept key content kept).symm.trans means)
    obtain rfl := Option.some.inj (known.symm.trans means)
    have found : g.kept key = .ok (some d) := congrArg Except.ok kept
    simp only [Value.Stream.attach, Value.Stream.read, found, Except.bind, if_pos size]

theorem place_of_view {x : PropertyRecord} (read : x.view a = .ok q) : q.place = x.place := by
  obtain ⟨metadata, value, -, -, rfl⟩ := decodeWith_ok_iff.mp read
  rfl

/-- What a view shows of a property of the record: it is there if it is visible, and nothing else is at its place. -/
theorem shown_of_view {r : Record} {v : View t} (view : r.view? t a = .ok (some v))
    (distinct : (r.properties.map PropertyRecord.place).Nodup) {x : PropertyRecord} (mem : x ∈ r.properties) :
    (x.visibleTo a → ∃ q ∈ v.properties, q.place = x.place) ∧
      ∀ q ∈ v.properties, q.place = x.place → x.view a = .ok q := by
  obtain ⟨-, -, ps, links, hps, -, rfl⟩ := view?_some_iff.mp view
  refine ⟨fun visible => ?_, fun q there same => ?_⟩
  · obtain ⟨q, there, read⟩ := exists_right_of_mem (mapM_ok_iff.mp hps) (List.mem_filter.mpr ⟨mem, visible⟩)
    exact ⟨q, there, place_of_view read⟩
  · obtain ⟨y, shown, read⟩ := exists_left_of_mem (mapM_ok_iff.mp hps) there
    have own : x = y := List.inj_on_of_nodup_map distinct mem (List.mem_filter.mp shown).1
      (same.symm.trans (place_of_view read))
    exact own ▸ read

theorem visibleTo_of_place {x : PropertyRecord} (place : x.place = p.place) (hidden : x.hidden = p.hidden) :
    x.visibleTo a = p.visibleTo a := by
  have visibility : x.visibility = p.visibility := (Prod.mk.inj (Prod.mk.inj place).2).2
  rw [PropertyRecord.visibleTo, Property.visibleTo, visibility, hidden]

theorem Graph.Holds.reads (holds : g.Holds t id p l c) (ledgered : Ledgered l g) : g.Reads t id p c := by
  intro a v seen
  obtain ⟨r, found, x, mem, place, hidden, s, decoded, means⟩ := holds
  obtain ⟨r', found', view⟩ := get?_ok_some seen
  obtain rfl := Option.some.inj (found.symm.trans found')
  have fit := ledgered.fit t id r found
  obtain ⟨shows, only⟩ := shown_of_view view fit.distinct mem
  rw [← place, ← visibleTo_of_place place hidden]
  refine ⟨fun q there same => ?_, shows⟩
  have attached := decodeWith_value (only q there same)
  rw [decodeAttached, decoded] at attached
  have honest := (fit.honest x mem).value _ decoded s (List.mem_singleton_self s)
  refine ⟨s.attach, (Except.ok.inj attached).symm, read_of_means ledgered honest means fun key key? => ?_⟩
  exact ledgered.held t id key ⟨r, found, Record.mem_keptKeys.mpr ⟨x, mem, s, decoded, key?⟩⟩

end GuardedGraph

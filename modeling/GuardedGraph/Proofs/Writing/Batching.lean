import GuardedGraph.Proofs.Contents.Lasting
import GuardedGraph.Proofs.Element.Values
import GuardedGraph.Proofs.Search.Indexed
import GuardedGraph.Proofs.Writing.Resaving

/-!
Changes saved in two goes against the same changes saved in one. All that the two do the one does too, except that the
second of the two reads and stores again what the first has stored, also where no change asks for it: a stored form that
is not that of the value that it is read as comes out as another one (`batched_but_restored`).
-/

namespace GuardedGraph

open Store (Memory)
open Outcome Commit

variable {g h mid last : Graph Memory} {a : Authorizations} {t : ElementType} {id : String}
  {first second : List Change} {of : Value → Prop}

/-! ### Values that are stored and read again -/

theorem key?_detached (s : Value.Stream) : s.detached.key? = s.key? := by
  obtain ⟨kind, source⟩ := s
  cases source <;> rfl

namespace Value

theorem stream?_attach (v : Value) : v.attach.stream? = v.stream?.map Stream.attach := by
  cases v <;> rfl

/-- The second value is the first, or what is read when the first is stored, which only the values `of` some kind
are. -/
def StoredAgain (of : Value → Prop) (v w : Value) : Prop := w = v ∨ of v ∧ decodeAttached v.encode = .ok w

variable {v w x : Value}

theorem storedAgain_refl (v : Value) : v.StoredAgain of v := .inl rfl

theorem StoredAgain.text? (again : v.StoredAgain of w) : w.text? = v.text? := by
  obtain rfl | ⟨-, stored⟩ := again
  · rfl
  · obtain ⟨u, read, rfl⟩ := map_ok stored
    rw [text?_attach, ← text?_decode_encode v, read]
    rfl

theorem StoredAgain.key? (again : v.StoredAgain of w) : w.stream?.bind (·.key?) = v.stream?.bind (·.key?) := by
  obtain rfl | ⟨-, stored⟩ := again
  · rfl
  · obtain ⟨u, read, rfl⟩ := map_ok stored
    rw [stream?_attach, (decode_encode_eq read).2]
    cases v.stream? with
    | none => rfl
    | some s => exact (key?_attach _).trans (key?_detached s)

theorem StoredAgain.encode_eq (again : v.StoredAgain of w) (steady : ∀ v, of v → restored v.encode = v.encode) :
    w.encode = v.encode := by
  obtain rfl | ⟨own, stored⟩ := again
  · rfl
  · exact (encode_of_decodeAttached stored).trans (steady v own)

/-- The value is read of one of the forms. -/
def ReadOf (forms : List ByteArray) (v : Value) : Prop := ∃ b ∈ forms, decodeAttached b = .ok v

/-- Where the second value can be read when it is stored, so can the first, and what is read is related as they are. -/
theorem StoredAgain.read {forms : List ByteArray} (again : v.StoredAgain (·.encode ∈ forms) w)
    (stored : decodeAttached w.encode = .ok x) :
    ∃ u, decodeAttached v.encode = .ok u ∧ u.StoredAgain (ReadOf forms) x := by
  obtain rfl | ⟨own, before⟩ := again
  · exact ⟨x, stored, .inl rfl⟩
  · exact ⟨w, before, .inr ⟨⟨v.encode, own, before⟩, stored⟩⟩

end Value

/-! ### Elements that are stored and read again -/

namespace Whole

/-- The stored elements differ in nothing but values, which are related. -/
structure Alike (V : Value → Value → Prop) (w x : Whole) : Prop where
  type : x.type = w.type
  element : w.element.Alike V x.element
  endpoints : x.endpoints = w.endpoints
  edgeRefs : x.edgeRefs = w.edgeRefs

variable {w x : Whole}

theorem Alike.outwardly (alike : w.Alike (Value.StoredAgain of) x) : w.Outwardly x where
  type := alike.type
  id := alike.element.id
  visibility := alike.element.visibility
  hidden := alike.element.hidden
  texts := filterMap_eq_of_forall₂ alike.element.properties fun p q here => by
    rw [here.value.text?, here.name]
  keptKeys := filterMap_eq_of_forall₂ alike.element.properties fun p q here => here.value.key?

theorem Alike.encode_eq (alike : w.Alike (Value.StoredAgain of) x)
    (steady : ∀ v, of v → Value.restored v.encode = v.encode) : x.encode = w.encode := by
  have property (p q : Property) (here : p.Alike (Value.StoredAgain of) q) : q.encode = p.encode := by
    have metadata : q.encode.metadata = p.encode.metadata := map_eq_of_forall₂ here.metadata fun e d same => by
      rw [same.1, same.2.1, same.2.2.encode_eq steady]
    exact (PropertyRecord.mk.injEq ..).mpr
      ⟨here.key, here.name, here.visibility, here.value.encode_eq steady, metadata, here.hidden⟩
  have properties : x.encode.properties = w.encode.properties := map_eq_of_forall₂ alike.element.properties property
  exact (Record.mk.injEq ..).mpr ⟨alike.type, alike.element.id, alike.element.visibility, alike.element.hidden,
    properties, alike.endpoints, alike.edgeRefs⟩

end Whole

/-- All stored forms of values in the property. -/
def PropertyRecord.forms (p : PropertyRecord) : List ByteArray := p.value :: p.metadata.map (·.value)

def Record.forms (r : Record) : List ByteArray := r.properties.flatMap PropertyRecord.forms

/-- What is read of a stored element is the element but for its values, which have been stored and read. -/
theorem alike_of_whole {w x : Whole} (whole : w.encode.whole = .ok x) :
    w.Alike (Value.StoredAgain (·.encode ∈ w.encode.forms)) x := by
  obtain ⟨ps, hps, rfl⟩ := whole_ok_iff.mp whole
  have each := mapM_ok_iff.mp hps
  rw [show w.encode.properties = w.element.properties.map Property.encode from rfl, List.forall₂_map_left_iff] at each
  refine ⟨rfl, ⟨rfl, rfl, rfl, ?_⟩, rfl, rfl⟩
  refine ((List.forall₂_and_left _ _).mpr ⟨fun p mem => mem, each⟩).imp fun p q ⟨mem, read⟩ => ?_
  have among (b : ByteArray) (own : b ∈ p.encode.forms) : b ∈ w.encode.forms :=
    List.mem_flatMap.mpr ⟨p.encode, List.mem_map.mpr ⟨p, mem, rfl⟩, own⟩
  have entries := entries_of_whole read
  obtain ⟨metadata, value, -, stored, rfl⟩ := decodeWith_ok_iff.mp read
  refine ⟨rfl, rfl, .inr ⟨among _ List.mem_cons_self, stored⟩, ?_⟩
  refine ((List.forall₂_and_left _ _).mpr ⟨fun e mem => mem, entries⟩).imp fun e d ⟨mem, name, visibility, stored⟩ => ?_
  refine ⟨name, visibility, .inr ⟨among _ (List.mem_cons_of_mem _ ?_), stored⟩⟩
  exact List.mem_map.mpr ⟨_, List.mem_map.mpr ⟨e, mem, rfl⟩, rfl⟩

/-- The properties stay as they are when they are read and stored again. -/
def Record.Steady (r : Record) : Prop := ∀ p ∈ r.properties, p.restored = p

theorem PropertyRecord.restored_of_forms {p : PropertyRecord} (steady : p.restored = p) :
    ∀ b ∈ p.forms, Value.restored b = b := by
  obtain ⟨key, name, visibility, value, metadata, hidden⟩ := p
  simp only [restored, mk.injEq, true_and, and_true] at steady
  obtain ⟨own, entries⟩ := steady
  refine List.forall_mem_cons.mpr ⟨own, List.forall_mem_map.mpr fun e mem => ?_⟩
  have same : metadata.map EntryRecord.restored = metadata.map id := entries.trans metadata.map_id.symm
  exact congrArg EntryRecord.value (List.map_inj_left.mp same e mem)

theorem Record.Steady.forms {r : Record} (steady : r.Steady) : ∀ b ∈ r.forms, Value.restored b = b := by
  intro b mem
  obtain ⟨p, there, own⟩ := List.mem_flatMap.mp mem
  exact PropertyRecord.restored_of_forms (steady p there) b own

/-! ### Views -/

variable {forms : List ByteArray}

theorem Property.view_alike {p q y : Property} (alike : p.Alike (Value.StoredAgain (·.encode ∈ forms)) q)
    (seen : q.encode.view a = .ok y) :
    ∃ x, p.encode.view a = .ok x ∧ x.Alike (Value.StoredAgain (Value.ReadOf forms)) y := by
  obtain ⟨metadata, value, entries, stored, rfl⟩ := decodeWith_ok_iff.mp seen
  obtain ⟨u, read, again⟩ := alike.value.read stored
  have each : List.Forall₂ (fun e d => ∃ e' d', EntryAlike (Value.StoredAgain (·.encode ∈ forms)) e' d' ∧
      e = (⟨e'.1, e'.2.visibility, e'.2.value.encode⟩ : EntryRecord) ∧
        d = ⟨d'.1, d'.2.visibility, d'.2.value.encode⟩)
      (p.encode.metadata.filter (·.visibility.readableBy a))
      (q.encode.metadata.filter (·.visibility.readableBy a)) := by
    refine List.rel_filter ?_ (List.rel_map (fun e d here => ⟨e, d, here, rfl, rfl⟩) alike.metadata)
    rintro _ _ ⟨e, d, here, rfl, rfl⟩
    simp only [here.2.1]
  obtain ⟨metadata', entries', each⟩ := mapM_along (f := EntryRecord.decode)
    (S := EntryAlike (Value.StoredAgain (Value.ReadOf forms))) each (by
      rintro _ _ _ ⟨e, d, here, rfl, rfl⟩ read
      obtain ⟨v, stored, rfl⟩ := map_ok read
      obtain ⟨u, before, again⟩ := here.2.2.read stored
      exact ⟨(e.1, ⟨u, e.2.visibility⟩), congrArg (Except.map _) before, here.1, here.2.1, again⟩) entries
  exact ⟨_, decodeWith_ok_iff.mpr ⟨metadata', u, entries', read, rfl⟩, alike.place, rfl, again,
    Metadata.alike_ofList each⟩

/-- The views differ in nothing but values, of which the second view has some as they come out when the first view's,
read of the forms, are stored and read again. -/
structure View.Again (forms : List ByteArray) (v w : View t) : Prop where
  element : v.element.Alike (Value.StoredAgain (Value.ReadOf forms)) w.element
  links : w.links = v.links

theorem Whole.Alike.view {w x : Whole} (alike : w.Alike (Value.StoredAgain (·.encode ∈ forms)) x)
    {y : View t} (seen : x.encode.view? t a = .ok (some y)) :
    ∃ v, w.encode.view? t a = .ok (some v) ∧ v.Again forms y := by
  obtain ⟨type, visible, ps, links, read, linked, rfl⟩ := view?_some_iff.mp seen
  have sees (p q : Property) (here : p.Alike (Value.StoredAgain (·.encode ∈ forms)) q) :
      q.encode.visibleTo a = p.encode.visibleTo a := by
    show a.sees q.visibility q.hidden = a.sees p.visibility p.hidden
    rw [here.visibility, here.hidden]
  have each : List.Forall₂ (fun r s => ∃ p q : Property, p.Alike (Value.StoredAgain (·.encode ∈ forms)) q ∧
      r = p.encode ∧ s = q.encode) (w.encode.properties.filter (·.visibleTo a))
        (x.encode.properties.filter (·.visibleTo a)) := by
    refine List.rel_filter ?_ (List.rel_map (fun p q here => ⟨p, q, here, rfl, rfl⟩) alike.element.properties)
    rintro _ _ ⟨p, q, here, rfl, rfl⟩
    exact Bool.eq_iff_iff.mp (sees p q here).symm
  obtain ⟨qs, read', each⟩ := mapM_along (f := fun p : PropertyRecord => p.view a) each (by
    rintro _ _ y ⟨p, q, here, rfl, rfl⟩ seen
    exact Property.view_alike here seen) read
  have visible' : w.encode.visibleTo a := by
    show a.sees w.element.visibility w.element.hidden
    rw [← alike.element.visibility, ← alike.element.hidden]
    exact visible
  have linked' : w.encode.links a t = .ok links := by
    have endpoints : w.encode.endpoints = x.encode.endpoints := alike.endpoints.symm
    have refs : w.encode.edgeRefs = x.encode.edgeRefs := alike.edgeRefs.symm
    have id : w.encode.id = x.encode.id := alike.element.id.symm
    unfold Record.links at linked ⊢
    rw [endpoints, refs, id]
    exact linked
  exact ⟨_, view?_some_iff.mpr ⟨alike.type.symm.trans type, visible', qs, links, read', linked', rfl⟩,
    ⟨alike.element.id, alike.element.visibility, rfl, each⟩, rfl⟩

/-! ### One save for two -/

variable {w x : Whole} {e f : Element} {m r s : Record}

/-- The changes of two saves can be saved at once, and make of the element what the second of the saves makes of it, but
for values that have been stored by the first. -/
theorem Graph.Revises.concat (one : g.Revises t id a first w e)
    (written : mid.store.get? t id = some (w.revised e).after.encode) (other : mid.Revises t id a second x f) :
    ∃ d, g.Revises t id a (first ++ second) w d ∧
      (w.revised e).after.Alike (Value.StoredAgain (·.encode ∈ (w.revised e).after.encode.forms)) x ∧
      (w.revised d).after.Alike (Value.StoredAgain (·.encode ∈ (w.revised e).after.encode.forms))
        (x.revised f).after := by
  obtain ⟨r, found, -, whole⟩ := other.found
  obtain rfl := Option.some.inj (written.symm.trans found)
  have read := alike_of_whole whole
  have goes := Element.apply_alike Value.storedAgain_refl second read.element (a := a)
  rw [other.applied] at goes
  obtain ⟨d, applied, alike⟩ := goes.of_ok
  refine ⟨d, ⟨one.found, ?_⟩, read, read.type, alike, read.endpoints, read.edgeRefs⟩
  rw [Element.apply_concat, one.applied]
  exact applied

theorem put_found {n : Memory} (found : n.get? r.type r.id = some r) : n.put r = n := by
  refine Memory.ext_get? (fun t id => ?_) rfl
  rw [Memory.get?_put]
  split
  · next own => rw [← own.1, ← own.2, found]
  · rfl

/-- What one save has left, the graph `h` with the record `r` of the element and the view `v`, against what two saves of
the same changes have left, after the first of which the record has been `m`: the graph `last`, the record `s` and the
view `w`. -/
structure Graph.Batched (m r s : Record) (h last : Graph Memory) (v w : View t) : Prop where
  graph : last = { h with store := h.store.put s }
  records : ∃ x y : Whole, x.Alike (Value.StoredAgain (·.encode ∈ m.forms)) y ∧ r = x.encode ∧ s = y.encode
  views : v.Again m.forms w
  same : r = s → v = w ∧ h = last
  steady : m.Steady → r = s

/-- A record that is read and stored again comes out as it was exactly if its properties stay as they are. -/
theorem encode_eq_iff_steady {threshold : Nat} (encoded : m.Encoded threshold) (whole : m.whole = .ok x) :
    m = x.encode ↔ m.Steady := by
  have restored := properties_of_whole encoded whole
  obtain ⟨ps, -, rfl⟩ := whole_ok_iff.mp whole
  have each : m.properties.map PropertyRecord.restored = m.properties.map id ↔ m.Steady := List.map_inj_left
  rw [← each, List.map_id, ← restored]
  exact ⟨fun same => congrArg Record.properties same.symm, fun same =>
    (Record.mk.injEq ..).mpr ⟨rfl, rfl, rfl, rfl, same.symm, rfl, rfl⟩⟩

variable {config : Config} {index : Option Search.Index} {names : Names}

/-- Changes that bring no streams, if they can be saved in two goes, can be saved in one, with the same outcome but for
values that the first of the two saves has stored and the second has read and stored again. -/
theorem batched_but_restored (made : ∀ x, index = some x → x.Made)
    (leads : (Graph.ofStore Memory.empty config index names).Leads g) (plain : ∀ c ∈ first ++ second, c.streams = [])
    {u v : View t} (one : exec (save t id first a) g = (.ok u, mid))
    (other : exec (save t id second a) mid = (.ok v, last)) :
    ∃ w h m r s, exec (save t id (first ++ second) a) g = (.ok w, h) ∧ mid.store.get? t id = some m ∧
      h.store.get? t id = some r ∧ last.store.get? t id = some s ∧ Graph.Batched m r s h last w v ∧
        (second = [] → (r = s ↔ m.Steady)) := by
  obtain ⟨early, late⟩ := List.forall_mem_append.mp plain
  have mirrored := mirrored_of_reachable leads.reachable
  have encoded := encoded_of_reachable leads.reachable
  obtain ⟨w, e, revises, -, rfl⟩ := (exec_save_plain encoded early mirrored.filed).mp one
  have run := exec_prepare_plain encoded early revises
  have between : (g.written (w.revised e)).Reachable := by
    rw [← after_save mirrored.filed run]
    exact .step _ leads.reachable
  have mirrored' := mirrored_of_reachable between
  have encoded' := encoded_of_reachable between
  obtain ⟨x, f, revises', shown, rfl⟩ := (exec_save_plain encoded' late mirrored'.filed).mp other
  have run' := exec_prepare_plain encoded' late revises'
  have written : (g.written (w.revised e)).store.get? t id = some (w.revised e).after.encode := by
    rw [get?_written_all mirrored (prepare_ok run), if_pos ⟨rfl, rfl⟩]
  obtain ⟨d, joint, read, alike⟩ := revises.concat written revises'
  have run'' := exec_prepare_plain encoded plain joint
  obtain ⟨y, seen, views⟩ := alike.view (Record.shownTo_eq_ok.mp shown)
  have found : (g.written (w.revised d)).store.get? t id = some (w.revised d).after.encode := by
    rw [get?_written_all mirrored (prepare_ok run''), if_pos ⟨rfl, rfl⟩]
  have graph := Graph.written_written mirrored (prepare_ok run) (prepare_ok run') (prepare_ok run'') alike.outwardly
    ⟨rfl, read.outwardly.keptKeys⟩ ⟨fun key => Whole.keptKeys_of_apply early revises.applied rfl,
      fun key => Whole.keptKeys_of_apply late revises'.applied rfl⟩ (leads.indexMade made)
  refine ⟨y, g.written (w.revised d), (w.revised e).after.encode, (w.revised d).after.encode,
    (x.revised f).after.encode, ?_, written, found, ?_, ⟨graph, ?_, views, ?_, ?_⟩, ?_⟩
  · exact (exec_save_plain encoded plain mirrored.filed).mpr ⟨w, d, joint, Record.shownTo_eq_ok.mpr seen, rfl⟩
  · rw [get?_written_all mirrored' (prepare_ok run'), if_pos ⟨rfl, rfl⟩]
  · exact ⟨_, _, alike, rfl, rfl⟩
  · intro same
    have own : y = v := by
      rw [same, Record.shownTo_eq_ok.mp shown] at seen
      exact (Option.some.inj (Except.ok.inj seen)).symm
    obtain ⟨type, name⟩ := (prepare_ok run'').named mirrored.filed
    rw [type, name] at found
    rw [graph, ← same, put_found found]
    exact ⟨own, rfl⟩
  · exact fun steady => (alike.encode_eq fun v own => steady.forms _ own).symm
  · rintro rfl
    obtain rfl : x.element = f := pure_ok revises'.applied
    obtain rfl : e = d := by
      have applied := joint.applied
      rw [List.append_nil, revises.applied] at applied
      exact Except.ok.inj applied
    obtain ⟨m, there, -, whole⟩ := revises'.found
    obtain rfl := Option.some.inj (written.symm.trans there)
    exact encode_eq_iff_steady (encoded' t id _ written) whole

/-- A vertex without properties. -/
def bareGraph : Graph Memory :=
  (Operation.save (.vertex ⟨some "v", .unrestricted, []⟩) .empty).after (.ofStore .empty .standard none)

/-- Sets a number whose shortest text is read as another number. -/
def settingNumber : List Change := [.set "" "x" (.float (.ofBits 0x3e13d63e5a8707ce)) .unrestricted .empty]

def settingOther : List Change := [.set "" "y" (.int 1) .unrestricted .empty]

def saveVertex (changes : List Change) (g : Graph Memory) : Except Error Vertex × Graph Memory :=
  exec (save .vertex "v" changes .empty) g

theorem saveVertex_ok (changes : List Change) (g : Graph Memory) (ok : (saveVertex changes g).1.isOk = true) :
    ∃ v, exec (save .vertex "v" changes .empty) g = (.ok v, (saveVertex changes g).2) := by
  obtain ⟨v, same⟩ := ok_of_isOk ok
  exact ⟨v, Prod.ext same rfl⟩

/-- The number that a save shows, as it would be stored. -/
def shownNumber (changes : List Change) (g : Graph Memory) : Option ByteArray :=
  (saveVertex changes g).1.toOption.bind fun v => (View.value? v "x").map Value.encode

theorem batched_but_restored_number :
    (Graph.ofStore Memory.empty .standard none).Leads bareGraph ∧
      (∀ c ∈ settingNumber ++ settingOther, c.streams = []) ∧ ∃ (u v w : Vertex) (mid last h : Graph Memory),
        exec (save .vertex "v" settingNumber .empty) bareGraph = (.ok u, mid) ∧
        exec (save .vertex "v" settingOther .empty) mid = (.ok v, last) ∧
        exec (save .vertex "v" (settingNumber ++ settingOther) .empty) bareGraph = (.ok w, h) ∧
        (w.value? "x").map Value.encode ≠ (v.value? "x").map Value.encode ∧
        ∃ m r s, Graph.Batched m r s h last w v ∧ r ≠ s ∧ ¬m.Steady := by
  have leads : (Graph.ofStore Memory.empty .standard none).Leads bareGraph := .step _ .here
  have plain : ∀ c ∈ settingNumber ++ settingOther, c.streams = [] := by
    intro c mem
    obtain rfl | rfl : c = _ ∨ c = _ := by simpa [settingNumber, settingOther] using mem
    · rfl
    · rfl
  obtain ⟨u, one⟩ := saveVertex_ok settingNumber bareGraph (by decide +kernel)
  obtain ⟨v, other⟩ := saveVertex_ok settingOther (saveVertex settingNumber bareGraph).2 (by decide +kernel)
  obtain ⟨w, h, m, r, s, joint, -, -, -, batched, -⟩ := batched_but_restored (by simp) leads plain one other
  have differ : shownNumber (settingNumber ++ settingOther) bareGraph ≠
      shownNumber settingOther (saveVertex settingNumber bareGraph).2 := by decide +kernel
  have numbers : (w.value? "x").map Value.encode ≠ (v.value? "x").map Value.encode := by
    intro same
    refine differ ?_
    rw [shownNumber, shownNumber, saveVertex, saveVertex, joint, other]
    exact same
  have apart : r ≠ s := fun same => numbers (by rw [(batched.same same).1])
  exact ⟨leads, plain, u, v, w, _, _, h, one, other, joint, numbers, m, r, s, batched, apart,
    fun steady => apart (batched.steady steady)⟩

end GuardedGraph

import GuardedGraph.Proofs.Contents.Ownership
import GuardedGraph.Proofs.Contents.Nested
import GuardedGraph.Proofs.Writing.Cascade

/-! How long streams inside lists and in the metadata can be read. They stand for contents that the element need not
own, and are not read through the store inside lists. -/

namespace GuardedGraph

open Store (Memory)
open GuardedGraph.Graph (NewKey MadeKey Grown)
open Outcome Commit

variable {g h k : Graph Memory} {t : ElementType} {id key : String} {a : Authorizations} {p q : Property}

/-! ### Contents in the course of time -/

/-- From `g` to `h` contents may have gone, and others have come under keys of new names. -/
structure Graph.Ages (g h : Graph Memory) : Prop where
  names : h.names = g.names
  minted : g.minted ≤ h.minted
  contents : ∀ key content, h.store.kept? key = some content → g.store.kept? key = some content ∨ NewKey g h key

theorem Graph.Ages.trans (first : g.Ages h) (second : h.Ages k) : g.Ages k where
  names := second.names.trans first.names
  minted := Nat.le_trans first.minted second.minted
  contents key content kept := by
    rcases second.contents key content kept with before | ⟨n, low, high, made⟩
    · rcases first.contents key content before with before | ⟨n, low, high, made⟩
      · exact .inl before
      · exact .inr ⟨n, low, Nat.lt_of_lt_of_le high second.minted, made⟩
    · exact .inr ⟨n, Nat.le_trans first.minted low, high, first.names ▸ made⟩

theorem Graph.Ages.of_lost (names : h.names = g.names) (minted : h.minted = g.minted)
    (lost : ∀ key content, h.store.kept? key = some content → g.store.kept? key = some content) : g.Ages h :=
  ⟨names, Nat.le_of_eq minted.symm, fun key content kept => .inl (lost key content kept)⟩

theorem Graph.Ages.refl (g : Graph Memory) : g.Ages g := .of_lost rfl rfl fun _ _ kept => kept

theorem Graph.Grown.ages (grown : g.Grown h) : g.Ages h where
  names := grown.names
  minted := grown.minted
  contents key _ kept := (grown.contents key).imp_left fun same => same.symm.trans kept

theorem ages_written (g : Graph Memory) (v : Revision) : g.Ages (g.written v) := by
  refine .of_lost (names_written g v).1 (names_written g v).2.1 fun key content kept => ?_
  rw [Graph.written, indexed_store, kept?_rewritten] at kept
  split at kept
  · exact absurd kept (by simp)
  · exact kept

theorem Operation.Does.ages {o : Operation} (does : o.Does g h) (mirrored : Mirrored g.store) : g.Ages h := by
  have marked (r : Record) (hidden : List Visibility) : g.Ages (g.marked r hidden) :=
    .of_lost rfl rfl fun key content kept => by rwa [Memory.kept?, contents_marked] at kept
  have edges {skip : Option String} (weaker : MirroredBut skip g.store) (ids : List String) :
      g.Ages (g.withoutEdges ids skip) :=
    have rest := (rest_withoutEdges g ids skip).2.2
    .of_lost rest.1 rest.2 fun key content kept => ((kept?_withoutEdges_eq_some weaker ids).mp kept).1
  cases does with
  | refuse grown => exact grown.ages
  | write prepared => exact prepared.grown.ages.trans (ages_written _ _)
  | @removeVertex id a r writable readable =>
    refine (edges (mirrored.weaken id) (edgeIds r.edgeRefs)).trans ?_
    have rest := (rest_withoutVertex (g.withoutEdges (edgeIds r.edgeRefs) (some id)) id).2.2
    exact .of_lost rest.1 rest.2 fun key content kept => ((kept?_withoutVertex_eq_some _ id).mp kept).1
  | @removeEdge id a r writable => exact edges mirrored [id]
  | hide markable => exact marked _ _
  | unhide markable => exact marked _ _
  | declare name kind => exact .of_lost rfl rfl fun _ _ kept => kept

/-- The keys of all contents have been made from names that have been used up. -/
theorem made_of_reachable (reachable : g.Reachable) {content : ByteArray} (kept : g.store.kept? key = some content) :
    ∃ n < g.minted, MadeKey g.names n key := by
  induction reachable generalizing content with
  | start config index names => exact absurd kept (by simp [Graph.ofStore, Memory.kept?, Memory.empty])
  | step o reached ih =>
    have mirrored := mirrored_of_reachable reached
    have ages := (o.does_after mirrored.filed).ages mirrored
    rcases ages.contents key content kept with before | ⟨n, -, old, made⟩
    · obtain ⟨n, old, made⟩ := ih before
      exact ⟨n, Nat.lt_of_lt_of_le old ages.minted, ages.names ▸ made⟩
    · exact ⟨n, old, ages.names ▸ made⟩

/-- No key is used again: what is kept under it is what has been kept under it all the time. -/
theorem Graph.Ages.kept?_eq (ages : g.Ages h) (reachable : g.Reachable) {b c : ByteArray}
    (before : g.store.kept? key = some b) (after : h.store.kept? key = some c) : c = b := by
  obtain ⟨n, old, made⟩ := made_of_reachable reachable before
  rcases ages.contents key c after with same | new
  · exact Option.some.inj (same.symm.trans before)
  · exact absurd new (not_new old made)

/-! ### Places -/

/-- No two properties of a stored element are at the same place. -/
theorem distinct_of_reachable (reachable : g.Reachable) {r : Record} (found : g.store.get? t id = some r) :
    (r.properties.map PropertyRecord.place).Nodup := by
  induction reachable generalizing t id r with
  | start config index =>
    cases t <;> exact absurd found (by simp [Graph.ofStore, Memory.empty, Memory.get?, PerType.get])
  | step o reached ih =>
    have mirrored := mirrored_of_reachable reached
    cases (o.does_after mirrored.filed).fate mirrored t id with
    | same same =>
      obtain ⟨old, there, properties⟩ := same.carried r found
      rw [properties]
      exact ih there
    | gone _ gone => exact absurd (gone.symm.trans found) (by simp)
    | written _ _ prepared _ _ _ written =>
      obtain rfl := Option.some.inj (written.symm.trans found)
      refine prepared.distinct ?_
      cases prepared.origin mirrored.filed with
      | new _ none =>
        rw [none]
        exact List.nodup_nil
      | stored _ before whole => exact distinct_of_whole whole (ih before)
    | marked _ before marked =>
      obtain rfl := Option.some.inj (marked.symm.trans found)
      have distinct := ih before
      exact distinct

/-! ### Following a property -/

/-- The element has a property stored with the outline of `p`. -/
def Graph.Carries (g : Graph Memory) (t : ElementType) (id : String) (p : Property) : Prop :=
  ∃ r, g.store.get? t id = some r ∧ ∃ q : Property, q.encode ∈ r.properties ∧ q.outline = p.outline

theorem Prepared.carries {s : Save} {v : Revision} (prepared : Prepared s a g h v) (mirrored : Mirrored g.store)
    (mem : p ∈ v.after.element.properties) : (h.written v).Carries v.after.type v.after.element.id p :=
  ⟨_, get?_written_own mirrored prepared, p, List.mem_map_of_mem mem, rfl⟩

theorem Graph.Carries.congr (carries : g.Carries t id p) (same : p.outline = q.outline) : g.Carries t id q := by
  obtain ⟨r, found, x, mem, outline⟩ := carries
  exact ⟨r, found, x, mem, outline.trans same⟩

/-- A property that an operation keeps remains stored, and with it what it holds besides its own stream. -/
theorem Graph.Carries.step {o : Operation} (carries : g.Carries t id p) (reachable : g.Reachable)
    (kept : o.keep? g t id p = some q) : (o.after g).Carries t id q := by
  have mirrored := mirrored_of_reachable reachable
  obtain ⟨r, found, x, mem, outline⟩ := carries
  rcases Operation.keep?_cases mirrored found kept with
    ⟨rfl, r', reached, same⟩ | ⟨changes, a, v, mid, rfl, run, rfl, rfl, through⟩
  · exact ⟨r', reached, x, same ▸ mem, outline⟩
  · have prepared := prepare_ok run
    obtain ⟨-, r', found', -, whole⟩ := prepared.starts
    obtain rfl := Option.some.inj (found.symm.trans found')
    have distinct := distinct_of_whole whole (distinct_of_reachable reachable found)
    obtain ⟨ps, hps, base⟩ := whole_ok_iff.mp whole
    obtain ⟨y, there, read⟩ := exists_right_of_mem (mapM_ok_iff.mp hps) mem
    obtain ⟨y', kept', outline'⟩ := Change.keepAll?_outline ((outline_of_whole read).trans outline) through
    obtain ⟨element, qs, applied, placed, after⟩ := prepared.changed
    have inside := (Element.mem_of_keepAll? applied distinct (by rw [base]; exact there) kept').1
    obtain ⟨z, settled, here⟩ := exists_right_of_mem placed inside
    rw [after_save mirrored.filed run]
    exact (prepared.carries mirrored (by rw [after]; exact settled)).congr ((Placed.outline here).trans outline')

/-- In the run that goes on from `g`, neither the property `p` of the element nor what it has at the spot has been
replaced or removed, nor has the element, and the property has become the last one named. -/
inductive Graph.Stays (t : ElementType) (id : String) (spot : Property.Spot) (g : Graph Memory) (p : Property) :
    Graph Memory → Property → Prop
  | here : Stays t id spot g p g p
  | step {h : Graph Memory} {q r : Property} (o : Operation) : Stays t id spot g p h q →
      o.keep? h t id q = some r → r.nested? spot = q.nested? spot → Stays t id spot g p (o.after h) r

theorem Graph.Stays.carries {spot : Property.Spot} (stays : Graph.Stays t id spot g p h q) (reachable : g.Reachable)
    (carries : g.Carries t id p) :
    h.Reachable ∧ g.Ages h ∧ h.Carries t id q ∧ q.nested? spot = p.nested? spot := by
  induction stays with
  | here => exact ⟨reachable, .refl g, carries, rfl⟩
  | step o stays kept same ih =>
    obtain ⟨reached, ages, carries, before⟩ := ih
    have mirrored := mirrored_of_reachable reached
    exact ⟨.step o reached, ages.trans ((o.does_after mirrored.filed).ages mirrored), carries.step reached kept,
      same.trans before⟩

/-! ### Reading -/

/-- Why a stream cannot be read from what has been stored of the value in a list or in the metadata: inside a list it
comes back without a store, and the value's own stream has not been copied, so that its owner may have let go of the
content. -/
def Value.fault? (v : Value) (s : Stream) (m : Memory) : Option Error :=
  match s.source with
  | .inline _ => none
  | .external key _ _ =>
    if v.stream?.isSome then if (m.kept? key).isSome then none else some (.storage (.missing key))
    else some (.storage (.detached key))

/-- Whoever reads the element finds the property where it is visible to them, and what it has at the spot where they
can read it, and has the outcome from reading the stream that comes `i`-th there. -/
def Graph.ReadsAt (g : Graph Memory) (t : ElementType) (id : String) (p : Property) (spot : Property.Spot) (i : Nat)
    (outcome : Except Error ByteArray) : Prop :=
  ∀ a (v : View t), g.get? t id a = .ok (some v) →
    (p.visibleTo a → ∃ q ∈ v.properties, q.place = p.place) ∧
      ∀ q ∈ v.properties, q.place = p.place → (p.Discloses spot a → (q.nested? spot).isSome) ∧
        ∀ u, q.nested? spot = some u → ∃ s, u.streams[i]? = some s ∧ s.read g.kept = outcome

theorem read_external (g : Graph Memory) (kind : Value.Kind) (key : String) (length : Nat) :
    Value.Stream.read g.kept ⟨kind, .external key length true⟩ =
      match g.store.kept? key with
      | none => .error (.storage (.missing key))
      | some content =>
        if content.size = length then .ok content else .error (.storage (.wrongSize key content.size length)) := by
  have kept : g.kept key = .ok (g.store.kept? key) := rfl
  simp only [Value.Stream.read, kept]
  cases g.store.kept? key <;> rfl

theorem found_of_read {kind : Value.Kind} {length : Nat} {attached : Bool} {b : ByteArray}
    (read : Value.Stream.read g.kept ⟨kind, .external key length attached⟩ = .ok b) :
    attached = true ∧ g.store.kept? key = some b ∧ b.size = length := by
  cases attached with
  | false => exact absurd read (by simp [Value.Stream.read])
  | true =>
    rw [read_external] at read
    split at read
    · exact absurd read (by simp)
    · rename_i content found
      split at read
      · rename_i sized
        obtain rfl := Except.ok.inj read
        exact ⟨rfl, found, sized⟩
      · exact absurd read (by simp)

/-- A stream that could be read can be read from the stored value unless it is at fault. -/
theorem read_restored {v : Value} {i : Nat} {s : Value.Stream} {b : ByteArray} (there : v.streams[i]? = some s)
    (read : s.read g.kept = .ok b) (same : ∀ key c, g.store.kept? key = some b → h.store.kept? key = some c → c = b) :
    ∃ s', v.outline.restored[i]? = some s' ∧ s'.read h.kept = (v.fault? s h.store).elim (.ok b) .error := by
  have restored : v.outline.restored[i]? =
      some (if v.stream?.isSome then s.detached.attach else s.detached) := by
    rw [Value.Outline.restored, Value.own_outline]
    split <;> simp [Value.outline, there]
  refine ⟨_, restored, ?_⟩
  obtain ⟨kind, source⟩ := s
  cases source with
  | inline content => split <;> exact read
  | external key length attached =>
    obtain ⟨rfl, before, sized⟩ := found_of_read read
    rw [Value.fault?]
    split
    · refine (read_external h kind key length).trans ?_
      cases after : h.store.kept? key with
      | none => simp [after]
      | some c =>
        obtain rfl := same key c before after
        simp [after, sized]
    · rfl

theorem Graph.Carries.readsAt {spot : Property.Spot} {held : Value} {i : Nat} {s : Value.Stream}
    (carries : g.Carries t id p) (reachable : g.Reachable) (there : p.nested? spot = some held)
    (restored : held.outline.restored[i]? = some s) : g.ReadsAt t id p spot i (s.read g.kept) := by
  intro a v seen
  obtain ⟨r, found, x, mem, outline⟩ := carries
  obtain ⟨r', found', view⟩ := get?_ok_some seen
  obtain rfl := Option.some.inj (found.symm.trans found')
  obtain ⟨shows, only⟩ := shown_of_view view (distinct_of_reachable reachable found) mem
  have place : x.encode.place = p.place := congrArg Property.Outline.place outline
  have hidden : x.encode.hidden = p.hidden := congrArg Property.Outline.hidden outline
  rw [← place, ← visibleTo_of_place place hidden]
  refine ⟨shows, fun q shown same => ?_⟩
  obtain ⟨discloses, stored⟩ := nested?_of_view (only q shown same) spot
  have outlines := nested?_outline outline spot
  rw [there] at outlines
  obtain ⟨u, holds, alike⟩ := Option.map_eq_some_iff.mp outlines
  refine ⟨fun disclosed => discloses (by rw [holds]; rfl) (discloses_outline outline disclosed), fun w got => ?_⟩
  obtain ⟨u', holds', streams⟩ := stored w got
  obtain rfl := Option.some.inj (holds.symm.trans holds')
  exact ⟨s, by rw [streams, alike, restored], rfl⟩

/-- What a save has stored of streams inside a list or in the metadata of a property can be read as long as the
property and what it has there remain, unless the stream is inside a list and has its content outside the record, or
the store has let go of that content. -/
theorem nested_streams_exact (reachable : g.Reachable) {s : Save} {v : Revision} {mid : Graph Memory}
    (saved : exec (prepare a s) g = (.ok v, mid)) (mem : p ∈ v.after.element.properties) {spot : Property.Spot}
    {held : Value} (there : p.nested? spot = some held) {i : Nat} {st : Value.Stream}
    (nested : held.streams[i]? = some st) {b : ByteArray} (read : st.read g.kept = .ok b)
    (stays : Graph.Stays v.after.type v.after.element.id spot ((Operation.save s a).after g) p h q) :
    h.ReadsAt v.after.type v.after.element.id q spot i ((held.fault? st h.store).elim (.ok b) .error) := by
  have mirrored := mirrored_of_reachable reachable
  have start : ((Operation.save s a).after g).Carries v.after.type v.after.element.id p := by
    rw [after_save mirrored.filed saved]
    exact (prepare_ok saved).carries mirrored mem
  obtain ⟨reached, later, carries, same⟩ := stays.carries (.step _ reachable) start
  have ages := ((Operation.does_after mirrored.filed (.save s a)).ages mirrored).trans later
  obtain ⟨s', restored, outcome⟩ := read_restored nested read fun key c => ages.kept?_eq reachable
  rw [← outcome]
  exact carries.readsAt reached (same.trans there) restored

/-! A vertex with the text of another inside a list and in the metadata. -/

def sourceNote : Metadata := Table.empty.insert "source" ⟨.stream copiedText, .unrestricted⟩

def quotingVertex : Save :=
  .vertex ⟨some "v2", .unrestricted, [.set "" "texts" (.list [.stream copiedText]) .unrestricted sourceNote]⟩

def quotingProperty : Property := ⟨"", "texts", .list [.stream copiedText], .unrestricted, sourceNote, []⟩

def quotingGraph : Graph Memory := (Operation.save quotingVertex .empty).after sourceGraph

def orphanedGraph : Graph Memory := (Operation.removeVertex "v1" .empty).after quotingGraph

theorem prepare_quotingVertex : ∃ v mid, exec (prepare .empty quotingVertex) sourceGraph = (.ok v, mid) ∧
    v.after.type = .vertex ∧ v.after.element.id = "v2" ∧ quotingProperty ∈ v.after.element.properties := by
  have named : ((exec (prepare .empty quotingVertex) sourceGraph).1.toOption.map fun v =>
      v.after.element.id) = some "v2" := by decide +kernel
  rcases saved : exec (prepare .empty quotingVertex) sourceGraph with ⟨_ | v, mid⟩
  · rw [saved] at named
    exact absurd named (by simp [Except.toOption])
  · rw [saved] at named
    have prepared := prepare_ok saved
    obtain ⟨-, id, base, -⟩ := prepared.starts
    refine ⟨v, mid, rfl, prepared.same.type.trans (base ▸ rfl), Option.some.inj named, ?_⟩
    obtain ⟨element, ps, applied, placed, after⟩ := prepared.changed
    rw [base] at applied
    obtain rfl : _ = element := Except.ok.inj applied
    obtain ⟨q, there, ⟨rfl, -⟩ | ⟨s, n, content, mid, value, -⟩⟩ :=
      exists_right_of_mem placed (List.mem_singleton_self quotingProperty)
    · rwa [after]
    · exact absurd value (by simp [quotingProperty])

theorem nested_streams_exact_orphaned :
    copiedText.read sourceGraph.kept = .ok "shared long text".toUTF8 ∧
      (quotingGraph.get? .vertex "v2" .empty).map Option.isSome = .ok true ∧
      quotingGraph.ReadsAt .vertex "v2" quotingProperty .items 0
        (.error (.storage (.detached "vertex/v1//text//019b0000000070008000000000000000"))) ∧
      quotingGraph.ReadsAt .vertex "v2" quotingProperty (.entry "source") 0 (.ok "shared long text".toUTF8) ∧
      (orphanedGraph.get? .vertex "v2" .empty).map Option.isSome = .ok true ∧
      orphanedGraph.ReadsAt .vertex "v2" quotingProperty (.entry "source") 0
        (.error (.storage (.missing "vertex/v1//text//019b0000000070008000000000000000"))) := by
  have read : copiedText.read sourceGraph.kept = .ok "shared long text".toUTF8 := by decide +kernel
  obtain ⟨v, mid, saved, type, id, mem⟩ := prepare_quotingVertex
  have yields (h : Graph Memory) (spot : Property.Spot) (held : Value)
      (there : quotingProperty.nested? spot = some held) (nested : held.streams[0]? = some copiedText)
      (stays : Graph.Stays .vertex "v2" spot quotingGraph quotingProperty h quotingProperty) :
      h.ReadsAt .vertex "v2" quotingProperty spot 0
        ((held.fault? copiedText h.store).elim (.ok "shared long text".toUTF8) .error) := by
    have outcome := nested_streams_exact (h := h) (q := quotingProperty) run_sourceGraph.reachable saved mem there
      nested read
    rw [type, id] at outcome
    exact outcome stays
  have note : quotingProperty.nested? (.entry "source") = some (.stream copiedText) := by
    simp [quotingProperty, Property.nested?, sourceNote, Table.get?_insert]
  have kept : Value.fault? (.stream copiedText) copiedText quotingGraph.store = none := by decide +kernel
  have lost : Value.fault? (.stream copiedText) copiedText orphanedGraph.store =
      some (.storage (.missing "vertex/v1//text//019b0000000070008000000000000000")) := by decide +kernel
  have unreadable := yields quotingGraph .items (.list [.stream copiedText]) rfl rfl .here
  have readable := yields quotingGraph (.entry "source") (.stream copiedText) note rfl .here
  have orphaned := yields orphanedGraph (.entry "source") (.stream copiedText) note rfl
    (.step (.removeVertex "v1" .empty) .here (if_neg (by decide +kernel)) rfl)
  rw [kept] at readable
  rw [lost] at orphaned
  exact ⟨read, by decide +kernel, unreadable, readable, by decide +kernel, orphaned⟩

end GuardedGraph

import GuardedGraph.Proofs.Contents.Saved
import GuardedGraph.Proofs.Record.Restored
import GuardedGraph.Proofs.Writing.Cascade

/-! What writers do to what they cannot read. Elements that they cannot read keep all but their references, and
elements that remain keep the properties that the writer cannot read, in their order. A save of an element reads
and stores all its properties again, also these, and their values come out as their stored forms determine them. -/

namespace GuardedGraph

open Store (Memory)
open Outcome Commit

variable {g h : Graph Memory} {a : Authorizations} {t : ElementType} {id : String} {r : Record}

/-! ### Changes -/

section

variable {ps qs l l' : List Property} {p q : Property}

/-- The properties that `a` cannot read. -/
def Property.unreadable (a : Authorizations) (ps : List Property) : List Property :=
  ps.filter fun p => !p.visibility.readableBy a

open Property

theorem unreadable_append : unreadable a (l ++ l') = unreadable a l ++ unreadable a l' := List.filter_append l l'

theorem unreadable_cons (readable : p.visibility.readableBy a = true) : unreadable a (p :: l) = unreadable a l := by
  simp [unreadable, readable]

/-- What `a` can read may be dropped. -/
theorem unreadable_filter {keep : Property → Bool}
    (dropped : ∀ p, keep p = false → p.visibility.readableBy a = true) :
    unreadable a (l.filter keep) = unreadable a l := by
  unfold unreadable
  rw [List.filter_filter]
  refine List.filter_congr fun p _ => ?_
  cases kept : keep p with
  | true => simp
  | false => simp [dropped p kept]

/-- What `a` can read may be changed in place. -/
theorem unreadable_map {f : Property → Property} (visibility : ∀ p, (f p).visibility = p.visibility)
    (same : ∀ p, p.visibility.readableBy a = false → f p = p) : unreadable a (l.map f) = unreadable a l := by
  induction l with
  | nil => rfl
  | cons p l ih =>
    unfold unreadable at *
    rw [List.map_cons, List.filter_cons, List.filter_cons, visibility, ih]
    cases readable : p.visibility.readableBy a with
    | true => rfl
    | false => rw [same p readable]

/-- The visibility that a writer has to satisfy to change properties that carry it. -/
def Change.guard? : Change → Option Visibility
  | set _ _ _ v _ => some v
  | remove _ _ v => some v
  | move _ _ _ v => some v
  | hide _ _ v _ => some v
  | unhide _ _ v _ => some v
  | _ => none

theorem Change.guard_readable {c : Change} (ok : c.properties a ps = .ok qs) :
    ∀ v, c.guard? = some v → v.readableBy a = true := by
  intro v guard
  cases c with
  | set key name value w m =>
    obtain rfl := Option.some.inj guard
    unfold properties at ok
    simp only at ok
    split at ok
    · exact absurd ok (by simp [bind, Except.bind, throw, throwThe, MonadExceptOf.throw])
    · obtain ⟨_, required, -⟩ := bind_ok ok
      exact require_ok required
  | remove key name w =>
    obtain rfl := Option.some.inj guard
    obtain ⟨_, required, -⟩ := bind_ok ok
    exact require_ok required
  | move key name source w =>
    obtain rfl := Option.some.inj guard
    obtain ⟨_, required, -⟩ := bind_ok ok
    exact require_ok required
  | hide key name w marker =>
    obtain rfl := Option.some.inj guard
    obtain ⟨_, -, ok⟩ := bind_ok ok
    obtain ⟨_, required, -⟩ := bind_ok ok
    exact require_ok required
  | unhide key name w marker =>
    obtain rfl := Option.some.inj guard
    obtain ⟨_, -, ok⟩ := bind_ok ok
    obtain ⟨_, required, -⟩ := bind_ok ok
    exact require_ok required
  | removeAll key name => exact absurd guard (by simp [guard?])
  | annotate key name entry value w => exact absurd guard (by simp [guard?])
  | relabel w => exact absurd guard (by simp [guard?])

theorem unreadable_exchange (old : p.visibility.readableBy a = true) (new : q.visibility.readableBy a = true) :
    unreadable a (l ++ q :: l') = unreadable a (l ++ p :: l') := by
  rw [unreadable_append, unreadable_append, unreadable_cons old, unreadable_cons new]

/-- No change reaches a property that its writer cannot read, or adds one. -/
theorem Change.Does.unreadable {c : Change} (does : c.Does a ps qs)
    (guard : ∀ v, c.guard? = some v → v.readableBy a = true) :
    Property.unreadable a qs = Property.unreadable a ps := by
  cases does with
  | replace middle fit =>
    have readable := readable_of_isAt fit (guard _ rfl)
    rw [middle]
    exact unreadable_exchange readable readable
  | add free =>
    rw [unreadable_append, unreadable_cons (guard _ rfl)]
    exact List.append_nil _
  | removeAll key name =>
    refine unreadable_filter fun p dropped => readable_of_visibleTo ?_
    simp only [Bool.not_eq_false', Bool.and_eq_true] at dropped
    exact dropped.2
  | remove middle fit =>
    have readable := readable_of_isAt (Bool.and_eq_true _ _ ▸ fit).1 (guard _ rfl)
    rw [middle, unreadable_append, unreadable_append, unreadable_cons readable]
  | stay only => rfl
  | @move l r p key name source v middle fit unfit =>
    have readable : v.readableBy a = true := guard v rfl
    have dropped : ∀ q : Property, (!q.isAt key name v) = false → q.visibility.readableBy a = true := by
      intro q there
      exact readable_of_isAt (by simpa using there) readable
    have old : p.visibility.readableBy a = true := by
      simp only [Bool.and_eq_true] at fit
      exact readable_of_visibleTo fit.1.2
    have new : ({ p with visibility := v } : Property).visibility.readableBy a = true := readable
    rw [middle, unreadable_append, unreadable_append, unreadable_cons old, unreadable_cons new,
      unreadable_filter dropped, unreadable_filter dropped]
  | annotate key name entry value v =>
    refine unreadable_map (fun p => ?_) fun p unreadable => if_neg fun fit => ?_
    · split
      · exact (Prod.mk.inj (Prod.mk.inj (place_annotate a entry _ p)).2).2
      · rfl
    · simp only [Bool.and_eq_true] at fit
      rw [readable_of_visibleTo fit.2] at unreadable
      exact absurd unreadable (by simp)
  | relabel v => rfl
  | hide marker middle fit =>
    have readable := readable_of_isAt fit (guard _ rfl)
    rw [middle]
    exact unreadable_exchange readable readable
  | unhide marker middle fit =>
    have readable := readable_of_isAt fit (guard _ rfl)
    rw [middle]
    exact unreadable_exchange readable readable

theorem Element.apply_unreadable {changes : List Change} {e f : Element} (applied : e.apply a changes = .ok f) :
    unreadable a f.properties = unreadable a e.properties := by
  refine apply_keeps (P := fun ps => unreadable a ps = unreadable a e.properties) (fun _ ok before => ?_) applied rfl
  exact ((Change.does_of_ok ok).unreadable (Change.guard_readable ok)).trans before

/-! ### Settling -/

/-- Settling leaves the properties that `a` cannot read if their contents are where they belong. -/
theorem unreadable_placed {owned : List String} (placed : List.Forall₂ (Placed t id owned g h) ps qs)
    (belongs : ∀ p ∈ unreadable a ps, ∀ s, p.value = .stream s → s.Belongs g.config.threshold owned) :
    unreadable a qs = unreadable a ps := by
  induction placed with
  | nil => rfl
  | @cons p q ps qs here _ ih =>
    unfold unreadable at *
    have rest := ih fun x mem => belongs x (List.mem_filter.mpr
      ⟨List.mem_cons_of_mem _ (List.mem_filter.mp mem).1, (List.mem_filter.mp mem).2⟩)
    rw [List.filter_cons, List.filter_cons, rest]
    obtain ⟨rfl, -⟩ | ⟨s, n, content, mid, value, away, -, -, -, -, -, rfl, -⟩ := here
    · rfl
    · cases readable : p.visibility.readableBy a with
      | true => simp [Property.keptAs, readable]
      | false => exact absurd (belongs p (by simp [readable]) s value) away

end

/-! ### Stored elements -/

/-- The properties of the record that `a` cannot read. -/
def Record.unreadable (r : Record) (a : Authorizations) : List PropertyRecord :=
  r.properties.filter fun p => !p.visibility.readableBy a

/-- The properties of the record are stored forms of properties, of which none has a stream of more bytes in it
than the threshold allows. -/
def Record.Encoded (r : Record) (threshold : Nat) : Prop :=
  ∀ p ∈ r.properties, ∃ q : Property, p = q.encode ∧
    ∀ s content, q.value = .stream s → s.source = .inline content → content.size ≤ threshold

theorem unreadable_encode (w : Whole) :
    w.encode.unreadable a = (Property.unreadable a w.element.properties).map Property.encode := by
  unfold Record.unreadable Property.unreadable
  exact List.filter_map

section

variable {w : Whole} {threshold : Nat} (encoded : r.Encoded threshold) (whole : r.whole = .ok w)
include encoded whole

theorem properties_of_whole : w.encode.properties = r.properties.map PropertyRecord.restored := by
  obtain ⟨ps, hps, rfl⟩ := whole_ok_iff.mp whole
  have each := (List.forall₂_and_left r.properties ps).mpr ⟨encoded, mapM_ok_iff.mp hps⟩
  refine map_eq_of_forall₂ each fun p q both => ?_
  obtain ⟨⟨p₀, rfl, -⟩, decoded⟩ := both
  exact encode_of_whole decoded

theorem unreadable_of_whole : w.encode.unreadable a = (r.unreadable a).map PropertyRecord.restored := by
  show w.encode.properties.filter _ = _
  rw [properties_of_whole encoded whole]
  exact List.filter_map

theorem belongs_of_whole {p : Property} (mem : p ∈ w.element.properties) {s : Value.Stream}
    (value : p.value = .stream s) : s.Belongs threshold w.keptKeys := by
  unfold Value.Stream.Belongs
  split
  · rename_i content inline
    obtain ⟨ps, hps, rfl⟩ := whole_ok_iff.mp whole
    obtain ⟨q, there, decoded⟩ := exists_left_of_mem (mapM_ok_iff.mp hps) mem
    obtain ⟨p₀, rfl, short⟩ := encoded q there
    obtain ⟨v, read, attached⟩ := map_ok (decodeWith_value decoded)
    obtain ⟨s₀, rfl, rfl⟩ := attach_eq_stream (attached.trans value)
    obtain ⟨s₁, value₁, rfl⟩ := stored_stream read
    apply short s₁ content value₁
    obtain ⟨kind, source⟩ := s₁
    cases source with
    | inline c => exact inline
    | external key length attached => exact absurd inline (by simp [Value.Stream.attach, Value.Stream.detached,
        Value.Source.detached])
  · rename_i key length attached external
    exact Whole.mem_keptKeys.mpr ⟨p, mem, s, value, by rw [Value.Stream.key?, external]⟩

end

/-- The properties of an element that `a` cannot read, as they are stored; none if it is not. -/
def Graph.unreadable (g : Graph Memory) (t : ElementType) (id : String) (a : Authorizations) : List PropertyRecord :=
  match g.store.get? t id with
  | none => []
  | some r => r.unreadable a

def Graph.Encoded (g : Graph Memory) : Prop :=
  ∀ t id r, g.store.get? t id = some r → r.Encoded g.config.threshold

theorem Prepared.unreadable {s : Save} {v : Revision} (prepared : Prepared s a g h v) (filed : g.store.Filed)
    (encoded : g.Encoded) : v.after.encode.unreadable a =
      (g.unreadable v.after.type v.after.element.id a).map PropertyRecord.restored := by
  obtain ⟨element, ps, applied, placed, after⟩ := prepared.changed
  have changed := Element.apply_unreadable applied
  have kept : Property.unreadable a v.after.element.properties = Property.unreadable a v.base.element.properties := by
    rw [after, ← changed]
    refine unreadable_placed placed fun p mem s value => ?_
    rw [changed] at mem
    have there := (List.mem_filter.mp mem).1
    cases prepared.origin filed with
    | new _ none =>
      rw [none] at there
      exact absurd there List.not_mem_nil
    | stored _ found whole => exact belongs_of_whole (encoded _ _ _ found) whole there value
  rw [unreadable_encode, kept, ← unreadable_encode, Graph.unreadable]
  cases prepared.origin filed with
  | new free none =>
    rw [free, unreadable_encode, none]
    rfl
  | stored _ found whole =>
    rw [found]
    exact unreadable_of_whole (encoded _ _ _ found) whole

/-! ### Runs -/

theorem Operation.Does.config {o : Operation} (does : o.Does g h) : h.config = g.config := by
  cases does with
  | refuse grown => exact grown.config
  | write prepared => exact (names_written _ _).2.2.trans prepared.grown.config
  | removeVertex _ _ => exact (rest_withoutVertex _ _).1.trans (rest_withoutEdges _ _ _).1
  | removeEdge _ => exact (rest_withoutEdges g [_] none).1
  | hide _ => rfl
  | unhide _ => rfl
  | declare _ _ => rfl

theorem Prepared.encoded {s : Save} {v : Revision} (prepared : Prepared s a g h v) :
    v.after.encode.Encoded g.config.threshold := by
  obtain ⟨element, ps, -, placed, after⟩ := prepared.changed
  intro p mem
  obtain ⟨q, there, rfl⟩ := List.mem_map.mp mem
  refine ⟨q, rfl, fun s content value inline => ?_⟩
  rw [after] at there
  obtain ⟨p, -, here⟩ := exists_left_of_mem placed there
  obtain ⟨rfl, belongs⟩ | ⟨s₀, n, content, mid, -, -, -, -, -, -, -, rfl, -⟩ := here
  · have short := belongs s value
    unfold Value.Stream.Belongs at short
    rwa [inline] at short
  · obtain rfl := Value.stream.inj value
    exact absurd inline (by simp [Value.Stream.keptUnder])

theorem Operation.Does.encoded {o : Operation} (does : o.Does g h) (mirrored : Mirrored g.store)
    (encoded : g.Encoded) : h.Encoded := by
  intro t id r found
  rw [does.config]
  cases does.fate mirrored t id with
  | same same =>
    obtain ⟨old, there, properties⟩ := same.carried r found
    unfold Record.Encoded
    rw [properties]
    exact encoded t id old there
  | gone _ gone => exact absurd (gone.symm.trans found) (by simp)
  | written _ _ prepared _ _ _ written =>
    obtain rfl := Option.some.inj (written.symm.trans found)
    exact prepared.encoded
  | marked _ there marked =>
    obtain rfl := Option.some.inj (marked.symm.trans found)
    exact fun p mem => encoded t id _ there p mem

theorem encoded_of_reachable (reachable : g.Reachable) : g.Encoded := by
  induction reachable with
  | start config index =>
    intro t id r found
    cases t <;> exact absurd found (by simp [Graph.ofStore, Memory.empty, Memory.get?, PerType.get])
  | step o reached ih =>
    have mirrored := mirrored_of_reachable reached
    exact (o.does_after mirrored.filed).encoded mirrored ih

/-! ### Operations -/

namespace Operation

/-- The operation is a save that comes to writing the element. -/
def Rewrites (o : Operation) (g : Graph Memory) (t : ElementType) (id : String) : Prop :=
  ∃ s a v h, o = save s a ∧ exec (prepare a s) g = (.ok v, h) ∧ v.after.type = t ∧ v.after.element.id = id

/-- No operation does more to an element that its writer cannot read than to change its references. -/
theorem Does.sameBut {o : Operation} (does : o.Does g h) (mirrored : Mirrored g.store) (writer : o.writer? = some a)
    (found : g.store.get? t id = some r) (unreadable : r.visibility.readableBy a = false) :
    SameBut g.store h.store t id := by
  have unread (reads : o.Reads g t id) : False := by
    have readable := reads a r writer found
    rw [unreadable] at readable
    exact absurd readable (by simp)
  cases does.fate mirrored t id with
  | same same => exact same
  | gone reads _ => exact (unread reads).elim
  | written reads _ _ _ _ _ _ => exact (unread reads).elim
  | marked reads _ _ => exact (unread reads).elim

end Operation

theorem SameBut.unreadable (same : SameBut g.store h.store t id) : h.unreadable t id a = g.unreadable t id a := by
  obtain ⟨f, same⟩ := same
  unfold Graph.unreadable
  rw [same]
  cases g.store.get? t id <;> rfl

/-- What a save makes of the properties that its writer cannot read. -/
theorem unreadable_save (reachable : g.Reachable) (s : Save) (a : Authorizations) (t : ElementType) (id : String) :
    (¬(Operation.save s a).Rewrites g t id →
      ((Operation.save s a).after g).unreadable t id a = g.unreadable t id a) ∧
    ((Operation.save s a).Rewrites g t id →
      ((Operation.save s a).after g).unreadable t id a = (g.unreadable t id a).map PropertyRecord.restored) := by
  have mirrored := mirrored_of_reachable reachable
  have encoded := encoded_of_reachable reachable
  unfold Operation.after
  rw [Operation.exec_save_commit s a mirrored.filed]
  have grown := grows_prepare a s g
  rcases run : exec (prepare a s) g with ⟨e | v, mid⟩
  · rw [run] at grown
    refine ⟨fun _ => (sameBut_of_eq (grown.get? t id)).unreadable, ?_⟩
    rintro ⟨_, _, v, mid', same, run', -⟩
    obtain ⟨rfl, rfl⟩ := Operation.save.inj same
    rw [run] at run'
    exact absurd (Prod.mk.inj run').1 (by simp)
  · have prepared := prepare_ok run
    have reached := get?_written mirrored prepared t id
    constructor
    · intro away
      rw [if_neg] at reached
      · exact reached.unreadable
      · rintro ⟨rfl, rfl⟩
        exact away ⟨s, a, v, mid, rfl, run, rfl, rfl⟩
    · rintro ⟨_, _, v', mid', same, run', rfl, rfl⟩
      obtain ⟨rfl, rfl⟩ := Operation.save.inj same
      rw [run] at run'
      obtain rfl := Except.ok.inj (Prod.mk.inj run').1
      rw [if_pos ⟨rfl, rfl⟩] at reached
      have written := prepared.unreadable mirrored.filed encoded
      rw [← written]
      simp only [Graph.unreadable, reached]

/-- No other operation changes properties at all. -/
theorem unreadable_of_not_save {o : Operation} (does : o.Does g h) (mirrored : Mirrored g.store)
    (other : ∀ s a, o ≠ .save s a) (there : (h.store.get? t id).isSome) :
    h.unreadable t id a = g.unreadable t id a := by
  cases does.fate mirrored t id with
  | same same => exact same.unreadable
  | gone _ gone =>
    rw [gone] at there
    exact absurd there (by simp)
  | written _ save _ _ _ _ _ => exact absurd save (other _ _)
  | marked _ before after =>
    unfold Graph.unreadable
    rw [before, after]
    rfl

theorem unreadable_after (reachable : g.Reachable) {o : Operation} (writer : o.writer? = some a)
    (there : ((o.after g).store.get? t id).isSome) :
    (¬o.Rewrites g t id → (o.after g).unreadable t id a = g.unreadable t id a) ∧
      (o.Rewrites g t id → (o.after g).unreadable t id a = (g.unreadable t id a).map PropertyRecord.restored) := by
  have mirrored := mirrored_of_reachable reachable
  by_cases save : ∃ s a, o = .save s a
  · obtain ⟨s, a', rfl⟩ := save
    obtain rfl := Option.some.inj writer
    exact unreadable_save reachable s a' t id
  · have other : ∀ s a, o ≠ .save s a := fun s a same => save ⟨s, a, same⟩
    refine ⟨fun _ => unreadable_of_not_save (o.does_after mirrored.filed) mirrored other there, ?_⟩
    rintro ⟨s, a, -, -, same, -⟩
    exact absurd same (other s a)

/-- An operation leaves an element that its writer cannot read as it was, but for its references. Of an element that
remains, it leaves the properties that the writer cannot read as they were, unless it is a save that comes to
writing the element: then they have been read and stored again, which is a change exactly if a stored form is not
that of the value that it is read as. -/
theorem unreadable_kept_but_restored (reachable : g.Reachable) {o : Operation} (writer : o.writer? = some a) :
    (∀ t id r, g.store.get? t id = some r → r.visibility.readableBy a = false →
      ∃ refs, (o.after g).store.get? t id = some { r with edgeRefs := refs }) ∧
    ∀ t id, ((o.after g).store.get? t id).isSome →
      (¬o.Rewrites g t id → (o.after g).unreadable t id a = g.unreadable t id a) ∧
      (o.Rewrites g t id → (o.after g).unreadable t id a = (g.unreadable t id a).map PropertyRecord.restored) ∧
      ((o.after g).unreadable t id a ≠ g.unreadable t id a ↔
        o.Rewrites g t id ∧ ∃ p ∈ g.unreadable t id a, p.restored ≠ p) := by
  have mirrored := mirrored_of_reachable reachable
  have does := o.does_after mirrored.filed
  refine ⟨fun t id r found unreadable => ?_, fun t id there => ?_⟩
  · obtain ⟨f, same⟩ := does.sameBut mirrored writer found unreadable
    rw [found] at same
    exact ⟨f r.edgeRefs, same⟩
  · obtain ⟨kept, restored⟩ := unreadable_after reachable writer there
    refine ⟨kept, restored, ?_⟩
    by_cases rewrites : o.Rewrites g t id
    · have same : (g.unreadable t id a).map PropertyRecord.restored = g.unreadable t id a ↔
          ∀ p ∈ g.unreadable t id a, p.restored = p := by
        simpa using List.map_inj_left (l := g.unreadable t id a) (f := PropertyRecord.restored) (g := fun p => p)
      rw [restored rewrites, ne_eq, same]
      simp [rewrites]
    · simp [kept rewrites, rewrites]

/-- A vertex for everyone with a number for the holders of `b` alone. -/
def numberGraph : Graph Memory :=
  (Operation.save (.vertex ⟨some "v", .unrestricted,
    [.set "" "x" (.float (.ofBits 0x3e13d63e5a8707ce)) onlyB .empty]⟩) (.ofList ["b"])).after
      (.ofStore .empty .standard none)

/-- A change by a writer without `b`. -/
def unrelatedSave : Operation := .save (.stored .vertex "v" [.set "" "y" (.int 1) .unrestricted .empty]) .empty

theorem unreadable_restored_number :
    numberGraph.Reachable ∧ (unrelatedSave.outcome numberGraph).toOption = some () ∧
      unrelatedSave.Rewrites numberGraph .vertex "v" ∧
      (unrelatedSave.after numberGraph).unreadable .vertex "v" .empty ≠ numberGraph.unreadable .vertex "v" .empty ∧
      ∃ p ∈ numberGraph.unreadable .vertex "v" .empty, p.restored ≠ p := by
  have reachable : numberGraph.Reachable := .step _ (.start _ _ _)
  have saved : (unrelatedSave.outcome numberGraph).toOption = some () := by decide +kernel
  have there : ((unrelatedSave.after numberGraph).store.get? .vertex "v").isSome := by decide +kernel
  have changed : (unrelatedSave.after numberGraph).unreadable .vertex "v" .empty ≠
      numberGraph.unreadable .vertex "v" .empty := by decide +kernel
  have exact := ((unreadable_kept_but_restored reachable rfl).2 .vertex "v" there).2.2
  exact ⟨reachable, saved, (exact.mp changed).1, changed, (exact.mp changed).2⟩

end GuardedGraph

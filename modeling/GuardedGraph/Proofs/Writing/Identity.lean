import GuardedGraph.Proofs.Contents.Saved

/-! What tells properties and markers apart. No change puts two properties at one place or a marker twice on a
property, and so no element that is stored has any of these, nor a marker of its own twice. -/

namespace GuardedGraph

open Store (Memory)
open Outcome

/-! ### Markers -/

theorem nodup_addMarker {hidden : List Visibility} (once : hidden.Nodup) (marker : Visibility) :
    (addMarker hidden marker).Nodup := by
  unfold addMarker
  split
  · exact once
  · rename_i new
    rw [List.contains_iff_mem] at new
    exact List.nodup_append.mpr ⟨once, List.nodup_singleton marker, fun v mem w last same =>
      new (by rw [List.mem_singleton.mp last] at same; exact same ▸ mem)⟩

theorem nodup_dropMarker {hidden : List Visibility} (once : hidden.Nodup) (marker : Visibility) :
    (dropMarker hidden marker).Nodup := once.filter _

variable {a : Authorizations} {ps qs : List Property}

theorem Change.Does.markers {c : Change} (does : c.Does a ps qs) (once : ∀ p ∈ ps, p.hidden.Nodup) :
    ∀ q ∈ qs, q.hidden.Nodup := by
  -- Markers change only where a property is hidden or shown again.
  have exchanged {l r : List Property} {p q : Property} (middle : ps = l ++ p :: r) (own : q.hidden.Nodup) :
      ∀ x ∈ l ++ q :: r, x.hidden.Nodup := by
    subst middle
    simp only [List.forall_mem_append, List.forall_mem_cons] at once ⊢
    exact ⟨once.1, own, once.2.2⟩
  have within {l r : List Property} {p : Property} (middle : ps = l ++ p :: r) : p.hidden.Nodup :=
    once p (middle ▸ List.mem_append_right l List.mem_cons_self)
  cases does with
  | replace middle fit =>
    have own := within middle
    exact exchanged middle own
  | add free =>
    simp only [List.forall_mem_append, List.forall_mem_singleton]
    exact ⟨once, List.nodup_nil⟩
  | removeAll key name => exact fun q mem => once q (List.mem_filter.mp mem).1
  | remove middle fit =>
    subst middle
    simp only [List.forall_mem_append, List.forall_mem_cons] at once ⊢
    exact ⟨once.1, once.2.2⟩
  | stay only => exact once
  | @move l r p key name source v middle fit unfit =>
    subst middle
    simp only [List.forall_mem_append, List.forall_mem_cons] at once ⊢
    exact ⟨fun q mem => once.1 q (List.mem_filter.mp mem).1, once.2.1,
      fun q mem => once.2.2 q (List.mem_filter.mp mem).1⟩
  | annotate key name entry value v =>
    intro q mem
    obtain ⟨p, there, rfl⟩ := List.mem_map.mp mem
    split
    · rw [Property.hidden_annotate]
      exact once p there
    · exact once p there
  | relabel v => exact once
  | hide marker middle fit => exact exchanged middle (nodup_addMarker (within middle) marker)
  | unhide marker middle fit => exact exchanged middle (nodup_dropMarker (within middle) marker)

/-- No two of the properties are at one place, and none of them has a marker twice. -/
structure Property.Identified (ps : List Property) : Prop where
  distinct : Property.Distinct ps
  markers : ∀ p ∈ ps, p.hidden.Nodup

theorem Element.apply_identified {changes : List Change} {e f : Element} (applied : e.apply a changes = .ok f)
    (identified : Property.Identified e.properties) : Property.Identified f.properties := by
  refine apply_keeps (fun _ ok before => ?_) applied identified
  have does := Change.does_of_ok ok
  exact ⟨does.distinct before.distinct, does.markers before.markers⟩

/-! ### Stored elements -/

/-- No two of its properties are at one place, and neither they nor the record itself have a marker twice. -/
structure Record.Identified (r : Record) : Prop where
  distinct : (r.properties.map PropertyRecord.place).Nodup
  markers : ∀ p ∈ r.properties, p.hidden.Nodup
  hidden : r.hidden.Nodup

/-- All that is stored is told apart. -/
def Graph.Identified (g : Graph Memory) : Prop := ∀ t id r, g.store.get? t id = some r → r.Identified

variable {g h : Graph Memory} {t : ElementType} {id : String} {r : Record}

theorem SameBut.identified {m n : Memory} (same : SameBut m n t id) (found : n.get? t id = some r)
    (before : ∀ r, m.get? t id = some r → r.Identified) : r.Identified := by
  obtain ⟨f, same⟩ := same
  obtain ⟨old, there, rfl⟩ := Option.map_eq_some_iff.mp (same.symm.trans found)
  have identified := before old there
  exact ⟨identified.distinct, identified.markers, identified.hidden⟩

/-- The properties of a record are told apart once they are decoded as they are in the record. -/
theorem identified_of_whole {w : Whole} (whole : r.whole = .ok w) (identified : r.Identified) :
    Property.Identified w.element.properties := by
  refine ⟨distinct_of_whole whole identified.distinct, ?_⟩
  obtain ⟨ps, hps, rfl⟩ := whole_ok_iff.mp whole
  intro p mem
  obtain ⟨q, there, decoded⟩ := exists_left_of_mem (mapM_ok_iff.mp hps) mem
  obtain ⟨metadata, value, -, -, rfl⟩ := decodeWith_ok_iff.mp decoded
  exact identified.markers q there

theorem hidden_of_placed {owned : List String} {ps qs : List Property}
    (placed : List.Forall₂ (Placed t id owned g h) ps qs) {q : Property} (mem : q ∈ qs) :
    ∃ p ∈ ps, q.hidden = p.hidden := by
  obtain ⟨p, there, here⟩ := exists_left_of_mem placed mem
  refine ⟨p, there, ?_⟩
  obtain ⟨rfl, -⟩ | ⟨s₁, n, c, mid, -, -, -, -, -, -, -, rfl, -⟩ := here <;> rfl

/-- What a save writes is told apart if what is stored is. -/
theorem Prepared.identified {s : Save} {a : Authorizations} {v : Revision} (prepared : Prepared s a g h v)
    (before : g.Identified) : v.after.encode.Identified := by
  have bare (i : String) (u : Visibility) :
      Property.Identified (Element.bare i u).properties ∧ (Element.bare i u).hidden.Nodup :=
    ⟨⟨List.nodup_nil, fun _ none => absurd none List.not_mem_nil⟩, List.nodup_nil⟩
  have base : Property.Identified v.base.element.properties ∧ v.base.element.hidden.Nodup := by
    have starts := prepared.starts
    cases s with
    | vertex d =>
      obtain ⟨-, i, base, -⟩ := starts
      rw [base]
      exact bare i _
    | edge d ends =>
      obtain ⟨-, -, -, i, base, -⟩ := starts
      rw [base]
      exact bare i _
    | stored u i changes =>
      obtain ⟨-, r, found, -, whole⟩ := starts
      have identified := before _ _ _ found
      refine ⟨identified_of_whole whole identified, ?_⟩
      obtain ⟨ps, -, base⟩ := whole_ok_iff.mp whole
      rw [base]
      exact identified.hidden
  refine ⟨prepared.distinct base.1.distinct, ?_, prepared.same.hidden ▸ base.2⟩
  obtain ⟨element, ps, applied, placed, after⟩ := prepared.changed
  have changed := Element.apply_identified applied base.1
  intro p mem
  obtain ⟨q, there, rfl⟩ := List.mem_map.mp mem
  rw [after] at there
  obtain ⟨x, mem, hidden⟩ := hidden_of_placed placed there
  show q.hidden.Nodup
  rw [hidden]
  exact changed.markers x mem

/-! ### Runs -/

theorem Record.Identified.marked {u : ElementType} {j : String} {old : Record} {hidden : List Visibility}
    (before : g.Identified) (mirrored : Mirrored g.store)
    (there : g.store.get? u j = some old) (once : hidden.Nodup)
    (found : (g.marked old hidden).store.get? t id = some r) : r.Identified := by
  have reached := get?_marked mirrored there hidden t id
  split at reached
  · obtain rfl := Option.some.inj (reached.symm.trans found)
    have identified := before _ _ _ there
    exact ⟨identified.distinct, identified.markers, once⟩
  · exact reached.identified found (before t id)

theorem Operation.Does.identified {o : Operation} (does : o.Does g h) (mirrored : Mirrored g.store)
    (before : g.Identified) : h.Identified := by
  intro t id r found
  cases does with
  | refuse grown => exact (sameBut_of_eq (grown.get? t id)).identified found (before t id)
  | write prepared =>
    have reached := get?_written mirrored prepared t id
    split at reached
    · obtain rfl := Option.some.inj (reached.symm.trans found)
      exact prepared.identified before
    · exact reached.identified found (before t id)
  | @removeVertex i a r _ _ =>
    have reached := get?_cascade mirrored i (edgeIds r.edgeRefs) t id
    split at reached
    · exact absurd (reached.symm.trans found) (by simp)
    · exact reached.identified found (before t id)
  | @removeEdge i _ _ _ =>
    have reached := get?_withoutEdge mirrored i t id
    split at reached
    · exact absurd (reached.symm.trans found) (by simp)
    · exact reached.identified found (before t id)
  | hide markable =>
    obtain ⟨there, -⟩ := Graph.markable_ok markable
    exact .marked before mirrored there (nodup_addMarker (before _ _ _ there).hidden _) found
  | unhide markable =>
    obtain ⟨there, -⟩ := Graph.markable_ok markable
    exact .marked before mirrored there (nodup_dropMarker (before _ _ _ there).hidden _) found
  | declare => exact before t id r found

theorem identified_of_reachable (reachable : g.Reachable) : g.Identified := by
  induction reachable with
  | start config index =>
    intro t id r found
    cases t <;> exact absurd found (by simp [Graph.ofStore, Memory.empty, Memory.get?, PerType.get])
  | step o reached ih =>
    have mirrored := mirrored_of_reachable reached
    exact (o.does_after mirrored.filed).identified mirrored ih

/-- Changes that succeed keep what tells the properties of an element apart, and their markers. All that is stored in
a graph is therefore told apart, whatever operations have led to it. -/
theorem identity_kept :
    (∀ (a : Authorizations) (changes : List Change) (e f : Element), e.apply a changes = .ok f →
      Property.Identified e.properties → Property.Identified f.properties) ∧
    ∀ g : Graph Memory, g.Reachable → g.Identified :=
  ⟨fun _ _ _ _ applied identified => Element.apply_identified applied identified,
    fun _ reachable => identified_of_reachable reachable⟩

def crew : Visibility := ⟨"crew", some (.term "crew"), by decide⟩

/-- Two versions of a course. -/
def courses : Element :=
  ⟨"v", .unrestricted, [⟨"", "course", .int 270, crew, .empty, []⟩, ⟨"", "course", .int 90, .unrestricted, .empty, []⟩],
    []⟩

/-- The second version takes the place of the first, and is hidden twice. -/
def steering : List Change :=
  [.move "" "course" (some .unrestricted) crew, .hide "" "course" crew .unrestricted,
    .hide "" "course" crew .unrestricted]

/-- A vertex that is hidden twice. -/
def steeredGraph : Graph Memory :=
  let writer := Authorizations.ofList ["crew"]
  let changes := [.set "" "course" (.int 270) crew .empty, .set "" "course" (.int 90) .unrestricted .empty] ++ steering
  let g := (Operation.save (.vertex ⟨some "v", .unrestricted, changes⟩) writer).after (.ofStore .empty .standard none)
  let g := (Operation.hide .vertex "v" crew writer).after g
  (Operation.hide .vertex "v" crew writer).after g

theorem identity_kept_steering :
    (∃ f, courses.apply (.ofList ["crew"]) steering = .ok f ∧
      f.properties = [⟨"", "course", .int 90, crew, .empty, [.unrestricted]⟩] ∧ Property.Identified f.properties) ∧
    ∃ r, steeredGraph.store.get? .vertex "v" = some r ∧ r.hidden = [crew] ∧
      r.properties.map (·.hidden) = [[.unrestricted]] ∧ r.Identified := by
  have applied : courses.apply (.ofList ["crew"]) steering =
      .ok ⟨"v", .unrestricted, [⟨"", "course", .int 90, crew, .empty, [.unrestricted]⟩], []⟩ := rfl
  have apart : Property.Identified courses.properties :=
    ⟨by unfold Property.Distinct; decide +kernel, by decide +kernel⟩
  have reachable : steeredGraph.Reachable := .step _ (.step _ (.step _ (.start _ _ _)))
  have stored : (steeredGraph.store.get? .vertex "v").map (fun r => (r.hidden, r.properties.map (·.hidden))) =
      some ([crew], [[.unrestricted]]) := by decide +kernel
  obtain ⟨r, found, shape⟩ := Option.map_eq_some_iff.mp stored
  obtain ⟨hidden, markers⟩ := Prod.mk.inj shape
  exact ⟨⟨_, applied, rfl, identity_kept.1 _ _ _ _ applied apart⟩, r, found, hidden, markers,
    identity_kept.2 _ reachable _ _ _ found⟩

end GuardedGraph

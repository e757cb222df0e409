import GuardedGraph.Proofs.Element.Blindness

/-!
Independent changes. A change reads and writes the properties of the keys and names that it addresses, and it works on
these as if there were no others. Two changes that address different properties can therefore change places
(`independent_changes_commute`).
-/

namespace GuardedGraph

open Outcome

variable {a : Authorizations} {region : String → String → Bool} {ps qs : List Property}

namespace Property

/-- The key and the name of the property are of the region. -/
def within (region : String → String → Bool) (p : Property) : Bool := region p.key p.name

theorem within_congr {p q : Property} (place : q.place = p.place) : q.within region = p.within region := by
  obtain ⟨key, rest⟩ := Prod.mk.inj place
  rw [within, within, key, (Prod.mk.inj rest).1]

theorem within_of_named {p : Property} {key name : String} (named : p.named key name = true) :
    p.within region = region key name := by
  simp only [Property.named, Bool.and_eq_true, beq_iff_eq] at named
  rw [within, named.1, named.2]

theorem filter_filter_of_imp {fits test : Property → Bool} (inside : ∀ p, fits p = true → test p = true)
    (ps : List Property) : (ps.filter test).filter fits = ps.filter fits := by
  rw [List.filter_filter]
  refine List.filter_congr fun p _ => ?_
  cases fit : fits p
  · rfl
  · rw [Bool.true_and, inside p fit]

/-! ### Steps inside -/

section

variable {fits : Property → Bool} (inside : ∀ p, fits p = true → p.within region = true)
include inside

theorem filter_exchangeFirst? {instead : Property → List Property}
    (stays : ∀ p, fits p = true → ∀ q ∈ instead p, q.within region = true) (ps : List Property) :
    (exchangeFirst? fits instead ps).map (·.filter (within region)) =
      exchangeFirst? fits instead (ps.filter (within region)) := by
  induction ps with
  | nil => rfl
  | cons p ps ih =>
    rw [exchangeFirst?]
    cases fit : fits p with
    | true =>
      rw [List.filter_cons_of_pos (inside p fit), exchangeFirst?, fit, if_pos rfl, if_pos rfl, Option.map_some,
        List.filter_append, List.filter_eq_self.mpr (stays p fit)]
    | false =>
      rw [if_neg (by simp), Option.map_map]
      cases here : p.within region with
      | true =>
        rw [List.filter_cons_of_pos here, exchangeFirst?, fit, if_neg (by simp), ← ih, Option.map_map]
        refine congrArg (fun f => Option.map f _) (funext fun qs => ?_)
        exact List.filter_cons_of_pos here
      | false =>
        have away : ¬p.within region = true := by simp [here]
        rw [List.filter_cons_of_neg away, ← ih]
        refine congrArg (fun f => Option.map f _) (funext fun qs => ?_)
        exact List.filter_cons_of_neg away

theorem filter_changeFirst? {f : Property → Property} (place : ∀ p, (f p).place = p.place) (ps : List Property) :
    (changeFirst? fits f ps).map (·.filter (within region)) = changeFirst? fits f (ps.filter (within region)) := by
  rw [changeFirst?_eq, changeFirst?_eq, filter_exchangeFirst? inside fun p fit q mem => ?_]
  rw [List.mem_singleton.mp mem, within_congr (place p)]
  exact inside p fit

theorem filter_removeFirst? (ps : List Property) :
    (removeFirst? fits ps).map (·.filter (within region)) = removeFirst? fits (ps.filter (within region)) := by
  rw [removeFirst?_eq, removeFirst?_eq, filter_exchangeFirst? inside fun _ _ _ mem => absurd mem List.not_mem_nil]

theorem any_filter_within (ps : List Property) : (ps.filter (within region)).any fits = ps.any fits := by
  rw [List.any_filter]
  congr 1
  funext p
  cases fit : fits p with
  | true => rw [inside p fit, Bool.and_true]
  | false => rw [Bool.and_false]

theorem filter_moveOnly (key name : String) (v : Visibility) (ps : List Property) :
    (moveOnly fits key name v ps).filter (within region) =
      moveOnly fits key name v (ps.filter (within region)) := by
  rw [moveOnly, moveOnly, List.filter_filterMap, List.filterMap_filter]
  refine List.filterMap_congr fun p _ => ?_
  cases fit : fits p with
  | true => simp [inside p fit, show within region { p with visibility := v } = true from inside p fit]
  | false =>
    cases there : p.isAt key name v with
    | true => simp
    | false => cases here : p.within region <;> simp [here]

omit inside in
theorem filter_map_edit {f : Property → Property} (place : ∀ p, (f p).place = p.place) (ps : List Property) :
    (ps.map fun p => if fits p then f p else p).filter (within region) =
      (ps.filter (within region)).map fun p => if fits p then f p else p := by
  rw [List.filter_map]
  refine congrArg (List.map _) (List.filter_congr fun p _ => ?_)
  rw [Function.comp_apply]
  split
  · exact within_congr (place p)
  · rfl

end

/-! ### Steps outside -/

theorem filter_exchange {l r : List Property} {p q : Property} (away : p.within region = false)
    (place : q.place = p.place) :
    (l ++ q :: r).filter (within region) = (l ++ p :: r).filter (within region) := by
  have away' : q.within region = false := (within_congr place).trans away
  rw [List.filter_append, List.filter_append, List.filter_cons_of_neg (Bool.eq_false_iff.mp away),
    List.filter_cons_of_neg (Bool.eq_false_iff.mp away')]

end Property

/-! ### Changes -/

namespace Change

open Property

/-- Whether a change may look at the properties of a key and a name. -/
def addresses : Change → String → String → Bool
  | set k n .., key, name | remove k n _, key, name | move k n .., key, name | annotate k n .., key, name
  | hide k n .., key, name | unhide k n .., key, name => k == key && n == name
  | removeAll k n, key, name => n == name && k.all (· == key)
  | relabel _, _, _ => false

variable {c : Change}

theorem map_bind_of {α : Type} {f : List Property → List Property} {x : Except Error α}
    {k l : α → Except Error (List Property)} (next : ∀ u, (k u).map f = l u) : (x >>= k).map f = x >>= l := by
  cases x with
  | error e => rfl
  | ok u => exact next u

/-- A change works on the properties that it addresses, or on any more, as if there were no others. -/
theorem properties_within (covered : ∀ key name, c.addresses key name = true → region key name = true)
    (ps : List Property) :
    (c.properties a ps).map (·.filter (within region)) = c.properties a (ps.filter (within region)) := by
  have inside {key name : String} (own : c.addresses key name = true) (p : Property)
      (named : p.named key name = true) : p.within region = true :=
    (within_of_named named).trans (covered key name own)
  have fitting {key name : String} (own : c.addresses key name = true) (v : Visibility) (p : Property)
      (fit : p.isAt key name v = true) : p.within region = true := inside own p (Bool.and_eq_true _ _ ▸ fit).1
  cases c with
  | set key name value v m =>
    have own : (set key name value v m).addresses key name = true := by simp [addresses]
    unfold properties
    simp only
    split
    · rfl
    · refine map_bind_of fun _ => map_bind_of fun _ => congrArg Except.ok ?_
      have changed := filter_changeFirst? (fitting own v) (f := replace a value m) (fun _ => rfl) ps
      show List.filter _ _ = _
      rw [← changed]
      cases changeFirst? (·.isAt key name v) (replace a value m) ps with
      | some qs => rfl
      | none =>
        have added : Property.within region ⟨key, name, value, v, m, []⟩ = true := covered key name own
        simp only [Option.getD_none, Option.map_none, List.filter_append, List.filter_cons_of_pos added,
          List.filter_nil]
  | removeAll key name =>
    refine congrArg Except.ok ?_
    show List.filter _ _ = _
    rw [List.filter_filter, List.filter_filter]
    exact List.filter_congr fun p _ => Bool.and_comm ..
  | remove key name v =>
    have own : (remove key name v).addresses key name = true := by simp [addresses]
    refine map_bind_of fun _ => ?_
    rw [map_present, filter_removeFirst? fun p fit => fitting own v p (Bool.and_eq_true _ _ ▸ fit).1]
  | move key name source v =>
    have own : (move key name source v).addresses key name = true := by simp [addresses]
    have among (p : Property)
        (fit : (p.named key name && p.visibleTo a && source.all (· == p.visibility)) = true) :
        p.within region = true := by
      simp only [Bool.and_eq_true] at fit
      exact inside own p fit.1.1
    refine map_bind_of fun _ => map_bind_of fun _ => ?_
    simp only [filter_filter_of_imp among]
    generalize ps.filter (fun p => p.named key name && p.visibleTo a && source.all (· == p.visibility)) = fit
    match fit with
    | [] => rfl
    | [_] =>
      refine congrArg Except.ok ?_
      simp only
      split
      · rfl
      · exact filter_moveOnly among key name v ps
    | _ :: _ :: _ => rfl
  | annotate key name entry value v =>
    have own : (annotate key name entry value v).addresses key name = true := by simp [addresses]
    have among (p : Property) (fit : (p.named key name && p.visibleTo a) = true) : p.within region = true :=
      inside own p (Bool.and_eq_true _ _ ▸ fit).1
    refine map_bind_of fun _ => ?_
    simp only [any_filter_within among]
    split
    · exact congrArg Except.ok (filter_map_edit (place_annotate a entry ⟨value, v⟩) ps)
    · rfl
  | relabel v => rfl
  | hide key name v marker =>
    have own : (hide key name v marker).addresses key name = true := by simp [addresses]
    refine map_bind_of fun _ => map_bind_of fun _ => ?_
    rw [map_present, filter_changeFirst? (fitting own v) (f := Property.hide marker) fun _ => rfl]
  | unhide key name v marker =>
    have own : (unhide key name v marker).addresses key name = true := by simp [addresses]
    refine map_bind_of fun _ => map_bind_of fun _ => ?_
    rw [map_present, filter_changeFirst? (fitting own v) (f := Property.unhide marker) fun _ => rfl]

/-- A change leaves the properties that it does not address as they are, in their order. -/
theorem Does.outside (region : String → String → Bool) (does : Does a ps c qs)
    (apart : ∀ key name, c.addresses key name = true → region key name = false) :
    qs.filter (within region) = ps.filter (within region) := by
  have away {p : Property} {key name : String} (own : c.addresses key name = true)
      (named : p.named key name = true) : p.within region = false :=
    (within_of_named named).trans (apart key name own)
  have off {p : Property} {key name : String} {v : Visibility} (own : c.addresses key name = true)
      (fit : p.isAt key name v = true) : p.within region = false := away own (Bool.and_eq_true _ _ ▸ fit).1
  cases does with
  | replace middle fit =>
    subst middle
    exact filter_exchange (off (by simp [addresses]) fit) rfl
  | @add key name value v m _ =>
    have added : Property.within region ⟨key, name, value, v, m, []⟩ = false := apart key name (by simp [addresses])
    rw [List.filter_append, List.filter_cons_of_neg (by simp [added]), List.filter_nil, List.append_nil]
  | removeAll key name =>
    rw [List.filter_filter]
    refine List.filter_congr fun p _ => ?_
    cases here : p.within region with
    | false => rfl
    | true =>
      have spared : (p.name == name && key.all (· == p.key) && p.visibleTo a) = false := by
        rw [← Bool.not_eq_true]
        intro gone
        simp only [Bool.and_eq_true, beq_iff_eq] at gone
        have far := apart p.key p.name (by simp [addresses, gone.1.1, gone.1.2])
        exact absurd (here.symm.trans far) (by simp)
      rw [spared]
      rfl
  | @remove l r p key name v middle fit =>
    subst middle
    rw [List.filter_append, List.filter_append, List.filter_cons_of_neg]
    rw [off (by simp [addresses]) (Bool.and_eq_true _ _ ▸ fit).1]
    simp
  | stay only => rfl
  | @move l r p key name source v middle fit unfit =>
    subst middle
    simp only [Bool.and_eq_true] at fit
    have own : (Change.move key name source v).addresses key name = true := by simp [addresses]
    have moved : Property.within region { p with visibility := v } = false := away own fit.1.1
    have spared (ps : List Property) :
        (ps.filter fun q => !q.isAt key name v).filter (within region) = ps.filter (within region) := by
      rw [List.filter_filter]
      refine List.filter_congr fun q _ => ?_
      cases there : q.isAt key name v with
      | false => simp
      | true => simp [off own there]
    rw [List.filter_append, List.filter_append, spared,
      List.filter_cons_of_neg (Bool.eq_false_iff.mp moved),
      List.filter_cons_of_neg (Bool.eq_false_iff.mp (away own fit.1.1)), spared]
  | annotate key name entry value v =>
    have own : (Change.annotate key name entry value v).addresses key name = true := by simp [addresses]
    rw [filter_map_edit (place_annotate a entry ⟨value, v⟩)]
    refine (List.map_congr_left fun p mem => if_neg fun fit => ?_).trans (List.map_id _)
    have there : p.within region = true := (List.mem_filter.mp mem).2
    rw [away own (Bool.and_eq_true _ _ ▸ fit).1] at there
    exact absurd there (by simp)
  | relabel v => rfl
  | hide marker middle fit =>
    subst middle
    exact filter_exchange (off (by simp [addresses]) fit) rfl
  | unhide marker middle fit =>
    subst middle
    exact filter_exchange (off (by simp [addresses]) fit) rfl

theorem Does.named (does : Does a ps c qs) {key name : String} (away : c.addresses key name = false) :
    qs.filter (·.named key name) = ps.filter (·.named key name) := by
  refine does.outside (fun k n => k == key && n == name) fun k n own => ?_
  rw [← Bool.not_eq_true]
  intro here
  simp only [Bool.and_eq_true, beq_iff_eq] at here
  rw [here.1, here.2, away] at own
  exact absurd own (by simp)

/-! ### Two changes -/

/-- There are no properties that both changes address. -/
def Apart (c d : Change) : Prop := ∀ key name, ¬(c.addresses key name = true ∧ d.addresses key name = true)

theorem Apart.symm {d : Change} (apart : c.Apart d) : d.Apart c := fun key name both => apart key name both.symm

theorem Apart.away {d : Change} (apart : c.Apart d) {key name : String} (own : c.addresses key name = true) :
    d.addresses key name = false := (Bool.not_eq_true _).mp fun other => apart key name ⟨own, other⟩

/-- What a change makes of the properties that it addresses, and whether it fails, is the same after another that
addresses none of them. -/
theorem properties_after {d : Change} (apart : c.Apart d) (first : d.properties a ps = .ok qs) :
    (c.properties a qs).map (·.filter (within c.addresses)) =
      (c.properties a ps).map (·.filter (within c.addresses)) := by
  rw [properties_within fun _ _ own => own, properties_within fun _ _ own => own,
    (does_of_ok first).outside c.addresses fun _ _ own => apart.symm.away own]

theorem properties_after_ok {d : Change} (apart : c.Apart d) (first : d.properties a ps = .ok qs)
    {rs : List Property} (ok : c.properties a ps = .ok rs) :
    ∃ ss, c.properties a qs = .ok ss ∧ ∀ key name, c.addresses key name = true →
      ss.filter (·.named key name) = rs.filter (·.named key name) := by
  have after := properties_after apart first
  rw [ok] at after
  obtain ⟨ss, done, same⟩ := map_ok after
  refine ⟨ss, done, fun key name own => ?_⟩
  have inside (p : Property) (named : p.named key name = true) : p.within c.addresses = true :=
    (within_of_named named).trans own
  rw [← filter_filter_of_imp inside ss, same, filter_filter_of_imp inside]

theorem visibility_of_ne (other : ∀ v, c ≠ .relabel v) (v : Visibility) : c.visibility a v = .ok v := by
  cases c with
  | relabel w => exact absurd rfl (other w)
  | _ => rfl

/-- Unless both changes relabel the element, they find and leave the same visibility in either order. -/
theorem visibility_swap {d : Change} (one : ∀ v w, ¬(c = .relabel v ∧ d = .relabel w)) {u v w : Visibility}
    (first : c.visibility a u = .ok v) (second : d.visibility a v = .ok w) :
    ∃ x, d.visibility a u = .ok x ∧ c.visibility a x = .ok w := by
  by_cases label : ∃ v, c = .relabel v
  · obtain ⟨l, rfl⟩ := label
    have still (x : Visibility) : d.visibility a x = .ok x := visibility_of_ne (fun y same => one l y ⟨rfl, same⟩) x
    rw [still] at second
    exact ⟨u, still u, first.trans second⟩
  · have still (x : Visibility) : c.visibility a x = .ok x := visibility_of_ne (not_exists.mp label) x
    rw [still] at first
    obtain rfl := Except.ok.inj first
    exact ⟨w, second, still w⟩

end Change

/-- The elements have the same versions, in the same order, of every property, and the rest in common. -/
structure Element.SameVersions (e f : Element) : Prop where
  id : e.id = f.id
  visibility : e.visibility = f.visibility
  hidden : e.hidden = f.hidden
  versions : ∀ key name, e.properties.filter (·.named key name) = f.properties.filter (·.named key name)

theorem Element.apply_two {c d : Change} {e f : Element} :
    e.apply a [c, d] = .ok f ↔ ∃ v w ps qs, c.visibility a e.visibility = .ok v ∧ d.visibility a v = .ok w ∧
      c.properties a e.properties = .ok ps ∧ d.properties a ps = .ok qs ∧
        f = { e with visibility := w, properties := qs } := by
  constructor
  · intro h
    obtain ⟨mid, first, rest⟩ := apply_cons h
    obtain ⟨last, second, done⟩ := apply_cons rest
    obtain rfl := pure_ok done
    obtain ⟨v, ps, relabelled, changed, rfl⟩ := Change.apply_ok first
    obtain ⟨w, qs, relabelled', changed', rfl⟩ := Change.apply_ok second
    exact ⟨v, w, ps, qs, relabelled, relabelled', changed, changed', rfl⟩
  · rintro ⟨v, w, ps, qs, relabelled, relabelled', changed, changed', rfl⟩
    simp only [apply, List.foldlM_cons, List.foldlM_nil, Change.apply, relabelled, changed, relabelled', changed', bind,
      Except.bind, pure, Except.pure]

/-- Changes that succeed in one order succeed in the other, and make the same versions of each property. -/
theorem Element.apply_swap {c d : Change} (apart : c.Apart d) (one : ∀ v w, ¬(c = .relabel v ∧ d = .relabel w))
    {e f : Element} (ok : e.apply a [c, d] = .ok f) : ∃ g, e.apply a [d, c] = .ok g ∧ f.SameVersions g := by
  obtain ⟨v, w, ps, qs, relabelled, relabelled', first, second, rfl⟩ := apply_two.mp ok
  obtain ⟨x, label, label'⟩ := Change.visibility_swap one relabelled relabelled'
  -- the second change looks at nothing that the first has made, so that it succeeds also before
  have early := Change.properties_after apart.symm first
  rw [second] at early
  obtain ⟨rs, first', -⟩ := map_ok early.symm
  obtain ⟨qs', again, same⟩ := Change.properties_after_ok apart.symm first first'
  obtain rfl := Except.ok.inj (second.symm.trans again)
  obtain ⟨ss, second', same'⟩ := Change.properties_after_ok apart first' first
  refine ⟨_, apply_two.mpr ⟨x, w, rs, ss, label, label', first', second', rfl⟩, rfl, rfl, rfl, fun key name => ?_⟩
  show qs.filter _ = ss.filter _
  cases own : c.addresses key name with
  | true => rw [same' key name own, (Change.does_of_ok second).named (apart.away own)]
  | false =>
    rw [(Change.does_of_ok second').named own]
    cases other : d.addresses key name with
    | true => exact same key name other
    | false =>
      rw [(Change.does_of_ok second).named other, (Change.does_of_ok first).named own,
        (Change.does_of_ok first').named other]

/-- Two changes that address no property in common, and do not both relabel the element, fail or succeed together in
both orders; and when they succeed, they leave the same element up to the order of properties of different keys or
names. -/
theorem independent_changes_commute (a : Authorizations) (e : Element) {c d : Change} (apart : c.Apart d)
    (one : ∀ v w, ¬(c = .relabel v ∧ d = .relabel w)) :
    ((∃ error, e.apply a [c, d] = .error error) ↔ ∃ error, e.apply a [d, c] = .error error) ∧
      ∀ f g, e.apply a [c, d] = .ok f → e.apply a [d, c] = .ok g → f.SameVersions g := by
  have one' : ∀ v w, ¬(d = .relabel v ∧ c = .relabel w) := fun v w both => one w v both.symm
  refine ⟨⟨?_, ?_⟩, fun f g ok ok' => ?_⟩
  · rintro ⟨error, failed⟩
    cases other : e.apply a [d, c] with
    | error error' => exact ⟨error', rfl⟩
    | ok g =>
      obtain ⟨f, ok, -⟩ := Element.apply_swap apart.symm one' other
      rw [failed] at ok
      exact absurd ok (by simp)
  · rintro ⟨error, failed⟩
    cases other : e.apply a [c, d] with
    | error error' => exact ⟨error', rfl⟩
    | ok f =>
      obtain ⟨g, ok, -⟩ := Element.apply_swap apart one other
      rw [failed] at ok
      exact absurd ok (by simp)
  · obtain ⟨g', swapped, same⟩ := Element.apply_swap apart one ok
    obtain rfl := Except.ok.inj (swapped.symm.trans ok')
    exact same

def dropTitles : Change := .removeAll none "title"

def addSum : Change := .set "" "sum" (.int 5) staff .empty

theorem independent_changes_commute_memo :
    let writer := Authorizations.ofList ["staff", "board"]
    dropTitles.Apart addSum ∧ (∀ v w, ¬(dropTitles = .relabel v ∧ addSum = .relabel w)) ∧
      ∃ f g, (memo signedByBoard boardNotes).apply writer [dropTitles, addSum] = .ok f ∧
        (memo signedByBoard boardNotes).apply writer [addSum, dropTitles] = .ok g ∧ f.SameVersions g ∧
          f.properties.map (·.name) = ["sum", "sum"] := by
  intro writer
  have apart : dropTitles.Apart addSum := by
    rintro key name ⟨title, sum⟩
    simp only [dropTitles, addSum, Change.addresses, Bool.and_eq_true, beq_iff_eq] at title sum
    exact absurd (title.1.trans sum.2.symm) (by decide)
  have one : ∀ v w, ¬(dropTitles = .relabel v ∧ addSum = .relabel w) := nofun
  have commute := independent_changes_commute writer (memo signedByBoard boardNotes) apart one
  exact ⟨apart, one, _, _, rfl, rfl, commute.2 _ _ rfl rfl, by decide +kernel⟩

end GuardedGraph

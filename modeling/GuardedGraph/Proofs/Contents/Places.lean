import GuardedGraph.Proofs.Writing.Changes
import Mathlib.Data.List.Nodup

/-! What becomes of a single property when an element is changed. Properties of an element differ in their
places, so that a property can be followed from one place to the next. -/

namespace GuardedGraph

open Outcome

namespace Property

/-- What tells a property from the others of its element. -/
def place (p : Property) : String × String × Visibility := (p.key, p.name, p.visibility)

theorem isAt_iff {p : Property} {key name : String} {v : Visibility} :
    p.isAt key name v = true ↔ p.place = (key, name, v) := by
  simp [isAt, named, place, and_assoc]

theorem readable_of_isAt {a : Authorizations} {p : Property} {key name : String} {v : Visibility}
    (fit : p.isAt key name v = true) (readable : v.readableBy a = true) : p.visibility.readableBy a = true := by
  have same : p.visibility = v := (Prod.mk.inj (Prod.mk.inj (isAt_iff.mp fit)).2).2
  rw [same]
  exact readable

theorem readable_of_visibleTo {a : Authorizations} {p : Property} (visible : p.visibleTo a = true) :
    p.visibility.readableBy a = true := by
  simp only [visibleTo, Authorizations.sees, Bool.and_eq_true] at visible
  exact visible.1

def Distinct (ps : List Property) : Prop := (ps.map place).Nodup

theorem Distinct.eq {ps : List Property} (distinct : Distinct ps) {p q : Property} (hp : p ∈ ps) (hq : q ∈ ps)
    (same : p.place = q.place) : p = q := List.inj_on_of_nodup_map distinct hp hq same

theorem distinct_middle {l r : List Property} {p : Property} :
    Distinct (l ++ p :: r) ↔ (∀ q ∈ l ++ r, q.place ≠ p.place) ∧ Distinct (l ++ r) := by
  unfold Distinct
  rw [List.map_append, List.map_cons, List.nodup_middle, List.nodup_cons, ← List.map_append, List.mem_map]
  simp

theorem Distinct.exchange {l r : List Property} {p q : Property} (distinct : Distinct (l ++ p :: r))
    (same : q.place = p.place) : Distinct (l ++ q :: r) := by
  rw [distinct_middle, same]
  exact distinct_middle.mp distinct

theorem mem_exchange {l r : List Property} {p q x : Property} (mem : x ∈ l ++ p :: r) (other : x ≠ p) :
    x ∈ l ++ q :: r := by
  rw [List.mem_append, List.mem_cons] at mem ⊢
  rcases mem with mem | rfl | mem
  · exact .inl mem
  · exact absurd rfl other
  · exact .inr (.inr mem)

theorem mem_mark {l r : List Property} {p₀ p q : Property} {key name : String} {v : Visibility}
    {f : Property → Property} (distinct : Distinct (l ++ p₀ :: r)) (mem : p ∈ l ++ p₀ :: r)
    (fit : p₀.isAt key name v = true) (kept : (if p.isAt key name v then some (f p) else some p) = some q) :
    q ∈ l ++ f p₀ :: r := by
  by_cases own : p = p₀
  · subst own
    rw [if_pos fit] at kept
    obtain rfl := Option.some.inj kept
    exact List.mem_append_right _ List.mem_cons_self
  · have away : ¬p.isAt key name v = true := fun there =>
      own (distinct.eq mem (List.mem_append_right _ List.mem_cons_self)
        ((isAt_iff.mp there).trans (isAt_iff.mp fit).symm))
    rw [if_neg away] at kept
    obtain rfl := Option.some.inj kept
    exact mem_exchange mem own

theorem place_annotate (a : Authorizations) (name : String) (entry : Entry) (p : Property) :
    (p.annotate a name entry).place = p.place := by
  unfold annotate
  split <;> rfl

theorem hidden_annotate (a : Authorizations) (name : String) (entry : Entry) (p : Property) :
    (p.annotate a name entry).hidden = p.hidden := by
  unfold annotate
  split <;> rfl

theorem value_annotate (a : Authorizations) (name : String) (entry : Entry) (p : Property) :
    (p.annotate a name entry).value = p.value := by
  unfold annotate
  split <;> rfl

/-! ### Lists of properties -/

theorem changeFirst?_eq_some {fits : Property → Bool} {f : Property → Property} {ps qs : List Property}
    (h : changeFirst? fits f ps = some qs) :
    ∃ l p r, ps = l ++ p :: r ∧ qs = l ++ f p :: r ∧ fits p = true ∧ ∀ q ∈ l, fits q = false := by
  induction ps generalizing qs with
  | nil => simp [changeFirst?] at h
  | cons p ps ih =>
    rw [changeFirst?] at h
    split at h
    · rename_i fit
      exact ⟨[], p, ps, rfl, (Option.some.inj h).symm, fit, by simp⟩
    · rename_i unfit
      obtain ⟨rs, rest, rfl⟩ := Option.map_eq_some_iff.mp h
      obtain ⟨l, q, r, rfl, rfl, fit, before⟩ := ih rest
      exact ⟨p :: l, q, r, rfl, rfl, fit, by simpa [unfit] using before⟩

theorem removeFirst?_eq_some {fits : Property → Bool} {ps qs : List Property} (h : removeFirst? fits ps = some qs) :
    ∃ l p r, ps = l ++ p :: r ∧ qs = l ++ r ∧ fits p = true ∧ ∀ q ∈ l, fits q = false := by
  induction ps generalizing qs with
  | nil => simp [removeFirst?] at h
  | cons p ps ih =>
    rw [removeFirst?] at h
    split at h
    · rename_i fit
      exact ⟨[], p, ps, rfl, (Option.some.inj h).symm, fit, by simp⟩
    · rename_i unfit
      obtain ⟨rs, rest, rfl⟩ := Option.map_eq_some_iff.mp h
      obtain ⟨l, q, r, rfl, rfl, fit, before⟩ := ih rest
      exact ⟨p :: l, q, r, rfl, rfl, fit, by simpa [unfit] using before⟩

theorem changeFirst?_eq_none {fits : Property → Bool} {f : Property → Property} {ps : List Property}
    (h : changeFirst? fits f ps = none) : ∀ p ∈ ps, fits p = false := by
  induction ps with
  | nil => simp
  | cons p ps ih =>
    rw [changeFirst?] at h
    split at h
    · exact absurd h (by simp)
    · rename_i unfit
      rw [Option.map_eq_none_iff] at h
      simpa [unfit] using ih h

theorem moveOnly_unfit {fits : Property → Bool} {ps : List Property} (unfit : ∀ p ∈ ps, fits p = false)
    (key name : String) (v : Visibility) : moveOnly fits key name v ps = ps.filter fun p => !p.isAt key name v := by
  rw [moveOnly, ← List.filterMap_eq_filter]
  refine List.filterMap_congr fun p mem => ?_
  rw [unfit p mem]
  cases h : p.isAt key name v <;> simp [Option.guard, h]

theorem moveOnly_middle {fits : Property → Bool} {l r : List Property} {p : Property} (fit : fits p = true)
    (unfit : ∀ q ∈ l ++ r, fits q = false) (key name : String) (v : Visibility) :
    moveOnly fits key name v (l ++ p :: r) =
      l.filter (fun q => !q.isAt key name v) ++ { p with visibility := v } :: r.filter fun q => !q.isAt key name v := by
  rw [← moveOnly_unfit fun q mem => unfit q (List.mem_append_left r mem),
    ← moveOnly_unfit fun q mem => unfit q (List.mem_append_right l mem)]
  simp [moveOnly, fit]

theorem present_ok {key name : String} {o : Option (List Property)} {ps : List Property}
    (h : present key name o = .ok ps) : o = some ps := by
  cases o with
  | none => exact absurd h (by simp [present])
  | some qs => exact congrArg some (Except.ok.inj h)

end Property

namespace Change

open Property

/-- All that a change can do to the properties of an element. -/
inductive Does (a : Authorizations) (ps : List Property) : Change → List Property → Prop
  | replace {l r : List Property} {p : Property} {key name : String} {value : Value} {v : Visibility} {m : Metadata} :
      ps = l ++ p :: r → p.isAt key name v = true →
        Does a ps (set key name value v m) (l ++ p.replace a value m :: r)
  | add {key name : String} {value : Value} {v : Visibility} {m : Metadata} :
      (∀ p ∈ ps, p.isAt key name v = false) → Does a ps (set key name value v m) (ps ++ [⟨key, name, value, v, m, []⟩])
  | removeAll (key : Option String) (name : String) :
      Does a ps (removeAll key name) (ps.filter fun p => !(p.name == name && key.all (· == p.key) && p.visibleTo a))
  | remove {l r : List Property} {p : Property} {key name : String} {v : Visibility} :
      ps = l ++ p :: r → (p.isAt key name v && !p.hiddenFrom a) = true → Does a ps (remove key name v) (l ++ r)
  | stay {p : Property} {key name : String} {source : Option Visibility} :
      (ps.filter fun p => p.named key name && p.visibleTo a && source.all (· == p.visibility)) = [p] →
        Does a ps (move key name source p.visibility) ps
  | move {l r : List Property} {p : Property} {key name : String} {source : Option Visibility} {v : Visibility} :
      ps = l ++ p :: r → (p.named key name && p.visibleTo a && source.all (· == p.visibility)) = true →
        (∀ q ∈ l ++ r, (q.named key name && q.visibleTo a && source.all (· == q.visibility)) = false) →
          Does a ps (move key name source v) (l.filter (fun q => !q.isAt key name v) ++
            { p with visibility := v } :: r.filter fun q => !q.isAt key name v)
  | annotate (key name entry : String) (value : Value) (v : Visibility) :
      Does a ps (annotate key name entry value v) (ps.map fun p =>
        if p.named key name && p.visibleTo a then p.annotate a entry ⟨value, v⟩ else p)
  | relabel (v : Visibility) : Does a ps (relabel v) ps
  | hide {l r : List Property} {p : Property} {key name : String} {v : Visibility} (marker : Visibility) :
      ps = l ++ p :: r → p.isAt key name v = true → Does a ps (hide key name v marker) (l ++ p.hide marker :: r)
  | unhide {l r : List Property} {p : Property} {key name : String} {v : Visibility} (marker : Visibility) :
      ps = l ++ p :: r → p.isAt key name v = true → Does a ps (unhide key name v marker) (l ++ p.unhide marker :: r)

variable {a : Authorizations} {ps qs : List Property}

theorem does_of_ok {c : Change} (h : c.properties a ps = .ok qs) : Does a ps c qs := by
  cases c with
  | set key name value v m =>
    unfold properties at h
    simp only at h
    split at h
    · exact absurd h (by simp [bind, Except.bind, throw, throwThe, MonadExceptOf.throw])
    · obtain ⟨_, -, h⟩ := bind_ok h
      obtain ⟨_, -, h⟩ := bind_ok h
      obtain rfl := pure_ok h
      cases found : changeFirst? (·.isAt key name v) (replace a value m) ps with
      | none => exact .add (changeFirst?_eq_none found)
      | some qs =>
        obtain ⟨l, p, r, rfl, rfl, fit, -⟩ := changeFirst?_eq_some found
        exact .replace rfl fit
  | removeAll key name =>
    obtain rfl := pure_ok h
    exact .removeAll key name
  | remove key name v =>
    obtain ⟨_, -, h⟩ := bind_ok h
    obtain ⟨l, p, r, rfl, rfl, fit, -⟩ := removeFirst?_eq_some (present_ok h)
    exact .remove rfl fit
  | move key name source v =>
    obtain ⟨_, -, h⟩ := bind_ok h
    obtain ⟨_, -, h⟩ := bind_ok h
    simp only at h
    split at h
    · exact absurd h (by simp [throw, throwThe, MonadExceptOf.throw])
    · rename_i p only
      obtain rfl := pure_ok h
      split
      · rename_i same
        subst same
        exact .stay only
      · rename_i moved
        obtain ⟨l, r, rfl, before, fit, after⟩ := List.filter_eq_cons_iff.mp only
        have unfit : ∀ q ∈ l ++ r, (q.named key name && q.visibleTo a && source.all (· == q.visibility)) = false := by
          rw [List.forall_mem_append]
          exact ⟨fun q mem => by simpa using before q mem, fun q mem => by
            simpa using List.filter_eq_nil_iff.mp after q mem⟩
        rw [moveOnly_middle fit unfit]
        exact .move rfl fit unfit
    · exact absurd h (by simp [throw, throwThe, MonadExceptOf.throw])
  | annotate key name entry value v =>
    obtain ⟨_, -, h⟩ := bind_ok h
    simp only at h
    split at h
    · obtain rfl := pure_ok h
      exact .annotate key name entry value v
    · exact absurd h (by simp [throw, throwThe, MonadExceptOf.throw])
  | relabel v =>
    obtain rfl := pure_ok h
    exact .relabel v
  | hide key name v marker =>
    obtain ⟨_, -, h⟩ := bind_ok h
    obtain ⟨_, -, h⟩ := bind_ok h
    obtain ⟨l, p, r, rfl, rfl, fit, -⟩ := changeFirst?_eq_some (present_ok h)
    exact .hide marker rfl fit
  | unhide key name v marker =>
    obtain ⟨_, -, h⟩ := bind_ok h
    obtain ⟨_, -, h⟩ := bind_ok h
    obtain ⟨l, p, r, rfl, rfl, fit, -⟩ := changeFirst?_eq_some (present_ok h)
    exact .unhide marker rfl fit

/-- What becomes of a property under a change that succeeds: nothing if it is removed or another one is put in
its place. -/
def keep? (a : Authorizations) : Change → Property → Option Property
  | set key name _ visibility _, p => if p.isAt key name visibility then none else some p
  | removeAll key name, p => if p.name == name && key.all (· == p.key) && p.visibleTo a then none else some p
  | remove key name visibility, p => if p.isAt key name visibility && !p.hiddenFrom a then none else some p
  | move key name source visibility, p =>
    if p.named key name && p.visibleTo a && source.all (· == p.visibility) then some { p with visibility }
    else if p.isAt key name visibility then none
    else some p
  | annotate key name entry value visibility, p =>
    if p.named key name && p.visibleTo a then some (p.annotate a entry ⟨value, visibility⟩) else some p
  | relabel _, p => some p
  | hide key name visibility marker, p => if p.isAt key name visibility then some (p.hide marker) else some p
  | unhide key name visibility marker, p => if p.isAt key name visibility then some (p.unhide marker) else some p

theorem keep?_value {c : Change} {p q : Property} (kept : c.keep? a p = some q) : q.value = p.value := by
  cases c <;> simp only [keep?] at kept <;> (repeat' split at kept) <;> first
    | obtain rfl := Option.some.inj kept
      first
        | rfl
        | exact value_annotate _ _ _ _
    | exact absurd kept (by simp)

/-- Whether a property is kept is decided by its place and its markers. -/
theorem keep?_congr {change : Change} {p p' q : Property} (place : q.place = p.place) (hidden : q.hidden = p.hidden)
    (kept : change.keep? a p = some p') :
    ∃ q', change.keep? a q = some q' ∧ q'.place = p'.place ∧ q'.hidden = p'.hidden := by
  obtain ⟨hkey, hname, hvis⟩ : q.key = p.key ∧ q.name = p.name ∧ q.visibility = p.visibility := by
    simpa [Property.place] using place
  have isAt (key name : String) (v : Visibility) : q.isAt key name v = p.isAt key name v := by
    simp [Property.isAt, Property.named, hkey, hname, hvis]
  have sees : q.visibleTo a = p.visibleTo a := by rw [visibleTo, visibleTo, hvis, hidden]
  have hides : q.hiddenFrom a = p.hiddenFrom a := by rw [hiddenFrom, hiddenFrom, hidden]
  have named (key name : String) : q.named key name = p.named key name := by simp [Property.named, hkey, hname]
  cases change <;> simp only [keep?] at kept <;> simp only [keep?, isAt, sees, hides, named, hkey, hname, hvis]
  case relabel =>
    obtain rfl := Option.some.inj kept
    exact ⟨q, rfl, place, hidden⟩
  all_goals split at kept
  case move.isTrue fit =>
    obtain rfl := Option.some.inj kept
    exact ⟨_, if_pos fit, by simp [Property.place], hidden⟩
  case move.isFalse unfit =>
    rw [if_neg unfit]
    obtain ⟨away, same⟩ := Option.ite_none_left_eq_some.mp kept
    obtain rfl := Option.some.inj same
    exact ⟨q, if_neg away, place, hidden⟩
  case annotate.isTrue fit =>
    obtain rfl := Option.some.inj kept
    refine ⟨_, if_pos fit, ?_, ?_⟩
    · rw [place_annotate, place_annotate, place]
    · rw [hidden_annotate, hidden_annotate, hidden]
  case hide.isTrue marker fit =>
    obtain rfl := Option.some.inj kept
    exact ⟨_, if_pos fit, place, by rw [Property.hide, Property.hide, hidden]⟩
  case unhide.isTrue marker fit =>
    obtain rfl := Option.some.inj kept
    exact ⟨_, if_pos fit, place, by rw [Property.unhide, Property.unhide, hidden]⟩
  all_goals first
    | rename_i away
      obtain rfl := Option.some.inj kept
      exact ⟨q, if_neg away, place, hidden⟩
    | exact absurd kept (by simp)

theorem Does.distinct {c : Change} (does : Does a ps c qs) (distinct : Distinct ps) : Distinct qs := by
  cases does with
  | replace middle fit =>
    subst middle
    exact distinct.exchange rfl
  | add free =>
    refine distinct_middle.mpr ⟨fun q mem same => ?_, ?_⟩
    · have there := isAt_iff.mpr same
      rw [free q (by simpa using mem)] at there
      exact absurd there (by simp)
    · rwa [List.append_nil]
  | removeAll key name => exact distinct.sublist (List.filter_sublist.map _)
  | remove middle fit =>
    subst middle
    exact (distinct_middle.mp distinct).2
  | stay only => exact distinct
  | @move l r p key name source v middle fit unfit =>
    subst middle
    have sub : (l.filter (fun q => !q.isAt key name v) ++ r.filter fun q => !q.isAt key name v).Sublist (l ++ r) :=
      List.filter_sublist.append List.filter_sublist
    refine distinct_middle.mpr ⟨fun q mem same => ?_, (distinct_middle.mp distinct).2.sublist (sub.map _)⟩
    have away : q.isAt key name v = false := by
      rcases List.mem_append.mp mem with mem | mem <;> simpa using (List.mem_filter.mp mem).2
    have own : p.key = key ∧ p.name = name := by
      simp only [Bool.and_eq_true, named, beq_iff_eq] at fit
      exact fit.1.1
    have there : q.isAt key name v = true := isAt_iff.mpr (same.trans (by rw [place, own.1, own.2]))
    rw [away] at there
    exact absurd there (by simp)
  | annotate key name entry value v =>
    have same : (ps.map fun p => if p.named key name && p.visibleTo a then p.annotate a entry ⟨value, v⟩ else p).map
        place = ps.map place := by
      rw [List.map_map]
      refine List.map_congr_left fun p _ => ?_
      simp only [Function.comp_apply]
      split
      · exact place_annotate a entry ⟨value, v⟩ p
      · rfl
    unfold Distinct
    rw [same]
    exact distinct
  | relabel v => exact distinct
  | hide marker middle fit =>
    subst middle
    exact distinct.exchange rfl
  | unhide marker middle fit =>
    subst middle
    exact distinct.exchange rfl

theorem Does.mem_of_keep? {c : Change} (does : Does a ps c qs) (distinct : Distinct ps) {p q : Property} (mem : p ∈ ps)
    (kept : c.keep? a p = some q) : q ∈ qs := by
  cases does with
  | replace middle fit =>
    subst middle
    simp only [keep?] at kept
    obtain ⟨away, same⟩ := Option.ite_none_left_eq_some.mp kept
    obtain rfl := Option.some.inj same
    exact mem_exchange mem fun same => away (same ▸ fit)
  | add free =>
    rw [keep?, if_neg (by simp [free p mem])] at kept
    obtain rfl := Option.some.inj kept
    exact List.mem_append_left _ mem
  | removeAll key name =>
    simp only [keep?] at kept
    obtain ⟨away, same⟩ := Option.ite_none_left_eq_some.mp kept
    obtain rfl := Option.some.inj same
    rw [Bool.not_eq_true] at away
    exact List.mem_filter.mpr ⟨mem, by rw [away]; rfl⟩
  | remove middle fit =>
    subst middle
    simp only [keep?] at kept
    obtain ⟨away, same⟩ := Option.ite_none_left_eq_some.mp kept
    obtain rfl := Option.some.inj same
    rw [List.mem_append, List.mem_cons] at mem
    rcases mem with mem | rfl | mem
    · exact List.mem_append_left _ mem
    · exact absurd fit away
    · exact List.mem_append_right _ mem
  | @stay p₀ key name source only =>
    simp only [keep?] at kept
    split at kept
    · rename_i fit
      obtain rfl := Option.some.inj kept
      have own : p ∈ [p₀] := only ▸ List.mem_filter.mpr ⟨mem, fit⟩
      obtain rfl := List.mem_singleton.mp own
      exact mem
    · split at kept
      · exact absurd kept (by simp)
      · obtain rfl := Option.some.inj kept
        exact mem
  | @move l r p₀ key name source v middle fit unfit =>
    subst middle
    simp only [keep?] at kept
    rw [List.mem_append, List.mem_cons] at mem ⊢
    rcases mem with mem | rfl | mem
    · rw [if_neg (by simp [unfit p (List.mem_append_left r mem)])] at kept
      obtain ⟨away, same⟩ := Option.ite_none_left_eq_some.mp kept
      obtain rfl := Option.some.inj same
      exact .inl (List.mem_filter.mpr ⟨mem, by simpa using away⟩)
    · rw [if_pos fit] at kept
      obtain rfl := Option.some.inj kept
      exact .inr (.inl rfl)
    · rw [if_neg (by simp [unfit p (List.mem_append_right l mem)])] at kept
      obtain ⟨away, same⟩ := Option.ite_none_left_eq_some.mp kept
      obtain rfl := Option.some.inj same
      exact .inr (.inr (List.mem_filter.mpr ⟨mem, by simpa using away⟩))
  | annotate key name entry value v =>
    refine List.mem_map.mpr ⟨p, mem, ?_⟩
    simp only [keep?] at kept
    split at kept
    · rename_i fit
      rw [if_pos fit]
      exact Option.some.inj kept
    · rename_i unfit
      rw [if_neg unfit]
      exact Option.some.inj kept
  | relabel v =>
    obtain rfl := Option.some.inj kept
    exact mem
  | hide marker middle fit =>
    subst middle
    exact mem_mark distinct mem fit kept
  | unhide marker middle fit =>
    subst middle
    exact mem_mark distinct mem fit kept

/-- What becomes of a property under changes in their order. -/
def keepAll? (a : Authorizations) (changes : List Change) (p : Property) : Option Property :=
  changes.foldlM (fun p c => c.keep? a p) p

theorem keepAll?_cons {c : Change} {cs : List Change} {p q : Property} (kept : keepAll? a (c :: cs) p = some q) :
    ∃ mid, c.keep? a p = some mid ∧ keepAll? a cs mid = some q := by
  unfold keepAll? at kept
  rw [List.foldlM_cons] at kept
  exact Option.bind_eq_some_iff.mp kept

theorem keepAll?_congr {changes : List Change} {p p' q : Property} (place : q.place = p.place)
    (hidden : q.hidden = p.hidden) (kept : keepAll? a changes p = some p') :
    ∃ q', keepAll? a changes q = some q' ∧ q'.place = p'.place ∧ q'.hidden = p'.hidden := by
  induction changes generalizing p q with
  | nil =>
    obtain rfl := Option.some.inj kept
    exact ⟨q, rfl, place, hidden⟩
  | cons c cs ih =>
    obtain ⟨mid, here, later⟩ := keepAll?_cons kept
    obtain ⟨mid', here', place', hidden'⟩ := keep?_congr place hidden here
    obtain ⟨q', later', rest⟩ := ih place' hidden' later
    refine ⟨q', ?_, rest⟩
    unfold keepAll? at later' ⊢
    rw [List.foldlM_cons, here']
    exact later'

end Change

namespace Element

variable {a : Authorizations} {changes : List Change} {e f : Element}

theorem does_of_apply {c : Change} (h : e.apply a [c] = .ok f) : c.Does a e.properties f.properties := by
  obtain ⟨mid, first, rest⟩ := apply_cons h
  obtain rfl := pure_ok rest
  obtain ⟨v, ps, -, ok, rfl⟩ := Change.apply_ok first
  exact Change.does_of_ok ok

/-- What each of the changes keeps of the properties is kept by them all. -/
theorem apply_keeps {P : List Property → Prop}
    (step : ∀ {c : Change} {ps qs : List Property}, c ∈ changes → c.properties a ps = .ok qs → P ps → P qs)
    (h : e.apply a changes = .ok f) (before : P e.properties) : P f.properties := by
  induction changes generalizing e with
  | nil =>
    obtain rfl := pure_ok h
    exact before
  | cons c cs ih =>
    obtain ⟨mid, first, rest⟩ := apply_cons h
    obtain ⟨v, ps, -, ok, rfl⟩ := Change.apply_ok first
    exact ih (fun mem => step (List.mem_cons_of_mem c mem)) rest (step List.mem_cons_self ok before)

theorem apply_distinct (h : e.apply a changes = .ok f) (distinct : Property.Distinct e.properties) :
    Property.Distinct f.properties := apply_keeps (fun _ ok => (Change.does_of_ok ok).distinct) h distinct

/-- A property that is kept through the changes is among those that they leave, with the value that it had. -/
theorem mem_of_keepAll? (h : e.apply a changes = .ok f) (distinct : Property.Distinct e.properties) {p q : Property}
    (mem : p ∈ e.properties) (kept : Change.keepAll? a changes p = some q) :
    q ∈ f.properties ∧ q.value = p.value := by
  induction changes generalizing e p with
  | nil =>
    obtain rfl := pure_ok h
    obtain rfl := Option.some.inj kept
    exact ⟨mem, rfl⟩
  | cons c cs ih =>
    obtain ⟨mid, first, rest⟩ := apply_cons h
    obtain ⟨m, here, later⟩ := Change.keepAll?_cons kept
    obtain ⟨v, ps, -, ok, rfl⟩ := Change.apply_ok first
    have does := Change.does_of_ok ok
    obtain ⟨there, value⟩ := ih rest (does.distinct distinct) (does.mem_of_keep? distinct mem here) later
    exact ⟨there, value.trans (Change.keep?_value here)⟩

end Element

end GuardedGraph

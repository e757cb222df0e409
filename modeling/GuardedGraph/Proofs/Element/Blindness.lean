import GuardedGraph.Proofs.Contents.Places

/-! Changes are blind to what their writer cannot read. Of two elements that look alike to the writer, the same changes
make elements that look alike, or fail with the same error: no property that the writer cannot read decides what
happens, and no metadata does. -/

namespace GuardedGraph

open Outcome

variable {a : Authorizations}

namespace Property

/-! ### Single properties -/

/-- What a change of `a` can make of a property. -/
inductive Edit (a : Authorizations) : (Property → Property) → Prop
  | none : Edit a id
  | replace (value : Value) (metadata : Metadata) : Edit a (replace a value metadata)
  | annotate (name : String) (entry : Entry) : Edit a (annotate a name entry)
  | hide (marker : Visibility) : Edit a (hide marker)
  | unhide (marker : Visibility) : Edit a (unhide marker)
  | move (visibility : Visibility) : Edit a fun p => { p with visibility }

/-- The test depends on the place and the markers of a property only. -/
def Local (test : Property → Bool) : Prop := ∀ p q, q.place = p.place → q.hidden = p.hidden → test q = test p

theorem local_of_place {test : Property → Bool} (f : String × String × Visibility → Bool)
    (same : ∀ p, test p = f p.place) : Local test := fun p q place _ => by rw [same, same, place]

theorem local_isAt (key name : String) (v : Visibility) : Local (·.isAt key name v) :=
  local_of_place (fun place => place.1 == key && place.2.1 == name && place.2.2 == v) fun _ => rfl

theorem local_shown (a : Authorizations) : Local fun p => !p.hiddenFrom a := fun p q _ hidden => by
  simp only [hiddenFrom, hidden]

theorem local_visibleTo (a : Authorizations) : Local (·.visibleTo a) := fun p q place hidden => by
  have visibility : q.visibility = p.visibility := (Prod.mk.inj (Prod.mk.inj place).2).2
  simp only [visibleTo, visibility, hidden]

theorem Local.and {test other : Property → Bool} (first : Local test) (second : Local other) :
    Local fun p => test p && other p := fun p q place hidden => by
  simp only [first p q place hidden, second p q place hidden]

/-- A choice by a change of `a`: of properties that `a` can read, by their places and markers. -/
structure Choice (a : Authorizations) (fits : Property → Bool) : Prop where
  here : Local fits
  readable : ∀ p, fits p = true → p.visibility.readableBy a = true

theorem choice_isAt {v : Visibility} (readable : v.readableBy a = true) (key name : String) :
    Choice a (·.isAt key name v) := ⟨local_isAt key name v, fun _ fit => readable_of_isAt fit readable⟩

theorem choice_visible {test : Property → Bool} (here : Local test) : Choice a fun p => test p && p.visibleTo a :=
  ⟨here.and (local_visibleTo a), fun _ fit => readable_of_visibleTo (Bool.and_eq_true _ _ ▸ fit).2⟩

theorem Choice.and {fits other : Property → Bool} (choice : Choice a fits) (here : Local other) :
    Choice a fun p => fits p && other p :=
  ⟨choice.here.and here, fun p fit => choice.readable p (Bool.and_eq_true _ _ ▸ fit).1⟩

theorem choice_named (a : Authorizations) (key name : String) : Choice a fun p => p.named key name && p.visibleTo a :=
  choice_visible (local_of_place (fun place => place.1 == key && place.2.1 == name) fun _ => rfl)

theorem choice_move (a : Authorizations) (key name : String) (source : Option Visibility) :
    Choice a fun p => p.named key name && p.visibleTo a && source.all (· == p.visibility) :=
  (choice_named a key name).and (local_of_place (fun place => source.all (· == place.2.2)) fun _ => rfl)

/-- A partial sight of properties: all that `a` can read are seen, at their places and under their markers, and what
edits make of one looks as what they make of what is seen of it. -/
structure Sight (a : Authorizations) (see : Property → Option Property) : Prop where
  readable : ∀ p, p.visibility.readableBy a = true → (see p).isSome
  place : ∀ p q, see p = some q → q.place = p.place
  hidden : ∀ p q, see p = some q → q.hidden = p.hidden
  edited : ∀ p q, see p = some q → ∀ f, Edit a f → see (f q) = see (f p)

/-! ### Lists of properties -/

/-- The list with others in the place of its first fitting property, if there is one. -/
def exchangeFirst? (fits : Property → Bool) (instead : Property → List Property) :
    List Property → Option (List Property)
  | [] => none
  | p :: ps => if fits p then some (instead p ++ ps) else (exchangeFirst? fits instead ps).map (p :: ·)

theorem changeFirst?_eq (fits : Property → Bool) (f : Property → Property) (ps : List Property) :
    changeFirst? fits f ps = exchangeFirst? fits (fun p => [f p]) ps := by
  induction ps with
  | nil => rfl
  | cons p ps ih => rw [changeFirst?, exchangeFirst?, ih, List.singleton_append]

theorem removeFirst?_eq (fits : Property → Bool) (ps : List Property) :
    removeFirst? fits ps = exchangeFirst? fits (fun _ => []) ps := by
  induction ps with
  | nil => rfl
  | cons p ps ih => rw [removeFirst?, exchangeFirst?, ih, List.nil_append]

section

variable {see : Property → Option Property} (sight : Sight a see) {fits : Property → Bool} (choice : Choice a fits)
  {instead : Property → List Property} {p q : Property}

include sight

theorem Sight.again (seen : see p = some q) : see q = some q := (sight.edited p q seen id .none).trans seen

theorem filterMap_again (ps : List Property) : (ps.filterMap see).filterMap see = ps.filterMap see := by
  rw [List.filterMap_filterMap]
  refine List.filterMap_congr fun p _ => ?_
  cases seen : see p with
  | none => rfl
  | some q => exact sight.again seen

include choice

theorem Sight.fit (seen : see p = some q) : fits q = fits p :=
  choice.here p q (sight.place p q seen) (sight.hidden p q seen)

theorem Sight.unfit (unseen : see p = none) : fits p = false := by
  rw [← Bool.not_eq_true]
  intro fit
  have seen := sight.readable p (choice.readable p fit)
  rw [unseen] at seen
  exact absurd seen (by simp)

theorem filter_filterMap (ps : List Property) : (ps.filterMap see).filter fits = (ps.filter fits).filterMap see := by
  rw [List.filter_filterMap, ← List.filterMap_eq_filter, List.filterMap_filterMap]
  refine List.filterMap_congr fun p _ => ?_
  cases seen : see p with
  | none => simp [Option.guard, sight.unfit choice seen]
  | some q => cases fit : fits p <;> simp [Option.guard, Option.filter, sight.fit choice seen, fit, seen]

/-- Of the properties that fit, all are seen. -/
theorem forall₂_filterMap (ps : List Property) :
    List.Forall₂ (fun p q => see p = some q) (ps.filter fits) ((ps.filter fits).filterMap see) := by
  induction ps with
  | nil => exact .nil
  | cons p ps ih =>
    cases fit : fits p with
    | false => rwa [List.filter_cons_of_neg (by simp [fit])]
    | true =>
      obtain ⟨q, seen⟩ := Option.isSome_iff_exists.mp (sight.readable p (choice.readable p fit))
      rw [List.filter_cons_of_pos fit, List.filterMap_cons_some seen]
      exact .cons seen ih

theorem any_filterMap (ps : List Property) : (ps.filterMap see).any fits = ps.any fits := by
  rw [List.any_filterMap]
  congr 1
  funext p
  cases seen : see p with
  | none => exact (sight.unfit choice seen).symm
  | some q => exact sight.fit choice seen

omit sight choice in
/-- What is seen of the list after a property that does not fit. -/
theorem map_exchangeFirst?_cons (unfit : fits p = false) (ps : List Property) :
    (exchangeFirst? fits instead (p :: ps)).map (·.filterMap see) =
      ((exchangeFirst? fits instead ps).map (·.filterMap see)).map ((see p).toList ++ ·) := by
  rw [exchangeFirst?, if_neg (by simp [unfit]), Option.map_map, Option.map_map]
  refine congrArg (fun g => Option.map g _) (funext fun qs => ?_)
  cases seen : see p <;> simp [seen]

theorem exchangeFirst?_filterMap (alike : ∀ p q, see p = some q → (instead q).filterMap see = (instead p).filterMap see)
    (ps : List Property) :
    (exchangeFirst? fits instead (ps.filterMap see)).map (·.filterMap see) =
      (exchangeFirst? fits instead ps).map (·.filterMap see) := by
  induction ps with
  | nil => rfl
  | cons p ps ih =>
    cases seen : see p with
    | none =>
      rw [List.filterMap_cons_none seen, ih, map_exchangeFirst?_cons (sight.unfit choice seen), seen]
      simp [Function.comp_def]
    | some q =>
      rw [List.filterMap_cons_some seen]
      cases fit : fits p with
      | true =>
        rw [exchangeFirst?, exchangeFirst?, if_pos fit, if_pos (by rw [sight.fit choice seen, fit])]
        simp only [Option.map_some, List.filterMap_append, alike p q seen, filterMap_again sight]
      | false =>
        rw [map_exchangeFirst?_cons fit, map_exchangeFirst?_cons (by rw [sight.fit choice seen, fit]), ih, seen,
          sight.again seen]

end

end Property

/-! ### Changes -/

namespace Change

open Property

theorem map_present (key name : String) (o : Option (List Property)) (f : List Property → List Property) :
    (present key name o).map f = present key name (o.map f) := by
  cases o <;> rfl

variable {see : Property → Option Property}

/-- What is seen of a list after a step that takes each property by itself. -/
theorem filterMap_step {f : Property → Option Property} (unseen : ∀ p, see p = none → (f p).bind see = none)
    (seen : ∀ p q, see p = some q → (f q).bind see = (f p).bind see) (ps : List Property) :
    ((ps.filterMap see).filterMap f).filterMap see = (ps.filterMap f).filterMap see := by
  rw [List.filterMap_filterMap, List.filterMap_filterMap, List.filterMap_filterMap]
  refine List.filterMap_congr fun p _ => ?_
  cases here : see p with
  | none => exact (unseen p here).symm
  | some q => exact seen p q here

theorem moveOnly_filterMap (sight : Sight a see) {fits : Property → Bool} (choice : Choice a fits) {v : Visibility}
    (readable : v.readableBy a = true) (key name : String) (ps : List Property) :
    (moveOnly fits key name v (ps.filterMap see)).filterMap see = (moveOnly fits key name v ps).filterMap see := by
  have there := choice_isAt readable key name
  refine filterMap_step (fun p unseen => ?_) (fun p q seen => ?_) ps
  · simp [sight.unfit choice unseen, sight.unfit there unseen, unseen]
  · have moved := sight.edited p q seen _ (.move v)
    simp only [sight.fit choice seen, sight.fit there seen]
    split
    · exact moved
    · split
      · rfl
      · exact (sight.again seen).trans seen.symm

theorem changeFirst?_filterMap (sight : Sight a see) {fits : Property → Bool} (choice : Choice a fits)
    {f : Property → Property} (edit : Edit a f) (ps : List Property) :
    (changeFirst? fits f (ps.filterMap see)).map (·.filterMap see) =
      (changeFirst? fits f ps).map (·.filterMap see) := by
  rw [changeFirst?_eq, changeFirst?_eq]
  refine exchangeFirst?_filterMap sight choice (fun p q seen => ?_) ps
  simp only [List.filterMap_cons, sight.edited p q seen f edit]

theorem map_edit_filterMap (sight : Sight a see) {fits : Property → Bool} (choice : Choice a fits)
    {f : Property → Property} (edit : Edit a f) (ps : List Property) :
    ((ps.filterMap see).map fun p => if fits p then f p else p).filterMap see =
      (ps.map fun p => if fits p then f p else p).filterMap see := by
  rw [← List.filterMap_eq_map]
  refine filterMap_step (fun p unseen => ?_) (fun p q seen => ?_) ps
  · simp [sight.unfit choice unseen, unseen]
  · simp only [Function.comp_apply, Option.bind_some, sight.fit choice seen]
    split
    · exact sight.edited p q seen f edit
    · exact (sight.again seen).trans seen.symm

theorem filter_unfit_filterMap (sight : Sight a see) {fits : Property → Bool} (choice : Choice a fits)
    (ps : List Property) : ((ps.filterMap see).filter fun p => !fits p).filterMap see =
      (ps.filter fun p => !fits p).filterMap see := by
  rw [← List.filterMap_eq_filter]
  refine filterMap_step (fun p unseen => ?_) (fun p q seen => ?_) ps
  · simp [Option.guard, sight.unfit choice unseen, unseen]
  · cases fit : fits p <;> simp [Option.guard, sight.fit choice seen, fit, seen, sight.again seen]

/-- What is seen of the properties after a change is decided by what is seen of them before. -/
theorem properties_filterMap (sight : Sight a see) (c : Change) (ps : List Property) :
    (c.properties a (ps.filterMap see)).map (·.filterMap see) = (c.properties a ps).map (·.filterMap see) := by
  cases c with
  | set key name value v m =>
    unfold properties
    simp only
    split
    · rfl
    · refine map_bind_congr fun _ required => map_bind_congr fun _ _ => congrArg Except.ok ?_
      have choice := choice_isAt (require_ok required) key name
      show List.filterMap see _ = List.filterMap see _
      rw [← Option.getD_map (List.filterMap see), ← Option.getD_map (List.filterMap see),
        changeFirst?_filterMap sight choice (.replace value m)]
      simp only [List.filterMap_append, filterMap_again sight]
  | removeAll key name =>
    have choice : Choice a fun p => p.name == name && key.all (· == p.key) && p.visibleTo a :=
      choice_visible (local_of_place (fun place => place.2.1 == name && key.all (· == place.1)) fun _ => rfl)
    exact congrArg Except.ok (filter_unfit_filterMap sight choice ps)
  | remove key name v =>
    refine map_bind_congr fun _ required => ?_
    have choice := (choice_isAt (require_ok required) key name).and (local_shown a)
    rw [map_present, map_present, removeFirst?_eq, removeFirst?_eq,
      exchangeFirst?_filterMap sight choice fun _ _ _ => rfl]
  | move key name source v =>
    refine map_bind_congr fun _ required => map_bind_congr fun _ _ => ?_
    have choice := choice_move a key name source
    have versions := forall₂_filterMap sight choice ps
    simp only [filter_filterMap sight choice]
    generalize ps.filter (fun p => p.named key name && p.visibleTo a && source.all (· == p.visibility)) = fit
      at versions ⊢
    generalize fit.filterMap see = seen at versions ⊢
    cases versions with
    | nil => rfl
    | @cons p q _ _ seen rest =>
      cases rest with
      | nil =>
        have same : q.visibility = p.visibility := (Prod.mk.inj (Prod.mk.inj (sight.place p q seen)).2).2
        simp only [same]
        refine congrArg Except.ok ?_
        split
        · exact filterMap_again sight ps
        · exact moveOnly_filterMap sight choice (require_ok required) key name ps
      | cons _ others =>
        simp only [List.length_cons, others.length_eq]
  | annotate key name entry value v =>
    have choice := choice_named a key name
    refine map_bind_congr fun _ _ => ?_
    simp only [any_filterMap sight choice]
    split
    · exact congrArg Except.ok (map_edit_filterMap sight choice (.annotate entry ⟨value, v⟩) ps)
    · rfl
  | relabel v => exact congrArg Except.ok (filterMap_again sight ps)
  | hide key name v marker =>
    refine map_bind_congr fun _ _ => map_bind_congr fun _ required => ?_
    have choice := choice_isAt (require_ok required) key name
    rw [map_present, map_present, changeFirst?_filterMap sight choice (.hide marker)]
  | unhide key name v marker =>
    refine map_bind_congr fun _ _ => map_bind_congr fun _ required => ?_
    have choice := choice_isAt (require_ok required) key name
    rw [map_present, map_present, changeFirst?_filterMap sight choice (.unhide marker)]

end Change

namespace Element

/-- The element with what is seen of its properties. -/
def seen (see : Property → Option Property) (e : Element) : Element :=
  { e with properties := e.properties.filterMap see }

end Element

variable {see : Property → Option Property}

theorem Change.apply_seen (sight : Property.Sight a see) (c : Change) {e f : Element} (same : e.seen see = f.seen see) :
    (c.apply a e).map (Element.seen see) = (c.apply a f).map (Element.seen see) := by
  obtain ⟨id, visibility, properties, hidden⟩ := Element.mk.injEq .. ▸ same
  rw [apply, apply, visibility]
  refine map_bind_congr fun v _ => map_bind_alike (List.filterMap see) ?_ fun ps qs alike => ?_
  · calc (c.properties a e.properties).map (List.filterMap see)
      _ = (c.properties a (e.properties.filterMap see)).map (List.filterMap see) :=
        (c.properties_filterMap sight e.properties).symm
      _ = (c.properties a (f.properties.filterMap see)).map (List.filterMap see) := by rw [properties]
      _ = (c.properties a f.properties).map (List.filterMap see) := c.properties_filterMap sight f.properties
  · refine congrArg Except.ok ?_
    simp only [Element.seen, alike, id, hidden]

theorem Element.apply_seen (sight : Property.Sight a see) (changes : List Change) {e f : Element}
    (same : e.seen see = f.seen see) :
    (e.apply a changes).map (Element.seen see) = (f.apply a changes).map (Element.seen see) := by
  induction changes generalizing e f with
  | nil => exact congrArg Except.ok same
  | cons c cs ih =>
    unfold Element.apply
    rw [List.foldlM_cons, List.foldlM_cons]
    exact map_bind_alike (Element.seen see) (c.apply_seen sight same) fun _ _ alike => ih alike

/-! ### What a writer can read -/

namespace Property

/-- The properties that `a` can read. -/
def readable (a : Authorizations) (ps : List Property) : List Property := ps.filter (·.visibility.readableBy a)

/-- The property without the metadata that `a` cannot read. -/
def cleared (a : Authorizations) (p : Property) : Property := { p with metadata := p.metadata.readable a }

/-- The property without its metadata. -/
def stripped (p : Property) : Property := { p with metadata := .empty }

theorem stripped_annotate (name : String) (entry : Entry) (p : Property) :
    (p.annotate a name entry).stripped = p.stripped := by
  unfold annotate
  split <;> rfl

/-- What `a` sees of a property that it can read. -/
def read? (a : Authorizations) (p : Property) : Option Property := Option.guard (·.visibility.readableBy a) p

theorem read?_eq_some {p q : Property} : p.read? a = some q ↔ p.visibility.readableBy a = true ∧ q = p := by
  rw [read?, Option.guard_eq_some_iff, and_comm, eq_comm (a := p)]

theorem sight_read : Sight a (read? a) where
  readable p here := Option.isSome_iff_exists.mpr ⟨p, read?_eq_some.mpr ⟨here, rfl⟩⟩
  place p q seen := by rw [(read?_eq_some.mp seen).2]
  hidden p q seen := by rw [(read?_eq_some.mp seen).2]
  edited p q seen f _ := by rw [(read?_eq_some.mp seen).2]

theorem sight_stripped : Sight a fun p => (p.read? a).map stripped where
  readable p here := Option.isSome_iff_exists.mpr ⟨p.stripped, by simp [read?_eq_some.mpr ⟨here, rfl⟩]⟩
  place p q seen := by
    obtain ⟨p', there, rfl⟩ := Option.map_eq_some_iff.mp seen
    rw [(read?_eq_some.mp there).2]
    rfl
  hidden p q seen := by
    obtain ⟨p', there, rfl⟩ := Option.map_eq_some_iff.mp seen
    rw [(read?_eq_some.mp there).2]
    rfl
  edited p q seen f edit := by
    obtain ⟨p', there, rfl⟩ := Option.map_eq_some_iff.mp seen
    rw [(read?_eq_some.mp there).2]
    have one (x y : Property) (visibility : x.visibility = y.visibility) (same : x.stripped = y.stripped) :
        (x.read? a).map stripped = (y.read? a).map stripped := by
      simp only [read?, Option.guard, visibility]
      split <;> simp [same]
    cases edit with
    | none => exact one _ _ rfl rfl
    | replace value m => exact one _ _ rfl rfl
    | annotate name entry =>
      have visibility (x : Property) : (x.annotate a name entry).visibility = x.visibility :=
        (Prod.mk.inj (Prod.mk.inj (place_annotate a name entry x)).2).2
      exact one _ _ (by rw [visibility, visibility]; rfl) (by rw [stripped_annotate, stripped_annotate]; rfl)
    | hide marker => exact one _ _ rfl rfl
    | unhide marker => exact one _ _ rfl rfl
    | move v => exact one _ _ rfl rfl

end Property

namespace Element

/-- The element with the properties that `a` can read. -/
def readable (a : Authorizations) (e : Element) : Element := { e with properties := Property.readable a e.properties }

/-- The same without their metadata. -/
def stripped (a : Authorizations) (e : Element) : Element :=
  { e with properties := (Property.readable a e.properties).map Property.stripped }

theorem seen_read : Element.seen (Property.read? a) = readable a := by
  funext e
  rw [seen, readable, Property.readable, ← List.filterMap_eq_filter]
  rfl

theorem seen_stripped : Element.seen (fun p => (p.read? a).map Property.stripped) = stripped a := by
  funext e
  rw [seen, stripped, Property.readable, ← List.filterMap_eq_filter, List.map_filterMap]
  rfl

end Element

/-- Elements that differ only in properties that `a` cannot read become, by any changes of `a`, elements that differ
only in these, or no changes are made and the error is the same. If they differ also in entries of metadata that `a`
cannot read, they still fail alike, or come to differ in no more than such properties and in metadata. -/
theorem changes_blind (a : Authorizations) (changes : List Change) {e f : Element} (id : e.id = f.id)
    (visibility : e.visibility = f.visibility) (hidden : e.hidden = f.hidden) :
    (Property.readable a e.properties = Property.readable a f.properties →
      (e.apply a changes).map (Element.readable a) = (f.apply a changes).map (Element.readable a)) ∧
    ((Property.readable a e.properties).map (Property.cleared a) =
        (Property.readable a f.properties).map (Property.cleared a) →
      (e.apply a changes).map (Element.stripped a) = (f.apply a changes).map (Element.stripped a)) := by
  constructor
  · intro alike
    rw [← Element.seen_read]
    refine Element.apply_seen Property.sight_read changes ?_
    rw [Element.seen_read, Element.readable, Element.readable, alike, id, visibility, hidden]
  · intro alike
    have stripped : (Property.readable a e.properties).map Property.stripped =
        (Property.readable a f.properties).map Property.stripped := by
      have same := congrArg (List.map Property.stripped) alike
      rwa [List.map_map, List.map_map] at same
    rw [← Element.seen_stripped]
    refine Element.apply_seen Property.sight_stripped changes ?_
    rw [Element.seen_stripped, Element.stripped, Element.stripped, stripped, id, visibility, hidden]

def staff : Visibility := ⟨"staff", some (.term "staff"), by decide⟩

def board : Visibility := ⟨"board", some (.term "board"), by decide⟩

/-- A memo under the given metadata, with further properties. -/
def memo (metadata : Metadata) (further : List Property) : Element :=
  ⟨"v", .unrestricted, ⟨"", "title", .string "Budget", .unrestricted, metadata, []⟩ :: further, []⟩

def boardNotes : List Property :=
  [⟨"", "title", .string "Cuts", board, .empty, []⟩, ⟨"", "sum", .int 7, board, .empty, []⟩]

def signedByBoard : Metadata := .ofList [("author", ⟨.string "chair", board⟩)]

def staffChanges : List Change :=
  [.annotate "" "title" "author" (.string "clerk") staff, .move "" "title" none staff,
    .set "" "sum" (.int 5) staff .empty, .hide "" "sum" staff .unrestricted]

theorem changes_blind_memo :
    let writer := Authorizations.ofList ["staff"]
    let authors := fun e : Element => e.properties.map fun p => (p.metadata.get? "author").bind (·.value.text?)
    let full := (memo signedByBoard boardNotes).apply writer staffChanges
    let alone := (memo signedByBoard []).apply writer staffChanges
    let unsigned := (memo .empty []).apply writer staffChanges
    full.map (Element.readable writer) = alone.map (Element.readable writer) ∧
      full.map (Element.stripped writer) = unsigned.map (Element.stripped writer) ∧
      full.toOption.map authors = some [some "chair", none, none, none] ∧
      unsigned.toOption.map authors = some [some "clerk", none] :=
  ⟨(changes_blind _ _ rfl rfl rfl).1 rfl, (changes_blind _ _ rfl rfl rfl).2 rfl, by decide +kernel, by decide +kernel⟩

end GuardedGraph

import GuardedGraph.Proofs.Contents.Places
import GuardedGraph.Proofs.Element.Blindness
import GuardedGraph.Proofs.Reading.Seen
import GuardedGraph.Proofs.Visibility.Exact
import GuardedGraph.Proofs.Writing.Integrity
import Mathlib.Data.List.TakeWhile

/-!
Readers with more tokens. Expressions have no negation, so that whoever gains tokens can still read what was readable
before, at every level of an element; only markers can take something away (`gaining_tokens`). Metadata is a table: of
entries that a record lists under one name a view has the last that its reader can read, so that there a reader with
more tokens gets other metadata (`metadata_replaced_on_gaining`). No record lists a name twice that a graph has
written (`Graph.gaining_reachable`).
-/

namespace GuardedGraph

open Store (Memory)
open Outcome

variable {a b : Authorizations}

/-! ### Lists and tables -/

/-- Of two lists of which one is part of the other, what they become is related as the elements become it. -/
theorem sublist_forall₂ {α β γ : Type} {R : α → β → Prop} {S : α → γ → Prop} {T : β → γ → Prop} {l m : List α}
    {ys : List β} {zs : List γ} (step : ∀ x y z, R x y → S x z → T y z) (sub : l.Sublist m)
    (left : List.Forall₂ R l ys) (right : List.Forall₂ S m zs) : ∃ ss, ss.Sublist zs ∧ List.Forall₂ T ys ss := by
  induction sub generalizing ys zs with
  | slnil =>
    cases left
    exact ⟨[], List.nil_sublist zs, .nil⟩
  | cons x _ ih =>
    cases right with
    | cons _ right =>
      obtain ⟨ss, part, each⟩ := ih left right
      exact ⟨ss, part.cons _, each⟩
  | cons_cons x _ ih =>
    cases left with
    | cons one left =>
      cases right with
      | cons other right =>
        obtain ⟨ss, part, each⟩ := ih left right
        exact ⟨_ :: ss, part.cons_cons _, .cons (step x _ _ one other) each⟩

theorem filter_sublist_filter {α : Type} {p q : α → Bool} {l : List α} (imp : ∀ x ∈ l, p x = true → q x = true) :
    (l.filter p).Sublist (l.filter q) := by
  have twice : l.filter p = (l.filter q).filter p := by
    rw [List.filter_filter]
    refine List.filter_congr fun x mem => ?_
    cases fit : p x with
    | true => rw [imp x mem fit]; rfl
    | false => rfl
  rw [twice]
  exact List.filter_sublist

namespace Table

variable {α : Type} {l : List (String × α)} {k : String} {v : α}

theorem mem_of_get?_foldl {t : Table α} (found : (l.foldl (fun t e => t.insert e.1 e.2) t).get? k = some v) :
    (k, v) ∈ l ∨ t.get? k = some v := by
  induction l generalizing t with
  | nil => exact .inr found
  | cons e l ih =>
    obtain later | here := ih found
    · exact .inl (List.mem_cons_of_mem e later)
    · rw [get?_insert] at here
      split at here
      · next own => exact .inl (by rw [← own, ← Option.some.inj here]; exact List.mem_cons_self)
      · exact .inr here

theorem get?_foldl_of_notMem {t : Table α} (away : k ∉ l.map (·.1)) :
    (l.foldl (fun t e => t.insert e.1 e.2) t).get? k = t.get? k := by
  induction l generalizing t with
  | nil => rfl
  | cons e l ih =>
    rw [List.map_cons, List.mem_cons, not_or] at away
    rw [List.foldl_cons, ih away.2, get?_insert, if_neg (Ne.symm away.1)]

theorem get?_foldl_of_nodup {t : Table α} (names : (l.map (·.1)).Nodup) (mem : (k, v) ∈ l) :
    (l.foldl (fun t e => t.insert e.1 e.2) t).get? k = some v := by
  induction l generalizing t with
  | nil => exact absurd mem List.not_mem_nil
  | cons e l ih =>
    rw [List.map_cons, List.nodup_cons] at names
    obtain rfl | later := List.mem_cons.mp mem
    · rw [List.foldl_cons, get?_foldl_of_notMem names.1, get?_insert, if_pos rfl]
    · exact ih names.2 later

/-- A table of entries under different names has an entry under its name, or it has none of that name. -/
theorem get?_ofList_of_sublist {m : List (String × α)} (sub : l.Sublist m) (names : (m.map (·.1)).Nodup)
    (found : (ofList l).get? k = some v) : (ofList m).get? k = some v := by
  obtain mem | none := mem_of_get?_foldl found
  · exact get?_foldl_of_nodup names (sub.subset mem)
  · exact absurd none (by simp)

end Table

/-! ### Expressions -/

namespace Visibility

theorem Expr.eval_mono {held held' : String → Bool} (more : ∀ token, held token = true → held' token = true) {e : Expr}
    (holds : e.eval held = true) : e.eval held' = true := by
  induction e with
  | term token => exact more token holds
  | both left right ihl ihr =>
    simp only [eval, Bool.and_eq_true] at holds ⊢
    exact ⟨ihl holds.1, ihr holds.2⟩
  | either left right ihl ihr =>
    simp only [eval, Bool.or_eq_true] at holds ⊢
    exact holds.imp ihl ihr

theorem Expr.eval_nothing (e : Expr) : e.eval (fun _ => false) = false := by
  induction e with
  | term token => rfl
  | both left right ihl ihr => rw [eval, ihl, Bool.false_and]
  | either left right ihl ihr => rw [eval, ihl, ihr, Bool.or_false]

theorem readableBy_mono (more : ∀ token, a.holds token = true → b.holds token = true) {v : Visibility}
    (readable : v.readableBy a = true) : v.readableBy b = true := by
  unfold readableBy at readable ⊢
  cases rule : v.rule with
  | none => rfl
  | some e =>
    rw [rule] at readable
    exact Expr.eval_mono more readable

theorem rule_of_readableBy_empty {v : Visibility} (readable : v.readableBy .empty = true) : v.rule = none := by
  unfold readableBy at readable
  cases rule : v.rule with
  | none => rfl
  | some e =>
    rw [rule] at readable
    exact absurd (readable.symm.trans (Expr.eval_nothing e)) (by simp)

theorem blank_of_spells_nil {cs : List Char} (spells : Spells cs []) : ∀ c ∈ cs, Text.isBlank c = true := by
  generalize none : ([] : List Lexeme) = ls at spells
  induction spells with
  | done => exact nofun
  | blank blank _ ih => exact List.forall_mem_cons.mpr ⟨blank, ih none⟩
  | _ => exact nomatch none

/-- What everyone can read has a text without an expression. -/
theorem text_of_readableBy_empty {text : String} {v : Visibility} (made : ofText text = .ok v)
    (readable : v.readableBy .empty = true) : v.text = "" := by
  have parsed := rule_of_ofText made
  rw [rule_of_readableBy_empty readable] at parsed
  obtain ⟨ls, spells, ⟨rfl, -⟩ | ⟨e, -, none⟩⟩ := parse_ok_iff.mp parsed
  · have none : text.toList.dropWhile Text.isBlank = [] :=
      List.dropWhile_eq_nil_iff.mpr (blank_of_spells_nil spells)
    rw [text_of_ofText made, Text.trim, Text.trimLeft, none]
    rfl
  · exact absurd none (by simp)

end Visibility

/-! ### Views -/

/-- Nothing of the record is hidden from anyone. -/
structure Record.Unhidden (r : Record) : Prop where
  element : r.hidden = []
  properties : ∀ p ∈ r.properties, p.hidden = []
  edgeRefs : ∀ e ∈ r.edgeRefs, e.hidden = []

/-- No property of the record has two entries of metadata under one name. -/
def Record.NamesEntriesOnce (r : Record) : Prop := ∀ p ∈ r.properties, (p.metadata.map (·.name)).Nodup

theorem Record.Encoded.namesEntriesOnce {r : Record} {threshold : Nat} (encoded : r.Encoded threshold) :
    r.NamesEntriesOnce := by
  intro p mem
  obtain ⟨q, rfl, -⟩ := encoded p mem
  have names : q.encode.metadata.map (·.name) = q.metadata.keys := by
    simp [Property.encode, Table.keys, List.map_map, Function.comp_def]
  rw [names]
  exact (Table.ascending_keys _).imp fun {x y} (before : x < y) (same : x = y) => String.lt_irrefl y (same ▸ before)

/-- The properties are the same but for metadata. -/
def Property.SameValue (p q : Property) : Prop := q.place = p.place ∧ q.value = p.value

/-- The second property has also the metadata of the first. -/
def Property.ShownBy (p q : Property) : Prop :=
  p.SameValue q ∧ ∀ name entry, p.metadata.get? name = some entry → q.metadata.get? name = some entry

/-- A part of the second list is related to the first one by one. -/
def PartBy {α : Type} (R : α → α → Prop) (l m : List α) : Prop := ∃ ss, ss.Sublist m ∧ List.Forall₂ R l ss

/-- References are a part of those of the other view, and endpoints are the same. -/
def LinksWithin : {t : ElementType} → Links t → Links t → Prop
  | .vertex, refs, refs' => List.Sublist (α := EdgeRef) refs refs'
  | .edge, ends, ends' => ends = ends'

section

variable (more : ∀ token, a.holds token = true → b.holds token = true)
include more

theorem sees_mono {v : Visibility} {hidden : List Visibility} (plain : hidden = []) (sees : a.sees v hidden = true) :
    b.sees v hidden = true := by
  subst plain
  simp only [Authorizations.sees, Visibility.anyReadableBy, List.any_nil, Bool.not_false, Bool.and_true] at sees ⊢
  exact Visibility.readableBy_mono more sees

/-- What a reader sees of a property is seen also with more tokens. -/
theorem shownBy_of_view {r : PropertyRecord} {p q : Property} (seen : r.view a = .ok p) (seen' : r.view b = .ok q) :
    p.SameValue q ∧ ((r.metadata.map (·.name)).Nodup → p.ShownBy q) := by
  obtain ⟨entries, value, read, stored, rfl⟩ := decodeWith_ok_iff.mp seen
  obtain ⟨entries', value', read', stored', rfl⟩ := decodeWith_ok_iff.mp seen'
  obtain rfl := Except.ok.inj (stored.symm.trans stored')
  have same : Property.SameValue ⟨r.key, r.name, value, r.visibility, .ofList entries, []⟩
      ⟨r.key, r.name, value, r.visibility, .ofList entries', []⟩ := ⟨rfl, rfl⟩
  refine ⟨same, fun names => ⟨same, fun name entry found => ?_⟩⟩
  have sub : entries.Sublist entries' := by
    obtain ⟨ss, part, each⟩ := sublist_forall₂ (T := Eq)
      (fun e x y one other => Except.ok.inj (one.symm.trans other))
      (List.monotone_filter_right r.metadata fun e readable => Visibility.readableBy_mono more readable)
      (mapM_ok_iff.mp read) (mapM_ok_iff.mp read')
    rw [List.forall₂_eq_eq_eq] at each
    exact each ▸ part
  have names' : (entries'.map (·.1)).Nodup := by
    have listed : entries'.map (·.1) = (r.metadata.filter (·.visibility.readableBy b)).map (·.name) := by
      refine map_eq_of_forall₂ (mapM_ok_iff.mp read') fun e x decoded => ?_
      obtain ⟨v, -, rfl⟩ := map_ok decoded
      rfl
    rw [listed]
    exact names.sublist (List.filter_sublist.map _)
  exact Table.get?_ofList_of_sublist sub names' found

variable {t : ElementType} {r : Record} {v : View t}

theorem links_mono (unhidden : r.Unhidden) {links links' : Links t} (seen : r.links a t = .ok links)
    (seen' : r.links b t = .ok links') : LinksWithin links links' := by
  cases t with
  | vertex =>
    obtain rfl := Except.ok.inj seen
    obtain rfl := Except.ok.inj seen'
    exact (filter_sublist_filter fun e mem => sees_mono more (unhidden.edgeRefs e mem)).map _
  | edge => exact Except.ok.inj (seen.symm.trans seen')

omit more in
theorem endpoints_of_links {links : Links t} (linked : r.links a t = .ok links) (edge : t = .edge) :
    r.endpoints.isSome = true := by
  subst edge
  cases ends : r.endpoints with
  | none => simp [Record.links, ends] at linked
  | some e => rfl

/-- Of a record that hides nothing, a reader with more tokens sees every property that one with fewer sees. -/
theorem properties_mono (unhidden : r.Unhidden) {ps qs : List Property}
    (seen : (r.properties.filter (·.visibleTo a)).mapM (·.view a) = .ok ps)
    (seen' : (r.properties.filter (·.visibleTo b)).mapM (·.view b) = .ok qs) :
    PartBy (fun p q => p.SameValue q ∧ (r.NamesEntriesOnce → p.ShownBy q)) ps qs := by
  have sub := filter_sublist_filter fun p mem => sees_mono (v := p.visibility) more (unhidden.properties p mem)
  have left := (List.forall₂_and_left _ _).mpr
    ⟨fun p mem => (List.mem_filter.mp mem).1, mapM_ok_iff.mp seen⟩
  refine sublist_forall₂ (fun x p q one other => ?_) sub left (mapM_ok_iff.mp seen')
  obtain ⟨same, shown⟩ := shownBy_of_view more one.2 other
  exact ⟨same, fun names => shown (names x one.1)⟩

theorem view_mono (unhidden : r.Unhidden) (whole : ∃ w, r.whole = .ok w) (seen : r.view? t a = .ok (some v)) :
    ∃ w, r.view? t b = .ok (some w) ∧ PartBy Property.SameValue v.properties w.properties ∧
      LinksWithin v.links w.links ∧ (r.NamesEntriesOnce → PartBy Property.ShownBy v.properties w.properties) := by
  obtain ⟨rfl, visible, ps, links, read, linked, rfl⟩ := view?_some_iff.mp seen
  obtain ⟨w, whole⟩ := whole
  have visible' : r.visibleTo b = true := sees_mono more unhidden.element visible
  obtain ⟨o, seen'⟩ := view?_ok_of_whole whole (endpoints_of_links linked) r.type b
  have view := seen'
  rw [view?_of_visible visible'] at view
  obtain ⟨qs, read', view⟩ := bind_ok view
  obtain ⟨links', linked', view⟩ := bind_ok view
  obtain rfl := pure_ok view
  obtain ⟨ss, part, each⟩ := properties_mono more unhidden read read'
  exact ⟨_, seen', ⟨ss, part, each.imp fun p q both => both.1⟩, links_mono more unhidden linked linked',
    fun names => ⟨ss, part, each.imp fun p q both => both.2 names⟩⟩

/-- In a graph that has come from an empty store, whoever gains tokens sees, of an element of which nothing is hidden
and which decodes, all that was seen before, with its metadata. -/
theorem Graph.gaining_reachable {g : Graph Memory} (reachable : g.Reachable) {id : String}
    (found : g.store.get? t id = some r) (unhidden : r.Unhidden) (whole : ∃ w, r.whole = .ok w)
    (seen : g.get? t id a = .ok (some v)) : ∃ w, g.get? t id b = .ok (some w) ∧
      PartBy Property.ShownBy v.properties w.properties ∧ LinksWithin v.links w.links := by
  rw [get?_some found] at seen
  obtain ⟨w, seen', -, links, shown⟩ := view_mono more unhidden whole seen
  have names := (encoded_of_reachable reachable t id r found).namesEntriesOnce
  exact ⟨w, (get?_some found).trans seen', shown names, links⟩

end

/-- Whoever gains tokens can read every visibility that was readable before, and what is readable without tokens has an
empty expression. Of a record that hides nothing and decodes, there is still a view; it has the properties of the former
one, with their values, and its edge references, and, if the record lists entries of metadata once for each name,
their metadata. -/
theorem gaining_tokens (more : ∀ token, a.holds token = true → b.holds token = true) :
    (∀ v : Visibility, v.readableBy a = true → v.readableBy b = true) ∧
      (∀ text v, Visibility.ofText text = .ok v → v.readableBy .empty = true → v.text = "") ∧
      ∀ (t : ElementType) (r : Record) (v : View t), r.Unhidden → (∃ w, r.whole = .ok w) →
        r.view? t a = .ok (some v) → ∃ w, r.view? t b = .ok (some w) ∧
          PartBy Property.SameValue v.properties w.properties ∧ LinksWithin v.links w.links ∧
          (r.NamesEntriesOnce → PartBy Property.ShownBy v.properties w.properties) := by
  exact ⟨fun v => Visibility.readableBy_mono more, fun text v => Visibility.text_of_readableBy_empty,
    fun t r v unhidden whole seen => view_mono more unhidden whole seen⟩

/-- A vertex with one public property, whose metadata has the entries, and with another one for the board. -/
def memoRecord (entries : List EntryRecord) : Record :=
  ⟨.vertex, "v1", .unrestricted, [], [⟨"", "title", .unrestricted, (Value.string "Budget").encode, entries, []⟩,
    ⟨"", "sum", board, (Value.string "7").encode, [], []⟩], none, []⟩

/-- The entries of metadata under a name among the properties of a view, as far as they are texts. -/
def View.notes {t : ElementType} (v : View t) (name : String) : List (Option String) :=
  v.properties.map fun p => (p.metadata.get? name).bind (·.value.text?)

theorem view_of_notes {t : ElementType} {r : Record} (name : String) (notes : List (Option String))
    (seen : (r.view? t a).toOption.join.map (·.notes name) = some notes) :
    ∃ v, r.view? t a = .ok (some v) ∧ v.notes name = notes := by
  obtain ⟨v, join, same⟩ := Option.map_eq_some_iff.mp seen
  exact ⟨v, Graph.join_toOption_eq_some.mp join, same⟩

theorem unhidden_memoRecord (entries : List EntryRecord) : (memoRecord entries).Unhidden where
  element := rfl
  properties p mem := by
    obtain rfl | rfl : p = _ ∨ p = _ := by simpa [memoRecord] using mem
    · rfl
    · rfl
  edgeRefs := nofun

def boardMember : Authorizations := .ofList ["board"]

theorem gaining_tokens_memo :
    let record := memoRecord [⟨"state", .unrestricted, (Value.string "draft").encode⟩,
      ⟨"author", board, (Value.string "chair").encode⟩]
    (∀ token, Authorizations.empty.holds token = true → boardMember.holds token = true) ∧ record.Unhidden ∧
      (∃ w, record.whole = .ok w) ∧ record.NamesEntriesOnce ∧ ∃ v w, record.view? .vertex .empty = .ok (some v) ∧
        record.view? .vertex boardMember = .ok (some w) ∧ PartBy Property.ShownBy v.properties w.properties ∧
          v.notes "author" = [none] ∧ w.notes "author" = [some "chair", none] := by
  intro record
  have more : ∀ token, Authorizations.empty.holds token = true → boardMember.holds token = true := nofun
  have once : record.NamesEntriesOnce := by
    intro p mem
    obtain rfl | rfl : p = _ ∨ p = _ := by simpa [record, memoRecord] using mem
    · decide
    · decide
  have whole : ∃ w, record.whole = .ok w := ok_of_isOk (by decide +kernel)
  obtain ⟨v, seen, notes⟩ := view_of_notes (r := record) (t := .vertex) (a := .empty) "author" [none]
    (by decide +kernel)
  obtain ⟨w', seen', notes'⟩ := view_of_notes (r := record) (t := .vertex) (a := boardMember) "author"
    [some "chair", none] (by decide +kernel)
  obtain ⟨w, got, -, -, shown⟩ := (gaining_tokens more).2.2 .vertex record v (unhidden_memoRecord _) whole seen
  obtain rfl := Option.some.inj (Except.ok.inj (got.symm.trans seen'))
  exact ⟨more, unhidden_memoRecord _, whole, once, v, w, seen, got, shown once, notes, notes'⟩

/-- Of two entries under one name, of which a reader can read only the first, the reader loses it for the second when it
can read both. -/
theorem metadata_replaced_on_gaining :
    let record := memoRecord [⟨"state", .unrestricted, (Value.string "draft").encode⟩,
      ⟨"state", board, (Value.string "final").encode⟩]
    (∀ token, Authorizations.empty.holds token = true → boardMember.holds token = true) ∧ record.Unhidden ∧
      (∃ w, record.whole = .ok w) ∧ ∃ v w, record.view? .vertex .empty = .ok (some v) ∧
        record.view? .vertex boardMember = .ok (some w) ∧ ¬PartBy Property.ShownBy v.properties w.properties := by
  intro record
  obtain ⟨v, seen, notes⟩ := view_of_notes (r := record) (t := .vertex) (a := .empty) "state" [some "draft"]
    (by decide +kernel)
  obtain ⟨w, seen', notes'⟩ := view_of_notes (r := record) (t := .vertex) (a := boardMember) "state"
    [some "final", none] (by decide +kernel)
  refine ⟨nofun, unhidden_memoRecord _, ok_of_isOk (by decide +kernel), v, w, seen, seen', ?_⟩
  rintro ⟨ss, part, each⟩
  have draft : some "draft" ∈ v.notes "state" := by rw [notes]; exact List.mem_cons_self
  obtain ⟨p, mem, note⟩ := List.mem_map.mp draft
  obtain ⟨entry, found, text⟩ := Option.bind_eq_some_iff.mp note
  obtain ⟨q, mem', shown⟩ := exists_right_of_mem each mem
  have kept : some "draft" ∈ w.notes "state" :=
    List.mem_map.mpr ⟨q, part.subset mem', by rw [shown.2 "state" entry found]; exact text⟩
  rw [notes'] at kept
  exact absurd kept (by decide)

end GuardedGraph

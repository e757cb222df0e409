import GuardedGraph.Proofs.Contents.Lasting

/-! Every element owns the contents that its properties stand for, and what a property has been set to can be read
from it through the rest of the run. -/

namespace GuardedGraph

open Store (Memory)
open Outcome Commit

variable {l : Ledger} {past past' : List (Graph Memory)} {g h : Graph Memory} {t : ElementType} {id : String}
  {a : Authorizations} {p q : Property} {c : ByteArray}

/-! ### Who owns what -/

/-- The value of some stored property of the element. -/
def Graph.Stores (g : Graph Memory) (t : ElementType) (id : String) (v : Value) : Prop :=
  ∃ r, g.store.get? t id = some r ∧ ∃ p ∈ r.properties, Value.decode p.value = .ok v

/-- The content of every stream is where it belongs: in the record if it is short, else under a key that no other
element has. -/
structure Graph.ContentsOwned (g : Graph Memory) : Prop where
  held : ∀ t id kind key length attached, g.Stores t id (.stream ⟨kind, .external key length attached⟩) →
    ∃ content, g.store.kept? key = some content ∧ content.size = length
  own : ∀ t id s u j r key, g.Stores t id (.stream s) → g.Stores u j (.stream r) → s.key? = some key →
    r.key? = some key → t = u ∧ id = j
  short : ∀ t id kind content, g.Stores t id (.stream ⟨kind, .inline content⟩) → content.size ≤ g.config.threshold

theorem Graph.Stores.owns {s : Value.Stream} {key : String} (stores : g.Stores t id (.stream s))
    (found : s.key? = some key) : g.Owns t id key := by
  obtain ⟨r, there, p, mem, read⟩ := stores
  exact ⟨r, there, Record.mem_keptKeys.mpr ⟨p, mem, s, read, found⟩⟩

theorem Graph.Stores.honest {v : Value} (stores : g.Stores t id v) (ledgered : Ledgered l g) : v.Honest l := by
  obtain ⟨r, there, p, mem, read⟩ := stores
  exact ((ledgered.fit t id r there).honest p mem).value v read

theorem Ledgered.contentsOwned (ledgered : Ledgered l g) : g.ContentsOwned where
  held t id kind key length attached stores := by
    obtain ⟨content, kept⟩ := Option.isSome_iff_exists.mp (ledgered.held t id key (stores.owns rfl))
    obtain ⟨-, d, known, size⟩ := stores.honest ledgered _ (List.mem_singleton_self _)
    obtain rfl := Option.some.inj ((ledgered.kept key content kept).symm.trans known)
    exact ⟨content, kept, size⟩
  own t id s u j r key first second found found' :=
    ledgered.own t id u j key (first.owns found) (second.owns found')
  short t id kind content stores := by
    obtain ⟨r, there, p, mem, read⟩ := stores
    exact (ledgered.fit t id r there).short p mem _ content read rfl

/-! ### Setting a property to a stream -/

/-- One of the changes that the save makes of `e` sets a property to the stream, and the later ones make `p` of it. -/
def Save.Sets (s : Save) (a : Authorizations) (e : Element) (st : Value.Stream) (p : Property) : Prop :=
  ∃ before key name visibility metadata rest mid new,
    s.changes = before ++ [.set key name (.stream st) visibility metadata] ++ rest ∧
    e.apply a (before ++ [.set key name (.stream st) visibility metadata]) = .ok mid ∧
    new ∈ mid.properties ∧ new.place = (key, name, visibility) ∧ Change.keepAll? a rest new = some p

theorem Element.apply_append {cs ds : List Change} {e f : Element} (h : e.apply a (cs ++ ds) = .ok f) :
    ∃ mid, e.apply a cs = .ok mid ∧ mid.apply a ds = .ok f := by
  unfold apply at h
  rw [List.foldlM_append] at h
  exact bind_ok h

theorem Change.Does.value_set {ps qs : List Property} {key name : String} {value : Value} {v : Visibility}
    {m : Metadata} (does : Does a ps (.set key name value v m) qs) (distinct : Property.Distinct ps) (mem : p ∈ qs)
    (place : p.place = (key, name, v)) : p.value = value := by
  have distinct := does.distinct distinct
  cases does with
  | @replace l r old _ _ _ _ _ middle fit =>
    rw [distinct.eq mem (List.mem_append_right _ List.mem_cons_self) (place.trans (Property.isAt_iff.mp fit).symm)]
    rfl
  | add free =>
    rw [distinct.eq mem (List.mem_append_right _ List.mem_cons_self) place]

theorem Save.Sets.mem {s : Save} {e f : Element} {st : Value.Stream} (sets : s.Sets a e st p)
    (applied : e.apply a s.changes = .ok f) (distinct : Property.Distinct e.properties) :
    p ∈ f.properties ∧ p.value = .stream st := by
  obtain ⟨before, key, name, visibility, metadata, rest, mid, new, changes, first, there, place, kept⟩ := sets
  rw [changes] at applied
  obtain ⟨mid', first', later⟩ := Element.apply_append applied
  obtain rfl := Except.ok.inj (first.symm.trans first')
  have value : new.value = .stream st := by
    obtain ⟨old, early, single⟩ := Element.apply_append first
    obtain ⟨_, now, last⟩ := Element.apply_cons single
    obtain rfl := pure_ok last
    obtain ⟨v, ps, -, does, rfl⟩ := Change.apply_ok now
    exact (Change.does_of_ok does).value_set (Element.apply_distinct early distinct) there place
  obtain ⟨mem, same⟩ := Element.mem_of_keepAll? later (Element.apply_distinct first distinct) there kept
  exact ⟨mem, same.trans value⟩

/-- The content of a stream that a save comes to write has been there before the save. -/
theorem Prepared.found {s : Save} {v : Revision} {element : Element} {st : Value.Stream} (prepared : Prepared s a g h v)
    (ledgered : Ledgered l g) (filed : g.store.Filed) (supplied : ∀ c ∈ s.changes, ∀ s ∈ c.streams, s.Honest l)
    (applied : v.base.element.apply a s.changes = .ok element) (mem : p ∈ element.properties)
    (value : p.value = .stream st) : st.Honest l ∧ ∃ c, st.contentIn g.store = some c := by
  obtain ⟨element', ps, applied', placed, -⟩ := prepared.changed
  obtain rfl := Except.ok.inj (applied.symm.trans applied')
  obtain ⟨base, -, owns⟩ := prepared.base ledgered filed
  have honest : st.Honest l :=
    (Element.apply_honest applied supplied base p mem).value st (by rw [value]; exact List.mem_singleton_self st)
  refine ⟨honest, ?_⟩
  obtain ⟨q, -, ⟨-, belongs⟩ | ⟨s₀, n, content, mid, value₀, -, early, -, found, -⟩⟩ := exists_right_of_mem placed mem
  · have here := belongs st value
    obtain ⟨kind, source⟩ := st
    cases source with
    | inline content => exact ⟨content, rfl⟩
    | external key length attached => exact Option.isSome_iff_exists.mp (ledgered.held _ _ key (owns key here))
  · obtain rfl := Value.stream.inj (value₀.symm.trans value)
    exact ⟨content, (honest.found ledgered early found).1⟩

/-! ### The rest of the run -/

/-- In the run that goes on from `g`, the property `p` of the element has neither been replaced nor removed, nor has
the element, and it has become the last property named. -/
inductive Graph.Lasts (t : ElementType) (id : String) (past : List (Graph Memory)) (g : Graph Memory) (p : Property) :
    List (Graph Memory) → Graph Memory → Property → Prop
  | here : Lasts t id past g p past g p
  | step {past' : List (Graph Memory)} {h : Graph Memory} {q r : Property} (o : Operation) :
      Lasts t id past g p past' h q → o.Supplied (h :: past') → o.keep? h t id q = some r →
        Lasts t id past g p (h :: past') (o.after h) r

theorem Graph.Lasts.holds (lasts : Graph.Lasts t id past g p past' h q) (run : Graph.Run past g)
    (ledger : RunLedger l past g) (holds : g.Holds t id p l c) :
    Graph.Run past' h ∧ ∃ m, RunLedger m past' h ∧ h.Holds t id q m c := by
  -- what has been shown to readers before has to be carried along, for they may write it later
  induction lasts with
  | here => exact ⟨run, l, ledger, holds⟩
  | step o lasts supplied kept ih =>
    obtain ⟨run, m, ledger, holds⟩ := ih
    obtain ⟨n, within, ledgered, holds⟩ := holds.step (mirrored_of_reachable run.reachable) ledger.ledgered
      (ledger.supplied supplied) kept
    exact ⟨.step o run supplied, n, ledger.step within ledgered, holds⟩

/-- In every graph of a run, each element owns the contents of its properties. A save that comes to writing a
property set to a stream has found a content there, and that is what every reader finds in the property until it or
its element is removed or replaced, whatever else the run does. -/
theorem contents_owned_and_lasting (run : Graph.Run past g) :
    g.ContentsOwned ∧
      ∀ s a v mid, (Operation.save s a).Supplied (g :: past) → exec (prepare a s) g = (.ok v, mid) →
        ∀ st p, s.Sets a v.base.element st p → ∃ c, st.attach.read g.kept = .ok c ∧
          ∀ past' h q,
            Graph.Lasts v.after.type v.after.element.id (g :: past) ((Operation.save s a).after g) p past' h q →
              h.Reads v.after.type v.after.element.id q c := by
  obtain ⟨l, ledger⟩ := run.ledger
  have ledgered := ledger.ledgered
  have mirrored := mirrored_of_reachable run.reachable
  refine ⟨ledgered.contentsOwned, fun s a v mid supplied ok st p sets => ?_⟩
  have prepared := prepare_ok ok
  have honest := ledger.supplied supplied
  obtain ⟨element, _, applied, -⟩ := prepared.changed
  obtain ⟨mem, value⟩ := sets.mem applied (prepared.base ledgered mirrored.filed).2.1
  obtain ⟨sound, c, found⟩ := prepared.found ledgered mirrored.filed honest applied mem value
  have means := means_of_found ledgered found
  refine ⟨c, read_of_means ledgered sound means fun key own => ?_, fun past' h q lasts => ?_⟩
  · obtain ⟨kind, source⟩ := st
    cases source with
    | inline content => exact absurd own (by simp [Value.Stream.key?])
    | external k length attached =>
      obtain rfl := Option.some.inj own
      exact Option.isSome_iff_exists.mpr ⟨c, found⟩
  · have after := after_save mirrored.filed ok
    have start := prepared.holds ledgered mirrored honest applied mem value means
    rw [← after] at start
    have ledger := ledger.step (l.within_and _) (ledgered.written mirrored prepared honest)
    rw [← after] at ledger
    obtain ⟨-, m, ledger, holds⟩ := lasts.holds (.step _ run supplied) ledger start
    exact holds.reads ledger.ledgered

/-! A text that is copied from a vertex, which then is removed. -/

def textVertex (id : String) (s : Value.Stream) : Save :=
  .vertex ⟨some id, .unrestricted, [.set "" "text" (.stream s) .unrestricted .empty]⟩

def textProperty (s : Value.Stream) : Property := ⟨"", "text", .stream s, .unrestricted, .empty, []⟩

def shortGraph : Graph Memory := .ofStore .empty ⟨4, none, false⟩ none

def sourceGraph : Graph Memory :=
  (Operation.save (textVertex "v1" (.ofText "shared long text")) .empty).after shortGraph

def copiedText : Value.Stream := ⟨.string, .external "vertex/v1//text//019b0000000070008000000000000000" 16 true⟩

def copyGraph : Graph Memory := (Operation.save (textVertex "v2" copiedText) .empty).after sourceGraph

theorem run_sourceGraph : Graph.Run [shortGraph] sourceGraph := by
  refine .step _ (.start _ _ _) fun c mem s there => .inl ⟨"shared long text".toUTF8, ?_, by decide +kernel⟩
  obtain rfl := List.mem_singleton.mp mem
  obtain rfl := List.mem_singleton.mp there
  rfl

theorem shows_copiedText : sourceGraph.Shows copiedText := by
  have seen : ((sourceGraph.get? .vertex "v1" .empty).toOption.join.any fun v =>
      v.properties.any fun p => copiedText ∈ p.streams) = true := by decide +kernel
  obtain ⟨v, there, seen⟩ := (Option.any_eq_true _ _).mp seen
  obtain ⟨p, mem, shown⟩ := List.any_eq_true.mp seen
  refine ⟨.vertex, "v1", .empty, v, ?_, p, mem, of_decide_eq_true shown⟩
  cases read : sourceGraph.get? .vertex "v1" .empty with
  | error e =>
    rw [read] at there
    exact absurd there (by simp [Except.toOption])
  | ok w =>
    rw [read] at there
    exact congrArg Except.ok there

theorem copied_text_outlasts_source :
    Graph.Run [shortGraph] sourceGraph ∧ sourceGraph.Shows copiedText ∧
      ((Operation.removeVertex "v1" .empty).after copyGraph).store.get? .vertex "v1" = none ∧
      (((Operation.removeVertex "v1" .empty).after copyGraph).get? .vertex "v2" .empty).map Option.isSome = .ok true ∧
      ((Operation.removeVertex "v1" .empty).after copyGraph).Reads .vertex "v2" (textProperty copiedText)
        "shared long text".toUTF8 := by
  have run := run_sourceGraph
  refine ⟨run, shows_copiedText, by decide +kernel, by decide +kernel, ?_⟩
  have supplied : (Operation.save (textVertex "v2" copiedText) .empty).Supplied [sourceGraph, shortGraph] := by
    intro c mem s there
    obtain rfl := List.mem_singleton.mp mem
    obtain rfl := List.mem_singleton.mp there
    exact .inr ⟨sourceGraph, List.mem_cons_self, shows_copiedText⟩
  have named : ((exec (prepare .empty (textVertex "v2" copiedText)) sourceGraph).1.toOption.map fun v =>
      v.after.element.id) = some "v2" := by decide +kernel
  rcases ok : exec (prepare .empty (textVertex "v2" copiedText)) sourceGraph with ⟨_ | v, mid⟩
  · rw [ok] at named
    exact absurd named (by simp [Except.toOption])
  · rw [ok] at named
    have named : v.after.element.id = "v2" := Option.some.inj named
    obtain ⟨-, id, base, -⟩ := (prepare_ok ok).starts
    have type : v.after.type = .vertex := (prepare_ok ok).same.type.trans (base ▸ rfl)
    have sets : (textVertex "v2" copiedText).Sets .empty v.base.element copiedText (textProperty copiedText) := by
      rw [base]
      exact ⟨[], "", "text", .unrestricted, .empty, [], _, textProperty copiedText, rfl, rfl, List.mem_singleton_self _,
        rfl, rfl⟩
    obtain ⟨c, read, lasting⟩ := (contents_owned_and_lasting run).2 _ _ v mid supplied ok _ _ sets
    have content : copiedText.attach.read sourceGraph.kept = .ok "shared long text".toUTF8 := by decide +kernel
    obtain rfl := Except.ok.inj (read.symm.trans content)
    rw [type, named] at lasting
    exact lasting _ _ _ (.step (.removeVertex "v1" .empty) .here (fun c mem => absurd mem (by simp [Operation.changes]))
      (if_neg (by decide +kernel)))

end GuardedGraph

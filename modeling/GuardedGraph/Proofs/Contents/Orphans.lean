import GuardedGraph.Proofs.Contents.Halfway
import GuardedGraph.Proofs.Contents.Ownership
import GuardedGraph.Proofs.Writing.Cascade

/-! Contents that no element stands for. A save that stops halfway leaves what it has kept by then, no other
operation leaves any, and none takes it away. -/

namespace GuardedGraph

open Store (Memory)
open Outcome Commit
open GuardedGraph.Graph (Grown MadeKey)

variable {l : Ledger} {past states : List (Graph Memory)} {f g h mid : Graph Memory} {t : ElementType} {id key : String}
  {o : Operation} {s : Save} {a : Authorizations} {v : Revision} {r : Record} {w : Whole}

/-- Content is kept under the key, and no value of an element stands for it. -/
def Graph.Orphaned (g : Graph Memory) (key : String) : Prop :=
  (g.store.kept? key).isSome ∧ ∀ t id, ¬g.Owns t id key

namespace Operation

/-- The operation is a save that fails before it writes, and it has kept content under the key by then. -/
def Abandons (o : Operation) (g : Graph Memory) (key : String) : Prop :=
  ∃ s a e h, o = .save s a ∧ exec (prepare a s) g = (.error e, h) ∧ g.store.kept? key = none ∧
    (h.store.kept? key).isSome

/-- The operation is a save of which the contents cannot all be settled, but the first that moves can. -/
def StopsHalfway (o : Operation) (g : Graph Memory) : Prop :=
  ∃ s a v h, o = .save s a ∧ exec (changing a s) g = (.ok v, h) ∧
    Halfway v.after.element.properties v.base.keptKeys g

end Operation

/-- In one of the steps from state to state, latest first, an operation has abandoned content under the key. -/
inductive Abandoned (key : String) : List (Graph Memory) → Prop
  | here {o : Operation} {f h : Graph Memory} {earlier : List (Graph Memory)} : h = o.after f →
      o.Supplied (f :: earlier) → o.Abandons f key → Abandoned key (h :: f :: earlier)
  | later {h : Graph Memory} {states : List (Graph Memory)} : Abandoned key states → Abandoned key (h :: states)

/-! ### When content is abandoned -/

theorem exec_settling (v : Revision) (g : Graph Memory) :
    exec (settling v) g =
      match exec (v.after.element.properties.mapM (settle v.after.type v.after.element.id v.base.keptKeys)) g with
      | (.ok properties, h) =>
        (.ok { v with after := { v.after with element := { v.after.element with properties } } }, h)
      | (.error e, h) => (.error e, h) := by
  rw [settling, settleAll, exec_bind, exec_bind]
  rcases exec (v.after.element.properties.mapM (settle v.after.type v.after.element.id v.base.keptKeys)) g with
    ⟨_ | properties, h⟩ <;> rfl

theorem exec_prepare_changing (s : Save) (a : Authorizations) (g : Graph Memory) :
    (∃ e h, exec (changing a s) g = (.error e, h) ∧ exec (prepare a s) g = (.error e, h) ∧ h.store = g.store) ∨
      ∃ v mid, exec (changing a s) g = (.ok v, mid) ∧ exec (prepare a s) g = exec (settling v) mid ∧
        g.Grown mid ∧ mid.store = g.store := by
  rw [exec_prepare, exec_bind]
  have mints := (mints_changing a s).grown g
  rcases changed : exec (changing a s) g with ⟨e | v, mid⟩
  · rw [changed] at mints
    exact .inl ⟨e, mid, rfl, rfl, mints.2⟩
  · rw [changed] at mints
    exact .inr ⟨v, mid, rfl, rfl, mints⟩

theorem Operation.Abandons.unsettled (abandons : o.Abandons g key) :
    ∃ s a v mid e h, o = .save s a ∧ exec (prepare a s) g = (.error e, h) ∧ exec (changing a s) g = (.ok v, mid) ∧
      g.Grown mid ∧ h.store.kept? key ≠ mid.store.kept? key ∧
      exec (v.after.element.properties.mapM (settle v.after.type v.after.element.id v.base.keptKeys)) mid =
        (.error e, h) := by
  obtain ⟨s, a, e, h, rfl, run, free, left⟩ := abandons
  rcases exec_prepare_changing s a g with ⟨e', h', -, prepared, same⟩ | ⟨v, mid, changed, prepared, grown, same⟩
  · obtain ⟨-, rfl⟩ := Prod.mk.inj (run.symm.trans prepared)
    rw [same, free] at left
    exact absurd left (by simp)
  · refine ⟨s, a, v, mid, e, h, rfl, run, changed, grown, ?_, ?_⟩
    · rw [same, free]
      exact Option.ne_none_iff_isSome.mpr left
    · rw [prepared, exec_settling] at run
      split at run
      · exact absurd (Prod.mk.inj run).1 (by simp)
      · rename_i settled
        obtain ⟨failed, rfl⟩ := Prod.mk.inj run
        exact settled.trans (Prod.ext (congrArg Except.error (Except.error.inj failed)) rfl)

theorem Operation.Abandons.missing (abandons : o.Abandons g key) (filed : g.store.Filed) :
    ∃ k, o.outcome g = .error (.storage (.missing k)) := by
  obtain ⟨s, a, v, mid, e, h, rfl, run, -, -, -, unsettled⟩ := abandons.unsettled
  obtain ⟨k, rfl⟩ := missing_of_unsettled unsettled
  exact ⟨k, by rw [Operation.outcome, Operation.exec_save_commit s a filed, run]⟩

theorem abandons_iff (ledgered : Ledgered l g) (supplied : ∀ c ∈ o.changes, ∀ s ∈ c.streams, s.Honest l) :
    (∃ key, o.Abandons g key) ↔ o.StopsHalfway g := by
  constructor
  · rintro ⟨key, abandons⟩
    obtain ⟨s, a, v, mid, e, h, rfl, -, changed, grown, differs, unsettled⟩ := abandons.unsettled
    have honest := changing_honest ledgered supplied changed
    have halfway := halfway_iff ledgered grown v.after.type v.after.element.id v.base.keptKeys honest
    rw [unsettled] at halfway
    exact ⟨s, a, v, mid, rfl, changed, halfway.mp ⟨⟨e, rfl⟩, key, differs⟩⟩
  · rintro ⟨s, a, v, mid, rfl, changed, halfway⟩
    rcases exec_prepare_changing s a g with ⟨e, h, failed, -⟩ | ⟨v', mid', changed', prepared, grown, same⟩
    · exact absurd (Prod.mk.inj (failed.symm.trans changed)).1 (by simp)
    · obtain ⟨own, rfl⟩ := Prod.mk.inj (changed'.symm.trans changed)
      obtain rfl := Except.ok.inj own
      have honest := changing_honest ledgered supplied changed
      obtain ⟨⟨e, failed⟩, key, differs⟩ := (halfway_iff ledgered grown _ _ _ honest).mpr halfway
      rw [exec_settling] at prepared
      have later := (exec_settle_mapM v'.after.type v'.after.element.id v'.base.keptKeys
        v'.after.element.properties mid').1
      rcases run : exec (v'.after.element.properties.mapM
          (settle v'.after.type v'.after.element.id v'.base.keptKeys)) mid' with ⟨e' | ps, h⟩
      · rw [run] at prepared differs later
        refine ⟨key, s, a, e', h, rfl, prepared, ?_⟩
        rw [← same]
        cases before : mid'.store.kept? key with
        | none =>
          rw [before] at differs
          exact ⟨rfl, Option.ne_none_iff_isSome.mp differs⟩
        | some content =>
          obtain ⟨n, old, made⟩ := kept_made ledgered grown before
          exact absurd (later.kept?_made made old) differs
      · rw [run] at failed
        exact absurd failed (by simp)

/-! ### What becomes of orphans -/

/-- Elements that go take with them what they own, and the others own what they have. -/
theorem orphaned_iff_of_gone (gone : ElementType → String → Prop)
    (contents : ∀ key content, h.store.kept? key = some content ↔
      g.store.kept? key = some content ∧ ∀ t id, gone t id → ¬g.Owns t id key)
    (owns : ∀ t id key, h.Owns t id key ↔ g.Owns t id key ∧ ¬gone t id) : h.Orphaned key ↔ g.Orphaned key := by
  unfold Graph.Orphaned
  simp only [Option.isSome_iff_exists, contents, owns]
  constructor
  · rintro ⟨⟨content, kept, free⟩, left⟩
    exact ⟨⟨content, kept⟩, fun t id own => left t id ⟨own, fun goes => free t id goes own⟩⟩
  · rintro ⟨⟨content, kept⟩, free⟩
    exact ⟨⟨content, kept, fun t id _ => free t id⟩, fun t id both => free t id both.1⟩

theorem orphaned_iff_of_same (contents : h.store.contents = g.store.contents)
    (owns : ∀ t id key, h.Owns t id key ↔ g.Owns t id key) : h.Orphaned key ↔ g.Orphaned key := by
  refine orphaned_iff_of_gone (fun _ _ => False) (fun key content => ?_) fun t id key => ?_
  · simp [Memory.kept?, contents]
  · simp [owns]

theorem orphaned_grown (ledgered : Ledgered l g) (grown : g.Grown h) : h.Orphaned key ↔
    g.Orphaned key ∨ g.store.kept? key = none ∧ (h.store.kept? key).isSome := by
  have owns (t : ElementType) (id : String) : h.Owns t id key ↔ g.Owns t id key := by
    unfold Graph.Owns
    rw [grown.get?]
  unfold Graph.Orphaned
  simp only [owns]
  cases before : g.store.kept? key with
  | none =>
    have free (t : ElementType) (id : String) : ¬g.Owns t id key := fun own => by
      have held := ledgered.held t id key own
      rw [before] at held
      exact absurd held (by simp)
    simp [free]
  | some content =>
    obtain ⟨n, old, made⟩ := ledgered.old_of_kept before
    rw [grown.kept?_made made old, before]
    simp

/-- A prepared save has kept contents only for what it is going to write. -/
theorem kept?_of_prepared (run : exec (prepare a s) g = (.ok v, h)) (key : String) :
    h.store.kept? key = g.store.kept? key ∨ key ∈ v.after.keptKeys := by
  rcases exec_prepare_changing s a g with ⟨e, k, -, failed, -⟩ | ⟨v', mid, -, prepared, -, same⟩
  · exact absurd (Prod.mk.inj (failed.symm.trans run)).1 (by simp)
  · rw [exec_settling] at prepared
    rcases settled : exec (v'.after.element.properties.mapM
        (settle v'.after.type v'.after.element.id v'.base.keptKeys)) mid with ⟨e | ps, k⟩
    · rw [settled] at prepared
      exact absurd (Prod.mk.inj (prepared.symm.trans run)).1 (by simp)
    · rw [settled] at prepared
      obtain ⟨own, rfl⟩ := Prod.mk.inj (prepared.symm.trans run)
      obtain rfl := Except.ok.inj own
      rw [← same]
      exact (kept?_of_settled settled key).imp_right Whole.mem_keptKeys.mpr

theorem keptKeys_encode (honest : ∀ p ∈ w.element.properties, p.Honest l) (mem : key ∈ w.keptKeys) :
    key ∈ w.encode.keptKeys := by
  obtain ⟨p, there, s, value, own⟩ := Whole.mem_keptKeys.mp mem
  have measured := ((honest p there).value s (by rw [value]; exact List.mem_singleton_self s)).measured
  refine Record.mem_keptKeys.mpr ⟨p.encode, List.mem_map_of_mem there, s.detached, ?_, ?_⟩
  · rw [Property.encode, value]
    exact Value.decode_encode_stream measured
  · obtain ⟨kind, source⟩ := s
    cases source <;> exact own

theorem keptKeys_whole (whole : r.whole = .ok w) (mem : key ∈ r.keptKeys) : key ∈ w.keptKeys := by
  obtain ⟨ps, each, rfl⟩ := whole_ok_iff.mp whole
  obtain ⟨p, there, s, read, own⟩ := Record.mem_keptKeys.mp mem
  obtain ⟨q, found, decoded⟩ := exists_right_of_mem (mapM_ok_iff.mp each) there
  have value := decodeWith_value decoded
  rw [decodeAttached, read] at value
  exact Whole.mem_keptKeys.mpr ⟨q, found, s.attach, (Except.ok.inj value).symm, (key?_attach s).trans own⟩

section

variable (ledgered : Ledgered l g) (mirrored : Mirrored g.store)
include ledgered mirrored

theorem orphaned_written (run : exec (prepare a s) g = (.ok v, h))
    (supplied : ∀ c ∈ s.changes, ∀ s ∈ c.streams, s.Honest l) : (h.written v).Orphaned key ↔ g.Orphaned key := by
  have prepared := prepare_ok run
  have contents : (h.written v).store.kept? key =
      if key ∈ v.base.keptKeys ∧ key ∉ v.after.keptKeys then none else h.store.kept? key := by
    rw [Graph.written, indexed_store]
    exact kept?_rewritten h.store v key
  have own : (h.written v).Owns v.after.type v.after.element.id key ↔ key ∈ v.after.keptKeys := by
    rw [owns_iff_mem (get?_written_own mirrored prepared)]
    exact ⟨keptKeys_of_encode, keptKeys_encode (prepared.honest ledgered mirrored.filed supplied)⟩
  have base : g.Owns v.after.type v.after.element.id key → key ∈ v.base.keptKeys := by
    rintro ⟨r, found, mem⟩
    cases prepared.origin mirrored.filed with
    | new free _ => exact absurd (free.symm.trans found) (by simp)
    | stored _ found' whole =>
      obtain rfl := Option.some.inj (found.symm.trans found')
      exact keptKeys_whole whole mem
  have other {t : ElementType} {id : String} (away : ¬(t = v.after.type ∧ id = v.after.element.id)) :
      (h.written v).Owns t id key ↔ g.Owns t id key := by
    have reached := get?_written mirrored prepared t id
    rw [if_neg away] at reached
    exact reached.owns_iff
  constructor
  · rintro ⟨kept, free⟩
    have unwritten : key ∉ v.after.keptKeys := fun mem => free _ _ (own.mpr mem)
    have unowned : key ∉ v.base.keptKeys := by
      intro mem
      rw [contents, if_pos ⟨mem, unwritten⟩] at kept
      exact absurd kept (by simp)
    rw [contents, if_neg fun both => unowned both.1] at kept
    refine ⟨(kept?_of_prepared run key).resolve_right unwritten ▸ kept, fun t id owns => ?_⟩
    by_cases here : t = v.after.type ∧ id = v.after.element.id
    · obtain ⟨rfl, rfl⟩ := here
      exact unowned (base owns)
    · exact free t id ((other here).mpr owns)
  · rintro ⟨kept, free⟩
    obtain ⟨content, kept⟩ := Option.isSome_iff_exists.mp kept
    obtain ⟨n, old, made⟩ := ledgered.old_of_kept kept
    refine ⟨?_, fun t id owns => ?_⟩
    · have unowned : key ∉ v.base.keptKeys := fun mem =>
        free _ _ ((prepared.base ledgered mirrored.filed).2.2 key mem)
      rw [contents, if_neg fun both => unowned both.1, prepared.grown.kept?_made made old, kept]
      rfl
    · by_cases here : t = v.after.type ∧ id = v.after.element.id
      · obtain ⟨rfl, rfl⟩ := here
        rcases (prepared.kept ledgered mirrored.filed (own.mp owns)).2 with before | new
        · exact free _ _ before
        · exact not_new old made new
      · exact free t id ((other here).mp owns)

end

theorem owns_withoutEdge (filed : g.store.Filed) (id : String) (t : ElementType) (j : String) :
    (g.withoutEdge id none).Owns t j key ↔ g.Owns t j key ∧ ¬(t = .edge ∧ j = id) := by
  cases t with
  | vertex => simpa using (sameBut_withoutEdge filed id none j).owns_iff
  | edge =>
    have reached := get?_edge_withoutEdge filed id none j
    by_cases own : id = j
    · rw [if_pos own] at reached
      exact iff_of_false (not_owns_of_missing reached) fun both => both.2 ⟨rfl, own.symm⟩
    · rw [if_neg own] at reached
      rw [(sameBut_of_eq reached).owns_iff]
      exact (and_iff_left fun same => own same.2.symm).symm

theorem owns_cascade (mirrored : Mirrored g.store) (found : g.store.get? .vertex id = some r) (t : ElementType)
    (j : String) : ((g.withoutEdges (edgeIds r.edgeRefs) (some id)).withoutVertex id).Owns t j key ↔
      g.Owns t j key ∧ ¬g.goesWith id t j := by
  have weaker := mirrored.weaken id
  have reached := get?_withoutVertex (g.withoutEdges (edgeIds r.edgeRefs) (some id)) id t j
  cases t with
  | vertex =>
    by_cases own : j = id
    · rw [if_pos ⟨rfl, own⟩] at reached
      exact iff_of_false (not_owns_of_missing reached) fun both => both.2 (decide_eq_true own)
    · rw [if_neg fun both => own both.2] at reached
      rw [((sameBut_withoutEdges weaker _ j).trans (sameBut_of_eq reached)).owns_iff]
      exact (and_iff_left fun goes => own (of_decide_eq_true goes)).symm
  | edge =>
    rw [if_neg (by simp), get?_edge_withoutEdges weaker] at reached
    have goes := mem_edgeIds_iff_goesWith mirrored found j
    split at reached
    · rename_i mem
      exact iff_of_false (not_owns_of_missing reached) fun both => both.2 (goes.mp mem)
    · rename_i stays
      rw [(sameBut_of_eq reached).owns_iff]
      exact (and_iff_left fun gone => stays (goes.mpr gone)).symm

theorem orphaned_marked (mirrored : Mirrored g.store) (found : g.store.get? t id = some r) (hidden : List Visibility) :
    (g.marked r hidden).Orphaned key ↔ g.Orphaned key := by
  refine orphaned_iff_of_same (contents_marked g r hidden) fun u j key => ?_
  have reached := get?_marked mirrored found hidden u j
  split at reached
  · rename_i own
    obtain ⟨rfl, rfl⟩ := own
    rw [owns_iff_mem reached, owns_iff_mem found]
    rfl
  · exact reached.owns_iff

/-! ### Operations and runs -/

theorem not_abandons (other : ∀ s a, o ≠ .save s a) : ¬o.Abandons g key := by
  rintro ⟨s, a, -, -, own, -⟩
  exact other s a own

theorem orphaned_after (ledgered : Ledgered l g) (mirrored : Mirrored g.store)
    (supplied : ∀ c ∈ o.changes, ∀ s ∈ c.streams, s.Honest l) :
    (o.after g).Orphaned key ↔ g.Orphaned key ∨ o.Abandons g key := by
  have mark {t : ElementType} {id : String} {marker : Visibility} {a : Authorizations}
      (change : List Visibility → Visibility → List Visibility) :
      (exec (mark change t id marker a) g).2.Orphaned key ↔ g.Orphaned key := by
    rw [exec_mark _ _ _ _ _ mirrored.filed]
    cases markable : g.markable t id marker a with
    | error e => rfl
    | ok r => exact orphaned_marked mirrored (Graph.markable_ok markable).1 _
  unfold Operation.after
  cases o with
  | save s a =>
    rw [Operation.exec_save_commit s a mirrored.filed]
    have grown := grows_prepare a s g
    rcases run : exec (prepare a s) g with ⟨e | v, h⟩
    · rw [run] at grown
      refine (orphaned_grown ledgered grown).trans (or_congr_right ⟨fun new => ⟨s, a, e, h, rfl, run, new⟩, ?_⟩)
      rintro ⟨s', a', e', h', own, run', new⟩
      obtain ⟨rfl, rfl⟩ := Operation.save.inj own
      obtain ⟨-, rfl⟩ := Prod.mk.inj (run.symm.trans run')
      exact new
    · refine (orphaned_written ledgered mirrored run supplied).trans (or_iff_left ?_).symm
      rintro ⟨s', a', e', h', own, run', -⟩
      obtain ⟨rfl, rfl⟩ := Operation.save.inj own
      exact absurd (Prod.mk.inj (run.symm.trans run')).1 (by simp)
  | removeVertex id a =>
    rw [or_iff_left (not_abandons (by simp)), Operation.commit, exec_removeVertex]
    cases writable : g.writable .vertex id a with
    | error e => rfl
    | ok r =>
      have found := (Graph.writable_ok writable).1
      cases readable : g.edgesReadable id r.edgeRefs a with
      | error e =>
        simp only [bind, Except.bind, readable]
      | ok _ =>
        simp only [bind, Except.bind, readable, pure, Except.pure]
        refine orphaned_iff_of_gone (fun t j => g.goesWith id t j) (fun key content => ?_)
          fun t j key => owns_cascade mirrored found t j
        exact kept?_cascade_eq_some mirrored (mem_edgeIds_iff_goesWith mirrored found)
  | removeEdge id a =>
    rw [or_iff_left (not_abandons (by simp)), Operation.commit, exec_removeEdge]
    cases writable : g.writable .edge id a with
    | error e => rfl
    | ok r =>
      refine orphaned_iff_of_gone (fun t j => t = .edge ∧ j = id) (fun key content => ?_)
        fun t j key => owns_withoutEdge mirrored.filed id t j
      rw [kept?_withoutEdge_eq_some]
      simp
  | hide t id marker a => exact (mark addMarker).trans (or_iff_left (not_abandons (by simp))).symm
  | unhide t id marker a => exact (mark dropMarker).trans (or_iff_left (not_abandons (by simp))).symm
  | declare name kind =>
    rw [or_iff_left (not_abandons (by simp))]
    exact orphaned_iff_of_same rfl fun _ _ _ => Iff.rfl

theorem Graph.Run.orphaned_after (run : Graph.Run past g) (supplied : o.Supplied (g :: past)) :
    (o.after g).Orphaned key ↔ g.Orphaned key ∨ o.Abandons g key := by
  obtain ⟨l, ledger⟩ := run.ledger
  exact GuardedGraph.orphaned_after ledger.ledgered (mirrored_of_reachable run.reachable) (ledger.supplied supplied)

theorem Graph.Run.orphaned_iff (run : Graph.Run past g) : g.Orphaned key ↔ Abandoned key (g :: past) := by
  induction run with
  | start config index =>
    refine iff_of_false (fun orphaned => ?_) fun abandoned => ?_
    · exact absurd orphaned.1 (by simp [Graph.ofStore, Memory.empty, Memory.kept?])
    · cases abandoned with
      | later none => cases none
  | @step past g o run supplied ih =>
    rw [run.orphaned_after supplied, ih]
    constructor
    · rintro (before | abandons)
      · exact .later before
      · exact .here rfl supplied abandons
    · intro abandoned
      cases abandoned with
      | later before => exact .inl before
      | here same supplied' abandons =>
        rw [← ih, ← run.orphaned_after supplied, same, run.orphaned_after supplied']
        exact .inr abandons

/-- No element stands for a content exactly if some save has abandoned it, and a save abandons contents exactly if
it stops halfway. It fails then, for the content of one of its properties is missing. -/
theorem orphans_exact (run : Graph.Run past g) :
    (∀ key, g.Orphaned key ↔ Abandoned key (g :: past)) ∧
    ∀ o : Operation, o.Supplied (g :: past) → ((∃ key, o.Abandons g key) ↔ o.StopsHalfway g) ∧
      ∀ key, o.Abandons g key → ∃ k, o.outcome g = .error (.storage (.missing k)) := by
  obtain ⟨l, ledger⟩ := run.ledger
  refine ⟨fun key => run.orphaned_iff, fun o supplied => ⟨?_, fun key abandons => ?_⟩⟩
  · exact abandons_iff ledger.ledgered (ledger.supplied supplied)
  · exact abandons.missing (mirrored_of_reachable run.reachable).filed

/-! A vertex with a text of its own and a copy of a text that is gone with its vertex. -/

def collage : Save :=
  .vertex ⟨some "v2", .unrestricted, [.set "" "own" (.stream (.ofText "another long text")) .unrestricted .empty,
    .set "" "copied" (.stream copiedText) .unrestricted .empty]⟩

def emptiedGraph : Graph Memory := (Operation.removeVertex "v1" .empty).after sourceGraph

def halfwayGraph : Graph Memory := (Operation.save collage .empty).after emptiedGraph

theorem orphans_exact_collage :
    Graph.Run [emptiedGraph, sourceGraph, shortGraph] halfwayGraph ∧
      (Operation.save collage .empty).StopsHalfway emptiedGraph ∧
      halfwayGraph.Orphaned "vertex/v2//own//019b0000000070008000000000000001" ∧
      halfwayGraph.store.get? .vertex "v2" = none := by
  have emptied : Graph.Run [sourceGraph, shortGraph] emptiedGraph :=
    .step (.removeVertex "v1" .empty) run_sourceGraph fun c mem => absurd mem (by simp [Operation.changes])
  have supplied : (Operation.save collage .empty).Supplied [emptiedGraph, sourceGraph, shortGraph] := by
    intro c mem s there
    rcases List.mem_cons.mp mem with rfl | mem
    · obtain rfl := List.mem_singleton.mp there
      exact .inl ⟨"another long text".toUTF8, rfl, by decide +kernel⟩
    · obtain rfl := List.mem_singleton.mp mem
      obtain rfl := List.mem_singleton.mp there
      exact .inr ⟨sourceGraph, by simp, shows_copiedText⟩
  have abandons : (Operation.save collage .empty).Abandons emptiedGraph
      "vertex/v2//own//019b0000000070008000000000000001" := by
    have failed : (exec (prepare .empty collage) emptiedGraph).1.toOption.isNone = true := by decide +kernel
    have left : ((exec (prepare .empty collage) emptiedGraph).2.store.kept?
        "vertex/v2//own//019b0000000070008000000000000001").isSome = true := by decide +kernel
    rcases run : exec (prepare .empty collage) emptiedGraph with ⟨e | v, h⟩
    · rw [run] at left
      exact ⟨collage, .empty, e, h, rfl, run, by decide +kernel, left⟩
    · rw [run] at failed
      exact absurd failed (by simp [Except.toOption])
  have run : Graph.Run [emptiedGraph, sourceGraph, shortGraph] halfwayGraph := .step _ emptied supplied
  have halfway := ((orphans_exact emptied).2 _ supplied).1.mp ⟨_, abandons⟩
  have orphaned := ((orphans_exact run).1 _).mpr (.here rfl supplied abandons)
  exact ⟨run, halfway, orphaned, by decide +kernel⟩

end GuardedGraph

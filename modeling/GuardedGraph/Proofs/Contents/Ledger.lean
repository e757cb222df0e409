import GuardedGraph.Proofs.Contents.Streams
import GuardedGraph.Proofs.Writing.Frames

/-! The contents that a graph keeps, and the elements that own them. -/

namespace GuardedGraph

open Store (Memory)
open GuardedGraph.Graph (NewKey MadeKey)
open Outcome

/-! ### Contents of a store -/

namespace Store.Memory

theorem kept?_discardAll (m : Memory) (keys : List String) (key : String) :
    (keys.foldl discard m).kept? key = if key ∈ keys then none else m.kept? key := by
  induction keys generalizing m with
  | nil => simp
  | cons k keys ih =>
    have one : (m.discard k).kept? key = if k = key then none else m.kept? key := Table.get?_erase _ _ _
    rw [List.foldl_cons, ih, one]
    by_cases own : key = k
    · simp [own]
    · simp [own, Ne.symm own]

theorem contents_mapRefs (m : Memory) (vertex : String) (f : List EdgeRef → List EdgeRef) :
    (m.mapRefs vertex f).contents = m.contents := by
  unfold mapRefs
  split <;> rfl

theorem contents_mapEnds (m : Memory) (ends : Endpoints) (f : List EdgeRef → List EdgeRef) :
    (m.mapEnds ends f).contents = m.contents :=
  (contents_mapRefs _ _ _).trans (contents_mapRefs _ _ _)

theorem contents_attachEnds (m : Memory) (record : Record) (ends : Endpoints) :
    (m.attachEnds record ends).contents = m.contents :=
  (contents_mapRefs _ _ _).trans (contents_mapRefs _ _ _)

theorem contents_dropRefs (m : Memory) (edge : String) (ends : Endpoints) (exceptAt : Option String) :
    (m.dropRefs edge ends exceptAt).contents = m.contents := by
  have one (m : Memory) (vertex : String) : (m.dropRefsAt edge exceptAt vertex).contents = m.contents := by
    unfold dropRefsAt
    split
    · exact contents_mapRefs _ _ _
    · rfl
  exact (one _ _).trans (one _ _)

end Store.Memory

/-- The ledger with what a store keeps besides. -/
def Ledger.and (l : Ledger) (m : Memory) : Ledger := fun key => (l key).or (m.kept? key)

theorem Ledger.within_and (l : Ledger) (m : Memory) : l.Within (l.and m) := fun key content found => by
  rw [Ledger.and, found]
  rfl

/-! ### Records -/

def PropertyRecord.place (p : PropertyRecord) : String × String × Visibility := (p.key, p.name, p.visibility)

/-- What holds of the properties of a single record. -/
structure Record.Fit (l : Ledger) (threshold : Nat) (r : Record) : Prop where
  honest : ∀ p ∈ r.properties, p.Honest l
  short : ∀ p ∈ r.properties, ∀ s content, Value.decode p.value = .ok (.stream s) → s.source = .inline content →
    content.size ≤ threshold
  distinct : (r.properties.map PropertyRecord.place).Nodup

theorem Record.Fit.mono {l m : Ledger} {threshold : Nat} {r : Record} (fit : r.Fit l threshold) (within : l.Within m) :
    r.Fit m threshold := ⟨fun p mem => (fit.honest p mem).mono within, fit.short, fit.distinct⟩

theorem Record.Fit.congr {l : Ledger} {threshold : Nat} {r q : Record} (fit : r.Fit l threshold)
    (same : q.properties = r.properties) : q.Fit l threshold := by
  refine ⟨?_, ?_, ?_⟩ <;> rw [same]
  · exact fit.honest
  · exact fit.short
  · exact fit.distinct

theorem stream?_eq_some {v : Value} {s : Value.Stream} (h : v.stream? = some s) : v = .stream s := by
  cases v with
  | stream t => exact congrArg Value.stream (Option.some.inj h)
  | _ => exact absurd h (by simp [Value.stream?])

theorem Record.mem_keptKeys {r : Record} {key : String} :
    key ∈ r.keptKeys ↔ ∃ p ∈ r.properties, ∃ s, Value.decode p.value = .ok (.stream s) ∧ s.key? = some key := by
  unfold keptKeys
  rw [List.mem_filterMap]
  refine exists_congr fun p => and_congr_right fun _ => ?_
  constructor
  · intro h
    split at h
    · rename_i v decoded
      obtain ⟨s, stream, found⟩ := Option.bind_eq_some_iff.mp h
      obtain rfl := stream?_eq_some stream
      exact ⟨s, decoded, found⟩
    · exact absurd h (by simp)
  · rintro ⟨s, decoded, found⟩
    rw [decoded]
    exact found

/-- A value of the element stands for the content under the key. -/
def Graph.Owns (g : Graph Memory) (t : ElementType) (id key : String) : Prop :=
  ∃ r, g.store.get? t id = some r ∧ key ∈ r.keptKeys

/-- Nothing has become of the element, except that it may be gone. -/
def Carried (g h : Graph Memory) (t : ElementType) (id : String) : Prop :=
  ∀ r, h.store.get? t id = some r → ∃ old, g.store.get? t id = some old ∧ r.properties = old.properties

variable {l : Ledger} {g h : Graph Memory} {t : ElementType} {id key : String}

theorem SameBut.carried (same : SameBut g.store h.store t id) : Carried g h t id := by
  intro r found
  obtain ⟨f, same⟩ := same
  rw [same] at found
  obtain ⟨old, there, rfl⟩ := Option.map_eq_some_iff.mp found
  exact ⟨old, there, rfl⟩

theorem Carried.owns (carried : Carried g h t id) (owns : h.Owns t id key) : g.Owns t id key := by
  obtain ⟨r, found, mem⟩ := owns
  obtain ⟨old, there, same⟩ := carried r found
  refine ⟨old, there, ?_⟩
  rw [Record.mem_keptKeys] at mem ⊢
  rwa [← same]

theorem not_new {n : Nat} (old : n < g.minted) (made : MadeKey g.names n key) : ¬NewKey g h key := by
  rintro ⟨m, low, -, made'⟩
  have := made.unique made'
  omega

/-! ### The ledger of a graph -/

/-- The ledger has what the graph has kept under keys of its names. What its elements own is still kept, and
no two elements own the same. -/
structure Ledgered (l : Ledger) (g : Graph Memory) : Prop where
  made : ∀ key content, l key = some content → ∃ n < g.minted, MadeKey g.names n key
  kept : ∀ key content, g.store.kept? key = some content → l key = some content
  fit : ∀ t id r, g.store.get? t id = some r → r.Fit l g.config.threshold
  held : ∀ t id key, g.Owns t id key → (g.store.kept? key).isSome
  own : ∀ t id u j key, g.Owns t id key → g.Owns u j key → t = u ∧ id = j

namespace Ledgered

variable (ledgered : Ledgered l g)
include ledgered

theorem old_of_kept {content : ByteArray} (kept : g.store.kept? key = some content) :
    ∃ n < g.minted, MadeKey g.names n key :=
  ledgered.made key content (ledgered.kept key content kept)

theorem old_of_owns (owns : g.Owns t id key) : ∃ n < g.minted, MadeKey g.names n key := by
  obtain ⟨content, kept⟩ := Option.isSome_iff_exists.mp (ledgered.held t id key owns)
  exact ledgered.old_of_kept kept

/-- What is kept under a new key is what the ledger takes up. -/
theorem and_new (new : NewKey g h key) (m : Memory) : l.and m key = m.kept? key := by
  have unknown : l key = none := by
    rw [Option.eq_none_iff_forall_ne_some]
    intro content found
    obtain ⟨n, small, made⟩ := ledgered.made key content found
    exact not_new small made new
  rw [Ledger.and, unknown]
  rfl

/-- What a step has to show: which contents are new, that the records are fit, and what they own. Only `own`
can come to own what is new. -/
theorem step (own : ElementType × String) (names : h.names = g.names) (minted : g.minted ≤ h.minted)
    (contents : ∀ key content, h.store.kept? key = some content → g.store.kept? key = some content ∨ NewKey g h key)
    (fit : ∀ t id r, h.store.get? t id = some r → r.Fit (l.and h.store) h.config.threshold)
    (owns : ∀ t id key, h.Owns t id key → g.Owns t id key ∨ (t, id) = own ∧ NewKey g h key)
    (held : ∀ t id key, h.Owns t id key → (h.store.kept? key).isSome) : Ledgered (l.and h.store) h where
  made key content found := by
    rcases Option.or_eq_some_iff.mp found with old | ⟨-, kept⟩
    · obtain ⟨n, small, made⟩ := ledgered.made key content old
      exact ⟨n, Nat.lt_of_lt_of_le small minted, names ▸ made⟩
    · rcases contents key content kept with old | ⟨n, -, small, made⟩
      · obtain ⟨n, small, made⟩ := ledgered.old_of_kept old
        exact ⟨n, Nat.lt_of_lt_of_le small minted, names ▸ made⟩
      · exact ⟨n, small, names ▸ made⟩
  kept key content kept := by
    rcases contents key content kept with old | new
    · exact l.within_and h.store key content (ledgered.kept key content old)
    · exact (ledgered.and_new new h.store).trans kept
  fit := fit
  held := held
  own t id u j key first second := by
    rcases owns t id key first with first | ⟨first, new⟩
    · rcases owns u j key second with second | ⟨-, new⟩
      · exact ledgered.own t id u j key first second
      · obtain ⟨n, small, made⟩ := ledgered.old_of_owns first
        exact absurd new (not_new small made)
    · rcases owns u j key second with second | ⟨second, -⟩
      · obtain ⟨n, small, made⟩ := ledgered.old_of_owns second
        exact absurd new (not_new small made)
      · exact Prod.mk.inj (first.trans second.symm)

theorem carry (names : h.names = g.names) (minted : g.minted ≤ h.minted) (config : h.config = g.config)
    (contents : ∀ key content, h.store.kept? key = some content → g.store.kept? key = some content ∨ NewKey g h key)
    (carried : ∀ t id, Carried g h t id)
    (held : ∀ t id key, h.Owns t id key → (h.store.kept? key).isSome) : Ledgered (l.and h.store) h := by
  refine ledgered.step (.vertex, "") names minted contents (fun t id r found => ?_)
    (fun t id key owns => .inl ((carried t id).owns owns)) held
  obtain ⟨old, there, same⟩ := carried t id r found
  rw [config]
  exact ((ledgered.fit t id old there).congr same).mono (l.within_and h.store)

theorem grown (grown : g.Grown h) : Ledgered (l.and h.store) h := by
  have carried : ∀ t id, Carried g h t id := fun t id r found => ⟨r, grown.get? t id ▸ found, rfl⟩
  refine ledgered.carry grown.names grown.minted grown.config (fun key content kept => ?_) carried
    fun t id key owns => ?_
  · rcases grown.contents key with same | new
    · exact .inl (same ▸ kept)
    · exact .inr new
  · have before := (carried t id).owns owns
    obtain ⟨n, small, made⟩ := ledgered.old_of_owns before
    rw [grown.kept?_made made small]
    exact ledgered.held t id key before

/-- A step after which an element is gone, and what it has owned. -/
theorem forget {r : Record} (found : g.store.get? t id = some r) (names : h.names = g.names)
    (minted : h.minted = g.minted) (config : h.config = g.config) (gone : h.store.get? t id = none)
    (contents : ∀ key, h.store.kept? key = if key ∈ r.keptKeys then none else g.store.kept? key)
    (carried : ∀ t id, Carried g h t id) : Ledgered (l.and h.store) h := by
  refine ledgered.carry names (Nat.le_of_eq minted.symm) config (fun key content kept => .inl ?_) carried
    fun u j key owns => ?_
  · rw [contents] at kept
    split at kept
    · exact absurd kept (by simp)
    · exact kept
  · have before := (carried u j).owns owns
    rw [contents, if_neg]
    · exact ledgered.held u j key before
    · intro mem
      obtain ⟨rfl, rfl⟩ := ledgered.own u j t id key before ⟨r, found, mem⟩
      obtain ⟨q, there, -⟩ := owns
      rw [gone] at there
      exact absurd there (by simp)

end Ledgered

end GuardedGraph

import GuardedGraph.Proofs.Outcome
import GuardedGraph.Proofs.Writing.Exec
import GuardedGraph.Proofs.Writing.Names

/-! Putting contents where they belong. It changes no record, and keeps contents only under keys of names
that the graph has just made. -/

namespace GuardedGraph

open Store (Backend Memory)
open Outcome

namespace Graph

/-- A key of a name made on the way from `g` to `h`. -/
def NewKey (g h : Graph Memory) (key : String) : Prop :=
  ∃ n, g.minted ≤ n ∧ n < h.minted ∧ MadeKey g.names n key

/-- From `g` to `h` names have been made, and contents kept under keys of them, and nothing else. -/
structure Grown (g h : Graph Memory) : Prop where
  records : h.store.records = g.store.records
  config : h.config = g.config
  index : h.index = g.index
  kinds : h.kinds = g.kinds
  names : h.names = g.names
  minted : g.minted ≤ h.minted
  contents : ∀ key, h.store.kept? key = g.store.kept? key ∨ NewKey g h key

variable {g h k : Graph Memory}

theorem Grown.refl (g : Graph Memory) : Grown g g := ⟨rfl, rfl, rfl, rfl, rfl, Nat.le_refl _, fun _ => .inl rfl⟩

theorem Grown.trans (first : Grown g h) (second : Grown h k) : Grown g k where
  records := second.records.trans first.records
  config := second.config.trans first.config
  index := second.index.trans first.index
  kinds := second.kinds.trans first.kinds
  names := second.names.trans first.names
  minted := Nat.le_trans first.minted second.minted
  contents key := by
    rcases second.contents key with same | ⟨n, low, high, made⟩
    · rcases first.contents key with old | ⟨n, low, high, made⟩
      · exact .inl (same.trans old)
      · exact .inr ⟨n, low, Nat.lt_of_lt_of_le high second.minted, made⟩
    · exact .inr ⟨n, Nat.le_trans first.minted low, high, first.names ▸ made⟩

theorem Grown.get? (grown : Grown g h) (t : ElementType) (id : String) : h.store.get? t id = g.store.get? t id := by
  rw [Memory.get?, grown.records]
  rfl

theorem Grown.filed (grown : Grown g h) (filed : g.store.Filed) : h.store.Filed := fun t id r found =>
  filed t id r (grown.get? t id ▸ found)

/-- What is kept under a key of an earlier name stays as it is. -/
theorem Grown.kept?_made (grown : Grown g h) {n : Nat} {key : String} (made : MadeKey g.names n key)
    (old : n < g.minted) : h.store.kept? key = g.store.kept? key := by
  rcases grown.contents key with same | ⟨m, low, -, made'⟩
  · exact same
  · have := made.unique made'
    omega

theorem grown_mint (g : Graph Memory) : Grown g { g with minted := g.minted + 1 } :=
  ⟨rfl, rfl, rfl, rfl, rfl, Nat.le_succ _, fun _ => .inl rfl⟩

theorem kept?_keep (m : Memory) (key k : String) (content : ByteArray) :
    (m.keep key content).kept? k = if key = k then some content else m.kept? k := Table.get?_insert _ _ _ _

def keeping (g : Graph Memory) (key : String) (content : ByteArray) : Graph Memory :=
  { g with store := g.store.keep key content, minted := g.minted + 1 }

theorem grown_keeping {key : String} (made : MadeKey g.names g.minted key) (content : ByteArray) :
    Grown g (g.keeping key content) where
  records := rfl
  config := rfl
  index := rfl
  kinds := rfl
  names := rfl
  minted := Nat.le_succ _
  contents k := by
    show (g.store.keep key content).kept? k = _ ∨ _
    rw [kept?_keep]
    split
    · rename_i same
      exact .inr ⟨g.minted, Nat.le_refl _, Nat.lt_succ_self _, same ▸ made⟩
    · exact .inl rfl

end Graph

open GuardedGraph.Graph

/-! ### One property -/

namespace Value.Stream

/-- Whether the content is where it belongs: in the record if it is short, or under a key of the element's own. -/
def Belongs (s : Stream) (threshold : Nat) (owned : List String) : Prop :=
  match s.source with
  | .inline content => content.size ≤ threshold
  | .external key _ _ => key ∈ owned

def contentIn (s : Stream) (m : Memory) : Option ByteArray :=
  match s.source with
  | .inline content => some content
  | .external key _ _ => m.kept? key

end Value.Stream

/-- The property with the content of its stream kept under a key that ends in the name. -/
def Property.keptAs (t : ElementType) (id : String) (p : Property) (s : Value.Stream) (name : String) : Property :=
  { p with value := .stream (s.keptUnder (contentKey t id p name)) }

/-- What has become of a property on the way from `g` to `h`: it has stayed, or the content of its stream,
found on the way, is now kept under a new key. -/
def Placed (t : ElementType) (id : String) (owned : List String) (g h : Graph Memory) (p q : Property) : Prop :=
  (q = p ∧ ∀ s, p.value = .stream s → s.Belongs g.config.threshold owned) ∨
  ∃ s n content mid, p.value = .stream s ∧ ¬s.Belongs g.config.threshold owned ∧
    Grown g mid ∧ Grown mid h ∧ s.contentIn mid.store = some content ∧
    g.minted ≤ n ∧ n < h.minted ∧ q = p.keptAs t id s (g.names.nth n) ∧
    h.store.kept? (contentKey t id p (g.names.nth n)) = some content

variable {g h : Graph Memory} {t : ElementType} {id : String} {owned : List String} {p q : Property}

theorem Placed.later (placed : Placed t id owned g h p q) {k : Graph Memory}
    (grown : Grown h k) : Placed t id owned g k p q := by
  obtain stays | ⟨s, n, content, mid, value, away, before, after, found, low, high, same, kept⟩ := placed
  · exact .inl stays
  · refine .inr ⟨s, n, content, mid, value, away, before, after.trans grown, found, low, ?_, same, ?_⟩
    · exact Nat.lt_of_lt_of_le high grown.minted
    · have names := (before.trans after).names
      rw [grown.kept?_made ⟨t, id, p, by rw [names]⟩ high, kept]

theorem Placed.earlier {f : Graph Memory} (grown : Grown f g) (placed : Placed t id owned g h p q) :
    Placed t id owned f h p q := by
  obtain ⟨same, stays⟩ | ⟨s, n, content, mid, value, away, before, after, found, low, rest⟩ := placed
  · exact .inl ⟨same, grown.config ▸ stays⟩
  · exact .inr ⟨s, n, content, mid, value, grown.config ▸ away, grown.trans before, after, found,
      Nat.le_trans grown.minted low, grown.names ▸ rest⟩

namespace Commit

theorem exec_keepContent (t : ElementType) (id : String) (p : Property) (s : Value.Stream) (content : ByteArray)
    (g : Graph Memory) :
    exec (keepContent t id p s content) g =
      (.ok (p.keptAs t id s g.nextName), g.keeping (contentKey t id p g.nextName) content) := rfl

theorem exec_settle_stays (belongs : ∀ s, p.value = .stream s → s.Belongs g.config.threshold owned) :
    exec (settle t id owned p) g = (.ok p, g) := by
  unfold settle
  split
  · rename_i s value
    have here := belongs s value
    unfold Value.Stream.Belongs at here
    split
    · rename_i content inline
      rw [inline] at here
      rw [exec_bind, exec_config]
      simp only
      rw [if_neg (Nat.not_lt.mpr here)]
      rfl
    · rename_i key _ _ external
      rw [external] at here
      rw [if_pos (List.contains_iff_mem.mpr here)]
      rfl
  · rfl

theorem exec_settle_moves {s : Value.Stream} (value : p.value = .stream s)
    (away : ¬s.Belongs g.config.threshold owned) :
    exec (settle t id owned p) g = match s.contentIn g.store, s.key? with
      | some content, _ => (.ok (p.keptAs t id s g.nextName), g.keeping (contentKey t id p g.nextName) content)
      | none, some key => (.error (.storage (.missing key)), g)
      | none, none => (.ok p, g) := by
  unfold settle Value.Stream.Belongs at *
  rw [value]
  simp only [Value.Stream.contentIn, Value.Stream.key?]
  cases source : s.source with
  | inline content =>
    rw [source] at away
    simp only
    rw [exec_bind, exec_config]
    simp only
    rw [if_pos (Nat.not_le.mp away), exec_keepContent]
  | external key length attached =>
    rw [source] at away
    simp only
    rw [if_neg (by simpa using away), exec_bind, exec_kept]
    cases g.store.kept? key <;> rfl

theorem exec_settle (t : ElementType) (id : String) (owned : List String) (p : Property) (g : Graph Memory) :
    Grown g (exec (settle t id owned p) g).2 ∧
      ∀ q, (exec (settle t id owned p) g).1 = .ok q → Placed t id owned g (exec (settle t id owned p) g).2 p q := by
  by_cases belongs : ∀ s, p.value = .stream s → s.Belongs g.config.threshold owned
  · rw [exec_settle_stays belongs]
    exact ⟨.refl g, fun q same => .inl ⟨(Except.ok.inj same).symm, belongs⟩⟩
  · simp only [not_forall] at belongs
    obtain ⟨s, value, away⟩ := belongs
    rw [exec_settle_moves value away]
    have made : MadeKey g.names g.minted (contentKey t id p g.nextName) := ⟨t, id, p, rfl⟩
    cases found : s.contentIn g.store with
    | some content =>
      refine ⟨grown_keeping made content, fun q same => .inr ?_⟩
      refine ⟨s, g.minted, content, g, value, away, .refl g, grown_keeping made content, found, Nat.le_refl _,
        Nat.lt_succ_self _, (Except.ok.inj same).symm, ?_⟩
      show (g.store.keep (contentKey t id p g.nextName) content).kept? (contentKey t id p g.nextName) = _
      rw [kept?_keep, if_pos rfl]
    | none =>
      cases key : s.key? with
      | some key => exact ⟨.refl g, fun q same => absurd same (by simp)⟩
      | none =>
        unfold Value.Stream.contentIn at found
        unfold Value.Stream.key? at key
        split at found <;> simp_all

/-! ### All properties -/

theorem exec_settle_mapM (t : ElementType) (id : String) (owned : List String) (ps : List Property) (g : Graph Memory) :
    Grown g (exec (ps.mapM (settle t id owned)) g).2 ∧ ∀ qs, (exec (ps.mapM (settle t id owned)) g).1 = .ok qs →
      List.Forall₂ (Placed t id owned g (exec (ps.mapM (settle t id owned)) g).2) ps qs := by
  induction ps generalizing g with
  | nil => exact ⟨.refl g, fun qs same => by obtain rfl := Except.ok.inj same; exact .nil⟩
  | cons p ps ih =>
    obtain ⟨grown, placed⟩ := exec_settle t id owned p g
    rw [List.mapM_cons, exec_bind]
    rcases hp : exec (settle t id owned p) g with ⟨_ | q, h⟩
    · rw [hp] at grown
      exact ⟨grown, fun qs same => absurd same (by simp)⟩
    · rw [hp] at grown placed
      obtain ⟨grown', placed'⟩ := ih h
      simp only
      rw [exec_bind]
      rcases hps : exec (ps.mapM (settle t id owned)) h with ⟨_ | qs, k⟩
      · rw [hps] at grown'
        exact ⟨grown.trans grown', fun qs same => absurd same (by simp)⟩
      · rw [hps] at grown' placed'
        refine ⟨grown.trans grown', fun all same => ?_⟩
        obtain rfl := Except.ok.inj same
        refine .cons ((placed q rfl).later grown') ?_
        exact (placed' qs rfl).imp fun _ _ there => there.earlier grown

theorem exec_settleAll (owned : List String) (w : Whole) (g : Graph Memory) :
    Grown g (exec (settleAll owned w) g).2 ∧ ∀ after, (exec (settleAll owned w) g).1 = .ok after →
      ∃ ps, after = { w with element := { w.element with properties := ps } } ∧
        List.Forall₂ (Placed w.type w.element.id owned g (exec (settleAll owned w) g).2) w.element.properties ps := by
  obtain ⟨grown, placed⟩ := exec_settle_mapM w.type w.element.id owned w.element.properties g
  rw [settleAll, exec_bind]
  rcases hps : exec (w.element.properties.mapM (settle w.type w.element.id owned)) g with ⟨_ | ps, h⟩
  · rw [hps] at grown
    exact ⟨grown, fun after same => absurd same (by simp)⟩
  · rw [hps] at grown placed
    exact ⟨grown, fun after same => ⟨ps, (Except.ok.inj same).symm, placed ps rfl⟩⟩

end Commit

end GuardedGraph

import GuardedGraph.Proofs.Contents.Runs

/-! How far a save comes that finds the content of a property missing. The contents of the properties before it
have been kept by then, and nothing takes them back. -/

namespace GuardedGraph

open Store (Backend Memory)
open Outcome
open GuardedGraph.Graph (Grown MadeKey)

namespace Property

/-- The content of the property is not where it belongs. -/
def Moves (p : Property) (owned : List String) (g : Graph Memory) : Prop :=
  ∃ s, p.value = .stream s ∧ ¬s.Belongs g.config.threshold owned

/-- The content of the property is not where it belongs, nor anywhere else. -/
def Stranded (p : Property) (owned : List String) (g : Graph Memory) : Prop :=
  ∃ s, p.value = .stream s ∧ ¬s.Belongs g.config.threshold owned ∧ s.contentIn g.store = none

theorem Stranded.moves {p : Property} {owned : List String} {g : Graph Memory} (stranded : p.Stranded owned g) :
    p.Moves owned g := by
  obtain ⟨s, value, away, -⟩ := stranded
  exact ⟨s, value, away⟩

end Property

/-- The first property whose content is missing comes after one whose content moves. -/
def Halfway (ps : List Property) (owned : List String) (g : Graph Memory) : Prop :=
  ∃ l p r, ps = l ++ p :: r ∧ (∀ q ∈ l, ¬q.Stranded owned g) ∧ ¬p.Stranded owned g ∧ p.Moves owned g ∧
    ∃ q ∈ r, q.Stranded owned g

variable {l : Ledger} {f g h : Graph Memory} {t : ElementType} {id key : String} {owned : List String} {p : Property}
  {ps qs : List Property} {a : Authorizations}

theorem halfway_cons : Halfway (p :: ps) owned g ↔
    ¬p.Stranded owned g ∧ (p.Moves owned g ∧ (∃ q ∈ ps, q.Stranded owned g) ∨ Halfway ps owned g) := by
  constructor
  · rintro ⟨l, q, r, same, before, found, moves, after⟩
    cases l with
    | nil =>
      obtain ⟨rfl, rfl⟩ := List.cons.inj same
      exact ⟨found, .inl ⟨moves, after⟩⟩
    | cons x l =>
      obtain ⟨rfl, rfl⟩ := List.cons.inj same
      rw [List.forall_mem_cons] at before
      exact ⟨before.1, .inr ⟨l, q, r, rfl, before.2, found, moves, after⟩⟩
  · rintro ⟨found, ⟨moves, after⟩ | ⟨l, q, r, rfl, before, rest⟩⟩
    · exact ⟨[], p, ps, rfl, by simp, found, moves, after⟩
    · exact ⟨p :: l, q, r, rfl, List.forall_mem_cons.mpr ⟨found, before⟩, rest⟩

theorem Halfway.exists_stranded (halfway : Halfway ps owned g) : ∃ q ∈ ps, q.Stranded owned g := by
  obtain ⟨l, p, r, rfl, -, -, -, q, mem, stranded⟩ := halfway
  exact ⟨q, by simp [mem], stranded⟩

namespace Commit

/-! ### One property -/

inductive Settles (t : ElementType) (id : String) (owned : List String) (p : Property) (g : Graph Memory) : Prop
  | stays : ¬p.Moves owned g → exec (settle t id owned p) g = (.ok p, g) → Settles t id owned p g
  | moves {s : Value.Stream} {content : ByteArray} : p.Moves owned g → ¬p.Stranded owned g →
      exec (settle t id owned p) g =
        (.ok (p.keptAs t id s g.nextName), g.keeping (contentKey t id p g.nextName) content) →
      Settles t id owned p g
  | stops {key : String} : p.Stranded owned g → exec (settle t id owned p) g = (.error (.storage (.missing key)), g) →
      Settles t id owned p g

theorem settles (t : ElementType) (id : String) (owned : List String) (p : Property) (g : Graph Memory) :
    Settles t id owned p g := by
  by_cases moves : p.Moves owned g
  · have ⟨s, value, away⟩ := moves
    cases found : s.contentIn g.store with
    | some content =>
      refine .moves moves ?_ (by rw [exec_settle_moves value away, found])
      rintro ⟨s', value', -, missing⟩
      obtain rfl := Value.stream.inj (value.symm.trans value')
      rw [found] at missing
      exact absurd missing (by simp)
    | none =>
      obtain ⟨kind, source⟩ := s
      cases source with
      | inline content => exact absurd found (by simp [Value.Stream.contentIn])
      | external key length attached =>
        exact .stops ⟨_, value, away, found⟩ (by rw [exec_settle_moves value away, found]; rfl)
  · exact .stays moves (exec_settle_stays fun s value => not_not.mp fun away => moves ⟨s, value, away⟩)

/-! ### All properties -/

theorem exec_settle_cons (t : ElementType) (id : String) (owned : List String) (p : Property) (ps : List Property)
    (g : Graph Memory) :
    exec ((p :: ps).mapM (settle t id owned)) g = match exec (settle t id owned p) g with
      | (.ok q, h) => ((exec (ps.mapM (settle t id owned)) h).1.map (q :: ·), (exec (ps.mapM (settle t id owned)) h).2)
      | (.error e, h) => (.error e, h) := by
  rw [List.mapM_cons, exec_bind]
  rcases exec (settle t id owned p) g with ⟨_ | q, h⟩
  · rfl
  · simp only
    rw [exec_bind]
    rcases exec (ps.mapM (settle t id owned)) h with ⟨_ | qs, k⟩ <;> rfl

/-- Settling that comes to its end keeps contents for the settled properties only. -/
theorem kept?_of_settled (run : exec (ps.mapM (settle t id owned)) g = (.ok qs, h)) (key : String) :
    h.store.kept? key = g.store.kept? key ∨ ∃ q ∈ qs, ∃ s, q.value = .stream s ∧ s.key? = some key := by
  induction ps generalizing g qs with
  | nil =>
    obtain ⟨-, rfl⟩ := Prod.mk.inj run
    exact .inl rfl
  | cons p ps ih =>
    rw [exec_settle_cons] at run
    cases settles t id owned p g with
    | stays _ one =>
      rw [one] at run
      obtain ⟨all, rfl⟩ := Prod.mk.inj run
      obtain ⟨qs, rest, rfl⟩ := map_ok all
      rcases ih (Prod.ext rest rfl) with same | ⟨q, mem, own⟩
      · exact .inl same
      · exact .inr ⟨q, List.mem_cons_of_mem _ mem, own⟩
    | @moves s content _ _ one =>
      rw [one] at run
      obtain ⟨all, rfl⟩ := Prod.mk.inj run
      obtain ⟨qs, rest, rfl⟩ := map_ok all
      rcases ih (Prod.ext rest rfl) with same | ⟨q, mem, own⟩
      · rw [same]
        show (g.store.keep _ content).kept? key = _ ∨ _
        rw [Graph.kept?_keep]
        split
        · rename_i own
          exact .inr ⟨_, List.mem_cons_self, _, rfl, congrArg some own⟩
        · exact .inl rfl
      · exact .inr ⟨q, List.mem_cons_of_mem _ mem, own⟩
    | stops _ one =>
      rw [one] at run
      exact absurd (Prod.mk.inj run).1 (by simp)

theorem missing_of_unsettled {e : Error} (run : exec (ps.mapM (settle t id owned)) g = (.error e, h)) :
    ∃ key, e = .storage (.missing key) := by
  induction ps generalizing g with
  | nil => exact absurd (Prod.mk.inj run).1 (by simp)
  | cons p ps ih =>
    rw [exec_settle_cons] at run
    have later {q : Property} {k : Graph Memory}
        (run : ((exec (ps.mapM (settle t id owned)) k).1.map (q :: ·), (exec (ps.mapM (settle t id owned)) k).2) =
          (.error e, h)) : ∃ key, e = .storage (.missing key) := by
      rcases rest : exec (ps.mapM (settle t id owned)) k with ⟨e' | qs, k'⟩
      · rw [rest] at run
        obtain ⟨rfl, rfl⟩ : e' = e ∧ k' = h := by simpa [Except.map] using run
        exact ih rest
      · rw [rest] at run
        exact absurd (Prod.mk.inj run).1 (by simp [Except.map])
    cases settles t id owned p g with
    | stays _ one =>
      rw [one] at run
      exact later run
    | moves _ _ one =>
      rw [one] at run
      exact later run
    | @stops key _ one =>
      rw [one] at run
      exact ⟨key, (Except.error.inj (Prod.mk.inj run).1).symm⟩

end Commit

/-! ### Where it stops -/

theorem moves_iff (grown : f.Grown g) : p.Moves owned g ↔ p.Moves owned f := by
  unfold Property.Moves
  rw [grown.config]

theorem grown_of_moves (grown : f.Grown g) (content : ByteArray) :
    f.Grown (g.keeping (contentKey t id p g.nextName) content) :=
  grown.trans (Graph.grown_keeping ⟨t, id, p, rfl⟩ content)

theorem map_error_iff {α β : Type} {x : Except Error α} {f : α → β} :
    (∃ e, x.map f = .error e) ↔ ∃ e, x = .error e := by cases x <;> simp [Except.map]

open Commit

section

variable (ledgered : Ledgered l f) (grown : f.Grown g)
include ledgered grown

theorem kept_made {content : ByteArray} (kept : g.store.kept? key = some content) :
    ∃ n < g.minted, MadeKey g.names n key := by
  rcases grown.contents key with same | ⟨n, -, small, made⟩
  · obtain ⟨n, small, made⟩ := ledgered.old_of_kept (same.symm.trans kept)
    exact ⟨n, Nat.lt_of_lt_of_le small grown.minted, grown.names ▸ made⟩
  · exact ⟨n, small, grown.names ▸ made⟩

theorem stranded_iff (honest : p.Honest l) : p.Stranded owned g ↔ p.Stranded owned f := by
  unfold Property.Stranded
  rw [grown.config]
  refine exists_congr fun s => and_congr_right fun value => and_congr_right fun _ => ?_
  have own : s.Honest l := honest.value s (by rw [value]; exact List.mem_singleton_self s)
  obtain ⟨kind, source⟩ := s
  cases source with
  | inline content => rfl
  | external key length attached =>
    obtain ⟨-, content, known, -⟩ := own
    obtain ⟨n, old, made⟩ := ledgered.made key content known
    show g.store.kept? key = none ↔ f.store.kept? key = none
    rw [grown.kept?_made made old]

/-- The settling fails exactly if the content of some property is missing from the start. -/
theorem unsettled_iff (honest : ∀ p ∈ ps, p.Honest l) :
    (∃ e, (exec (ps.mapM (settle t id owned)) g).1 = .error e) ↔ ∃ q ∈ ps, q.Stranded owned f := by
  induction ps generalizing g with
  | nil => simp
  | cons p ps ih =>
    rw [List.forall_mem_cons] at honest
    have here : p.Stranded owned g ↔ p.Stranded owned f := stranded_iff ledgered grown honest.1
    rw [exec_settle_cons, List.exists_mem_cons_iff, ← here]
    cases settles t id owned p g with
    | stays belongs one =>
      rw [one]
      simp only
      rw [map_error_iff, ih grown honest.2]
      exact (or_iff_right fun stranded => belongs stranded.moves).symm
    | @moves s content _ found one =>
      rw [one]
      simp only
      rw [map_error_iff, ih (grown_of_moves grown content) honest.2]
      exact (or_iff_right found).symm
    | stops stranded one =>
      rw [one]
      exact iff_of_true ⟨_, rfl⟩ (.inl stranded)

/-- What is kept under a name just made has not been there before, and stays while the rest is settled. -/
theorem kept_of_moves (t : ElementType) (id : String) (owned : List String) (p : Property) (ps : List Property)
    (content : ByteArray) :
    (exec (ps.mapM (settle t id owned))
      (g.keeping (contentKey t id p g.nextName) content)).2.store.kept?
        (contentKey t id p g.nextName) ≠
      g.store.kept? (contentKey t id p g.nextName) := by
  have made : MadeKey g.names g.minted (contentKey t id p g.nextName) := ⟨t, id, p, rfl⟩
  generalize contentKey t id p g.nextName = key at made
  have rest := (exec_settle_mapM t id owned ps (g.keeping key content)).1
  have here : (g.keeping key content).store.kept? key = some content := by
    show (g.store.keep key content).kept? key = _
    rw [Graph.kept?_keep, if_pos rfl]
  rw [rest.kept?_made made (Nat.lt_succ_self g.minted), here]
  intro there
  obtain ⟨n, old, made'⟩ := kept_made ledgered grown there.symm
  have := made.unique made'
  omega

/-- The settling fails and leaves contents behind exactly if it stops halfway. -/
theorem halfway_iff (t : ElementType) (id : String) (owned : List String) (honest : ∀ p ∈ ps, p.Honest l) :
    ((∃ e, (exec (ps.mapM (settle t id owned)) g).1 = .error e) ∧
      ∃ key, (exec (ps.mapM (settle t id owned)) g).2.store.kept? key ≠ g.store.kept? key) ↔ Halfway ps owned f := by
  induction ps generalizing g with
  | nil => exact iff_of_false (fun both => by simp at both) fun halfway => by simpa using halfway.exists_stranded
  | cons p ps ih =>
    rw [List.forall_mem_cons] at honest
    have here : p.Stranded owned g ↔ p.Stranded owned f := stranded_iff ledgered grown honest.1
    rw [exec_settle_cons, halfway_cons, ← here, ← moves_iff grown]
    cases settles t id owned p g with
    | stays belongs one =>
      rw [one]
      simp only
      rw [map_error_iff, ih grown honest.2]
      have found : ¬p.Stranded owned g := fun stranded => belongs stranded.moves
      exact ⟨fun halfway => ⟨found, .inr halfway⟩, fun both => both.2.resolve_left fun moved => belongs moved.1⟩
    | @moves s content moved found one =>
      rw [one]
      simp only
      have later : f.Grown (g.keeping (contentKey t id p g.nextName) content) := grown_of_moves grown content
      rw [map_error_iff, unsettled_iff ledgered later honest.2]
      have left := kept_of_moves ledgered grown t id owned p ps content
      constructor
      · exact fun both => ⟨found, .inl ⟨moved, both.1⟩⟩
      · rintro ⟨-, ⟨-, stops⟩ | halfway⟩
        · exact ⟨stops, _, left⟩
        · exact ⟨halfway.exists_stranded, _, left⟩
    | stops stranded one =>
      rw [one]
      exact iff_of_false (fun both => both.2.elim fun _ differs => differs rfl) fun both => both.1 stranded

end

/-! ### Saves -/

namespace Commit

/-- All of a save of a new element that comes before its contents are settled. -/
def changingNew (t : ElementType) (d : Draft) (endpoints : Option Endpoints) (a : Authorizations) :
    Commit Memory Revision := do
  let w ← realize t d endpoints a
  if (← get w.type w.element.id).isSome then throw (.taken w.type w.element.id)
  return ⟨true, ⟨t, .bare w.element.id d.visibility, endpoints, []⟩, w⟩

/-- All of a save that comes before its contents are settled. -/
def changing (a : Authorizations) : Save → Commit Memory Revision
  | .vertex d => changingNew .vertex d none a
  | .edge d endpoints => do
    if endpoints.label = "" then throw (.invalid .emptyLabel)
    endpoints.toList.forM (requireVertex · a)
    changingNew .edge d (some endpoints) a
  | .stored t id changes => do
    let record ← stored t id
    lift (record.requireWritable a)
    let before ← lift record.whole
    let element ← lift (before.element.apply a changes)
    return ⟨false, before, { before with element }⟩

def settling (v : Revision) : Commit Memory Revision := do
  let after ← settleAll v.base.keptKeys v.after
  return { v with after }

theorem exec_prepareNew (t : ElementType) (d : Draft) (endpoints : Option Endpoints) (a : Authorizations)
    (g : Graph Memory) :
    exec (prepareNew t d endpoints a) g = exec (changingNew t d endpoints a >>= settling) g := by
  rw [prepareNew, changingNew, exec_bind, exec_bind, exec_bind]
  rcases exec (realize t d endpoints a) g with ⟨_ | w, h⟩
  · rfl
  · simp only
    rw [exec_bind, exec_bind, exec_get]
    simp only
    split <;> rfl

theorem exec_prepare (a : Authorizations) (s : Save) (g : Graph Memory) :
    exec (prepare a s) g = exec (changing a s >>= settling) g := by
  cases s with
  | vertex d => exact exec_prepareNew .vertex d none a g
  | edge d endpoints =>
    simp only [prepare, prepareEdge, changing]
    split
    · rfl
    · rw [bind_assoc, exec_bind, exec_bind]
      rcases exec (endpoints.toList.forM (requireVertex · a)) g with ⟨_ | _, h⟩
      · rfl
      · exact exec_prepareNew .edge d (some endpoints) a h
  | stored t id changes =>
    simp only [prepare, prepareStored, changing, settling, bind_assoc, pure_bind]

/-- Whatever it gives, the step makes names and does nothing else. -/
def Mints {α : Type} (c : Commit Memory α) : Prop := ∀ g, ∃ n, (exec c g).2 = { g with minted := g.minted + n }

section

variable {α β : Type} {c : Commit Memory α} {k : α → Commit Memory β}

theorem mints_of_still (still : ∀ g, (exec c g).2 = g) : Mints c := fun g => ⟨0, still g⟩

theorem Mints.bind (hc : Mints c) (hk : ∀ x, Mints (k x)) : Mints (c >>= k) := fun g => by
  obtain ⟨n, first⟩ := hc g
  rw [exec_bind]
  rcases run : exec c g with ⟨_ | x, h⟩
  · rw [run] at first
    exact ⟨n, first⟩
  · rw [run] at first
    obtain ⟨m, second⟩ := hk x h
    refine ⟨n + m, second.trans ?_⟩
    rw [show h = { g with minted := g.minted + n } from first, Nat.add_assoc]

theorem Mints.grown (mints : Mints c) (g : Graph Memory) : g.Grown (exec c g).2 ∧ (exec c g).2.store = g.store := by
  obtain ⟨n, same⟩ := mints g
  rw [same]
  exact ⟨⟨rfl, rfl, rfl, rfl, rfl, Nat.le_add_right _ _, fun _ => .inl rfl⟩, rfl⟩

end

theorem mints_idFor (t : ElementType) (wanted : Option String) : Mints (idFor t wanted) := by
  cases wanted with
  | none =>
    exact .bind (mints_of_still fun _ => rfl) fun _ =>
      .bind (fun g => ⟨1, rfl⟩) fun _ => mints_of_still fun _ => rfl
  | some id =>
    refine mints_of_still fun g => ?_
    show (exec (if id = "" then throw _ else pure id) g).2 = g
    split <;> rfl

theorem mints_changingNew (t : ElementType) (d : Draft) (endpoints : Option Endpoints) (a : Authorizations) :
    Mints (changingNew t d endpoints a) := by
  have realizes : Mints (realize t d endpoints a) := .bind (mints_of_still fun _ => rfl) fun _ =>
    .bind (mints_idFor t d.id) fun _ => .bind (mints_of_still fun _ => rfl) fun _ => mints_of_still fun _ => rfl
  refine .bind realizes fun w => mints_of_still fun g => ?_
  rw [exec_bind, exec_get]
  simp only
  split <;> rfl

theorem mints_changing (a : Authorizations) (s : Save) : Mints (changing a s) := by
  cases s with
  | vertex d => exact mints_changingNew .vertex d none a
  | edge d endpoints =>
    have rest : Mints (do endpoints.toList.forM (requireVertex · a); changingNew .edge d (some endpoints) a) := by
      refine .bind (mints_of_still fun g => ?_) fun _ => mints_changingNew _ _ _ _
      rw [exec_forM_check fun vertex => exec_requireVertex vertex a g]
    unfold changing
    simp only
    split
    · exact .bind (mints_of_still fun _ => rfl) fun _ => rest
    · exact rest
  | stored t id changes =>
    refine .bind (mints_of_still fun g => ?_) fun _ => .bind (mints_of_still fun _ => rfl) fun _ =>
      .bind (mints_of_still fun _ => rfl) fun _ => .bind (mints_of_still fun _ => rfl) fun _ =>
        mints_of_still fun _ => rfl
    rw [exec_stored]
    split <;> rfl

theorem changing_honest {s : Save} {v : Revision} (ledgered : Ledgered l g)
    (supplied : ∀ c ∈ s.changes, ∀ s ∈ c.streams, s.Honest l) (run : exec (changing a s) g = (.ok v, h)) :
    ∀ p ∈ v.after.element.properties, p.Honest l := by
  have new {t : ElementType} {d : Draft} {endpoints : Option Endpoints} {f : Graph Memory}
      (supplied : ∀ c ∈ d.changes, ∀ s ∈ c.streams, s.Honest l)
      (run : exec (changingNew t d endpoints a) f = (.ok v, h)) : ∀ p ∈ v.after.element.properties, p.Honest l := by
    obtain ⟨w, k, realized, run⟩ := exec_bind_ok run
    obtain ⟨-, id, element, applied, rfl⟩ := realize_ok realized
    obtain ⟨_, _, -, run⟩ := exec_bind_ok run
    split at run
    · exact absurd (Prod.mk.inj run).1 (by simp)
    · obtain rfl := Except.ok.inj (Prod.mk.inj run).1
      exact Element.apply_honest applied supplied (by simp [Element.bare])
  cases s with
  | vertex d => exact new supplied run
  | edge d endpoints =>
    unfold changing at run
    simp only at run
    split at run
    · exact absurd (Prod.mk.inj run).1 (by simp)
    · obtain ⟨_, k, -, run⟩ := exec_bind_ok run
      exact new supplied run
  | stored t id changes =>
    obtain ⟨r, _, found, run⟩ := exec_bind_ok run
    rw [exec_stored] at found
    split at found
    · rename_i record here
      obtain rfl := Except.ok.inj (Prod.mk.inj found).1
      obtain ⟨_, _, -, run⟩ := exec_bind_ok run
      obtain ⟨before, _, whole, run⟩ := exec_bind_ok run
      obtain ⟨element, _, applied, run⟩ := exec_bind_ok run
      obtain rfl := Except.ok.inj (Prod.mk.inj run).1
      exact Element.apply_honest (Prod.mk.inj applied).1 supplied
        (honest_of_whole (Prod.mk.inj whole).1 (ledgered.fit _ _ _ here).honest)
    · exact absurd (Prod.mk.inj found).1 (by simp)

end Commit

end GuardedGraph

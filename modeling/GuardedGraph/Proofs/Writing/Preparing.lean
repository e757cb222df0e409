import GuardedGraph.Graph.Save
import GuardedGraph.Proofs.Record.Decoding
import GuardedGraph.Proofs.Writing.Changes
import GuardedGraph.Proofs.Writing.Removing
import GuardedGraph.Proofs.Writing.Settling

/-! What comes before the write in a save: the checks, the changes to the element and the settling of its contents.
Until then no record has changed. -/

namespace GuardedGraph

open Store (Backend Memory)
open Outcome
open GuardedGraph.Graph (Grown grown_mint)

/-- What is saved: a new vertex, a new edge, or changes to a stored element. -/
inductive Save
  | vertex (draft : Draft)
  | edge (draft : Draft) (endpoints : Endpoints)
  | stored (type : ElementType) (id : String) (changes : List Change)

/-- A save that has come to writing: the element before the changes, which is stored already unless it is
`fresh`, and the element that is to be written. -/
structure Revision where
  fresh : Bool
  base : Whole
  after : Whole

namespace Save

def type : Save → ElementType
  | vertex _ => .vertex
  | edge _ _ => .edge
  | stored t _ _ => t

def changes : Save → List Change
  | vertex d => d.changes
  | edge d _ => d.changes
  | stored _ _ changes => changes

end Save

namespace Commit

variable {σ : Type} [Backend σ]

/-- All of a save of a new element that comes before writing. -/
def prepareNew (t : ElementType) (d : Draft) (endpoints : Option Endpoints) (a : Authorizations) :
    Commit σ Revision := do
  let w ← realize t d endpoints a
  if (← get w.type w.element.id).isSome then throw (.taken w.type w.element.id)
  let after ← settleAll [] w
  return ⟨true, ⟨t, .bare w.element.id d.visibility, endpoints, []⟩, after⟩

def prepareEdge (d : Draft) (endpoints : Endpoints) (a : Authorizations) : Commit σ Revision := do
  if endpoints.label = "" then throw (.invalid .emptyLabel)
  endpoints.toList.forM (requireVertex · a)
  prepareNew .edge d (some endpoints) a

def prepareStored (t : ElementType) (id : String) (changes : List Change) (a : Authorizations) :
    Commit σ Revision := do
  let record ← stored t id
  lift (record.requireWritable a)
  let before ← lift record.whole
  let element ← lift (before.element.apply a changes)
  let after ← settleAll before.keptKeys { before with element }
  return ⟨false, before, after⟩

/-- All of a save that comes before writing. -/
def prepare (a : Authorizations) : Save → Commit σ Revision
  | .vertex d => prepareNew .vertex d none a
  | .edge d endpoints => prepareEdge d endpoints a
  | .stored t id changes => prepareStored t id changes a

def saving (a : Authorizations) : (s : Save) → Commit σ (View s.type)
  | .vertex d => addVertex d a
  | .edge d endpoints => addEdge d endpoints a
  | .stored t id changes => save t id changes a

end Commit

/-- Whether `a` sees a vertex. -/
def Graph.seesVertex (g : Graph Memory) (id : String) (a : Authorizations) : Except Error Unit :=
  match g.store.get? .vertex id with
  | none => .error (.absent (.element .vertex id))
  | some r => match r.view? .vertex a with
    | .ok (some _) => .ok ()
    | .ok none => .error (.absent (.element .vertex id))
    | .error e => .error e

namespace Commit

/-! ### Steps that change no record -/

/-- Whatever it gives, the step does no more than making names and keeping contents under them. -/
def Grows {α : Type} (c : Commit Memory α) : Prop := ∀ g, Grown g (exec c g).2

section

variable {α β : Type} {c : Commit Memory α} {f : α → Commit Memory β}

theorem grows_of_still (still : ∀ g, (exec c g).2 = g) : Grows c := fun g => by
  rw [still g]
  exact .refl g

theorem Grows.bind (hc : Grows c) (hf : ∀ x, Grows (f x)) : Grows (c >>= f) := fun g => by
  have first := hc g
  rw [exec_bind]
  rcases run : exec c g with ⟨_ | x, h⟩
  · rw [run] at first
    exact first
  · rw [run] at first
    exact first.trans (hf x h)

theorem grows_pure (x : α) : Grows (pure x) := grows_of_still fun _ => rfl

theorem grows_throw (e : Error) : Grows (throw e : Commit Memory α) := grows_of_still fun _ => rfl

theorem grows_lift (r : Except Error α) : Grows (lift r) := grows_of_still fun _ => rfl

theorem grows_get (t : ElementType) (id : String) : Grows (get t id) := grows_of_still fun _ => rfl

end

theorem grows_idFor (t : ElementType) (id : Option String) : Grows (idFor t id) := by
  cases id with
  | none => exact .bind (grows_of_still fun _ => rfl) fun _ => .bind grown_mint fun _ => grows_pure _
  | some id =>
    show Grows (if id = "" then throw _ else pure id)
    split
    · exact grows_throw _
    · exact grows_pure _

theorem grows_realize (t : ElementType) (d : Draft) (endpoints : Option Endpoints) (a : Authorizations) :
    Grows (realize t d endpoints a) :=
  .bind (grows_lift _) fun _ => .bind (grows_idFor _ _) fun _ => .bind (grows_lift _) fun _ => grows_pure _

theorem grows_settleAll (owned : List String) (w : Whole) : Grows (settleAll owned w) := fun g =>
  (exec_settleAll owned w g).1

theorem grows_prepareNew (t : ElementType) (d : Draft) (endpoints : Option Endpoints) (a : Authorizations) :
    Grows (prepareNew t d endpoints a) := by
  refine .bind (grows_realize _ _ _ _) fun w => .bind (grows_get _ _) fun found => ?_
  split
  · exact grows_throw _
  · exact .bind (grows_settleAll _ _) fun _ => grows_pure _

theorem exec_requireVertex (id : String) (a : Authorizations) (g : Graph Memory) :
    exec (requireVertex id a) g = (g.seesVertex id a, g) := by
  rw [requireVertex, exec_bind, exec_get, Graph.seesVertex]
  cases g.store.get? .vertex id with
  | none => rfl
  | some r =>
    simp only
    rw [exec_bind, exec_lift]
    rcases r.view? .vertex a with _ | _ | _ <;> rfl

theorem grows_prepareEdge (d : Draft) (endpoints : Endpoints) (a : Authorizations) :
    Grows (prepareEdge d endpoints a) := by
  have rest : Grows (do endpoints.toList.forM (requireVertex · a); prepareNew .edge d (some endpoints) a) := by
    refine .bind (grows_of_still fun g => ?_) fun _ => grows_prepareNew _ _ _ _
    rw [exec_forM_check fun vertex => exec_requireVertex vertex a g]
  unfold prepareEdge
  simp only
  split
  · exact .bind (grows_throw _) fun _ => rest
  · exact rest

theorem grows_prepareStored (t : ElementType) (id : String) (changes : List Change) (a : Authorizations) :
    Grows (prepareStored t id changes a) := by
  refine .bind (grows_of_still fun g => ?_) fun _ => .bind (grows_lift _) fun _ => .bind (grows_lift _) fun _ =>
    .bind (grows_lift _) fun _ => .bind (grows_settleAll _ _) fun _ => grows_pure _
  rw [exec_stored]
  split <;> rfl

theorem grows_prepare (a : Authorizations) (s : Save) : Grows (prepare a s) :=
  match s with
  | .vertex _ => grows_prepareNew _ _ _ _
  | .edge _ _ => grows_prepareEdge _ _ _
  | .stored _ _ _ => grows_prepareStored _ _ _ _

end Commit

/-! ### What a save comes to write -/

/-- Where a save starts: a new element under a free id, or a stored one as it decodes. -/
def Save.StartsAt (s : Save) (a : Authorizations) (g : Graph Memory) (v : Revision) : Prop :=
  match s with
  | .vertex d => v.fresh = true ∧ ∃ id, v.base = ⟨.vertex, .bare id d.visibility, none, []⟩ ∧
      g.store.get? .vertex id = none
  | .edge d endpoints => v.fresh = true ∧ endpoints.label ≠ "" ∧ (∀ e ∈ endpoints.toList, g.seesVertex e a = .ok ()) ∧
      ∃ id, v.base = ⟨.edge, .bare id d.visibility, some endpoints, []⟩ ∧ g.store.get? .edge id = none
  | .stored t id _ => v.fresh = false ∧ ∃ r, g.store.get? t id = some r ∧ r.requireWritable a = .ok () ∧
      r.whole = .ok v.base

/-- A save that has come to writing: the changes apply to where it starts, and the contents are settled. -/
structure Prepared (s : Save) (a : Authorizations) (g h : Graph Memory) (v : Revision) : Prop where
  grown : Grown g h
  starts : s.StartsAt a g v
  changed : ∃ element ps, v.base.element.apply a s.changes = .ok element ∧
    List.Forall₂ (Placed v.base.type v.base.element.id v.base.keptKeys g h) element.properties ps ∧
      v.after = { v.base with element := { element with properties := ps } }
  readable : v.base.element.visibility.readableBy a = true
  shown : Visibility.anyReadableBy v.base.element.hidden a = false

/-- What of an element no save changes. -/
structure SameElement (w : Whole) (r : Record) : Prop where
  type : r.type = w.type
  id : r.id = w.element.id
  hidden : r.hidden = w.element.hidden
  endpoints : r.endpoints = w.endpoints
  edgeRefs : r.edgeRefs = w.edgeRefs

theorem Prepared.same {s : Save} {a : Authorizations} {g h : Graph Memory} {v : Revision}
    (prepared : Prepared s a g h v) : SameElement v.base v.after.encode := by
  obtain ⟨element, ps, applied, -, after⟩ := prepared.changed
  have kept := Element.apply_kept applied
  rw [after]
  exact ⟨rfl, kept.id, kept.hidden, rfl, rfl⟩

namespace Commit

variable {g h : Graph Memory} {a : Authorizations}

theorem seesVertex_isSome {id : String} {u : Unit} (h : g.seesVertex id a = .ok u) :
    (g.store.get? .vertex id).isSome := by
  unfold Graph.seesVertex at h
  split at h
  · exact absurd h (by simp)
  · rename_i found
    rw [found]
    rfl

theorem requireWritable_ok_iff {r : Record} : r.requireWritable a = .ok () ↔
    r.visibility.readableBy a = true ∧ Visibility.anyReadableBy r.hidden a = false := by
  unfold Record.requireWritable
  cases r.visibility.readableBy a <;> cases Visibility.anyReadableBy r.hidden a <;> simp

theorem realize_ok {t : ElementType} {d : Draft} {endpoints : Option Endpoints} {w : Whole}
    (run : exec (realize t d endpoints a) g = (.ok w, h)) :
    d.visibility.readableBy a = true ∧ ∃ id element, (Element.bare id d.visibility).apply a d.changes = .ok element ∧
      w = ⟨t, element, endpoints, []⟩ := by
  obtain ⟨_, _, required, run⟩ := exec_bind_ok run
  obtain ⟨id, _, -, run⟩ := exec_bind_ok run
  obtain ⟨element, _, applied, run⟩ := exec_bind_ok run
  exact ⟨require_ok (Prod.mk.inj required).1, id, element, (Prod.mk.inj applied).1,
    (Except.ok.inj (Prod.mk.inj run).1).symm⟩

theorem prepareNew_ok {t : ElementType} {d : Draft} {endpoints : Option Endpoints} {v : Revision}
    (run : exec (prepareNew t d endpoints a) g = (.ok v, h)) :
    ∃ id, v.fresh = true ∧ v.base = ⟨t, .bare id d.visibility, endpoints, []⟩ ∧ g.store.get? t id = none ∧
      d.visibility.readableBy a = true ∧
      ∃ element ps, v.base.element.apply a d.changes = .ok element ∧
        List.Forall₂ (Placed t id [] g h) element.properties ps ∧
        v.after = { v.base with element := { element with properties := ps } } := by
  obtain ⟨w, mid, realized, run⟩ := exec_bind_ok run
  obtain ⟨readable, id, element, applied, rfl⟩ := realize_ok realized
  have grown : Grown g mid := by
    have := grows_realize t d endpoints a g
    rwa [realized] at this
  obtain ⟨found, _, got, run⟩ := exec_bind_ok run
  obtain ⟨same, rfl⟩ := Prod.mk.inj got
  obtain rfl := Except.ok.inj same
  split at run
  · exact absurd (Prod.mk.inj run).1 (by simp)
  · rename_i free
    obtain ⟨after, k, settled, run⟩ := exec_bind_ok run
    obtain ⟨same, rfl⟩ := Prod.mk.inj run
    obtain rfl := Except.ok.inj same
    have placed := (exec_settleAll [] ⟨t, element, endpoints, []⟩ mid).2
    rw [settled] at placed
    obtain ⟨ps, rfl, placed⟩ := placed _ rfl
    have own_id : element.id = id := (Element.apply_kept applied).id
    subst own_id
    refine ⟨element.id, rfl, rfl, ?_, readable, element, ps, applied, ?_, rfl⟩
    · rw [← grown.get?]
      exact Option.not_isSome_iff_eq_none.mp free
    · exact placed.imp fun _ _ there => there.earlier grown

theorem prepareStored_ok {t : ElementType} {id : String} {changes : List Change} {v : Revision}
    (run : exec (prepareStored t id changes a) g = (.ok v, h)) :
    v.fresh = false ∧ ∃ r, g.store.get? t id = some r ∧ r.requireWritable a = .ok () ∧ r.whole = .ok v.base ∧
      ∃ element ps, v.base.element.apply a changes = .ok element ∧
        List.Forall₂ (Placed v.base.type v.base.element.id v.base.keptKeys g h) element.properties ps ∧
        v.after = { v.base with element := { element with properties := ps } } := by
  obtain ⟨r, _, found, run⟩ := exec_bind_ok run
  rw [exec_stored] at found
  split at found
  · rename_i record here
    obtain ⟨same, rfl⟩ := Prod.mk.inj found
    obtain rfl := Except.ok.inj same
    obtain ⟨_, _, lifted, run⟩ := exec_bind_ok run
    obtain ⟨writable, rfl⟩ := Prod.mk.inj lifted
    obtain ⟨before, _, lifted, run⟩ := exec_bind_ok run
    obtain ⟨whole, rfl⟩ := Prod.mk.inj lifted
    obtain ⟨element, _, lifted, run⟩ := exec_bind_ok run
    obtain ⟨applied, rfl⟩ := Prod.mk.inj lifted
    obtain ⟨after, k, settled, run⟩ := exec_bind_ok run
    obtain ⟨same, rfl⟩ := Prod.mk.inj run
    obtain rfl := Except.ok.inj same
    have placed := (exec_settleAll before.keptKeys { before with element } g).2
    rw [settled] at placed
    obtain ⟨ps, rfl, placed⟩ := placed _ rfl
    refine ⟨rfl, record, here, writable, whole, element, ps, applied, ?_, rfl⟩
    rw [(Element.apply_kept applied).id] at placed
    exact placed
  · exact absurd (Prod.mk.inj found).1 (by simp)

theorem prepareEdge_ok {d : Draft} {endpoints : Endpoints} {v : Revision}
    (run : exec (prepareEdge d endpoints a) g = (.ok v, h)) :
    endpoints.label ≠ "" ∧ (∀ e ∈ endpoints.toList, g.seesVertex e a = .ok ()) ∧
      exec (prepareNew .edge d (some endpoints) a) g = (.ok v, h) := by
  unfold prepareEdge at run
  simp only at run
  split at run
  · exact absurd (Prod.mk.inj run).1 (by simp)
  · rename_i label
    obtain ⟨_, _, seen, run⟩ := exec_bind_ok run
    rw [exec_forM_check fun vertex => exec_requireVertex vertex a g] at seen
    obtain ⟨all, rfl⟩ := Prod.mk.inj seen
    exact ⟨label, forM_ok_iff.mp all, run⟩

theorem prepare_ok {s : Save} {v : Revision} (run : exec (prepare a s) g = (.ok v, h)) : Prepared s a g h v := by
  have grown := grows_prepare a s g
  rw [run] at grown
  cases s with
  | vertex d =>
    obtain ⟨id, fresh, base, free, readable, changed⟩ := prepareNew_ok run
    refine ⟨grown, ⟨fresh, id, base, free⟩, ?_, ?_, ?_⟩ <;> rw [base] at *
    · exact changed
    · exact readable
    · rfl
  | edge d endpoints =>
    obtain ⟨label, seen, run⟩ := prepareEdge_ok run
    obtain ⟨id, fresh, base, free, readable, changed⟩ := prepareNew_ok run
    refine ⟨grown, ⟨fresh, label, seen, id, base, free⟩, ?_, ?_, ?_⟩ <;> rw [base] at *
    · exact changed
    · exact readable
    · rfl
  | stored t id changes =>
    obtain ⟨fresh, r, found, writable, whole, changed⟩ := prepareStored_ok run
    obtain ⟨readable, shown⟩ := requireWritable_ok_iff.mp writable
    refine ⟨grown, ⟨fresh, r, found, writable, whole⟩, changed, ?_, ?_⟩ <;>
      obtain ⟨ps, -, base⟩ := whole_ok_iff.mp whole <;> rw [base]
    · exact readable
    · exact shown

end Commit

/-- Which element a save writes: a new one under an id that has been free, or the stored one that it names. -/
inductive Save.Origin (s : Save) (g : Graph Memory) (v : Revision) : Prop
  | new : g.store.get? v.after.type v.after.element.id = none → v.base.element.properties = [] → Origin s g v
  | stored {changes : List Change} {r : Record} : s = .stored v.after.type v.after.element.id changes →
      g.store.get? v.after.type v.after.element.id = some r → r.whole = .ok v.base → Origin s g v

section

variable {g h : Graph Memory} {a : Authorizations} {v : Revision}

theorem Prepared.named {t : ElementType} {id : String} {changes : List Change}
    (prepared : Prepared (.stored t id changes) a g h v) (filed : g.store.Filed) :
    t = v.after.type ∧ id = v.after.element.id := by
  obtain ⟨-, r, found, -, whole⟩ := prepared.starts
  obtain ⟨ps, -, base⟩ := whole_ok_iff.mp whole
  obtain ⟨rfl, rfl⟩ := filed _ _ _ found
  have same := prepared.same
  rw [base] at same
  exact ⟨same.type.symm, same.id.symm⟩

variable {s : Save} (prepared : Prepared s a g h v)
include prepared

theorem Prepared.origin (filed : g.store.Filed) : s.Origin g v := by
  have same := prepared.same
  have starts := prepared.starts
  cases s with
  | vertex d =>
    obtain ⟨-, id, base, free⟩ := starts
    rw [base] at same
    exact .new (by rw [show v.after.type = _ from same.type, show v.after.element.id = _ from same.id]; exact free)
      (by rw [base]; rfl)
  | edge d ends =>
    obtain ⟨-, -, -, id, base, free⟩ := starts
    rw [base] at same
    exact .new (by rw [show v.after.type = _ from same.type, show v.after.element.id = _ from same.id]; exact free)
      (by rw [base]; rfl)
  | stored t id changes =>
    obtain ⟨-, r, found, -, whole⟩ := starts
    obtain ⟨rfl, rfl⟩ := prepared.named filed
    exact .stored rfl found whole

theorem Prepared.type (filed : g.store.Filed) : v.after.type = s.type := by
  have same := prepared.same
  have starts := prepared.starts
  cases s with
  | vertex d =>
    obtain ⟨-, id, base, -⟩ := starts
    exact same.type.trans (base ▸ rfl)
  | edge d ends =>
    obtain ⟨-, -, -, id, base, -⟩ := starts
    exact same.type.trans (base ▸ rfl)
  | stored t id changes => exact (prepared.named filed).1.symm

end

end GuardedGraph

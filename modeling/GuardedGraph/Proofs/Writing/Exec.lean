import GuardedGraph.Graph.Basic
import GuardedGraph.Proofs.Writing.References

/-! Running steps: what they give, and the graph after them. In memory no call of the store fails. -/

namespace GuardedGraph.Commit

open Store (Backend Memory)

variable {σ α β : Type}

/-- The result of a step, and the graph after it. -/
def exec (c : Commit σ α) (g : Graph σ) : Except Error α × Graph σ := c.run.run g

@[simp] theorem exec_pure (x : α) (g : Graph σ) : exec (pure x : Commit σ α) g = (.ok x, g) := rfl

@[simp] theorem exec_throw (e : Error) (g : Graph σ) : exec (throw e : Commit σ α) g = (.error e, g) := rfl

theorem exec_bind (c : Commit σ α) (f : α → Commit σ β) (g : Graph σ) :
    exec (c >>= f) g = match exec c g with
      | (.ok x, h) => exec (f x) h
      | (.error e, h) => (.error e, h) := by
  unfold exec
  rw [ExceptT.run_bind, StateT.run_bind]
  rcases StateT.run (ExceptT.run c) g with ⟨_ | _, _⟩ <;> rfl

theorem exec_bind_ok {c : Commit σ α} {f : α → Commit σ β} {g k : Graph σ} {y : β}
    (run : exec (c >>= f) g = (.ok y, k)) : ∃ x h, exec c g = (.ok x, h) ∧ exec (f x) h = (.ok y, k) := by
  rw [exec_bind] at run
  rcases hc : exec c g with ⟨_ | x, h⟩
  · rw [hc] at run
    exact absurd (Prod.mk.inj run).1 (by simp)
  · rw [hc] at run
    exact ⟨x, h, rfl, run⟩

@[simp] theorem exec_lift (r : Except Error α) (g : Graph σ) : exec (lift r) g = (r, g) := rfl

@[simp] theorem exec_config (g : Graph σ) : exec config g = (.ok g.config, g) := rfl

@[simp] theorem exec_mint (g : Graph σ) :
    exec mint g = (.ok g.nextName, { g with minted := g.minted + 1 }) := rfl

@[simp] theorem exec_changeIndex (f : Search.Index → Search.Index) (g : Graph σ) :
    exec (changeIndex f) g = (.ok (), { g with index := g.index.map f }) := rfl

theorem exec_forM {f : α → Commit σ Unit} {step : Graph σ → α → Graph σ}
    (each : ∀ x g, exec (f x) g = (.ok (), step g x)) (l : List α) (g : Graph σ) :
    exec (l.forM f) g = (.ok (), l.foldl step g) := by
  induction l generalizing g with
  | nil => rfl
  | cons x xs ih =>
    show exec (f x >>= fun _ => xs.forM f) g = _
    rw [exec_bind, each]
    exact ih (step g x)

theorem exec_forM_store {f : α → Commit σ Unit} (step : σ → α → σ)
    (each : ∀ x (g : Graph σ), exec (f x) g = (.ok (), { g with store := step g.store x })) (l : List α) (g : Graph σ) :
    exec (l.forM f) g = (.ok (), { g with store := l.foldl step g.store }) := by
  rw [exec_forM each]
  congr 1
  induction l generalizing g with
  | nil => rfl
  | cons x xs ih => exact ih _

theorem exec_forM_check {f : α → Commit σ Unit} {check : α → Except Error Unit} {g : Graph σ}
    (each : ∀ x, exec (f x) g = (check x, g)) (l : List α) : exec (l.forM f) g = (l.forM check, g) := by
  induction l with
  | nil => rfl
  | cons x xs ih =>
    show exec (f x >>= fun _ => xs.forM f) g = (check x >>= fun _ => xs.forM check, g)
    rw [exec_bind, each]
    cases check x with
    | error e => rfl
    | ok _ => exact ih

/-! ### Calls of the store -/

@[simp] theorem exec_get (t : ElementType) (id : String) (g : Graph Memory) :
    exec (get t id) g = (.ok (g.store.get? t id), g) := rfl

@[simp] theorem exec_put (r : Record) (g : Graph Memory) :
    exec (put r) g = (.ok (), { g with store := g.store.put r }) := rfl

@[simp] theorem exec_delete (t : ElementType) (id : String) (g : Graph Memory) :
    exec (delete t id) g = (.ok (g.store.get? t id).isSome, { g with store := g.store.delete t id }) := rfl

@[simp] theorem exec_kept (key : String) (g : Graph Memory) :
    exec (ask (Backend.kept · key)) g = (.ok (g.store.kept? key), g) := rfl

@[simp] theorem exec_keep (key : String) (content : ByteArray) (g : Graph Memory) :
    exec (tell (Backend.keep · key content)) g = (.ok (), { g with store := g.store.keep key content }) := rfl

@[simp] theorem exec_discard (key : String) (g : Graph Memory) :
    exec (exchange (Backend.discard · key)) g =
      (.ok (g.store.kept? key).isSome, { g with store := g.store.discard key }) := rfl

theorem exec_stored (t : ElementType) (id : String) (g : Graph Memory) :
    exec (stored t id) g = match g.store.get? t id with
      | some r => (.ok r, g)
      | none => (.error (.absent (.element t id)), g) := by
  rw [stored, exec_bind, exec_get]
  cases g.store.get? t id <;> rfl

theorem exec_changeRefs (vertex : String) (f : List EdgeRef → List EdgeRef) (g : Graph Memory) :
    exec (changeRefs vertex f) g =
      (.ok (g.store.get? .vertex vertex).isSome, { g with store := g.store.mapRefs vertex f }) := by
  rw [changeRefs, exec_bind, exec_get, Memory.mapRefs]
  cases g.store.get? .vertex vertex <;> rfl

theorem exec_changeRefsOf (edge : String) (endpoints : Endpoints) (f : EdgeRef → EdgeRef) (g : Graph Memory) :
    exec (changeRefsOf edge endpoints f) g =
      (.ok (), { g with
        store := g.store.mapEnds endpoints fun refs => refs.map fun r => if r.edge = edge then f r else r }) := by
  refine exec_forM_store (fun m vertex => m.mapRefs vertex fun refs =>
    refs.map fun r => if r.edge = edge then f r else r) (fun vertex g => ?_) endpoints.toList g
  rw [exec_bind, exec_changeRefs]
  rfl

end GuardedGraph.Commit

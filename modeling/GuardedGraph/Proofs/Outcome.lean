import GuardedGraph.Error
import Mathlib.Data.List.Forall2

/-! Opening computations that may fail: what is known when one of them has given a result. -/

namespace GuardedGraph.Outcome

variable {α β : Type} {ε : Type}

theorem bind_ok {x : Except ε α} {f : α → Except ε β} {b : β} (h : (x >>= f) = .ok b) :
    ∃ a, x = .ok a ∧ f a = .ok b := by
  cases x with
  | error e => exact absurd h (by simp [bind, Except.bind])
  | ok a => exact ⟨a, rfl, h⟩

theorem pure_ok {a b : α} (h : (pure a : Except ε α) = .ok b) : a = b := Except.ok.inj h

theorem map_ok {x : Except ε α} {f : α → β} {b : β} (h : x.map f = .ok b) : ∃ a, x = .ok a ∧ f a = b := by
  cases x with
  | error e => exact absurd h (by simp [Except.map])
  | ok a => exact ⟨a, rfl, Except.ok.inj h⟩

theorem ok_of_isOk {x : Except ε α} (ok : x.isOk = true) : ∃ a, x = .ok a := by
  cases x with
  | error e => exact absurd ok Bool.false_ne_true
  | ok a => exact ⟨a, rfl⟩

theorem forM_ok_iff {f : α → Except ε Unit} {l : List α} : l.forM f = .ok () ↔ ∀ x ∈ l, f x = .ok () := by
  induction l with
  | nil => simp [pure, Except.pure]
  | cons x xs ih =>
    show (f x >>= fun _ => xs.forM f) = _ ↔ _
    rw [List.forall_mem_cons, ← ih]
    constructor
    · intro h
      obtain ⟨_, hx, h⟩ := bind_ok h
      exact ⟨hx, h⟩
    · rintro ⟨hx, h⟩
      rw [hx]
      exact h

theorem mapM_ok_iff {f : α → Except ε β} {l : List α} {ys : List β} :
    l.mapM f = .ok ys ↔ List.Forall₂ (fun x y => f x = .ok y) l ys := by
  induction l generalizing ys with
  | nil =>
    rw [List.mapM_nil, List.forall₂_nil_left_iff]
    exact ⟨fun h => (pure_ok h).symm, fun h => h ▸ rfl⟩
  | cons x xs ih =>
    rw [List.mapM_cons, List.forall₂_cons_left_iff]
    constructor
    · intro h
      obtain ⟨y, hy, h⟩ := bind_ok h
      obtain ⟨zs, hz, h⟩ := bind_ok h
      exact ⟨y, zs, hy, ih.mp hz, (pure_ok h).symm⟩
    · rintro ⟨y, zs, hy, hz, rfl⟩
      rw [hy, ih.mpr hz]
      rfl

theorem mapM_ok_of_forall {f : α → Except ε β} {l : List α} (h : ∀ x ∈ l, ∃ y, f x = .ok y) :
    ∃ ys, l.mapM f = .ok ys := by
  induction l with
  | nil => exact ⟨[], rfl⟩
  | cons x xs ih =>
    obtain ⟨y, hy⟩ := h x List.mem_cons_self
    obtain ⟨ys, hys⟩ := ih fun z hz => h z (List.mem_cons_of_mem _ hz)
    exact ⟨y :: ys, mapM_ok_iff.mpr (.cons hy (mapM_ok_iff.mp hys))⟩

theorem exists_left_of_mem {R : α → β → Prop} {l : List α} {m : List β} (h : List.Forall₂ R l m) {y : β}
    (hy : y ∈ m) : ∃ x ∈ l, R x y := by
  induction h with
  | nil => simp at hy
  | cons hr _ ih =>
    rcases List.mem_cons.mp hy with rfl | hy
    · exact ⟨_, List.mem_cons_self, hr⟩
    · obtain ⟨x, hx, r⟩ := ih hy
      exact ⟨x, List.mem_cons_of_mem _ hx, r⟩

theorem exists_right_of_mem {R : α → β → Prop} {l : List α} {m : List β} (h : List.Forall₂ R l m) {x : α}
    (hx : x ∈ l) : ∃ y ∈ m, R x y := exists_left_of_mem h.flip hx

/-! ### Lists in step -/

section

variable {γ : Type} {R : α → β → Prop} {l : List α} {m : List β} (each : List.Forall₂ R l m)
include each

theorem map_eq_of_forall₂ {f : α → γ} {k : β → γ} (same : ∀ x y, R x y → k y = f x) : m.map k = l.map f := by
  induction each with
  | nil => rfl
  | cons here _ ih => rw [List.map_cons, List.map_cons, same _ _ here, ih]

theorem filterMap_eq_of_forall₂ {f : α → Option γ} {k : β → Option γ} (same : ∀ x y, R x y → k y = f x) :
    m.filterMap k = l.filterMap f := by
  induction each with
  | nil => rfl
  | cons here _ ih => rw [List.filterMap_cons, List.filterMap_cons, same _ _ here, ih]

/-- Where each step of the second list gives something, so does that of the first, and what they give is related. -/
theorem mapM_along {δ : Type} {S : γ → δ → Prop} {f : α → Except ε γ} {k : β → Except ε δ}
    (next : ∀ x y z, R x y → k y = .ok z → ∃ u, f x = .ok u ∧ S u z) {zs : List δ} (given : m.mapM k = .ok zs) :
    ∃ us, l.mapM f = .ok us ∧ List.Forall₂ S us zs := by
  rw [mapM_ok_iff] at given
  induction each generalizing zs with
  | nil =>
    obtain rfl := List.forall₂_nil_left_iff.mp given
    exact ⟨[], rfl, .nil⟩
  | cons here _ ih =>
    obtain ⟨z, zs, one, rest, rfl⟩ := List.forall₂_cons_left_iff.mp given
    obtain ⟨u, first, related⟩ := next _ _ _ here one
    obtain ⟨us, later, each⟩ := ih rest
    exact ⟨u :: us, mapM_ok_iff.mpr (.cons first (mapM_ok_iff.mp later)), .cons related each⟩

end

/-! ### What is looked at of a result -/

section

variable {γ δ : Type} {look : β → δ}

theorem map_bind_congr {x : Except ε α} {k l : α → Except ε β}
    (next : ∀ u, x = .ok u → (k u).map look = (l u).map look) : (x >>= k).map look = (x >>= l).map look := by
  cases x with
  | error e => rfl
  | ok u => exact next u rfl

/-- Computations with results that look alike go on alike. -/
theorem map_bind_alike {x y : Except ε α} (glance : α → γ) {k l : α → Except ε β} (alike : x.map glance = y.map glance)
    (next : ∀ u v, glance u = glance v → (k u).map look = (l v).map look) :
    (x >>= k).map look = (y >>= l).map look := by
  cases x <;> cases y
  case error.error e e' =>
    obtain rfl := Except.error.inj alike
    rfl
  case ok.ok u v => exact next u v (Except.ok.inj alike)
  all_goals exact absurd alike (by simp [Except.map])

end

end GuardedGraph.Outcome

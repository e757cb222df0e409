import GuardedGraph.Element.Change
import GuardedGraph.Proofs.Outcome

/-! What changes to an element leave as it is. -/

namespace GuardedGraph

open Outcome

variable {a : Authorizations}

theorem require_ok {what : Guarded} {v : Visibility} {u : Unit} (h : a.require what v = .ok u) :
    v.readableBy a = true := by
  unfold Authorizations.require at h
  split at h
  · assumption
  · exact absurd h (by simp)

theorem Change.visibility_ok {c : Change} {v w : Visibility} (h : c.visibility a v = .ok w)
    (readable : v.readableBy a = true) : w.readableBy a = true := by
  unfold Change.visibility at h
  split at h
  · obtain ⟨_, required, h⟩ := bind_ok h
    obtain rfl := pure_ok h
    exact require_ok required
  · obtain rfl := pure_ok h
    exact readable

/-- What no change of `a` does to an element: give it another id or markers, or take it out of the sight of `a`. -/
structure Element.Kept (a : Authorizations) (e f : Element) : Prop where
  id : f.id = e.id
  hidden : f.hidden = e.hidden
  readable : e.visibility.readableBy a = true → f.visibility.readableBy a = true

theorem Change.apply_ok {c : Change} {e f : Element} (h : c.apply a e = .ok f) :
    ∃ v ps, c.visibility a e.visibility = .ok v ∧ c.properties a e.properties = .ok ps ∧
      f = { e with visibility := v, properties := ps } := by
  obtain ⟨v, hv, h⟩ := bind_ok h
  obtain ⟨ps, hps, h⟩ := bind_ok h
  exact ⟨v, ps, hv, hps, (pure_ok h).symm⟩

theorem Change.apply_kept {c : Change} {e f : Element} (h : c.apply a e = .ok f) : e.Kept a f := by
  obtain ⟨v, ps, hv, -, rfl⟩ := apply_ok h
  exact ⟨rfl, rfl, visibility_ok hv⟩

namespace Element

theorem apply_cons {c : Change} {cs : List Change} {e f : Element} (h : e.apply a (c :: cs) = .ok f) :
    ∃ mid, c.apply a e = .ok mid ∧ mid.apply a cs = .ok f := by
  unfold apply at h
  rw [List.foldlM_cons] at h
  exact bind_ok h

theorem apply_induction {P : Element → Element → Prop} (refl : ∀ e, P e e)
    (step : ∀ {c : Change} {e mid f : Element}, c.apply a e = .ok mid → P mid f → P e f)
    {changes : List Change} {e f : Element} (h : e.apply a changes = .ok f) : P e f := by
  induction changes generalizing e with
  | nil =>
    obtain rfl := pure_ok h
    exact refl _
  | cons c cs ih =>
    obtain ⟨mid, first, rest⟩ := apply_cons h
    exact step first (ih rest)

theorem apply_kept {changes : List Change} {e f : Element} (h : e.apply a changes = .ok f) : e.Kept a f := by
  refine apply_induction (fun _ => ⟨rfl, rfl, fun r => r⟩) (fun first rest => ?_) h
  have one := Change.apply_kept first
  exact ⟨rest.id.trans one.id, rest.hidden.trans one.hidden, fun r => rest.readable (one.readable r)⟩

end Element

end GuardedGraph

import GuardedGraph.Authorizations
import GuardedGraph.Text.Quoted
import GuardedGraph.Visibility.Expr

/-!
Visibilities: texts that parse, each with its expression. Two visibilities are equal when their texts
are, since a text has one expression.
-/

namespace GuardedGraph

open Text

/-- An expression over label tokens, as text without blanks around it. -/
structure Visibility where
  text : String
  rule : Option Visibility.Expr
  parsed : Visibility.parse text = .ok rule

namespace Visibility

theorem ext_text {v w : Visibility} (h : v.text = w.text) : v = w := by
  obtain ⟨t, r, hr⟩ := v
  obtain ⟨u, s, hs⟩ := w
  subst h
  simp only [hr, Except.ok.injEq] at hs
  subst hs
  rfl

theorem text_inj {v w : Visibility} : v.text = w.text ↔ v = w := ⟨ext_text, fun h => h ▸ rfl⟩

/-- Visibilities are ordered by their texts. -/
instance : Ord Visibility := ⟨fun v w => compare v.text w.text⟩

instance : DecidableEq Visibility := fun _ _ => decidable_of_iff _ text_inj

/-- The blanks around a text are no part of its expression. -/
theorem parse_trim {text : String} {rule : Option Expr} (h : parse text = .ok rule) : parse (trim text) = .ok rule := by
  obtain ⟨bs, hbs, hb⟩ := trimLeft_append text.toList
  obtain ⟨ts, hts, ht⟩ := trimRight_append (trimLeft text.toList)
  have trimmed : (trim text).toList = trimRight (trimLeft text.toList) := by simp [trim]
  cases hl : lexemes text.toList with
  | error e => simp [parse, hl, Except.bind] at h
  | ok ls =>
    have moved : lexFrom .nothing (0 + width bs) (trimRight (trimLeft text.toList)) = .ok ls := by
      refine lexFrom_blanks ht ?_
      rw [← hts, ← lexFrom_blanks_append hb, ← hbs]
      exact hl
    obtain ⟨ms, hms, rfl⟩ := shifted_eq_ok_iff.mp ((lexFrom_shift (width bs) .nothing 0 _).symm.trans moved)
    simp only [parse, hl, Except.bind] at h
    simp only [parse, trimmed, lexemes, hms, Except.bind]
    simp only [List.map_eq_nil_iff] at h
    split
    · rename_i nil
      rw [if_pos nil] at h
      exact h
    · rename_i nil
      rw [if_neg nil] at h
      cases ha : assemble (width text.toList) (ms.map (Placed.shift (width bs))) with
      | error e => rw [ha] at h; exact absurd h (by simp [Except.map])
      | ok e =>
        rw [ha] at h
        have hs := assemble_shift (width bs) (width (trimRight (trimLeft text.toList))) ms
        rw [assemble_stop ha] at hs
        obtain ⟨f, hf, rfl⟩ := shifted_eq_ok_iff.mp hs.symm
        rw [hf]
        exact h

def ofText (text : String) : Except ParseError Visibility :=
  match h : parse text with
  | .ok rule => .ok ⟨trim text, rule, parse_trim h⟩
  | .error e => .error e

def unrestricted : Visibility := ⟨"", none, rfl⟩

def isUnrestricted (v : Visibility) : Bool := v.rule.isNone

/-- Whether the tokens of `a` satisfy the expression. -/
def readableBy (v : Visibility) (a : Authorizations) : Bool :=
  match v.rule with
  | none => true
  | some e => e.eval a.holds

def debug (v : Visibility) : String := "Visibility(" ++ quoted v.text ++ ")"

/-- Whether `a` satisfies one of the markers. -/
def anyReadableBy (vs : List Visibility) (a : Authorizations) : Bool := vs.any (·.readableBy a)

end Visibility

/-- Something labelled `v` and marked hidden under `hidden` is there for `a`. -/
def Authorizations.sees (a : Authorizations) (v : Visibility) (hidden : List Visibility) : Bool :=
  v.readableBy a && !Visibility.anyReadableBy hidden a

end GuardedGraph

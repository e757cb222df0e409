/-!
Sets of characters given by ranges of code points. Looking a code point up stops at the first range that
begins behind it, which is right because the ranges ascend (`has_iff`).
-/

namespace GuardedGraph.Text

namespace Ranges

def find : List (Nat × Nat) → Nat → Bool
  | [], _ => false
  | (first, last) :: rest, n => first ≤ n && (n ≤ last || find rest n)

/-- Whether each range begins behind the end of the one before; `low` is where the first may begin. -/
def ascendingFrom : Nat → List (Nat × Nat) → Bool
  | _, [] => true
  | low, (first, last) :: rest => low ≤ first && first ≤ last && ascendingFrom (last + 1) rest

end Ranges

/-- Ranges of code points, each with its first and its last, one behind the other. -/
structure Ranges where
  entries : List (Nat × Nat)
  ascending : Ranges.ascendingFrom 0 entries

namespace Ranges

def has (r : Ranges) (n : Nat) : Bool := find r.entries n

theorem low_le_of_mem {low : Nat} {l : List (Nat × Nat)} (h : ascendingFrom low l) {p : Nat × Nat} (hp : p ∈ l) :
    low ≤ p.1 := by
  induction l generalizing low with
  | nil => simp at hp
  | cons q l ih =>
    simp only [ascendingFrom, Bool.and_eq_true, decide_eq_true_eq] at h
    rcases List.mem_cons.mp hp with rfl | hp
    · exact h.1.1
    · have := ih h.2 hp
      omega

theorem find_iff {low : Nat} {l : List (Nat × Nat)} (h : ascendingFrom low l) {n : Nat} :
    find l n ↔ ∃ p ∈ l, p.1 ≤ n ∧ n ≤ p.2 := by
  induction l generalizing low with
  | nil => simp [find]
  | cons q l ih =>
    simp only [ascendingFrom, Bool.and_eq_true, decide_eq_true_eq] at h
    simp only [find, Bool.and_eq_true, Bool.or_eq_true, decide_eq_true_eq, ih h.2, List.mem_cons]
    constructor
    · rintro ⟨first, last | ⟨p, hp, found⟩⟩
      · exact ⟨q, .inl rfl, first, last⟩
      · exact ⟨p, .inr hp, found⟩
    · rintro ⟨p, rfl | hp, first, last⟩
      · exact ⟨first, .inl last⟩
      · have := low_le_of_mem h.2 hp
        exact ⟨by omega, .inr ⟨p, hp, first, last⟩⟩

theorem has_iff {r : Ranges} {n : Nat} : r.has n ↔ ∃ p ∈ r.entries, p.1 ≤ n ∧ n ≤ p.2 := find_iff r.ascending

end Ranges

end GuardedGraph.Text

import GuardedGraph.Graph.Content
import Mathlib.Logic.Function.Basic

/-! Names that a graph gives are all different, and so are the keys that end in them. -/

namespace GuardedGraph.Graph

/-- A key for content that ends in the `n`-th of the names. -/
def MadeKey (names : Names) (n : Nat) (key : String) : Prop := ∃ t id p, key = contentKey t id p (names.nth n)

theorem toList_contentKey (t : ElementType) (id : String) (p : Property) (suffix : String) :
    ∃ front, (contentKey t id p suffix).toList = front ++ '/' :: suffix.toList :=
  ⟨("/".intercalate [t.name, id, p.key, p.name, p.visibility.text]).toList, by simp [contentKey]⟩

theorem suffix_unique {a b s t : List Char} (hs : '/' ∉ s) (ht : '/' ∉ t) (h : a ++ '/' :: s = b ++ '/' :: t) :
    s = t := by
  have last (c u : List Char) (hu : '/' ∉ u) : (c ++ '/' :: u).reverse.takeWhile (· ≠ '/') = u.reverse := by
    have all : ∀ x ∈ u.reverse, decide (x ≠ '/') = true := fun x hx =>
      decide_eq_true fun e => hu (e ▸ List.mem_reverse.mp hx)
    rw [List.reverse_append, List.reverse_cons, List.append_assoc, List.takeWhile_append_of_pos all]
    simp
  have same := last a s hs
  rw [h, last b t ht] at same
  exact (List.reverse_inj.mp same).symm

theorem MadeKey.unique {names : Names} {n m : Nat} {key : String} (hn : MadeKey names n key)
    (hm : MadeKey names m key) : n = m := by
  obtain ⟨t, id, p, rfl⟩ := hn
  obtain ⟨u, jd, q, same⟩ := hm
  obtain ⟨front, hf⟩ := toList_contentKey t id p (names.nth n)
  obtain ⟨back, hb⟩ := toList_contentKey u jd q (names.nth m)
  rw [same, hb] at hf
  exact names.distinct (String.toList_inj.mp (suffix_unique (names.plain m) (names.plain n) hf).symm)

end GuardedGraph.Graph

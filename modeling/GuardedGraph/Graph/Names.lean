/-!
The names that a graph gives by itself, to new elements and to contents. They come from a supply, which a graph is
made with: any sequence of different names will do that have no slash in them, since keys are cut at slashes.
-/

namespace GuardedGraph

/-- A supply of names, no two the same. -/
structure Names where
  nth : Nat → String
  distinct : Function.Injective nth
  plain : ∀ n, '/' ∉ (nth n).toList

namespace Graph

/-! ### Names by counting -/

/-- The digits of a number, at least `size` of them. -/
def paddedHex (size n : Nat) : String :=
  let digits := Nat.toDigits 16 n
  String.ofList (List.replicate (size - digits.length) '0' ++ digits)

/-- The `n`-th name of a counter: 32 hexadecimal digits, of which the first are a time and a version, so that
later names are greater. -/
def name (n : Nat) : String := "019b00000000700080" ++ paddedHex 14 n

def hexValue (c : Char) : Nat := if c.isDigit then c.toNat - 48 else c.toNat - 87

def hexNumber (cs : List Char) : Nat := cs.foldl (fun n c => 16 * n + hexValue c) 0

theorem hexNumber_snoc (cs : List Char) (c : Char) : hexNumber (cs ++ [c]) = 16 * hexNumber cs + hexValue c := by
  simp [hexNumber]

theorem hexValue_digitChar {d : Nat} (hd : d < 16) : hexValue d.digitChar = d := by
  have all : ∀ e : Fin 16, hexValue e.val.digitChar = e.val := by decide
  exact all ⟨d, hd⟩

theorem hexNumber_toDigits (n : Nat) : hexNumber (Nat.toDigits 16 n) = n := by
  induction n using Nat.strongRecOn with
  | ind n ih =>
    rw [Nat.toDigits_eq_if (by omega)]
    split
    · rename_i small
      show 16 * 0 + hexValue n.digitChar = n
      rw [hexValue_digitChar small]
      omega
    · rename_i large
      rw [hexNumber_snoc, ih (n / 16) (by omega), hexValue_digitChar (Nat.mod_lt n (by omega))]
      omega

theorem hexNumber_zeros (k : Nat) (cs : List Char) : hexNumber (List.replicate k '0' ++ cs) = hexNumber cs := by
  induction k with
  | zero => rfl
  | succ k ih => exact ih

theorem slash_not_mem_toDigits (n : Nat) : '/' ∉ Nat.toDigits 16 n := by
  induction n using Nat.strongRecOn with
  | ind n ih =>
    have all : ∀ e : Fin 16, '/' ≠ e.val.digitChar := by decide
    rw [Nat.toDigits_eq_if (by omega)]
    split
    · rename_i small
      exact List.not_mem_cons_of_ne_of_not_mem (all ⟨n, small⟩) List.not_mem_nil
    · rename_i large
      rw [List.mem_append, not_or]
      have last := all ⟨n % 16, Nat.mod_lt n (by decide)⟩
      exact ⟨ih (n / 16) (by omega), List.not_mem_cons_of_ne_of_not_mem last List.not_mem_nil⟩

theorem toList_paddedHex (size n : Nat) :
    (paddedHex size n).toList = List.replicate (size - (Nat.toDigits 16 n).length) '0' ++ Nat.toDigits 16 n :=
  String.toList_ofList

theorem toList_name (n : Nat) : (name n).toList = "019b00000000700080".toList ++ (paddedHex 14 n).toList :=
  String.toList_append

theorem name_injective : Function.Injective name := by
  intro n m same
  have lists := congrArg String.toList same
  rw [toList_name, toList_name] at lists
  have digits := congrArg hexNumber (List.append_cancel_left lists)
  rw [toList_paddedHex, toList_paddedHex, hexNumber_zeros, hexNumber_zeros, hexNumber_toDigits,
    hexNumber_toDigits] at digits
  exact digits

theorem slash_not_mem_name (n : Nat) : '/' ∉ (name n).toList := by
  rw [toList_name, toList_paddedHex, List.mem_append, List.mem_append, not_or, not_or]
  refine ⟨by decide, fun h => ?_, slash_not_mem_toDigits n⟩
  exact absurd (List.eq_of_mem_replicate h) (by decide)

end Graph

/-- Names counted up, in the place of names from the time and from chance. -/
def Names.counted : Names := ⟨Graph.name, Graph.name_injective, Graph.slash_not_mem_name⟩

end GuardedGraph

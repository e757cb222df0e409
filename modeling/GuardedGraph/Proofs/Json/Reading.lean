import GuardedGraph.Proofs.Json.Literals
import GuardedGraph.Proofs.Json.Numbers

/-! What is written for a tree is read as that tree, if the tree spells nothing that is no JSON. -/

namespace GuardedGraph.Json

mutual

/-- Whether the tree is one that is written as it is: its texts are texts, and its numbers well spelt. -/
def Written : Json → Prop
  | .null => True
  | .bool _ => True
  | .number n => n.Written
  | .text s => s.isSome
  | .array items => WrittenItems items
  | .object members => WrittenMembers members

def WrittenItems : List Json → Prop
  | [] => True
  | j :: js => j.Written ∧ WrittenItems js

def WrittenMembers : List (Option String × Json) → Prop
  | [] => True
  | (k, j) :: ms => k.isSome ∧ j.Written ∧ WrittenMembers ms

end

/-! ### First bytes -/

/-- What a written tree can begin with. -/
def Begins (b : UInt8) : Prop := isBlank b = false ∧ b ≠ 0x5d ∧ b ≠ 0x7d

theorem skip_begins {b : UInt8} (begins : Begins b) (bs : List UInt8) : skip (b :: bs) = b :: bs := by
  rw [skip, List.dropWhile_cons, begins.1]
  rfl

theorem begins_number {b : UInt8} (low : 0x2d ≤ b.toNat) (high : b.toNat ≤ 0x39) :
    Begins b ∧ b ∉ [0x6e, 0x74, 0x66, 0x22, 0x5b, 0x7b] := by
  have all : ∀ i : Fin 13, (isBlank (UInt8.ofNat (0x2d + i)) = false ∧ UInt8.ofNat (0x2d + i) ≠ 0x5d ∧
      UInt8.ofNat (0x2d + i) ≠ 0x7d) ∧ UInt8.ofNat (0x2d + i) ∉ [0x6e, 0x74, 0x66, 0x22, 0x5b, 0x7b] := by decide
  have here := all ⟨b.toNat - 0x2d, by omega⟩
  rwa [show 0x2d + (b.toNat - 0x2d) = b.toNat by omega, UInt8.ofNat_toNat] at here

theorem number_begins {n : Number} (written : n.Written) :
    ∃ b bs, n.write = b :: bs ∧ Begins b ∧ b ∉ [0x6e, 0x74, 0x66, 0x22, 0x5b, 0x7b] := by
  rw [Number.write_eq]
  cases n.negative with
  | true => exact ⟨0x2d, _, rfl, begins_number (by decide) (by decide)⟩
  | false =>
    obtain ⟨c, cs, whole⟩ := List.exists_cons_of_ne_nil written.whole.1
    have ⟨low, high⟩ := (isDigit_iff c).mp (written.whole.2 c (whole ▸ List.mem_cons_self))
    have same := toNat_ascii (c := c) (by omega)
    rw [whole]
    exact ⟨ascii c, _, rfl, begins_number (by omega) (by omega)⟩

theorem write_begins {j : Json} (written : j.Written) : ∃ b bs, j.write = b :: bs ∧ Begins b := by
  cases j with
  | null => exact ⟨0x6e, asciiText "ull", by decide, by simp [Begins, isBlank]⟩
  | bool b =>
    cases b with
    | false => exact ⟨0x66, asciiText "alse", by decide, by simp [Begins, isBlank]⟩
    | true => exact ⟨0x74, asciiText "rue", by decide, by simp [Begins, isBlank]⟩
  | number n =>
    rw [Json.Written] at written
    obtain ⟨b, bs, first, begins, -⟩ := number_begins written
    exact ⟨b, bs, by rw [write, first], begins⟩
  | text s => exact ⟨0x22, _, by rw [write, writeText]; rfl, by simp [Begins, isBlank]⟩
  | array items => exact ⟨0x5b, _, by rw [write]; rfl, by simp [Begins, isBlank]⟩
  | object members => exact ⟨0x7b, _, by rw [write]; rfl, by simp [Begins, isBlank]⟩

/-! ### Last bytes -/

/-- What can follow a tree in a text. -/
def Ends (rest : List UInt8) : Prop := ∀ b ∈ rest.head?, b ∈ [0x2c, 0x5d, 0x7d]

theorem Ends.number {rest : List UInt8} (ends : Ends rest) : EndsNumber rest := by
  have all : ∀ b ∈ [0x2c, 0x5d, (0x7d : UInt8)], isDigit b = false ∧ b ∉ [0x2e, 0x65, 0x45] := by
    decide +kernel
  exact fun b mem => all b (ends b mem)

theorem ends_cons {b : UInt8} (mem : b ∈ [0x2c, 0x5d, (0x7d : UInt8)]) (rest : List UInt8) : Ends (b :: rest) :=
  fun _ same => Option.some.inj same ▸ mem

/-! ### Trees -/

theorem value_number {n : Number} (written : n.Written) (fuel : Nat) {rest : List UInt8} (ends : Ends rest) :
    value (fuel + 1) (n.write ++ rest) = some (.number n, rest) := by
  obtain ⟨b, bs, first, begins, other⟩ := number_begins written
  simp only [List.mem_cons, List.not_mem_nil, or_false, not_or] at other
  have run := number?_write written ends.number
  rw [first] at run ⊢
  rw [value, List.cons_append, skip_begins begins]
  simp only [other, if_false]
  rw [List.cons_append] at run
  rw [run]
  rfl

theorem value_text (s : String) (fuel : Nat) (rest : List UInt8) :
    value (fuel + 1) (writeText s ++ rest) = some (.text (some s), rest) := by
  show value (fuel + 1) (0x22 :: ((s.toUTF8.data.toList.flatMap escape ++ [0x22]) ++ rest)) = _
  rw [List.append_assoc, value]
  show (literal _).map _ = _
  rw [List.singleton_append, literal_writeText s rest]
  rfl

theorem value_array {b : UInt8} (begins : Begins b) (fuel : Nat) (bs : List UInt8) :
    value (fuel + 1) (0x5b :: b :: bs) = (items fuel (b :: bs)).map fun r => (.array r.1, r.2) := by
  have here : skip (0x5b :: b :: bs) = 0x5b :: b :: bs := rfl
  simp only [value, here, skip_begins begins]
  rw [if_neg (by decide), if_neg (by decide), if_neg (by decide), if_neg (by decide), if_pos trivial]
  split
  · rename_i same
    exact absurd (List.cons.inj same).1 begins.2.1
  · rfl

theorem value_object {b : UInt8} (begins : Begins b) (fuel : Nat) (bs : List UInt8) :
    value (fuel + 1) (0x7b :: b :: bs) = (members fuel (b :: bs)).map fun r => (.object r.1, r.2) := by
  have here : skip (0x7b :: b :: bs) = 0x7b :: b :: bs := rfl
  simp only [value, here, skip_begins begins]
  rw [if_neg (by decide), if_neg (by decide), if_neg (by decide), if_neg (by decide), if_neg (by decide),
    if_pos trivial]
  split
  · rename_i same
    exact absurd (List.cons.inj same).1 begins.2.2
  · rfl

section

variable {fuel : Nat} {j : Json} {bs rest : List UInt8}

theorem items_last (run : value fuel bs = some (j, 0x5d :: rest)) : items (fuel + 1) bs = some ([j], rest) := by
  rw [items, run]
  rfl

theorem items_more (run : value fuel bs = some (j, 0x2c :: rest)) :
    items (fuel + 1) bs = (items fuel rest).map fun r => (j :: r.1, r.2) := by
  rw [items, run]
  rfl

theorem members_key (k : String) (fuel : Nat) (bs : List UInt8) :
    members (fuel + 1) (writeText k ++ 0x3a :: bs) = (value fuel bs).bind fun v =>
      match skip v.2 with
      | 0x2c :: rest => (members fuel rest).map fun r => ((some k, v.1) :: r.1, r.2)
      | 0x7d :: rest => some ([(some k, v.1)], rest)
      | _ => none := by
  show members (fuel + 1) (0x22 :: ((k.toUTF8.data.toList.flatMap escape ++ [0x22]) ++ 0x3a :: bs)) = _
  rw [List.append_assoc, members]
  show (literal _).bind _ = _
  rw [List.singleton_append, literal_writeText k (0x3a :: bs)]
  rfl

theorem members_last (k : String) (run : value fuel bs = some (j, 0x7d :: rest)) :
    members (fuel + 1) (writeText k ++ 0x3a :: bs) = some ([(some k, j)], rest) := by
  rw [members_key, run]
  rfl

theorem members_more (k : String) (run : value fuel bs = some (j, 0x2c :: rest)) :
    members (fuel + 1) (writeText k ++ 0x3a :: bs) = (members fuel rest).map fun r => ((some k, j) :: r.1, r.2) := by
  rw [members_key, run]
  rfl

end

theorem writeItems_cons (j k : Json) (js : List Json) :
    writeItems (j :: k :: js) = j.write ++ 0x2c :: writeItems (k :: js) := by
  rw [writeItems]
  simp

theorem writeMembers_cons (k : String) (j : Json) (m : Option String × Json) (ms : List (Option String × Json)) :
    writeMembers ((some k, j) :: m :: ms) = writeText k ++ 0x3a :: (j.write ++ 0x2c :: writeMembers (m :: ms)) := by
  rw [writeMembers]
  · simp
  · simp

theorem writeItems_begins {j : Json} (js : List Json) (written : j.Written) :
    ∃ b bs, writeItems (j :: js) = b :: bs ∧ Begins b := by
  obtain ⟨b, bs, first, begins⟩ := write_begins written
  cases js with
  | nil => exact ⟨b, bs, by rw [writeItems, first], begins⟩
  | cons k js => exact ⟨b, _, by rw [writeItems_cons, first]; rfl, begins⟩

theorem writeMembers_begins {k : String} (j : Json) (ms : List (Option String × Json)) :
    ∃ bs, writeMembers ((some k, j) :: ms) = 0x22 :: bs := by
  cases ms with
  | nil => exact ⟨_, by rw [writeMembers]; rfl⟩
  | cons m ms => exact ⟨_, by rw [writeMembers_cons]; rfl⟩

theorem value_items {fuel : Nat} {j : Json} {js : List Json} {rest : List UInt8} (written : WrittenItems (j :: js))
    (run : items fuel (writeItems (j :: js) ++ 0x5d :: rest) = some (j :: js, rest)) :
    value (fuel + 1) ((Json.array (j :: js)).write ++ rest) = some (.array (j :: js), rest) := by
  obtain ⟨b, bs, first, begins⟩ := writeItems_begins js written.1
  rw [write]
  rw [first] at run ⊢
  show value (fuel + 1) (0x5b :: b :: ((bs ++ [0x5d]) ++ rest)) = _
  rw [value_array begins, List.append_assoc]
  exact congrArg (Option.map _) run

theorem value_members {fuel : Nat} {k : String} {j : Json} {ms : List (Option String × Json)} {rest : List UInt8}
    (run : members fuel (writeMembers ((some k, j) :: ms) ++ 0x7d :: rest) = some ((some k, j) :: ms, rest)) :
    value (fuel + 1) ((Json.object ((some k, j) :: ms)).write ++ rest) = some (.object ((some k, j) :: ms), rest) := by
  obtain ⟨bs, first⟩ := writeMembers_begins (k := k) j ms
  rw [write]
  rw [first] at run ⊢
  show value (fuel + 1) (0x7b :: 0x22 :: ((bs ++ [0x7d]) ++ rest)) = _
  rw [value_object (by simp [Begins, isBlank]), List.append_assoc]
  exact congrArg (Option.map _) run

/-- With fuel for each byte, what is written is read, whatever follows. -/
theorem reads (fuel : Nat) :
    (∀ j : Json, j.Written → ∀ rest, Ends rest → 2 * j.write.length ≤ fuel →
      value fuel (j.write ++ rest) = some (j, rest)) ∧
    (∀ js, js ≠ [] → WrittenItems js → ∀ rest, 2 * (writeItems js).length < fuel →
      items fuel (writeItems js ++ 0x5d :: rest) = some (js, rest)) ∧
    (∀ ms, ms ≠ [] → WrittenMembers ms → ∀ rest, 2 * (writeMembers ms).length < fuel →
      members fuel (writeMembers ms ++ 0x7d :: rest) = some (ms, rest)) := by
  -- a tree takes one step and hands its items or members on, and an item or member hands its tree on
  induction fuel with
  | zero =>
    refine ⟨fun j written rest _ enough => ?_, fun _ _ _ _ enough => by omega, fun _ _ _ _ enough => by omega⟩
    obtain ⟨b, bs, first, -⟩ := write_begins written
    rw [first] at enough
    simp at enough
  | succ fuel ih =>
    obtain ⟨ihv, ihi, ihm⟩ := ih
    refine ⟨fun j written rest ends enough => ?_, fun js some written rest enough => ?_,
      fun ms some written rest enough => ?_⟩
    · cases j with
      | null =>
        rw [value]
        rfl
      | bool b =>
        cases b <;> rw [value] <;> rfl
      | number n =>
        rw [Json.Written] at written
        rw [write]
        exact value_number written fuel ends
      | text s =>
        rw [Json.Written] at written
        obtain ⟨s, rfl⟩ := Option.isSome_iff_exists.mp written
        rw [write]
        exact value_text s fuel rest
      | array js =>
        rw [Json.Written] at written
        rw [write] at enough
        cases js with
        | nil =>
          rw [write, value]
          rfl
        | cons j js => exact value_items written (ihi (j :: js) (by simp) written rest (by simp at enough; omega))
      | object ms =>
        rw [Json.Written] at written
        rw [write] at enough
        rcases ms with _ | ⟨⟨k, j⟩, ms⟩
        · rw [write, value]
          rfl
        · have run := ihm ((k, j) :: ms) (by simp) written rest (by simp at enough; omega)
          obtain ⟨k, rfl⟩ := Option.isSome_iff_exists.mp written.1
          exact value_members run
    · rcases js with _ | ⟨j, _ | ⟨j', js⟩⟩
      · exact absurd rfl some
      · rw [writeItems] at enough ⊢
        exact items_last (ihv j written.1 _ (ends_cons (by simp) _) (by omega))
      · rw [writeItems_cons] at enough ⊢
        simp only [List.length_append, List.length_cons] at enough
        rw [List.append_assoc, List.cons_append,
          items_more (ihv j written.1 _ (ends_cons (by simp) _) (by omega)),
          ihi (j' :: js) (by simp) written.2 rest (by omega)]
        rfl
    · rcases ms with _ | ⟨⟨k, j⟩, _ | ⟨m, ms⟩⟩
      · exact absurd rfl some
      · obtain ⟨k, rfl⟩ := Option.isSome_iff_exists.mp written.1
        rw [writeMembers, Option.getD_some] at enough ⊢
        simp only [List.length_append, List.length_cons] at enough
        rw [List.append_assoc, List.cons_append]
        exact members_last k (ihv j written.2.1 _ (ends_cons (by simp) _) (by omega))
      · obtain ⟨k, rfl⟩ := Option.isSome_iff_exists.mp written.1
        rw [writeMembers_cons] at enough ⊢
        simp only [List.length_append, List.length_cons] at enough
        rw [List.append_assoc, List.cons_append, List.append_assoc, List.cons_append,
          members_more k (ihv j written.2.1 _ (ends_cons (by simp) _) (by omega)),
          ihm (m :: ms) (by simp) written.2.2 rest (by omega)]
        rfl

/-- A tree is read again from its written form. -/
theorem ofByteArray?_toByteArray {j : Json} (written : j.Written) : ofByteArray? j.toByteArray = some j := by
  have run := (reads (2 * j.write.length + 2)).1 j written [] (by simp [Ends]) (by omega)
  rw [List.append_nil] at run
  show read j.write = _
  rw [read, run]
  rfl

end GuardedGraph.Json

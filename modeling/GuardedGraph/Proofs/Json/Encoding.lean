import GuardedGraph.Proofs.Json.Reading

/-! The bytes of a written tree are a text, since what is escaped are single bytes of ASCII, so a tree is read again
from the text that it is rendered as (`ofText?_render`). -/

namespace GuardedGraph.Json

/-- The bytes are those of characters. -/
def Encoded (bs : List UInt8) : Prop := ∃ cs : List Char, bs = cs.flatMap String.utf8EncodeChar

theorem encoded_nil : Encoded [] := ⟨[], rfl⟩

theorem Encoded.append {as bs : List UInt8} (left : Encoded as) (right : Encoded bs) : Encoded (as ++ bs) := by
  obtain ⟨cs, rfl⟩ := left
  obtain ⟨ds, rfl⟩ := right
  exact ⟨cs ++ ds, List.flatMap_append.symm⟩

theorem Encoded.cons {b : UInt8} {bs : List UInt8} (ascii : b < 0x80) (rest : Encoded bs) : Encoded (b :: bs) := by
  have all : ∀ n : Fin 0x80, String.utf8EncodeChar (Char.ofNat n) = [UInt8.ofNat n] := by decide
  have single := all ⟨b.toNat, UInt8.lt_iff_toNat_lt.mp ascii⟩
  rw [UInt8.ofNat_toNat] at single
  have here : Encoded [b] := ⟨[Char.ofNat b.toNat], by rw [List.flatMap_singleton, single]⟩
  exact here.append rest

theorem encoded_of_ascii {bs : List UInt8} (ascii : bs.all (· < 0x80)) : Encoded bs := by
  induction bs with
  | nil => exact encoded_nil
  | cons b bs ih =>
    rw [List.all_cons, Bool.and_eq_true, decide_eq_true_eq] at ascii
    exact (ih ascii.2).cons ascii.1

/-! ### String literals -/

theorem escape_ascii {b : UInt8} (ascii : b < 0x80) : (escape b).all (· < 0x80) := by
  have all : ∀ n : Fin 0x80, (escape (UInt8.ofNat n)).all (· < 0x80) := by decide +kernel
  have here := all ⟨b.toNat, UInt8.lt_iff_toNat_lt.mp ascii⟩
  rwa [UInt8.ofNat_toNat] at here

theorem escape_high {b : UInt8} (high : 0x80 ≤ b) : escape b = [b] := by
  have all : ∀ n : Fin 0x100, 0x80 ≤ n.val → escape (UInt8.ofNat n) = [UInt8.ofNat n] := by decide +kernel
  have here := all ⟨b.toNat, b.toNat_lt⟩ (UInt8.le_iff_toNat_le.mp high)
  rwa [UInt8.ofNat_toNat] at here

theorem flatMap_escape_high {bs : List UInt8} (high : ∀ b ∈ bs, 0x80 ≤ b) : bs.flatMap escape = bs := by
  induction bs with
  | nil => rfl
  | cons b bs ih =>
    obtain ⟨here, later⟩ := List.forall_mem_cons.mp high
    rw [List.flatMap_cons, escape_high here, ih later]
    rfl

/-- A character is one byte of ASCII, or bytes of which none is one. -/
theorem utf8EncodeChar_cases (c : Char) :
    (∃ b < 0x80, String.utf8EncodeChar c = [b]) ∨ ∀ b ∈ String.utf8EncodeChar c, 0x80 ≤ b := by
  have high {n k m : Nat} (fits : 0 < k ∧ k + m ≤ 0x100 ∧ 0x80 ≤ m) : 0x80 ≤ UInt8.ofNat (n % k + m) := by
    have small := Nat.mod_lt n fits.1
    rw [UInt8.le_iff_toNat_le, UInt8.toNat_ofNat_of_lt' (show n % k + m < 0x100 by omega)]
    exact Nat.le_trans fits.2.2 (Nat.le_add_left m _)
  unfold String.utf8EncodeChar
  dsimp only
  split
  · next small =>
    refine .inl ⟨_, ?_, rfl⟩
    rw [UInt8.lt_iff_toNat_lt, UInt8.toNat_ofNat_of_lt' (Nat.lt_of_le_of_lt small (by decide))]
    exact Nat.lt_of_le_of_lt small (by decide)
  · right
    repeat' split
    all_goals
      simp only [List.mem_cons, List.not_mem_nil, or_false, forall_eq_or_imp, forall_eq]
      and_intros
    all_goals exact high (by decide)

theorem encoded_flatMap_escape (cs : List Char) : Encoded ((cs.flatMap String.utf8EncodeChar).flatMap escape) := by
  induction cs with
  | nil => exact encoded_nil
  | cons c cs ih =>
    rw [List.flatMap_cons, List.flatMap_append]
    refine .append ?_ ih
    rcases utf8EncodeChar_cases c with ⟨b, ascii, single⟩ | high
    · rw [single, List.flatMap_singleton]
      exact encoded_of_ascii (escape_ascii ascii)
    · rw [flatMap_escape_high high]
      exact ⟨[c], (List.flatMap_singleton ..).symm⟩

theorem encoded_writeText (s : String) : Encoded (writeText s) := by
  have bytes : s.toUTF8.data.toList = s.toList.flatMap String.utf8EncodeChar := by
    rw [String.toUTF8_eq_toByteArray, ← String.utf8Encode_toList, List.utf8Encode, List.data_toByteArray]
  rw [writeText, bytes]
  exact (encoded_flatMap_escape _).append (encoded_of_ascii rfl) |>.cons (by decide)

/-! ### Trees -/

theorem encoded_digits {ds : List Char} (digits : ∀ c ∈ ds, c.isDigit = true) : Encoded (ds.map ascii) := by
  refine encoded_of_ascii (List.all_eq_true.mpr (List.forall_mem_map.mpr fun c mem => decide_eq_true ?_))
  have ⟨_, most⟩ := (isDigit_iff c).mp (digits c mem)
  rw [UInt8.lt_iff_toNat_lt, toNat_ascii (by omega)]
  exact Nat.lt_of_le_of_lt most (by decide)

theorem encoded_number {n : Number} (written : n.Written) : Encoded n.write := by
  have sign : Encoded (if n.negative then [0x2d] else []) := by
    split <;> exact encoded_of_ascii rfl
  have fraction : Encoded (Number.writeFraction n.fraction) := by
    unfold Number.writeFraction
    split
    · exact encoded_nil
    · exact (encoded_digits written.fraction).cons (by decide)
  have exponent : Encoded (Number.writeExponent n.exponent) := by
    cases spelt : n.exponent with
    | none => exact encoded_nil
    | some e =>
      have mark : Encoded e.1.write := by
        cases e.1 <;> exact encoded_of_ascii rfl
      exact (mark.append (encoded_digits (written.exponent e spelt).2)).cons (by decide)
  rw [Number.write_eq]
  exact sign.append ((encoded_digits written.whole.2).append (fraction.append exponent))

mutual

theorem encoded_write (j : Json) (written : j.Written) : Encoded j.write := by
  cases j with
  | null => exact encoded_of_ascii rfl
  | bool b => cases b <;> exact encoded_of_ascii rfl
  | number n => exact encoded_number written
  | text s => exact encoded_writeText _
  | array items =>
    rw [Json.Written] at written
    rw [write]
    exact ((encoded_items items written).cons (by decide)).append (encoded_of_ascii rfl)
  | object members =>
    rw [Json.Written] at written
    rw [write]
    exact ((encoded_members members written).cons (by decide)).append (encoded_of_ascii rfl)

theorem encoded_items (js : List Json) (written : WrittenItems js) : Encoded (writeItems js) := by
  rcases js with _ | ⟨j, _ | ⟨k, js⟩⟩
  · exact encoded_nil
  · exact encoded_write j written.1
  · rw [writeItems_cons]
    exact (encoded_write j written.1).append ((encoded_items (k :: js) written.2).cons (by decide))

theorem encoded_members (ms : List (Option String × Json)) (written : WrittenMembers ms) :
    Encoded (writeMembers ms) := by
  rcases ms with _ | ⟨⟨k, j⟩, _ | ⟨m, ms⟩⟩
  · exact encoded_nil
  · exact (encoded_writeText _).append ((encoded_write j written.2.1).cons (by decide))
  · obtain ⟨k, rfl⟩ := Option.isSome_iff_exists.mp written.1
    rw [writeMembers_cons]
    exact (encoded_writeText k).append
      (((encoded_write j written.2.1).append ((encoded_members (m :: ms) written.2.2).cons (by decide))).cons
        (by decide))

end

/-- A tree is read again from its text. -/
theorem ofText?_render {j : Json} (written : j.Written) : ofText? j.render = some j := by
  have valid : j.toByteArray.IsValidUTF8 := by
    obtain ⟨cs, bytes⟩ := encoded_write j written
    refine .intro cs (ByteArray.ext ?_)
    rw [List.utf8Encode, ← bytes, List.data_toByteArray]
    rfl
  have text : j.render.toUTF8 = j.toByteArray := by
    rw [render, String.fromUTF8?, dif_pos valid]
    rfl
  rw [ofText?, text, ofByteArray?_toByteArray written]

end GuardedGraph.Json

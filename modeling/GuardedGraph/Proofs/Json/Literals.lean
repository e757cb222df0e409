import GuardedGraph.Json.Reader

/-! String literals: what is written for a text is read as that text. -/

namespace GuardedGraph.Json

/-- How a byte is read back: one that is written in hexadecimal as a code unit. -/
def pieceOf (b : UInt8) : Piece :=
  if b < 0x20 ∧ b ∉ [0x08, 0x09, 0x0a, 0x0c, 0x0d] then .unit b.toNat else .byte b

/-- The three forms of a byte in a literal: an escape of one letter, of four digits, or the byte itself. -/
inductive Escaped (b : UInt8) : Prop
  | letter {e : UInt8} : escape b = [0x5c, e] → unescape? e = some b → pieceOf b = .byte b → Escaped b
  | digits {x y : UInt8} {m n : Nat} : escape b = [0x5c, 0x75, 0x30, 0x30, x, y] → hexValue? x = some m →
      hexValue? y = some n → pieceOf b = .unit (m * 16 + n) → Escaped b
  | plain : escape b = [b] → ¬b < 0x20 → b ≠ 0x22 → b ≠ 0x5c → pieceOf b = .byte b → Escaped b

theorem hex_control {b : UInt8} (control : b < 0x20) :
    ∃ x y, hexValue? (ascii (Nat.digitChar (b.toNat / 16))) = some x ∧
      hexValue? (ascii (Nat.digitChar (b.toNat % 16))) = some y ∧ b.toNat = x * 16 + y := by
  have all : ∀ n : Fin 32, ∃ x : Fin 2, ∃ y : Fin 16,
      hexValue? (ascii (Nat.digitChar (n.val / 16))) = some x.val ∧
        hexValue? (ascii (Nat.digitChar (n.val % 16))) = some y.val ∧ n.val = x.val * 16 + y.val := by decide
  obtain ⟨x, y, hx, hy, sum⟩ := all ⟨b.toNat, control⟩
  exact ⟨x, y, hx, hy, sum⟩

theorem escaped (b : UInt8) : Escaped b := by
  by_cases special : b ∈ [0x22, 0x5c, 0x08, 0x09, 0x0a, 0x0c, 0x0d]
  · have all : ∀ c ∈ [0x22, 0x5c, 0x08, 0x09, 0x0a, 0x0c, (0x0d : UInt8)], ∃ e ∈ asciiText "\"\\btnfr",
        escape c = [0x5c, e] ∧ unescape? e = some c ∧ ¬(c < 0x20 ∧ c ∉ [0x08, 0x09, 0x0a, 0x0c, 0x0d]) := by
      decide +kernel
    obtain ⟨e, -, written, read, here⟩ := all b special
    exact .letter written read (if_neg here)
  · simp only [List.mem_cons, List.not_mem_nil, or_false, not_or] at special
    obtain ⟨quote, slash, h8, h9, ha, hc, hd⟩ := special
    by_cases control : b < 0x20
    · obtain ⟨x, y, hx, hy, sum⟩ := hex_control control
      refine .digits ?_ hx hy ?_
      · simp only [escape, quote, slash, h8, h9, ha, hc, hd, control, if_false, if_true]
        rfl
      · rw [← sum]
        exact if_pos ⟨control, by simp [h8, h9, ha, hc, hd]⟩
    · refine .plain ?_ control quote slash (if_neg fun h => control h.1)
      simp only [escape, quote, slash, h8, h9, ha, hc, hd, control, if_false]

/-! ### Reading -/

theorem pieces_letter {e b : UInt8} (letter : unescape? e = some b) (rest : List UInt8) :
    pieces (0x5c :: e :: rest) = (pieces rest).map fun r => (.byte b :: r.1, r.2) := by
  rw [pieces, letter]
  rintro _ _ _ _ _ rfl -
  exact absurd letter (by simp [unescape?])

theorem pieces_plain {b : UInt8} (visible : ¬b < 0x20) (quote : b ≠ 0x22) (slash : b ≠ 0x5c) (rest : List UInt8) :
    pieces (b :: rest) = (pieces rest).map fun r => (.byte b :: r.1, r.2) := by
  rw [pieces]
  · rw [if_neg visible]
  · exact fun h => quote h
  · exact fun _ _ _ _ _ h => absurd h slash
  · exact fun _ _ h => absurd h slash

theorem pieces_escape (b : UInt8) (rest : List UInt8) :
    pieces (escape b ++ rest) = (pieces rest).map fun r => (pieceOf b :: r.1, r.2) := by
  cases escaped b with
  | letter written read own =>
    rw [written, own]
    exact pieces_letter read rest
  | digits written hx hy own =>
    rw [written, own]
    show pieces (0x5c :: 0x75 :: 0x30 :: 0x30 :: _ :: _ :: rest) = _
    have zero : hexValue? 0x30 = some 0 := rfl
    rw [pieces, zero, hx, hy]
    simp
  | plain written visible quote slash own =>
    rw [written, own]
    exact pieces_plain visible quote slash rest

theorem pieces_flatMap (bs rest : List UInt8) :
    pieces (bs.flatMap escape ++ 0x22 :: rest) = some (bs.map pieceOf, rest) := by
  induction bs with
  | nil => rw [List.flatMap_nil, List.nil_append, pieces]; rfl
  | cons b bs ih =>
    rw [List.flatMap_cons, List.append_assoc, pieces_escape, ih]
    rfl

/-! ### Texts -/

theorem denote?_control {n : Nat} (control : n < 0x20) (ps : List Piece) :
    denote? (.unit n :: ps) = (denote? ps).map (UInt8.ofNat n :: ·) := by
  have all : ∀ m : Fin 32, encodePoint? m.val = some [UInt8.ofNat m.val] := by decide
  have point : encodePoint? n = some [UInt8.ofNat n] := all ⟨n, control⟩
  cases ps with
  | nil => simp [denote?, point]
  | cons p ps =>
    cases p with
    | byte b => simp [denote?, point]
    | unit m =>
      rw [denote?, if_neg (by omega), point]
      rfl

theorem denote?_pieceOf (bs : List UInt8) : denote? (bs.map pieceOf) = some bs := by
  induction bs with
  | nil => rfl
  | cons b bs ih =>
    rw [List.map_cons]
    by_cases control : b < 0x20 ∧ b ∉ [0x08, 0x09, 0x0a, 0x0c, 0x0d]
    · have small : b.toNat < 0x20 := UInt8.lt_iff_toNat_lt.mp control.1
      rw [pieceOf, if_pos control, denote?_control small, ih]
      simp
    · rw [pieceOf, if_neg control, denote?, ih]
      rfl

theorem literal_writeText (s : String) (rest : List UInt8) :
    literal (s.toUTF8.data.toList.flatMap escape ++ 0x22 :: rest) = some (some s, rest) := by
  have valid : s.toUTF8.IsValidUTF8 := s.isValidUTF8
  rw [literal, pieces_flatMap, Option.map_some, denote?_pieceOf, Option.bind_some]
  show some (String.fromUTF8? s.toUTF8, rest) = _
  rw [String.fromUTF8?, dif_pos valid]
  rfl

end GuardedGraph.Json

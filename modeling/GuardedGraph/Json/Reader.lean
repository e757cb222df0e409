import GuardedGraph.Json.Writer

/-!
JSON trees from bytes. Reading is total: `value` spends one unit of fuel per step, and `read` gives it
two for each byte.
-/

namespace GuardedGraph.Json

def isBlank (b : UInt8) : Bool := b = 0x20 || b = 0x09 || b = 0x0a || b = 0x0d

def skip (bs : List UInt8) : List UInt8 := bs.dropWhile isBlank

def isDigit (b : UInt8) : Bool := 0x30 ≤ b && b ≤ 0x39

def digitsOf (bs : List UInt8) : List Char := bs.map fun b => Char.ofNat b.toNat

/-- What follows an expected run of bytes. -/
def after? : List UInt8 → List UInt8 → Option (List UInt8)
  | [], bs => some bs
  | e :: es, b :: bs => if e = b then after? es bs else none
  | _ :: _, [] => none

/-! ### String literals -/

/-- A byte of a literal, or a code unit that it spells in hexadecimal. -/
inductive Piece
  | byte (b : UInt8)
  | unit (u : Nat)

def hexValue? (b : UInt8) : Option Nat :=
  if isDigit b then some (b.toNat - 0x30)
  else if 0x61 ≤ b && b ≤ 0x66 then some (b.toNat - 0x57)
  else if 0x41 ≤ b && b ≤ 0x46 then some (b.toNat - 0x37)
  else none

def unescape? (b : UInt8) : Option UInt8 :=
  if b = 0x22 ∨ b = 0x5c ∨ b = 0x2f then some b
  else if b = 0x62 then some 0x08
  else if b = 0x66 then some 0x0c
  else if b = 0x6e then some 0x0a
  else if b = 0x72 then some 0x0d
  else if b = 0x74 then some 0x09
  else none

/-- The pieces up to the closing quote, and what follows it. -/
def pieces : List UInt8 → Option (List Piece × List UInt8)
  | [] => none
  | 0x22 :: rest => some ([], rest)
  | 0x5c :: 0x75 :: a :: b :: c :: d :: rest =>
    match hexValue? a, hexValue? b, hexValue? c, hexValue? d with
    | some a, some b, some c, some d =>
      (pieces rest).map fun r => (.unit (((a * 16 + b) * 16 + c) * 16 + d) :: r.1, r.2)
    | _, _, _, _ => none
  | 0x5c :: e :: rest =>
    match unescape? e with
    | some b => (pieces rest).map fun r => (.byte b :: r.1, r.2)
    | none => none
  | b :: rest => if b < 0x20 then none else (pieces rest).map fun r => (.byte b :: r.1, r.2)

/-- The bytes that a code point takes; none for half of a surrogate pair. -/
def encodePoint? (n : Nat) : Option (List UInt8) :=
  if n.isValidChar then some (String.utf8EncodeChar (Char.ofNat n)) else none

/-- The bytes that pieces denote; two units may be one code point. -/
def denote? : List Piece → Option (List UInt8)
  | [] => some []
  | .byte b :: ps => (denote? ps).map (b :: ·)
  | .unit u :: .unit v :: ps =>
    if 0xd800 ≤ u ∧ u < 0xdc00 ∧ 0xdc00 ≤ v ∧ v < 0xe000 then
      (encodePoint? (0x10000 + (u - 0xd800) * 0x400 + (v - 0xdc00))).bind fun e => (denote? ps).map (e ++ ·)
    else (encodePoint? u).bind fun e => (denote? (.unit v :: ps)).map (e ++ ·)
  | .unit u :: ps => (encodePoint? u).bind fun e => (denote? ps).map (e ++ ·)

/-- The text of a literal whose opening quote has been read. -/
def literal (bs : List UInt8) : Option (Option String × List UInt8) :=
  (pieces bs).map fun r => ((denote? r.1).bind fun e => String.fromUTF8? ⟨e.toArray⟩, r.2)

/-! ### Numbers -/

/-- A run of digits, not empty. -/
def digits? (bs : List UInt8) : Option (List Char × List UInt8) :=
  let ds := bs.takeWhile isDigit
  if ds.isEmpty then none else some (digitsOf ds, bs.dropWhile isDigit)

/-- Digits without a zero in front of others. -/
def whole? (bs : List UInt8) : Option (List Char × List UInt8) :=
  (digits? bs).bind fun r => if r.1.length = 1 ∨ r.1.head? ≠ some '0' then some r else none

def fraction? (bs : List UInt8) : Option (List Char × List UInt8) :=
  match bs with
  | 0x2e :: rest => digits? rest
  | _ => some ([], bs)

def exponent? (bs : List UInt8) : Option (Option (Mark × List Char) × List UInt8) :=
  match bs with
  | b :: rest =>
    if b = 0x65 ∨ b = 0x45 then
      let (m, rest) : Mark × List UInt8 := match rest with
        | 0x2b :: rest => (.plus, rest)
        | 0x2d :: rest => (.minus, rest)
        | rest => (.bare, rest)
      (digits? rest).map fun r => (some (m, r.1), r.2)
    else some (none, bs)
  | [] => some (none, [])

def unsigned? (negative : Bool) (bs : List UInt8) : Option (Number × List UInt8) := do
  let (whole, bs) ← whole? bs
  let (fraction, bs) ← fraction? bs
  let (exponent, bs) ← exponent? bs
  return (⟨negative, whole, fraction, exponent⟩, bs)

def number? (bs : List UInt8) : Option (Number × List UInt8) :=
  match bs with
  | 0x2d :: rest => unsigned? true rest
  | _ => unsigned? false bs

/-! ### Values -/

mutual

/-- A value and what follows it. -/
def value : Nat → List UInt8 → Option (Json × List UInt8)
  | 0, _ => none
  | fuel + 1, bs =>
    match skip bs with
    | [] => none
    | b :: rest =>
      if b = 0x6e then (after? (asciiText "ull") rest).map (.null, ·)
      else if b = 0x74 then (after? (asciiText "rue") rest).map (.bool true, ·)
      else if b = 0x66 then (after? (asciiText "alse") rest).map (.bool false, ·)
      else if b = 0x22 then (literal rest).map fun r => (.text r.1, r.2)
      else if b = 0x5b then
        match skip rest with
        | 0x5d :: rest => some (.array [], rest)
        | rest => (items fuel rest).map fun r => (.array r.1, r.2)
      else if b = 0x7b then
        match skip rest with
        | 0x7d :: rest => some (.object [], rest)
        | rest => (members fuel rest).map fun r => (.object r.1, r.2)
      else (number? (b :: rest)).map fun r => (.number r.1, r.2)

/-- The items of an array from one of them to the closing bracket. -/
def items : Nat → List UInt8 → Option (List Json × List UInt8)
  | 0, _ => none
  | fuel + 1, bs =>
    (value fuel bs).bind fun v =>
      match skip v.2 with
      | 0x2c :: rest => (items fuel rest).map fun r => (v.1 :: r.1, r.2)
      | 0x5d :: rest => some ([v.1], rest)
      | _ => none

/-- The members of an object from one of them to the closing brace. -/
def members : Nat → List UInt8 → Option (List (Option String × Json) × List UInt8)
  | 0, _ => none
  | fuel + 1, bs =>
    match skip bs with
    | 0x22 :: rest =>
      (literal rest).bind fun k =>
        match skip k.2 with
        | 0x3a :: rest =>
          (value fuel rest).bind fun v =>
            match skip v.2 with
            | 0x2c :: rest => (members fuel rest).map fun r => ((k.1, v.1) :: r.1, r.2)
            | 0x7d :: rest => some ([(k.1, v.1)], rest)
            | _ => none
        | _ => none
    | _ => none

end

def read (bs : List UInt8) : Option Json :=
  (value (2 * bs.length + 2) bs).bind fun r => if (skip r.2).isEmpty then some r.1 else none

def ofByteArray? (b : ByteArray) : Option Json := read b.data.toList

def ofText? (s : String) : Option Json := ofByteArray? s.toUTF8

end GuardedGraph.Json

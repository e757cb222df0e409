import GuardedGraph.Json.Basic

/-!
JSON trees as bytes: no blanks, and escapes only where they are needed.
-/

namespace GuardedGraph.Json

def ascii (c : Char) : UInt8 := c.val.toUInt8

def asciiText (s : String) : List UInt8 := s.toUTF8.data.toList

def escape (b : UInt8) : List UInt8 :=
  if b = 0x22 then asciiText "\\\""
  else if b = 0x5c then asciiText "\\\\"
  else if b = 0x08 then asciiText "\\b"
  else if b = 0x09 then asciiText "\\t"
  else if b = 0x0a then asciiText "\\n"
  else if b = 0x0c then asciiText "\\f"
  else if b = 0x0d then asciiText "\\r"
  else if b < 0x20 then
    asciiText "\\u00" ++ [ascii (Nat.digitChar (b.toNat / 16)), ascii (Nat.digitChar (b.toNat % 16))]
  else [b]

def writeText (s : String) : List UInt8 := 0x22 :: s.toUTF8.data.toList.flatMap escape ++ [0x22]

def Mark.write : Mark → List UInt8
  | .bare => []
  | .plus => [0x2b]
  | .minus => [0x2d]

def Number.write (n : Number) : List UInt8 :=
  (if n.negative then [0x2d] else []) ++ n.whole.map ascii ++
    (if n.fraction.isEmpty then [] else 0x2e :: n.fraction.map ascii) ++
    match n.exponent with
    | none => []
    | some (m, ds) => 0x65 :: m.write ++ ds.map ascii

mutual

def write : Json → List UInt8
  | .null => asciiText "null"
  | .bool true => asciiText "true"
  | .bool false => asciiText "false"
  | .number n => n.write
  | .text s => writeText (s.getD "")
  | .array items => 0x5b :: writeItems items ++ [0x5d]
  | .object members => 0x7b :: writeMembers members ++ [0x7d]

def writeItems : List Json → List UInt8
  | [] => []
  | [j] => j.write
  | j :: js => j.write ++ 0x2c :: writeItems js

def writeMembers : List (Option String × Json) → List UInt8
  | [] => []
  | [(k, j)] => writeText (k.getD "") ++ 0x3a :: j.write
  | (k, j) :: ms => writeText (k.getD "") ++ 0x3a :: j.write ++ 0x2c :: writeMembers ms

end

def toByteArray (j : Json) : ByteArray := ⟨j.write.toArray⟩

def render (j : Json) : String := (String.fromUTF8? j.toByteArray).getD ""

end GuardedGraph.Json

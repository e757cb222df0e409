import GuardedGraph.Text.Invisible

/-!
Texts in quotes, for debugging.
-/

namespace GuardedGraph.Text

def hexDigits (n : Nat) : List Char := Nat.toDigits 16 n

/-- A character between quotes: escaped by a letter or, if nothing is seen of it, by its number. -/
def quotedChar (c : Char) : List Char :=
  if c = '"' then ['\\', '"']
  else if c = '\\' then ['\\', '\\']
  else if c = '\n' then ['\\', 'n']
  else if c = '\r' then ['\\', 'r']
  else if c = '\t' then ['\\', 't']
  else if c = '\x00' then ['\\', '0']
  else if isInvisible c then ['\\', 'u', '\x7b'] ++ hexDigits c.toNat ++ ['\x7d']
  else [c]

def quoted (s : String) : String := "\"" ++ String.ofList (s.toList.flatMap quotedChar) ++ "\""

/-- Whether every character is a printable one of ASCII. -/
def isPlain (s : String) : Bool := s.toList.all fun c => 0x20 ≤ c.toNat && c.toNat ≤ 0x7e

end GuardedGraph.Text

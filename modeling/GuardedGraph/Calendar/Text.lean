import GuardedGraph.Calendar.Instant
import GuardedGraph.Text.Blank

/-!
Dates and instants as text. Written forms are fixed; reading also allows blanks around the parts, fewer
digits, and an offset from UTC.
-/

namespace GuardedGraph

namespace Calendar

open Text

/-- Decimal digits, with zeros in front up to a width. -/
def padded (width n : Nat) : String := String.ofList ((Nat.toDigits 10 n).leftpad width '0')

/-- Four digits; outside of the years that they can tell, a sign too. -/
def renderYear (y : Int) : String :=
  if 0 ≤ y ∧ y ≤ 9999 then padded 4 y.natAbs else (if y < 0 then "-" else "+") ++ padded 4 y.natAbs

/-- Nothing, or as many groups of three digits as are needed. -/
def renderFraction (nano : Nat) : String :=
  if nano = 0 then ""
  else if nano % 1000000 = 0 then "." ++ padded 3 (nano / 1000000)
  else if nano % 1000 = 0 then "." ++ padded 6 (nano / 1000)
  else "." ++ padded 9 nano

/-! ### Reading -/

/-- One to `most` digits. -/
def number (most : Nat) (cs : List Char) : Option (Nat × List Char) :=
  let ds := (cs.take most).takeWhile Char.isDigit
  if ds.isEmpty then none else some (Nat.ofDigitChars 10 ds 0, cs.drop ds.length)

/-- Four digits at most, or a sign and any number of digits. -/
def year (cs : List Char) : Option (Int × List Char) :=
  match cs with
  | '-' :: cs => (number cs.length cs).map fun r => (-(r.1 : Int), r.2)
  | '+' :: cs => (number cs.length cs).map fun r => ((r.1 : Int), r.2)
  | cs => (number 4 cs).map fun r => ((r.1 : Int), r.2)

/-- A mark, with blanks before and after it. -/
def mark (c : Char) (cs : List Char) : Option (List Char) :=
  match trimLeft cs with
  | d :: rest => if d = c then some (trimLeft rest) else none
  | [] => none

/-- A number of at most two digits that is in bounds. -/
def field (low high : Nat) (cs : List Char) : Option (Nat × List Char) :=
  (number 2 cs).bind fun r => if low ≤ r.1 ∧ r.1 ≤ high then some r else none

def day (cs : List Char) : Option (Date × List Char) := do
  let (y, cs) ← year (trimLeft cs)
  let (m, cs) ← field 1 12 (← mark '-' cs)
  let (d, cs) ← field 1 31 (← mark '-' cs)
  return (← Date.ofParts? y m d, cs)

/-- A point and digits, of which the first nine count; or nothing. -/
def fraction (cs : List Char) : Option (Nat × List Char) :=
  match cs with
  | '.' :: cs => do
    let (n, rest) ← number 9 cs
    return (n * Nat.pow 10 (9 - (cs.length - rest.length)), rest.dropWhile Char.isDigit)
  | cs => some (0, cs)

/-- Second of the day and nanoseconds. -/
def time (cs : List Char) : Option (Nat × Nat × List Char) := do
  let (h, cs) ← field 0 23 (trimLeft cs)
  let (m, cs) ← field 0 59 (← mark ':' cs)
  let (s, cs) ← field 0 60 (← mark ':' cs)
  let (n, cs) ← fraction cs
  return (h * 3600 + m * 60 + min s 59, if s = 60 then 1000000000 + n else n, cs)

def twoDigits (tens : Nat) (cs : List Char) : Option (Nat × List Char) :=
  match cs with
  | a :: b :: cs =>
    if a.isDigit ∧ b.isDigit ∧ a.toNat - 48 ≤ tens then some ((a.toNat - 48) * 10 + (b.toNat - 48), cs) else none
  | _ => none

/-- Seconds ahead of UTC, by name or by a signed number of hours and minutes less than a day. -/
def offset (cs : List Char) : Option (Int × List Char) :=
  let amount (cs : List Char) : Option (Nat × List Char) := do
    let (h, cs) ← twoDigits 9 cs
    let (m, cs) ← twoDigits 5 (cs.dropWhile fun c => c == ':' || isBlank c)
    if h < 24 then some (h * 3600 + m * 60, cs) else none
  if (cs.take 3).map Char.toUpper = ['U', 'T', 'C'] then some (0, cs.drop 3)
  else
    match cs with
    | [] => none
    | c :: cs =>
      if c = 'Z' ∨ c = 'z' then some (0, cs)
      else if c = '+' then (amount cs).map fun r => ((r.1 : Int), r.2)
      else if c = '-' ∨ c = '\u2212' then (amount cs).map fun r => (-(r.1 : Int), r.2)
      else none

end Calendar

open Calendar Text

namespace Date

def render (d : Date) : String := renderYear d.year ++ "-" ++ padded 2 d.month ++ "-" ++ padded 2 d.day

def ofText? (s : String) : Option Date :=
  (Calendar.day s.toList).bind fun r => if (trimLeft r.2).isEmpty then some r.1 else none

end Date

namespace Instant

/-- Hours, minutes and seconds; a leap second is the sixtieth. -/
def renderTime (t : Instant) : String :=
  let leap := 1000000000 ≤ t.nano
  padded 2 (t.second / 3600) ++ ":" ++ padded 2 (t.second / 60 % 60) ++ ":" ++
    padded 2 (t.second % 60 + if leap then 1 else 0) ++
    renderFraction (if leap then t.nano - 1000000000 else t.nano)

def stored (t : Instant) : String := t.date.render ++ "T" ++ t.renderTime ++ "Z"

def render (t : Instant) : String := t.date.render ++ " " ++ t.renderTime ++ " UTC"

def ofText? (s : String) : Option Instant := do
  let (d, cs) ← Calendar.day s.toList
  match cs with
  | c :: cs =>
    if c = 'T' ∨ c = 't' ∨ c = ' ' then
      let (second, nano, cs) ← Calendar.time cs
      let (ahead, cs) ← Calendar.offset (trimLeft cs)
      if (trimLeft cs).isEmpty then ofLocal? d second nano ahead else none
    else none
  | [] => none

end Instant

end GuardedGraph

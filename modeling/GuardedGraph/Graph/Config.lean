import GuardedGraph.Error
import GuardedGraph.Json.Shape
import GuardedGraph.Text.Blank

/-!
How a graph is set up.
-/

namespace GuardedGraph

/-- Streams of more than `threshold` bytes are kept outside their records, `idPrefix` stands before the
ids that a graph makes, and `indexing` says whether written texts go into the search index. -/
structure Config where
  threshold : Nat
  idPrefix : Option String
  indexing : Bool
  deriving DecidableEq

namespace Config

def standard : Config := ⟨10485760, none, true⟩

/-- The number of bytes that a setting names: 64-bit, in decimal digits behind an optional plus sign. -/
def byteCount? (raw : String) : Option Nat :=
  let digits := match (Text.trim raw).toList with
    | '+' :: cs => cs
    | cs => cs
  if digits.isEmpty || !digits.all Char.isDigit then none
  else (some (digits.foldl (fun n c => 10 * n + (c.toNat - '0'.toNat)) 0)).filter (· < UInt64.size)

/-- Whether a setting for the search index leaves it on. -/
def indexingOf (raw : String) : Bool := (Text.trim raw).toLower ∉ ["none", "false", "off"]

/-- The configuration that settings describe; what they do not name is standard. -/
def ofSettings (setting? : String → Option String) : Except Error Config := do
  let threshold ← match setting? "maxStreamingPropertyValueTableDataSize" with
    | none => .ok standard.threshold
    | some raw => match byteCount? raw with
      | some n => .ok n
      | none => .error (.invalid (.badThreshold raw))
  return ⟨threshold, (setting? "idPrefix").filter (· ≠ ""),
    ((setting? "search").map indexingOf).getD standard.indexing⟩

def idPrefixOfJson? : Json → Option (Option String)
  | .null => some none
  | j => j.text?.map some

def ofJson? (limit : Nat) (j : Json) : Option Config := do
  match ← j.fields? limit ["large_value_threshold", "id_prefix", "search_index_enabled"] with
  | [threshold, idPrefix, indexing] =>
    return ⟨← threshold.elim (some standard.threshold) Json.word?,
      ← idPrefix.elim (some standard.idPrefix) idPrefixOfJson?,
      ← indexing.elim (some standard.indexing) Json.bool?⟩
  | _ => none

def ofText (s : String) : Except Error Config :=
  match (Json.ofText? s).bind (ofJson? Json.nesting) with
  | some c => .ok c
  | none => .error .undecodable

end Config

end GuardedGraph

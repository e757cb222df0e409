import GuardedGraph.Text.Alphanumeric
import GuardedGraph.Text.Lowercase

/-!
The terms of a text, under which it is found.
-/

namespace GuardedGraph.Search

open Text

/-- What lies between the characters that are neither letter nor number. -/
def pieces : List Char → List (List Char)
  | [] => [[]]
  | c :: cs =>
    if isAlphanumeric c then
      match pieces cs with
      | [] => [[c]]
      | p :: ps => (c :: p) :: ps
    else [] :: pieces cs

/-- The runs of letters and numbers, each run as long as it can be. -/
def words (cs : List Char) : List (List Char) := (pieces cs).filter (!·.isEmpty)

/-- The runs of letters and numbers in lowercase. -/
def terms (text : String) : List String := (words text.toList).map fun w => String.ofList (lowercase w)

end GuardedGraph.Search

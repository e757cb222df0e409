import GuardedGraph.Data.Table

/-!
The label tokens that a reader holds.
-/

namespace GuardedGraph

structure Authorizations where
  tokens : Table Unit
  deriving DecidableEq

namespace Authorizations

def empty : Authorizations := ⟨.empty⟩

def ofList (tokens : List String) : Authorizations := ⟨.ofList (tokens.map (·, ()))⟩

def holds (a : Authorizations) (token : String) : Bool := a.tokens.contains token

def toList (a : Authorizations) : List String := a.tokens.keys

def size (a : Authorizations) : Nat := a.tokens.size

def render (a : Authorizations) : String := "[" ++ ",".intercalate a.toList ++ "]"

end Authorizations

end GuardedGraph

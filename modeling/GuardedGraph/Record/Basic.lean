import GuardedGraph.Element.Edge
import GuardedGraph.Value.Stream

/-!
Records: elements as a store keeps them, complete and with values as bytes that the store need not
understand.
-/

namespace GuardedGraph

structure EntryRecord where
  name : String
  visibility : Visibility
  value : ByteArray
  deriving DecidableEq

structure PropertyRecord where
  key : String
  name : String
  visibility : Visibility
  value : ByteArray
  metadata : List EntryRecord
  hidden : List Visibility
  deriving DecidableEq

/-- Edges have endpoints, vertices have references of their edges. -/
structure Record where
  type : ElementType
  id : String
  visibility : Visibility
  hidden : List Visibility
  properties : List PropertyRecord
  endpoints : Option Endpoints
  edgeRefs : List EdgeRef
  deriving DecidableEq

namespace PropertyRecord

def visibleTo (p : PropertyRecord) (a : Authorizations) : Bool := a.sees p.visibility p.hidden

end PropertyRecord

namespace Record

def visibleTo (r : Record) (a : Authorizations) : Bool := a.sees r.visibility r.hidden

end Record

end GuardedGraph

import GuardedGraph.Error
import GuardedGraph.Record.Basic

/-!
What a graph asks of the store beneath it: records by kind and id, contents by key, and cursors that
look records up as they reach them.
-/

namespace GuardedGraph

namespace Store

/-- Ids of one kind of element, from `start` on and before `stop`. -/
structure Range where
  type : ElementType
  start : Option String
  stop : Option String

namespace Range

def all (type : ElementType) : Range := ⟨type, none, none⟩

def has (r : Range) (id : String) : Bool := r.start.all (· ≤ id) && r.stop.all (id < ·)

end Range

/-- What a cursor has still to reach. -/
inductive Pending
  /-- A record that the cursor gives if it is still there. -/
  | lookup (id : String)
  /-- A record in whose place the cursor gives a fault, if it is still there. -/
  | refuse (id : String) (message : String)
  /-- A record as it was when the cursor was opened. -/
  | fetched (record : Record)
  deriving DecidableEq

/-- Where a sequence of records of one kind of element goes on. -/
structure Cursor where
  type : ElementType
  pending : List Pending
  deriving DecidableEq

namespace Cursor

/-- What becomes of a pending item when the cursor reaches it; `found` looks up the stored records. -/
def reach (found : String → Option Record) : Pending → Option (Except Error Record)
  | .lookup id => (found id).map .ok
  | .refuse id message => (found id).map fun _ => .error (.storage (.reported message))
  | .fetched record => some (.ok record)

def ofIds (type : ElementType) (ids : List String) : Cursor := ⟨type, ids.map .lookup⟩

/-- All that is left, with the store as it is. -/
def rest (found : String → Option Record) (c : Cursor) : List (Except Error Record) :=
  c.pending.filterMap (reach found)

end Cursor

/-- A store of states `σ`. A call that fails leaves the state as it was. -/
class Backend (σ : Type) where
  get : σ → ElementType → String → Except Error (Option Record)
  /-- Adds a record, or replaces the one of its kind and id. -/
  put : σ → Record → Except Error σ
  /-- Takes a record away, if it is there; tells whether it was. -/
  delete : σ → ElementType → String → Except Error (Bool × σ)
  /-- A cursor over the records of a range, by ascending id. -/
  scan : σ → Range → Except Error Cursor
  /-- A cursor over the records of ids, in the order of the ids. -/
  fetch : σ → ElementType → List String → Except Error Cursor
  count : σ → ElementType → Except Error Nat
  /-- The content kept under a key. -/
  kept : σ → String → Except Error (Option ByteArray)
  keep : σ → String → ByteArray → Except Error σ
  /-- Lets go of the content kept under a key, if there is one; tells whether there was. -/
  discard : σ → String → Except Error (Bool × σ)
  close : σ → Except Error Unit
  /-- The record that a cursor finds when it reaches an id. -/
  found : σ → ElementType → String → Option Record

end Store

end GuardedGraph

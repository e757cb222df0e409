import GuardedGraph.Store.Memory

/-!
A store in memory whose calls fail, or take further records with them, as a script says. It shows what
becomes of a graph when the store beneath it does not do its part.
-/

namespace GuardedGraph.Store

inductive Call
  | get
  | put
  | delete
  | scan
  | count
  | kept
  | keep
  | discard
  | close
  deriving DecidableEq

inductive Effect
  | fail (message : String)
  /-- After the call has put or deleted a record, a further record is gone. -/
  | alsoDelete (type : ElementType) (id : String)
  /-- The cursor of a scan gives a fault in place of a record. -/
  | refuse (id : String) (message : String)
  deriving DecidableEq

/-- An effect on the calls about one kind of element, and about one id if it names one. -/
structure Rule where
  call : Call
  type : ElementType
  id : Option String
  effect : Effect
  deriving DecidableEq

namespace Rule

/-- Whether the rule is for a call about a kind of element and an id, as far as the call is about them. -/
def fits (r : Rule) (call : Call) (type : Option ElementType) (id : Option String) : Bool :=
  r.call == call && type.all (· == r.type) && r.id.all (some · == id)

end Rule

structure Scripted where
  rules : List Rule
  memory : Memory

namespace Scripted

def effect? (s : Scripted) (call : Call) (type : Option ElementType) (id : Option String) : Option Effect :=
  (s.rules.find? (·.fits call type id)).map (·.effect)

def calling {α : Type} (s : Scripted) (call : Call) (type : Option ElementType) (id : Option String)
    (result : Option Effect → Except Error α) : Except Error α :=
  match s.effect? call type id with
  | some (.fail message) => .error (.storage (.reported message))
  | effect => result effect

def after (s : Scripted) (memory : Memory) : Option Effect → Scripted
  | some (.alsoDelete t id) => { s with memory := memory.delete t id }
  | _ => { s with memory }

def get (s : Scripted) (t : ElementType) (id : String) : Except Error (Option Record) :=
  s.calling .get t id fun _ => .ok (s.memory.get? t id)

/-- A cursor over the ids, which gives the faults of the script. -/
def cursor (t : ElementType) (ids : List String) : Option Effect → Store.Cursor
  | some (.refuse refused message) =>
    ⟨t, ids.map fun id => if id = refused then .refuse id message else .lookup id⟩
  | _ => .ofIds t ids

instance : Backend Scripted where
  get := get
  put s r := s.calling .put r.type r.id fun effect => .ok (s.after (s.memory.put r) effect)
  delete s t id := s.calling .delete t id fun effect =>
    .ok ((s.memory.get? t id).isSome, s.after (s.memory.delete t id) effect)
  scan s r := s.calling .scan r.type none fun effect => .ok (cursor r.type (s.memory.ids r) effect)
  fetch s t ids := (ids.mapM (s.get t)).map fun records => ⟨t, (records.filterMap id).map .fetched⟩
  count s t := s.calling .count t none fun _ => .ok (s.memory.records.get t).size
  kept s key := s.calling .kept none none fun _ => .ok (s.memory.kept? key)
  keep s key content := s.calling .keep none none fun _ => .ok { s with memory := s.memory.keep key content }
  discard s key := s.calling .discard none none fun _ =>
    .ok ((s.memory.kept? key).isSome, { s with memory := s.memory.discard key })
  close s := s.calling .close none none fun _ => .ok ()
  found s := s.memory.get?

end Scripted

end GuardedGraph.Store

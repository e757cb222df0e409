import GuardedGraph.Data.Table
import GuardedGraph.Store.Basic

/-!
The store that holds everything in tables. Its calls never fail, and its cursors look every record up
when they reach it.
-/

namespace GuardedGraph.Store

structure Memory where
  records : PerType (Table Record)
  contents : Table ByteArray
  deriving DecidableEq

namespace Memory

def empty : Memory := ⟨⟨.empty, .empty⟩, .empty⟩

def get? (m : Memory) (t : ElementType) (id : String) : Option Record := (m.records.get t).get? id

def put (m : Memory) (r : Record) : Memory := { m with records := m.records.update r.type (·.insert r.id r) }

def delete (m : Memory) (t : ElementType) (id : String) : Memory :=
  { m with records := m.records.update t (·.erase id) }

def kept? (m : Memory) (key : String) : Option ByteArray := m.contents.get? key

def keep (m : Memory) (key : String) (content : ByteArray) : Memory :=
  { m with contents := m.contents.insert key content }

def discard (m : Memory) (key : String) : Memory := { m with contents := m.contents.erase key }

def ids (m : Memory) (r : Range) : List String := (m.records.get r.type).keys.filter r.has

def debug (m : Memory) : String :=
  "MemoryBackend \x7b vertices: " ++ toString m.records.vertices.size ++ ", edges: " ++
    toString m.records.edges.size ++ ", large_values: " ++ toString m.contents.size ++ " \x7d"

instance : Backend Memory where
  get m t id := .ok (m.get? t id)
  put m r := .ok (m.put r)
  delete m t id := .ok ((m.get? t id).isSome, m.delete t id)
  scan m r := .ok (.ofIds r.type (m.ids r))
  fetch _ t ids := .ok (.ofIds t ids)
  count m t := .ok (m.records.get t).size
  kept m key := .ok (m.kept? key)
  keep m key content := .ok (m.keep key content)
  discard m key := .ok ((m.kept? key).isSome, m.discard key)
  close _ := .ok ()
  found := get?

/-! ### Lookups -/

theorem get?_put (m : Memory) (r : Record) (t : ElementType) (id : String) :
    (m.put r).get? t id = if r.type = t ∧ r.id = id then some r else m.get? t id := by
  by_cases ht : r.type = t <;> by_cases hi : r.id = id <;> simp [put, get?, Table.get?_insert, ht, hi]

theorem get?_delete (m : Memory) (t u : ElementType) (id j : String) :
    (m.delete t id).get? u j = if t = u ∧ id = j then none else m.get? u j := by
  by_cases ht : t = u <;> by_cases hi : id = j <;> simp [delete, get?, Table.get?_erase, ht, hi]

@[simp] theorem get?_keep (m : Memory) (key : String) (content : ByteArray) (t : ElementType) (id : String) :
    (m.keep key content).get? t id = m.get? t id := rfl

@[simp] theorem get?_discard (m : Memory) (key : String) (t : ElementType) (id : String) :
    (m.discard key).get? t id = m.get? t id := rfl

end Memory

end GuardedGraph.Store

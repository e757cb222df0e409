import GuardedGraph.Data.Table
import GuardedGraph.Element.Type
import GuardedGraph.Search.Terms

/-!
An index of texts by their terms, from which a text can be taken again.
-/

namespace GuardedGraph.Search

structure Shelf where
  termsOf : Table (Table Unit)
  idsOf : Table (Table Unit)
  deriving DecidableEq

namespace Shelf

def empty : Shelf := ⟨.empty, .empty⟩

def ids (s : Shelf) (term : String) : Table Unit := (s.idsOf.get? term).getD .empty

/-- The ids of the terms with one more id under a term. -/
def file (id : String) (idsOf : Table (Table Unit)) (term : String) : Table (Table Unit) :=
  idsOf.insert term (((idsOf.get? term).getD .empty).insert id ())

/-- The ids of the terms with one id less under a term, which goes with its last id. -/
def pull (id : String) (idsOf : Table (Table Unit)) (term : String) : Table (Table Unit) :=
  match idsOf.get? term with
  | none => idsOf
  | some ids => if (ids.erase id).isEmpty then idsOf.erase term else idsOf.insert term (ids.erase id)

def remove (s : Shelf) (id : String) : Shelf :=
  match s.termsOf.get? id with
  | none => s
  | some terms => ⟨s.termsOf.erase id, terms.keys.foldl (pull id) s.idsOf⟩

/-- Indexes an id under terms, and under no other any more. -/
def insert (s : Shelf) (id : String) (terms : Table Unit) : Shelf :=
  let s := s.remove id
  ⟨s.termsOf.insert id terms, terms.keys.foldl (file id) s.idsOf⟩

end Shelf

abbrev Index := PerType Shelf

namespace Index

def empty : Index := ⟨.empty, .empty⟩

/-- Indexes an element under the terms of its fields, each a name and a text. -/
def insert (x : Index) (t : ElementType) (id : String) (fields : List (String × String)) : Index :=
  x.update t (·.insert id (.ofList (fields.flatMap fun f => (terms f.2).map (·, ()))))

def remove (x : Index) (t : ElementType) (id : String) : Index := x.update t (·.remove id)

/-- The ids, in ascending order, that are indexed under every term of a text that has terms. -/
def search (x : Index) (t : ElementType) (text : String) : List String :=
  match terms text with
  | [] => []
  | first :: rest => ((x.get t).ids first).keys.filter fun id => rest.all fun term => ((x.get t).ids term).contains id

end Index

end GuardedGraph.Search

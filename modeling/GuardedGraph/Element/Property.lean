import GuardedGraph.Data.Table
import GuardedGraph.Value.Basic

/-!
Properties and their metadata. A property is told from others by key, name and visibility together.
-/

namespace GuardedGraph

structure Entry where
  value : Value
  visibility : Visibility

abbrev Metadata := Table Entry

def Metadata.readable (m : Metadata) (a : Authorizations) : Metadata := m.filter fun e => e.2.visibility.readableBy a

/-- Whether all numbers in the entries are finite. -/
def Metadata.isFinite (m : Metadata) : Bool := m.entries.all fun e => e.2.value.isFinite

/-- A value under key, name and visibility, hidden from those who satisfy one of its markers. -/
structure Property where
  key : String
  name : String
  value : Value
  visibility : Visibility
  metadata : Metadata
  hidden : List Visibility

/-- The markers with one more, unless it is there. -/
def addMarker (hidden : List Visibility) (marker : Visibility) : List Visibility :=
  if hidden.contains marker then hidden else hidden ++ [marker]

def dropMarker (hidden : List Visibility) (marker : Visibility) : List Visibility := hidden.filter (· ≠ marker)

namespace Property

/-- The property under markers that are given as texts, which have to be visibilities. Its numbers have to be
finite, for no others have a form outside. -/
def marked? (p : Property) (hidden : List String) : Option Property :=
  if p.value.isFinite && p.metadata.isFinite then
    (hidden.mapM fun s => (Visibility.ofText s).toOption).map fun vs => { p with hidden := vs }
  else none

def hiddenFrom (p : Property) (a : Authorizations) : Bool := Visibility.anyReadableBy p.hidden a

def visibleTo (p : Property) (a : Authorizations) : Bool := a.sees p.visibility p.hidden

def named (p : Property) (key name : String) : Bool := p.key == key && p.name == name

def isAt (p : Property) (key name : String) (visibility : Visibility) : Bool :=
  p.named key name && p.visibility == visibility

end Property

end GuardedGraph

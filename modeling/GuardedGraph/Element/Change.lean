import GuardedGraph.Element.View

/-!
Changes to elements, as far as the authorizations of a writer allow them. A list of changes applies as a
whole or not at all.
-/

namespace GuardedGraph

/-- One change to an element. -/
inductive Change
  /-- Adds a property, or replaces the one of its key, name and visibility. -/
  | set (key name : String) (value : Value) (visibility : Visibility) (metadata : Metadata)
  /-- Removes every visible property of a name, and of a key if one is given. -/
  | removeAll (key : Option String) (name : String)
  | remove (key name : String) (visibility : Visibility)
  /-- Gives a property another visibility; `source` tells which of several versions is meant. -/
  | move (key name : String) (source : Option Visibility) (visibility : Visibility)
  /-- Sets an entry of the metadata of every visible version of a property. -/
  | annotate (key name entry : String) (value : Value) (visibility : Visibility)
  | relabel (visibility : Visibility)
  /-- Hides one version of a property from those who satisfy a marker. -/
  | hide (key name : String) (visibility marker : Visibility)
  /-- Takes a marker of `hide` away. -/
  | unhide (key name : String) (visibility marker : Visibility)

/-- A writer has to satisfy the visibility of what it writes. -/
def Authorizations.require (a : Authorizations) (what : Guarded) (v : Visibility) : Except Error Unit :=
  if v.readableBy a then .ok () else .error (.denied (.unsatisfied what v a))

namespace Metadata

def unreadable (m : Metadata) (a : Authorizations) : Metadata := m.filter fun e => !e.2.visibility.readableBy a

/-- The entries of both, with those of `top` before those of `m` of the same names. -/
def under (m top : Metadata) : Metadata := top.entries.foldl (fun t e => t.insert e.1 e.2) m

end Metadata

namespace Property

/-- The property with what a writer puts in its place. The entries that the writer cannot read remain,
also before the writer's own of the same names. -/
def replace (a : Authorizations) (value : Value) (metadata : Metadata) (p : Property) : Property :=
  { p with value, metadata := metadata.under (p.metadata.unreadable a) }

/-- The property with one more entry, unless there is one of that name that the writer cannot read. -/
def annotate (a : Authorizations) (name : String) (entry : Entry) (p : Property) : Property :=
  if (p.metadata.unreadable a).contains name then p else { p with metadata := p.metadata.insert name entry }

def hide (marker : Visibility) (p : Property) : Property := { p with hidden := addMarker p.hidden marker }

def unhide (marker : Visibility) (p : Property) : Property := { p with hidden := dropMarker p.hidden marker }

/-! ### Lists of properties -/

/-- The list with its first fitting property changed, if there is one. -/
def changeFirst? (fits : Property → Bool) (f : Property → Property) : List Property → Option (List Property)
  | [] => none
  | p :: ps => if fits p then some (f p :: ps) else (changeFirst? fits f ps).map (p :: ·)

def removeFirst? (fits : Property → Bool) : List Property → Option (List Property)
  | [] => none
  | p :: ps => if fits p then some ps else (removeFirst? fits ps).map (p :: ·)

def present (key name : String) : Option (List Property) → Except Error (List Property)
  | some ps => .ok ps
  | none => .error (.absent (.property key name))

/-- The list with its only fitting property under another visibility, in place of any other property of
that visibility, key and name. -/
def moveOnly (fits : Property → Bool) (key name : String) (visibility : Visibility) (ps : List Property) :
    List Property :=
  ps.filterMap fun p =>
    if fits p then some { p with visibility } else if p.isAt key name visibility then none else some p

end Property

namespace Change

open Property

def properties (a : Authorizations) : Change → List Property → Except Error (List Property)
  | set key name value visibility metadata, ps => do
    if value.isNull then throw (.invalid (.nullProperty name))
    a.require .property visibility
    metadata.entries.forM fun e => a.require (.entry e.1) e.2.visibility
    return (changeFirst? (·.isAt key name visibility) (replace a value metadata) ps).getD
      (ps ++ [⟨key, name, value, visibility, metadata, []⟩])
  | removeAll key name, ps =>
    return ps.filter fun p => !(p.name == name && key.all (· == p.key) && p.visibleTo a)
  | remove key name visibility, ps => do
    a.require .property visibility
    present key name (removeFirst? (fun p => p.isAt key name visibility && !p.hiddenFrom a) ps)
  | move key name source visibility, ps => do
    a.require .alteredProperty visibility
    source.forM (a.require .property)
    let fits (p : Property) : Bool := p.named key name && p.visibleTo a && source.all (· == p.visibility)
    match ps.filter fits with
    | [] => throw (.absent (.property key name))
    | [p] => return if p.visibility = visibility then ps else moveOnly fits key name visibility ps
    | versions => throw (.invalid (.ambiguousProperty key name versions.length))
  | annotate key name entry value visibility, ps => do
    a.require .metadata visibility
    let fits (p : Property) : Bool := p.named key name && p.visibleTo a
    if ps.any fits then
      return ps.map fun p => if fits p then p.annotate a entry ⟨value, visibility⟩ else p
    else throw (.absent (.property key name))
  | relabel _, ps => return ps
  | hide key name visibility marker, ps => do
    a.require .marker marker
    a.require .property visibility
    present key name (changeFirst? (·.isAt key name visibility) (Property.hide marker) ps)
  | unhide key name visibility marker, ps => do
    a.require .marker marker
    a.require .property visibility
    present key name (changeFirst? (·.isAt key name visibility) (Property.unhide marker) ps)

def visibility (a : Authorizations) : Change → Visibility → Except Error Visibility
  | relabel v, _ => do
    a.require .element v
    return v
  | _, v => return v

def apply (a : Authorizations) (c : Change) (e : Element) : Except Error Element := do
  return { e with visibility := ← c.visibility a e.visibility, properties := ← c.properties a e.properties }

end Change

def Element.apply (a : Authorizations) (changes : List Change) (e : Element) : Except Error Element :=
  changes.foldlM (fun e c => c.apply a e) e

end GuardedGraph

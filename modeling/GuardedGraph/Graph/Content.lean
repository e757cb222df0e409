import GuardedGraph.Graph.Basic
import GuardedGraph.Record.Codec

/-!
Contents that are kept outside the records. An element keeps the contents of its properties under keys of
its own; a stream from elsewhere is copied, so that it does not depend on where it came from.
-/

namespace GuardedGraph

open Store (Backend)

/-- A key for the content of a property, told from all others by its suffix. -/
def contentKey (t : ElementType) (id : String) (p : Property) (suffix : String) : String :=
  "/".intercalate [t.name, id, p.key, p.name, p.visibility.text, suffix]

namespace Commit

variable {σ : Type} [Backend σ]

def keepContent (t : ElementType) (id : String) (p : Property) (s : Value.Stream) (content : ByteArray) :
    Commit σ Property := do
  let key := contentKey t id p (← mint)
  tell (Backend.keep · key content)
  return { p with value := .stream (s.keptUnder key) }

/-- The property with its content where it belongs: a long stream goes out of the record, and one that
is kept under a key that is not `owned` is copied. -/
def settle (t : ElementType) (id : String) (owned : List String) (p : Property) : Commit σ Property := do
  match p.value with
  | .stream s =>
    match s.source with
    | .inline content =>
      if content.size > (← config).threshold then keepContent t id p s content else return p
    | .external key _ _ =>
      if owned.contains key then return p
      else
        match ← ask (Backend.kept · key) with
        | some content => keepContent t id p s content
        | none => throw (.storage (.missing key))
  | _ => return p

def settleAll (owned : List String) (w : Whole) : Commit σ Whole := do
  let properties ← w.element.properties.mapM (settle w.type w.element.id owned)
  return { w with element := { w.element with properties } }

def discardAll (keys : List String) : Commit σ Unit := keys.forM fun key => do
  let _ ← exchange (Backend.discard · key)

/-- Puts the texts of an element into the search index, if that is wanted. -/
def indexTexts (w : Whole) : Commit σ Unit := do
  if (← config).indexing then
    changeIndex (·.insert w.type w.element.id
      (w.element.properties.filterMap fun p => p.value.text?.map (p.name, ·)))

/-- Lets go of what else is kept of a deleted record. -/
def forget (r : Record) : Commit σ Unit := do
  discardAll r.keptKeys
  changeIndex (·.remove r.type r.id)

end Commit

end GuardedGraph

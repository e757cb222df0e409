import GuardedGraph.Element.View
import GuardedGraph.Record.Basic
import GuardedGraph.Value.Stored

/-!
Elements from records and back. Writers get all of a record (`Record.whole`), readers get what they may
see of it (`Record.view?`), and what they may not see is never decoded.
-/

namespace GuardedGraph

structure Whole where
  type : ElementType
  element : Element
  endpoints : Option Endpoints
  edgeRefs : List EdgeRef

/-! ### Decoding -/

/-- A stored value, attached to the store that it came from. -/
def decodeAttached (b : ByteArray) : Except Error Value := (Value.decode b).map Value.attach

def EntryRecord.decode (e : EntryRecord) : Except Error (String × Entry) :=
  (decodeAttached e.value).map fun v => (e.name, ⟨v, e.visibility⟩)

namespace PropertyRecord

/-- The property with the given entries of its metadata and the given markers. -/
def decodeWith (p : PropertyRecord) (entries : List EntryRecord) (hidden : List Visibility) :
    Except Error Property := do
  let metadata ← entries.mapM EntryRecord.decode
  let value ← decodeAttached p.value
  return ⟨p.key, p.name, value, p.visibility, .ofList metadata, hidden⟩

def whole (p : PropertyRecord) : Except Error Property := p.decodeWith p.metadata p.hidden

/-- The property with the metadata that `a` can read, and without markers. -/
def view (p : PropertyRecord) (a : Authorizations) : Except Error Property :=
  p.decodeWith (p.metadata.filter (·.visibility.readableBy a)) []

end PropertyRecord

namespace Record

def whole (r : Record) : Except Error Whole := do
  let properties ← r.properties.mapM PropertyRecord.whole
  return ⟨r.type, ⟨r.id, r.visibility, properties, r.hidden⟩, r.endpoints, r.edgeRefs⟩

/-- What sets the record's kind of element apart, for a reader. -/
def links (r : Record) (a : Authorizations) : (t : ElementType) → Except Error (Links t)
  | .vertex => .ok ((r.edgeRefs.filter (·.visibleTo a)).map fun e => { e with hidden := [] })
  | .edge => match r.endpoints with
    | some e => .ok e
    | none => .error (.storage (.noEndpoints r.id))

/-- What `a` sees of the element; nothing when it may not see the element at all. -/
def view? (t : ElementType) (r : Record) (a : Authorizations) : Except Error (Option (View t)) :=
  if r.type ≠ t ∨ !r.visibleTo a then .ok none
  else do
    let properties ← (r.properties.filter (·.visibleTo a)).mapM (·.view a)
    let links ← r.links a t
    return some ⟨⟨r.id, r.visibility, properties, []⟩, links⟩

end Record

/-! ### Encoding -/

def Property.encode (p : Property) : PropertyRecord :=
  ⟨p.key, p.name, p.visibility, p.value.encode,
    p.metadata.entries.map fun e => ⟨e.1, e.2.visibility, e.2.value.encode⟩, p.hidden⟩

def Whole.encode (w : Whole) : Record :=
  ⟨w.type, w.element.id, w.element.visibility, w.element.hidden, w.element.properties.map Property.encode,
    w.endpoints, w.edgeRefs⟩

/-! ### Kept contents -/

/-- The keys of the kept contents that property values stand for. -/
def Whole.keptKeys (w : Whole) : List String :=
  w.element.properties.filterMap fun p => p.value.stream?.bind (·.key?)

/-- The same for a record, as far as its values decode. -/
def Record.keptKeys (r : Record) : List String :=
  r.properties.filterMap fun p =>
    match Value.decode p.value with
    | .ok v => v.stream?.bind (·.key?)
    | .error _ => none

end GuardedGraph

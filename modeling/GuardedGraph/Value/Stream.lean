import GuardedGraph.Error
import GuardedGraph.Text.Quoted

/-!
Large contents. A stream carries its content or the key of content kept in the large-value store.
-/

namespace GuardedGraph

/-- Contents are compared byte by byte. -/
instance bytesDecidableEq : DecidableEq ByteArray := fun _ _ => decidable_of_iff _ ByteArray.ext_iff.symm

namespace Value

/-- Where the content is. Kept content can be read only through a stream attached to the store. -/
inductive Source
  | inline (content : ByteArray)
  | external (key : String) (length : Nat) (attached : Bool)
  deriving DecidableEq

structure Stream where
  kind : Kind
  source : Source
  deriving DecidableEq

namespace Stream

def ofBytes (kind : Kind) (content : ByteArray) : Stream := ⟨kind, .inline content⟩

def ofText (s : String) : Stream := ofBytes .string s.toUTF8

/-- The stream of all that a source gives, unless the source fails. -/
def drain (kind : Kind) (source : Except String ByteArray) : Except Error Stream :=
  (source.map (ofBytes kind)).mapError .io

def length (s : Stream) : Nat :=
  match s.source with
  | .inline content => content.size
  | .external _ length _ => length

def isExternal (s : Stream) : Bool :=
  match s.source with
  | .inline _ => false
  | .external .. => true

def key? (s : Stream) : Option String :=
  match s.source with
  | .inline _ => none
  | .external key _ _ => some key

/-- The stream able to read kept content. -/
def attach (s : Stream) : Stream :=
  match s.source with
  | .inline _ => s
  | .external key length _ => { s with source := .external key length true }

/-- The stream with its content kept under a key. -/
def keptUnder (s : Stream) (key : String) : Stream := { s with source := .external key s.length true }

/-- The whole content; `kept` looks up the large-value store. -/
def read (kept : String → Except Error (Option ByteArray)) (s : Stream) : Except Error ByteArray :=
  match s.source with
  | .inline content => .ok content
  | .external key _ false => .error (.storage (.detached key))
  | .external key length true =>
    (kept key).bind fun
      | none => .error (.storage (.missing key))
      | some content =>
        if content.size = length then .ok content else .error (.storage (.wrongSize key content.size length))

def readText (kept : String → Except Error (Option ByteArray)) (s : Stream) : Except Error String :=
  (s.read kept).bind fun content =>
    match String.fromUTF8? content with
    | some text => .ok text
    | none => .error (.invalid .notText)

/-- Equality of what the streams stand for, wherever they can be read. -/
def same (s t : Stream) : Bool :=
  s.kind == t.kind &&
    match s.source, t.source with
    | .inline a, .inline b => a == b
    | .external k n _, .external l m _ => k == l && n == m
    | _, _ => false

def render (s : Stream) : String := "<stream " ++ s.kind.title ++ "[" ++ toString s.length ++ "]>"

def debug (s : Stream) : String :=
  "StreamingValue \x7b value_type: " ++ s.kind.title ++ ", " ++
    (match s.source with
    | .inline content => "inline_len: " ++ toString content.size
    | .external key length _ => "external: " ++ Text.quoted key ++ ", len: " ++ toString length) ++ " \x7d"

end Stream

end Value

end GuardedGraph

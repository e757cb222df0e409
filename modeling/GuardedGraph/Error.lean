import GuardedGraph.Element.Type
import GuardedGraph.Value.Kind
import GuardedGraph.Visibility.Basic

/-!
What can go wrong, by cause, and how each cause is told.
-/

namespace GuardedGraph

namespace Visibility

def Lexeme.name : Lexeme → String
  | .term text => "Term(\"" ++ text ++ "\")"
  | .conj => "And"
  | .disj => "Or"
  | .opening => "LParen"
  | .closing => "RParen"

def Fault.message : Fault → String
  | .badEscape c => "Invalid escape '\\" ++ c.toString ++ "' in quoted term"
  | .unterminated => "Unterminated quoted term"
  | .emptyQuote => "Empty quoted term"
  | .stray c => "Unexpected character '" ++ c.toString ++ "'"
  | .missingTerm => "Expected a term, found end of expression"
  | .notTerm found => "Expected a term, found " ++ found.name
  | .emptyGroup => "Empty parentheses"
  | .unbalanced => "Unbalanced '('"
  | .mixed => "Cannot mix '&' and '|' without parentheses"
  | .trailing => "Unexpected trailing input"

end Visibility

/-- What a writer attaches a visibility to, and so has to satisfy. -/
inductive Guarded
  | created (type : ElementType)
  | property
  | alteredProperty
  | entry (name : String)
  | metadata
  | element
  | marker
  deriving DecidableEq

def Guarded.name : Guarded → String
  | .created type => type.name
  | .property => "property"
  | .alteredProperty => "new property"
  | .entry name => "metadata '" ++ name ++ "'"
  | .metadata => "metadata"
  | .element => "element"
  | .marker => "hidden"

inductive Denial
  | unsatisfied (what : Guarded) (visibility : Visibility) (writer : Authorizations)
  | unreadable (type : ElementType) (id : String) (writer : Authorizations)
  | unreadableEdge (vertex : String) (writer : Authorizations)
  deriving DecidableEq

def Denial.message : Denial → String
  | .unsatisfied what v a => what.name ++ " visibility '" ++ v.text ++ "' is not satisfied by " ++ a.render
  | .unreadable type id a => type.name ++ " " ++ id ++ " is not readable by " ++ a.render
  | .unreadableEdge vertex a => "vertex " ++ vertex ++ " has an incident edge not readable by " ++ a.render

inductive Absence
  | element (type : ElementType) (id : String)
  | property (key name : String)
  deriving DecidableEq

def Absence.message : Absence → String
  | .element type id => type.name ++ " " ++ id
  | .property key name => "property '" ++ name ++ "' (key '" ++ key ++ "')"

inductive Expected
  | orderable
  | kind (k : Value.Kind)
  deriving DecidableEq

def Expected.name : Expected → String
  | .orderable => "an orderable value"
  | .kind k => k.name

inductive StorageFault
  | detached (key : String)
  | missing (key : String)
  | wrongSize (key : String) (size expected : Nat)
  | noEndpoints (edge : String)
  | reported (message : String)
  deriving DecidableEq

def StorageFault.message : StorageFault → String
  | .detached key => "large value '" ++ key ++ "' has no attached store"
  | .missing key => "large value '" ++ key ++ "' is missing"
  | .wrongSize key size expected =>
    "large value '" ++ key ++ "' has " ++ toString size ++ " bytes, expected " ++ toString expected
  | .noEndpoints edge => "edge record '" ++ edge ++ "' has no endpoints"
  | .reported message => message

/-- An argument that no state of the graph makes acceptable. -/
inductive Misuse
  | emptyLabel
  | emptyId (type : ElementType)
  | nullProperty (name : String)
  | ambiguousProperty (key name : String) (versions : Nat)
  | nullOperand (name : String)
  | nullBound (name : String)
  | noIndex
  | bothEndpoints
  | notText
  | badThreshold (raw : String)
  deriving DecidableEq

def Misuse.message : Misuse → String
  | .emptyLabel => "edge label must not be empty"
  | .emptyId type => type.name ++ " id must not be empty"
  | .nullProperty name => "property '" ++ name ++ "' cannot be set to null"
  | .ambiguousProperty key name versions =>
    "property '" ++ name ++ "' (key '" ++ key ++ "') has " ++ toString versions ++
      " readable versions; name the visibility to alter"
  | .nullOperand name => "has('" ++ name ++ "') needs a non-null value"
  | .nullBound name => "range('" ++ name ++ "') needs non-null bounds"
  | .noIndex => "text query requires an attached search index"
  | .bothEndpoints => "an edge endpoint is either Out or In, not Both"
  | .notText => "streaming value is not UTF-8"
  | .badThreshold raw => "maxStreamingPropertyValueTableDataSize must be a byte count, got '" ++ raw ++ "'"

inductive Error
  | denied (why : Denial)
  | absent (what : Absence)
  | unparsed (why : Visibility.ParseError)
  | mismatch (expected : Expected) (got : Value.Kind)
  | storage (why : StorageFault)
  | taken (type : ElementType) (id : String)
  | invalid (why : Misuse)
  | undecodable
  | io (message : String)
  deriving DecidableEq

/-- The text of an error; a text that does not decode has none. -/
def Error.message? : Error → Option String
  | .denied why => some ("Authorization error: " ++ why.message)
  | .absent what => some ("Not found: " ++ what.message)
  | .unparsed why =>
    some ("Visibility syntax error at position " ++ toString why.position ++ ": " ++ why.fault.message)
  | .mismatch expected got => some ("Type mismatch: expected " ++ expected.name ++ ", got " ++ got.name)
  | .storage why => some ("Storage error: " ++ why.message)
  | .taken type id => some ("Already exists: " ++ type.name ++ " " ++ id)
  | .invalid why => some ("Invalid argument: " ++ why.message)
  | .undecodable => none
  | .io message => some ("IO error: " ++ message)

def Visibility.read (text : String) : Except Error Visibility := (Visibility.ofText text).mapError .unparsed

end GuardedGraph

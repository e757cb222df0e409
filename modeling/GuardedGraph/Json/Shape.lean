import GuardedGraph.Json.Reader

/-!
Reading parts of a JSON tree. Each reader takes the number of arrays and objects that may still nest.
A record is an object with its fields under their names, or the array of its fields in order.
-/

namespace GuardedGraph.Json

/-- How many arrays and objects nest in a text at most. -/
def nesting : Nat := 127

def text? : Json → Option String
  | .text s => s
  | _ => none

def bool? : Json → Option Bool
  | .bool b => some b
  | _ => none

def double? : Json → Option Double
  | .number n => n.double?
  | _ => none

def integer? (low high : Int) : Json → Option Int
  | .number n => n.integer?.filter fun i => low ≤ i ∧ i ≤ high
  | _ => none

def word? (j : Json) : Option Nat := (j.integer? 0 0xFFFFFFFFFFFFFFFF).map Int.toNat

def byte? (j : Json) : Option UInt8 := (j.integer? 0 255).map fun i => UInt8.ofNat i.toNat

def array? (limit : Nat) : Json → Option (List Json)
  | .array items => if limit = 0 then none else some items
  | _ => none

def bytes? (limit : Nat) (j : Json) : Option ByteArray :=
  (j.array? limit).bind fun items => (items.mapM byte?).map fun bs => ⟨bs.toArray⟩

mutual

/-- Whether all that the tree spells is meaningful: literals, numbers and nesting. -/
def sound (limit : Nat) : Json → Bool
  | .null => true
  | .bool _ => true
  | .number n => n.double?.isSome
  | .text s => s.isSome
  | .array items => match limit with
    | 0 => false
    | limit + 1 => soundItems limit items
  | .object members => match limit with
    | 0 => false
    | limit + 1 => soundMembers limit members

def soundItems (limit : Nat) : List Json → Bool
  | [] => true
  | j :: js => j.sound limit && soundItems limit js

def soundMembers (limit : Nat) : List (Option String × Json) → Bool
  | [] => true
  | (k, j) :: ms => k.isSome && j.sound limit && soundMembers limit ms

end

def named (name : String) (members : List (Option String × Json)) : List Json :=
  (members.filter (·.1 == some name)).map (·.2)

/-- A field that is absent or there once. -/
def field? (name : String) (members : List (Option String × Json)) : Option (Option Json) :=
  match named name members with
  | [] => some none
  | [j] => some (some j)
  | _ => none

/-- The fields of a record, in the order of `names`; fields of other names are ignored. -/
def fields? (limit : Nat) (names : List String) : Json → Option (List (Option Json))
  | .object members =>
    if limit ≠ 0 ∧ members.all (·.1.isSome) then names.mapM (field? · members) else none
  | .array items =>
    if limit ≠ 0 ∧ items.length ≤ names.length then
      some (items.map some ++ List.replicate (names.length - items.length) none)
    else none
  | _ => none

/-! ### Cases -/

/-- Where a tree is read: in its place in the text, or after it was set aside until the name of its case
was known. What is set aside is read more freely. -/
inductive Place
  | inText
  | aside
  deriving DecidableEq

/-- The name of a case without content: a text, or an object that maps it to null, and to an object
without members when set aside. -/
def case? (place : Place) (limit : Nat) : Json → Option String
  | .text s => s
  | .object [(k, .null)] => if limit = 0 then none else k
  | .object [(k, .object [])] => if limit = 0 ∨ place = .inText then none else k
  | _ => none

/-- The name of a case with content: a text, and when set aside also its number among the names. -/
def name? (place : Place) (names : List String) : Json → Option String
  | .text s => s
  | .number n => if place = .inText then none else (n.integer?.bind Int.toNat?).bind fun i => names[i]?
  | _ => none

structure Case where
  name : String
  content : Option Json
  place : Place

/-- The name of a case and its content, under `type` and `value` in either order, or as a pair. A content
that comes before its name is set aside, for which it has to be sound. -/
def tagged? (place : Place) (limit : Nat) (names : List String) : Json → Option Case
  | .array [name, content] =>
    if limit = 0 then none else (name.name? place names).map (⟨·, some content, place⟩)
  | .object members => do
    let name ← field? "type" members
    let content ← field? "value" members
    let early := (members.find? fun m => m.1 == some "type" || m.1 == some "value").any (·.1 == some "value")
    if limit = 0 ∨ !members.all (·.1.isSome) ∨ (early ∧ !content.all (·.sound (limit - 1))) then none
    else return ⟨← (← name).case? place (limit - 1), content, if early then .aside else place⟩
  | _ => none

/-- The name of a case under `tag` among its fields, and the record of its fields, which is set aside. -/
def embedded? (place : Place) (limit : Nat) (tag : String) (names : List String) (j : Json) :
    Option (String × Json) :=
  if j.sound limit then
    match j with
    | .object members => do
      let name ← (← field? tag members).bind (name? place names)
      return (name, .object (members.filter (·.1 != some tag)))
    | .array (name :: items) => (name.name? place names).map (·, .array items)
    | _ => none
  else none

end GuardedGraph.Json

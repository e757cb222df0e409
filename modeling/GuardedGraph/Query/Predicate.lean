import GuardedGraph.Element.View
import GuardedGraph.Value.Compare

/-!
Conditions on the values of one property, and the conditions under which they make sense.
-/

namespace GuardedGraph

inductive Predicate
  | has (name : String) (comparator : Comparator) (operand : Value)
  /-- Both bounds belong to the range. -/
  | range (name : String) (low high : Value)
  | within (name : String) (region : Geo.Shape)

namespace Predicate

def name : Predicate → String
  | has name .. => name
  | range name .. => name
  | within name _ => name

def holds : Predicate → Value → Bool
  | has _ c operand, v => c.holds v operand
  | range _ low high, v => Comparator.greaterEqual.holds v low && Comparator.lessEqual.holds v high
  | within _ region, v => v.inside region

def metBy {t : ElementType} (p : Predicate) (v : View t) : Bool := (v.values p.name).any p.holds

/-! ### Sense -/

/-- A value of a kind can stand for the declared kind, if one is declared. -/
def requireDeclared (declared : Option Value.Kind) (k : Value.Kind) : Except Error Unit :=
  match declared with
  | some d => if d.family = k.family then .ok () else .error (.mismatch (.kind d) k)
  | none => .ok ()

/-- Whether the condition makes sense for a name of which a kind may be declared. -/
def check (declared : Option Value.Kind) : Predicate → Except Error Unit
  | has name c operand =>
    match operand.kind? with
    | none => .error (.invalid (.nullOperand name))
    | some k =>
      if c.ordering && !k.family.orderable then .error (.mismatch .orderable k) else requireDeclared declared k
  | range name low high =>
    match low.kind?, high.kind? with
    | some k, some l =>
      if !k.family.orderable || k.family ≠ l.family then .error (.mismatch (.kind k) l)
      else requireDeclared declared k
    | _, _ => .error (.invalid (.nullBound name))
  | within .. =>
    match declared with
    | some d => if d = .geoShape then .ok () else .error (.mismatch (.kind d) .geoShape)
    | none => .ok ()

end Predicate

end GuardedGraph

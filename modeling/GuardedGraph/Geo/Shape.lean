import GuardedGraph.Number.Layout

/-!
Points and regions of the globe, in degrees. Rectangles do not cross the line where longitudes wrap.
-/

namespace GuardedGraph.Geo

structure Point where
  latitude : Double
  longitude : Double
  deriving DecidableEq

inductive Shape
  | point (p : Point)
  | circle (center : Point) (radius : Double)
  | rect (topLeft bottomRight : Point)
  deriving DecidableEq

def Point.same (p q : Point) : Bool := p.latitude.numEq q.latitude && p.longitude.numEq q.longitude

def Point.isFinite (p : Point) : Bool := p.latitude.isFinite && p.longitude.isFinite

namespace Shape

/-- Whether all coordinates and radii are finite. -/
def isFinite : Shape → Bool
  | .point p => p.isFinite
  | .circle c r => c.isFinite && r.isFinite
  | .rect a b => a.isFinite && b.isFinite

def same : Shape → Shape → Bool
  | .point p, .point q => p.same q
  | .circle c r, .circle d s => c.same d && r.numEq s
  | .rect a b, .rect c d => a.same c && b.same d
  | _, _ => false

def render : Shape → String
  | .point p => "point(" ++ p.latitude.render ++ ", " ++ p.longitude.render ++ ")"
  | .circle c r =>
    "circle(" ++ c.latitude.render ++ ", " ++ c.longitude.render ++ ", " ++ r.render ++ "km)"
  | .rect a b =>
    "rect((" ++ a.latitude.render ++ ", " ++ a.longitude.render ++ "), (" ++ b.latitude.render ++ ", " ++
      b.longitude.render ++ "))"

end Shape

end GuardedGraph.Geo

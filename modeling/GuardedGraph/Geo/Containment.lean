import GuardedGraph.Geo.Shape

/-!
Great-circle distances, and which shapes lie inside which.
-/

namespace GuardedGraph.Geo

/-- Kilometres. -/
def earthRadius : Float := 6371.0

def pi : Float := .ofBits 0x400921fb54442d18

def radians (degrees : Float) : Float := degrees * (pi / 180.0)

def degrees (radians : Float) : Float := radians * (180.0 / pi)

def square (x : Float) : Float := x * x

/-- The larger of two numbers; what is not a number counts for nothing. -/
def larger (x y : Float) : Float := if x.isNaN then y else if y.isNaN then x else if x < y then y else x

/-- Kilometres between two points, by the haversine formula. -/
def distance (p q : Point) : Float :=
  let lat₁ := radians p.latitude.toFloat
  let lat₂ := radians q.latitude.toFloat
  let dlat := lat₂ - lat₁
  let dlon := radians (q.longitude.toFloat - p.longitude.toFloat)
  let a := square (dlat / 2.0).sin + lat₁.cos * lat₂.cos * square (dlon / 2.0).sin
  2.0 * earthRadius * Float.atan2 a.sqrt (1.0 - a).sqrt

/-- Whether the rectangle between two corners has the point inside or on its border. -/
def rectHas (topLeft bottomRight p : Point) : Bool :=
  p.latitude.numLe topLeft.latitude && bottomRight.latitude.numLe p.latitude &&
    topLeft.longitude.numLe p.longitude && p.longitude.numLe bottomRight.longitude

def corners (topLeft bottomRight : Point) : List Point :=
  [topLeft, bottomRight, ⟨topLeft.latitude, bottomRight.longitude⟩, ⟨bottomRight.latitude, topLeft.longitude⟩]

/-- The points of a circle farthest north, south, east and west. -/
def extremes (center : Point) (radius : Double) : List Point :=
  let lat := center.latitude.toFloat
  let lon := center.longitude.toFloat
  let dlat := degrees (radius.toFloat / earthRadius)
  let dlon := dlat / larger (radians lat).cos (.ofBits 0x3cb0000000000000)
  [⟨.ofFloat (lat + dlat), center.longitude⟩, ⟨.ofFloat (lat - dlat), center.longitude⟩,
    ⟨center.latitude, .ofFloat (lon + dlon)⟩, ⟨center.latitude, .ofFloat (lon - dlon)⟩]

/-- Whether a circle has the point inside or on its border. -/
def circleHas (center : Point) (radius : Double) (p : Point) : Bool := distance center p ≤ radius.toFloat

/-- Whether the second shape lies entirely inside the first. -/
def Shape.contains : Shape → Shape → Bool
  | .point p, .point q => p.same q
  | .point _, _ => false
  | .circle c r, .point p => circleHas c r p
  | .circle c r, .circle d s => distance c d + s.toFloat ≤ r.toFloat
  | .circle c r, .rect a b => (corners a b).all (circleHas c r)
  | .rect a b, .point p => rectHas a b p
  | .rect a b, .rect c d => rectHas a b c && rectHas a b d
  | .rect a b, .circle c r => (extremes c r).all (rectHas a b)

def Shape.within (s region : Shape) : Bool := region.contains s

end GuardedGraph.Geo

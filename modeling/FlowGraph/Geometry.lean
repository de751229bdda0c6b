import FlowGraph.Scalar

/-! # Points and measures of the canvas

Coordinates are scalars, and every formula is evaluated in the order in which it is written.
-/

namespace FlowGraph
set_option autoImplicit false

structure Point where
  x : Scalar
  y : Scalar

namespace Point

def origin : Point := ⟨0.0, 0.0⟩

/-- The length of the straight line between two points. -/
def distance (p q : Point) : Scalar :=
  let dx := p.x - q.x
  let dy := p.y - q.y
  (dx * dx + dy * dy).sqrt

def offset (p : Point) (dx dy : Scalar) : Point := ⟨p.x + dx, p.y + dy⟩

end Point

namespace Measure

def nodeWidth : Float := 200.0

def nodeHeight : Float := 37.5

/-- Where the first flow row starts below the origin of the node. -/
def flowRowsTop : Float := 47.5

def flowRow : Float := 36.0

def dataRow : Float := 28.0

def socketRadius : Float := 8.0

/-- The radius of the socket that a drag would snap to. -/
def snapRadius : Float := 10.0

/-- How far the centre of a plug stands inside the right edge. -/
def plugInset : Float := 28.0

/-- The opacity of a plug that the previewed branch does not take. -/
def dimmedOpacity : Float := 0.3

end Measure
end FlowGraph

import FlowGraph.Decimal.Binary

/-! # Scalars of the canvas

An operation without a result, such as the difference of two infinities, yields an undefined
double. Undefined doubles come in two signs: the order of doubles puts one below and the other
above every number, which decides where a socket at an undefined distance stands among others.
`Float` does not show the sign, so the canvas reckons with scalars, which keep it: an undefined
operand is handed on, the first before the second, and a new undefined result is negative.
-/

namespace FlowGraph
set_option autoImplicit false

/-- A double, with the sign of an undefined one. -/
inductive Scalar where
  /-- A double; an undefined one is positive. -/
  | ofFloat (x : Float)
  | negativeNan

namespace Scalar

instance : Coe Float Scalar := ⟨.ofFloat⟩

instance : OfScientific Scalar := ⟨fun m negative e => .ofFloat (OfScientific.ofScientific m negative e)⟩

def value : Scalar → Float
  | .ofFloat x => x
  | .negativeNan => 0.0 / 0.0

/-- The scalar of a result that came from defined operands. -/
def ofResult (x : Float) : Scalar := if x.isNaN then .negativeNan else .ofFloat x

def combine (op : Float → Float → Float) : Scalar → Scalar → Scalar
  | .negativeNan, _ => .negativeNan
  | .ofFloat x, .negativeNan => if x.isNaN then .ofFloat x else .negativeNan
  | .ofFloat x, .ofFloat y =>
    if x.isNaN then .ofFloat x
    else if y.isNaN then .ofFloat y
    else ofResult (op x y)

instance : Add Scalar := ⟨combine (· + ·)⟩

instance : Sub Scalar := ⟨combine (· - ·)⟩

instance : Mul Scalar := ⟨combine (· * ·)⟩

instance : Div Scalar := ⟨combine (· / ·)⟩

def sqrt : Scalar → Scalar
  | .negativeNan => .negativeNan
  | .ofFloat x => if x.isNaN then .ofFloat x else ofResult x.sqrt

/-- The place in the order of doubles, with the negative undefined value below all others. -/
def rank : Scalar → Int
  | .ofFloat x => Double.rank x
  | .negativeNan => -Double.rank (0.0 / 0.0) - 1

end Scalar
end FlowGraph

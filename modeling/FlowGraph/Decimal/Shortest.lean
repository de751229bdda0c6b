import FlowGraph.Decimal.Binary

/-! # The fewest digits that read back

A double stands for every number that rounds to it: an interval around its exact value, with its
ends included when the significand is even. `shortest` walks down the grids of multiples of
`10 ^ g` until one of the two neighbours of the value on the grid lies in that interval. The first
grid with a hit has the fewest digits; of two hits the nearer is taken, and a value half way
between them goes as `Tie` says.
-/

namespace FlowGraph.Decimal
set_option autoImplicit false

/-- Where a value half way between two texts of equal length goes. -/
inductive Tie where
  | up
  | toEven
  deriving DecidableEq, Repr

/-- The number `0.d₁d₂… · 10 ^ point`, without a zero at its end. -/
structure Digits where
  digits : List Char
  point : Int
  deriving DecidableEq, Repr

namespace Digits

def ofNat (n : Nat) (g : Int) : Digits :=
  let ds := Nat.toDigits 10 n
  ⟨(ds.reverse.dropWhile (· == '0')).reverse, Int.ofNat ds.length + g⟩

end Digits

/-- The exact value `4 · m · 2 ^ q` of a double with the ends of its rounding interval, all three
as multiples of `2 ^ q`. -/
structure Neighbourhood where
  low : Nat
  value : Nat
  high : Nat
  exponent : Int
  /-- Whether the ends themselves round to the double. -/
  closed : Bool

/-- The numbers that round to `m · 2 ^ q`. Below a power of two the doubles lie twice as close. -/
def neighbourhood (m : Nat) (q : Int) : Neighbourhood :=
  ⟨if m = pow2 52 ∧ -1074 < q then 4 * m - 1 else 4 * m - 2, 4 * m, 4 * m + 2, q - 2, m % 2 == 0⟩

/-- What the multiples of `2 ^ exponent` are multiplied by to compare them with multiples of
`10 ^ g`. -/
def Neighbourhood.scale (i : Neighbourhood) (g : Int) : Nat := pow2 i.exponent.toNat * pow10 (-g).toNat

/-- What the multiples of `10 ^ g` are multiplied by in that comparison. -/
def Neighbourhood.unit (i : Neighbourhood) (g : Int) : Nat := pow2 (-i.exponent).toNat * pow10 g.toNat

/-- The multiple of `10 ^ g` that stands for the value, if its interval holds one. -/
def Neighbourhood.onGrid? (i : Neighbourhood) (tie : Tie) (g : Int) : Option Nat :=
  let scale := i.scale g
  let unit := i.unit g
  let inside (d : Nat) : Bool :=
    if i.closed then i.low * scale ≤ d * unit && d * unit ≤ i.high * scale
    else i.low * scale < d * unit && d * unit < i.high * scale
  let below := i.value * scale / unit
  let rest := 2 * (i.value * scale % unit)
  let upper : Bool :=
    unit < rest || (rest == unit && (tie == .up || below % 2 == 1))
  match inside below, inside (below + 1) with
  | true, true => some (if upper then below + 1 else below)
  | true, false => some below
  | false, true => some (below + 1)
  | false, false => none

def Neighbourhood.search (i : Neighbourhood) (tie : Tie) : (steps : Nat) → Int → Digits
  | 0, g => .ofNat (i.value * i.scale g / i.unit g) g
  | steps + 1, g =>
    match i.onGrid? tie g with
    | some d => .ofNat d g
    | none => i.search tie steps (g - 1)

/-- The shortest digits of the positive number `m · 2 ^ q`. The first grid is coarser than the
number, and seventeen digits always suffice. -/
def shortest (tie : Tie) (m : Nat) (q : Int) : Digits :=
  let magnitude := (Int.ofNat m.log2 + q + 1) * 30103 / 100000 + 1
  (neighbourhood m q).search tie 22 magnitude

end FlowGraph.Decimal

import FlowGraph.Decimal.Binary

/-! # The double nearest to a fraction

`nearest num den` rounds the exact quotient `num / den` to a double: the significand keeps 53
bits (fewer below the normal range), a half goes to the even neighbour, and what lies beyond the
largest double becomes infinite. Whole numbers and decimal texts are both read through it.
-/

namespace FlowGraph.Decimal
set_option autoImplicit false

/-- The exponent `q` with `2 ^ 52 ≤ num / (den · 2 ^ q) < 2 ^ 53`, but not below -1074. -/
def exponentOf (num den : Nat) : Int :=
  let guess : Int := Int.ofNat num.log2 - Int.ofNat den.log2 - 52
  -- The two logarithms leave the quotient in doubt by one binary place.
  let enough : Bool :=
    if 0 ≤ guess then den * pow2 (guess.toNat + 52) ≤ num
    else den * pow2 52 ≤ num * pow2 (-guess).toNat
  max (if enough then guess else guess - 1) (-1074)

/-- `n / d` rounded to the nearest whole number, a half to the even one. -/
def divideToEven (n d : Nat) : Nat :=
  let q := n / d
  let r := n % d
  if 2 * r < d then q
  else if d < 2 * r then q + 1
  else q + q % 2

/-- The non-negative double nearest to `num / den`, for a positive `den`. -/
def nearest (num den : Nat) : Float :=
  if num = 0 then 0.0
  else
    let q := exponentOf num den
    let m :=
      if 0 ≤ q then divideToEven num (den * pow2 q.toNat)
      else divideToEven (num * pow2 (-q).toNat) den
    -- A significand that rounds up to `2 ^ 53` carries into the exponent field by itself.
    let bits := (q + 1074).toNat * pow2 52 + m
    Float.ofBits (UInt64.ofNat (min bits (2047 * pow2 52)))

def ofInt (n : Int) : Float :=
  if n < 0 then -(nearest n.natAbs 1) else nearest n.natAbs 1

def powerOfTen (k : Nat) : Float := nearest (pow10 k) 1

end FlowGraph.Decimal

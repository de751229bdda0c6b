/-! # Words and what a double denotes

Powers of two and ten as whole numbers, and the numbers that a 64-bit word holds, with and without
a sign. The 64 bits of a double are a sign, an exponent and a fraction. `Double.of` reads them as
infinity, as an undefined value, or as the exact number `± significand · 2 ^ exponent`; every
printer and every exact test of this library starts from that reading.
-/

namespace FlowGraph
set_option autoImplicit false

namespace Decimal

abbrev pow2 (k : Nat) : Nat := Nat.pow 2 k

abbrev pow10 (k : Nat) : Nat := Nat.pow 10 k

def inWord (n : Nat) : Bool := n < 18446744073709551616

def inSignedWord (n : Int) : Bool := -9223372036854775808 ≤ n && n < 9223372036854775808

end Decimal

/-- The exact meaning of a double. -/
inductive Double where
  | nan
  | infinity (negative : Bool)
  /-- The number `significand · 2 ^ exponent` under a sign. -/
  | finite (negative : Bool) (significand : Nat) (exponent : Int)
  deriving DecidableEq, Repr

namespace Double
open Decimal (pow2)

/-- Reads the bits of a double: the exponent field 2047 is kept for values that are no number,
the field 0 for numbers without the hidden leading bit. -/
def ofBits (bits : Nat) : Double :=
  let negative := bits / pow2 63 % 2 == 1
  let field := bits / pow2 52 % pow2 11
  let fraction := bits % pow2 52
  if field = 2047 then
    if fraction = 0 then .infinity negative else .nan
  else if field = 0 then .finite negative fraction (-1074)
  else .finite negative (pow2 52 + fraction) (Int.ofNat field - 1075)

def of (x : Float) : Double := ofBits x.toBits.toNat

def whole? : Double → Option Int
  | .finite negative m q =>
    let magnitude : Option Nat :=
      if 0 ≤ q then some (m * pow2 q.toNat)
      else if m % pow2 (-q).toNat = 0 then some (m / pow2 (-q).toNat)
      else none
    magnitude.map fun n => if negative then -Int.ofNat n else Int.ofNat n
  | _ => none

/-- The place of a double in the order that runs from the lowest infinity to the highest, tells
`-0` from `0` and ends with the undefined values. -/
def rank (x : Float) : Int :=
  let bits := x.toBits.toNat
  if bits < pow2 63 then Int.ofNat bits else -Int.ofNat (bits - pow2 63) - 1

end Double
end FlowGraph

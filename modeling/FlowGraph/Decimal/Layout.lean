import FlowGraph.Decimal.Shortest

/-! # Decimal texts of doubles

A `Layout` says how the shortest digits of a double are set out: which exponents are written
positionally, whether a whole number keeps a fraction digit, and where a tie goes. `plain` is the
layout of values shown to people and of literals in scripts.
-/

namespace FlowGraph.Decimal
set_option autoImplicit false

structure Layout where
  tie : Tie
  /-- Whether a number of this scientific exponent is written without a power of ten. -/
  positional : Int → Bool
  /-- Whether a whole number is written with one zero after the point. -/
  keepsFraction : Bool

def zeros (n : Int) : List Char := List.replicate n.toNat '0'

def Digits.positional (d : Digits) (keepsFraction : Bool) : List Char :=
  if d.point ≤ 0 then '0' :: '.' :: zeros (-d.point) ++ d.digits
  else if d.digits.length ≤ d.point.toNat then
    d.digits ++ zeros (d.point - d.digits.length) ++ (if keepsFraction then ['.', '0'] else [])
  else d.digits.take d.point.toNat ++ '.' :: d.digits.drop d.point.toNat

/-- Scientific text: one digit before the point, then the signed exponent. -/
def Digits.scientific (d : Digits) : List Char :=
  let exponent := d.point - 1
  let mantissa := d.digits.take 1 ++ (if d.digits.length ≤ 1 then [] else '.' :: d.digits.drop 1)
  mantissa ++ 'e' :: (if exponent < 0 then '-' else '+') :: Nat.toDigits 10 exponent.natAbs

def Layout.magnitude (l : Layout) (m : Nat) (q : Int) : List Char :=
  let d : Digits := if m = 0 then ⟨['0'], 1⟩ else shortest l.tie m q
  if l.positional (d.point - 1) then d.positional l.keepsFraction else d.scientific

def Layout.write (l : Layout) (x : Float) : String :=
  let signed (negative : Bool) (cs : List Char) := String.ofList (if negative then '-' :: cs else cs)
  match Double.of x with
  | .nan => "NaN"
  | .infinity negative => signed negative ['i', 'n', 'f']
  | .finite negative m q => signed negative (l.magnitude m q)

/-- Never a power of ten, no fraction on whole numbers, and a half goes up. -/
def plain : Layout := ⟨.up, fun _ => true, false⟩

end FlowGraph.Decimal

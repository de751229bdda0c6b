import FlowGraph.Decimal.Nearest

/-! # Reading decimal texts

`readFloat?` accepts a sign, then `inf`, `infinity` or `nan` in any case, or digits with at most
one point and an optional exponent; the value is the nearest double. `readInt?` accepts a sign and
decimal digits. Neither allows a blank anywhere.
-/

namespace FlowGraph.Decimal
set_option autoImplicit false

def natOfDigits (cs : List Char) : Nat := cs.foldl (fun n c => 10 * n + (c.toNat - 48)) 0

def readNat? (cs : List Char) : Option Nat :=
  if !cs.isEmpty && cs.all Char.isDigit then some (natOfDigits cs) else none

/-- Takes an optional sign off the front; `true` for a minus. -/
def takeSign : List Char → Bool × List Char
  | '-' :: cs => (true, cs)
  | '+' :: cs => (false, cs)
  | cs => (false, cs)

def readInt? (cs : List Char) : Option Int :=
  let (negative, digits) := takeSign cs
  (readNat? digits).map fun n => if negative then -Int.ofNat n else Int.ofNat n

/-- The double nearest to `n · 10 ^ e`. Exponents far outside the range of doubles are settled
before any power is formed. -/
def scaled (n : Nat) (e : Int) : Float :=
  let magnitude := Int.ofNat (Nat.toDigits 10 n).length + e
  if n = 0 ∨ magnitude < -330 then 0.0
  else if 310 < magnitude then powerOfTen 310
  else if 0 ≤ e then nearest (n * pow10 e.toNat) 1
  else nearest n (pow10 (-e).toNat)

/-- The exponent part: nothing, or `e` with a whole number after it. -/
def readExponent? : List Char → Option Int
  | [] => some 0
  | c :: cs => if c = 'e' ∨ c = 'E' then readInt? cs else none

/-- Digits, an optional point with digits after it, and an exponent. Some digit is needed. -/
def readMagnitude? (cs : List Char) : Option Float :=
  let whole := cs.takeWhile Char.isDigit
  let rest := cs.dropWhile Char.isDigit
  let (fraction, rest) :=
    match rest with
    | '.' :: r => (r.takeWhile Char.isDigit, r.dropWhile Char.isDigit)
    | r => ([], r)
  if whole.isEmpty && fraction.isEmpty then none
  else (readExponent? rest).map fun e =>
    scaled (natOfDigits (whole ++ fraction)) (e - Int.ofNat fraction.length)

def readFloat? (s : String) : Option Float :=
  let (negative, cs) := takeSign s.toList
  let magnitude :=
    match String.ofList (cs.map Char.toLower) with
    | "inf" | "infinity" => some (powerOfTen 310)
    | "nan" => some (0.0 / 0.0)
    | _ => readMagnitude? cs
  magnitude.map fun x => if negative then -x else x

end FlowGraph.Decimal

import FlowGraph.Decimal.Nearest
import FlowGraph.Decimal.Reader
import FlowGraph.Document.Basic

/-! # Numbers in documents

A number is an optional minus, a whole part without leading zeros, an optional fraction and an
optional exponent. Whole numbers of 64 bits are integers, and `-0` is a double. Every other number
is read in two rounded steps: the leading digits as a 64-bit word, then one product with or
quotient by a power of ten.
-/

namespace FlowGraph.Document
set_option autoImplicit false

structure NumberText where
  negative : Bool
  whole : List Char
  /-- The digits after the point; empty when there is no point. -/
  fraction : List Char
  exponent : Option Int

namespace NumberText

/-- The whole part: one zero, or digits that start with another one. -/
def wholePart : List Char → Bool
  | [] => false
  | '0' :: cs => cs.isEmpty
  | _ :: _ => true

def ofChars? (cs : List Char) : Option NumberText :=
  let (negative, cs) := match cs with
    | '-' :: r => (true, r)
    | r => (false, r)
  let whole := cs.takeWhile Char.isDigit
  let rest := cs.dropWhile Char.isDigit
  if !wholePart whole then none
  else
    let fraction? : Option (List Char × List Char) := match rest with
      | '.' :: r =>
        let digits := r.takeWhile Char.isDigit
        if digits.isEmpty then none else some (digits, r.dropWhile Char.isDigit)
      | r => some ([], r)
    match fraction? with
    | none => none
    | some (fraction, []) => some ⟨negative, whole, fraction, none⟩
    | some (fraction, rest) =>
      (Decimal.readExponent? rest).map fun e => ⟨negative, whole, fraction, some e⟩

end NumberText

/-- The digits that fit a 64-bit word, and how many digits after them did not. -/
def wordOfDigits (word : Nat) : List Char → Nat × Nat
  | [] => (word, 0)
  | c :: cs =>
    let next := 10 * word + (c.toNat - 48)
    if Decimal.inWord next then wordOfDigits next cs else (word, cs.length + 1)

/-- The word scaled by a power of ten, or nothing when the result is beyond every double. -/
def scaleWord (word : Nat) (exponent : Int) : Option Float :=
  let f := Decimal.nearest word 1
  if 0 ≤ exponent then
    if exponent ≤ 308 then
      let x := f * Decimal.powerOfTen exponent.toNat
      if x.isInf then none else some x
    else if word = 0 then some 0.0
    else none
  else
    let k := (-exponent).toNat
    if k ≤ 308 then some (f / Decimal.powerOfTen k)
    else if k ≤ 616 then some (f / Decimal.powerOfTen 308 / Decimal.powerOfTen (k - 308))
    else some 0.0

/-- The value of a number that is not a 64-bit integer. -/
def NumberText.approximate (t : NumberText) : Document :=
  let (word, dropped) := wordOfDigits 0 t.whole
  -- Digits of the fraction that no longer fit are left out.
  let (word, beyond) := wordOfDigits word t.fraction
  let kept := t.fraction.length - beyond
  match scaleWord word (Int.ofNat dropped - Int.ofNat kept + t.exponent.getD 0) with
  | some x => .float (if t.negative then -x else x)
  | none => .unreadable

def NumberText.value (t : NumberText) : Document :=
  let n := Decimal.natOfDigits t.whole
  if t.fraction.isEmpty && t.exponent.isNone then
    if t.negative then
      if n ≠ 0 ∧ Decimal.inSignedWord (-Int.ofNat n) then .int (-Int.ofNat n) else t.approximate
    else if Decimal.inWord n then .int n
    else t.approximate
  else t.approximate

end FlowGraph.Document

/-! # Texts

Characters and notations that several parts share:

* numerals to base 36, the digits of ids: `0` to `9` and `a` to `z`, most significant first and
  without leading zeros;
* the characters of the Unicode property `White_Space`, and texts without them at either end;
* texts between double quotes, in which the quote, the backslash and the control characters are
  escaped and every other character stands for itself. Documents and script literals share this form.
-/

namespace FlowGraph.Text
set_option autoImplicit false

/-! ## Numerals to base 36 -/

/-- The digits of `n` to a base, most significant first. One step per digit is spent, and `n + 1`
steps are always enough. -/
def radixDigits (base : Nat) : (steps : Nat) → (n : Nat) → List Nat
  | 0, _ => []
  | steps + 1, n =>
    if n < base then [n] else radixDigits base steps (n / base) ++ [n % base]

def digit36 (d : Nat) : Char := Char.ofNat (if d < 10 then 48 + d else 87 + d)

def base36 (n : Nat) : String := String.ofList ((radixDigits 36 (n + 1) n).map digit36)

/-! ## Blanks -/

/-- The ranges of code points with the property `White_Space`. -/
def blankRanges : List (Nat × Nat) :=
  [(0x9, 0xd), (0x20, 0x20), (0x85, 0x85), (0xa0, 0xa0), (0x1680, 0x1680), (0x2000, 0x200a),
    (0x2028, 0x2029), (0x202f, 0x202f), (0x205f, 0x205f), (0x3000, 0x3000)]

def isBlank (c : Char) : Bool := blankRanges.any fun r => r.1 ≤ c.toNat && c.toNat ≤ r.2

def trim (cs : List Char) : List Char :=
  ((cs.dropWhile isBlank).reverse.dropWhile isBlank).reverse

/-! ## Quoted text -/

def hexDigit (d : Nat) : Char := Nat.digitChar (d % 16)

def escape (c : Char) : List Char :=
  match c with
  | '"' => ['\\', '"']
  | '\\' => ['\\', '\\']
  | '\n' => ['\\', 'n']
  | '\r' => ['\\', 'r']
  | '\t' => ['\\', 't']
  | _ =>
    if c.toNat = 8 then ['\\', 'b']
    else if c.toNat = 12 then ['\\', 'f']
    else if c.toNat < 32 then ['\\', 'u', '0', '0', hexDigit (c.toNat / 16), hexDigit c.toNat]
    else [c]

def quotedChars (cs : List Char) : List Char := '"' :: cs.flatMap escape ++ ['"']

def quoted (s : String) : String := String.ofList (quotedChars s.toList)

end FlowGraph.Text

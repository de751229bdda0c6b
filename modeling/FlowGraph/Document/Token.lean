import FlowGraph.Document.Number

/-! # Tokens of a document text

`tokens?` cuts a text into marks, words, numbers and quoted texts. It walks over the characters
once; the `Scan` state says what the current character belongs to.
-/

namespace FlowGraph.Document
set_option autoImplicit false

inductive Token where
  | openList
  | closeList
  | openObject
  | closeObject
  | comma
  | colon
  /-- A value that is written as one word or number. -/
  | scalar (value : Document)
  /-- A quoted text; nothing when an escape in it is no character. -/
  | text (value : Option String)

/-- A character or a numbered escape between quotes. -/
inductive Piece where
  | char (c : Char)
  | unit (code : Nat)

/-- The text that pieces spell. A numbered escape in the surrogate range counts only as the first
half of a pair, together with the second half right after it. -/
def spell : List Piece → Option (List Char)
  | [] => some []
  | .char c :: rest => (spell rest).map (c :: ·)
  | .unit a :: rest =>
    if 0xd800 ≤ a ∧ a < 0xdc00 then
      match rest with
      | .unit b :: rest =>
        if 0xdc00 ≤ b ∧ b < 0xe000 then
          (spell rest).map (Char.ofNat (0x10000 + (a - 0xd800) * 0x400 + (b - 0xdc00)) :: ·)
        else none
      | _ => none
    else if 0xdc00 ≤ a ∧ a < 0xe000 then none
    else (spell rest).map (Char.ofNat a :: ·)

/-- What the characters read last belong to. Collected parts are kept latest first. -/
inductive Scan where
  | between
  | word (collected : List Char)
  | number (collected : List Char)
  | quote (collected : List Piece)
  | escape (collected : List Piece)
  /-- Inside a numbered escape, with the digits still to come and the value so far. -/
  | code (collected : List Piece) (missing : Nat) (value : Nat)

/-- Blanks between tokens: space, tab, line feed and carriage return. -/
def isGap (c : Char) : Bool := c == ' ' || c == '\t' || c == '\n' || c == '\r'

def inNumber (c : Char) : Bool := c.isDigit || c == '-' || c == '+' || c == '.' || c == 'e' || c == 'E'

def hexValue? (c : Char) : Option Nat :=
  if c.isDigit then some (c.toNat - 48)
  else if 'a' ≤ c ∧ c ≤ 'f' then some (c.toNat - 87)
  else if 'A' ≤ c ∧ c ≤ 'F' then some (c.toNat - 55)
  else none

def escaped? : Char → Option Char
  | '"' => some '"'
  | '\\' => some '\\'
  | '/' => some '/'
  | 'b' => some (Char.ofNat 8)
  | 'f' => some (Char.ofNat 12)
  | 'n' => some '\n'
  | 'r' => some '\r'
  | 't' => some '\t'
  | _ => none

def word? (cs : List Char) : Option Document :=
  match String.ofList cs with
  | "true" => some (.bool true)
  | "false" => some (.bool false)
  | "null" => some .null
  | _ => none

/-- The token that ends where its characters end, if one was being collected. -/
def Scan.finish : Scan → Option (List Token)
  | .between => some []
  | .word cs => (word? cs.reverse).map fun d => [.scalar d]
  | .number cs => (NumberText.ofChars? cs.reverse).map fun t => [.scalar t.value]
  | _ => none

def Scan.start (c : Char) : Option (List Token × Scan) :=
  match c with
  | '[' => some ([.openList], .between)
  | ']' => some ([.closeList], .between)
  | '\x7b' => some ([.openObject], .between)
  | '\x7d' => some ([.closeObject], .between)
  | ',' => some ([.comma], .between)
  | ':' => some ([.colon], .between)
  | '"' => some ([], .quote [])
  | _ =>
    if isGap c then some ([], .between)
    else if c == '-' || c.isDigit then some ([], .number [c])
    else if c.isAlpha then some ([], .word [c])
    else none

/-- Reads one character: the tokens that are complete with it, and the state after it. -/
def Scan.step (s : Scan) (c : Char) : Option (List Token × Scan) :=
  match s with
  | .between => Scan.start c
  | .word cs => if c.isAlpha then some ([], .word (c :: cs)) else continueAfter c
  | .number cs => if inNumber c then some ([], .number (c :: cs)) else continueAfter c
  | .quote ps =>
    if c == '"' then some ([.text ((spell ps.reverse).map String.ofList)], .between)
    else if c == '\\' then some ([], .escape ps)
    else if c.toNat < 32 then none
    else some ([], .quote (.char c :: ps))
  | .escape ps =>
    if c == 'u' then some ([], .code ps 4 0)
    else (escaped? c).map fun e => ([], .quote (.char e :: ps))
  | .code ps missing value =>
    (hexValue? c).map fun d =>
      let value := 16 * value + d
      if missing ≤ 1 then ([], .quote (.unit value :: ps)) else ([], .code ps (missing - 1) value)
where
  /-- Ends the token before `c` and starts anew at `c`. -/
  continueAfter (c : Char) : Option (List Token × Scan) :=
    match s.finish, Scan.start c with
    | some done, some (started, next) => some (done ++ started, next)
    | _, _ => none

def scan (s : Scan) : List Char → Option (List Token)
  | [] => s.finish
  | c :: cs =>
    match s.step c with
    | none => none
    | some (done, next) => (scan next cs).map (done ++ ·)

def tokens? (s : String) : Option (List Token) := scan .between s.toList

end FlowGraph.Document

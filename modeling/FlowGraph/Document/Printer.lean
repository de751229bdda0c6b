import FlowGraph.Decimal.Layout
import FlowGraph.Document.Basic
import FlowGraph.Text

/-! # Writing documents

`compact` writes a document without any blank; `pretty` puts every item and field on a line of its
own, two blanks deeper than the line that opens its list or object. Doubles are written by the
`number` layout; one that is not finite is written as `null`.
-/

namespace FlowGraph.Document
set_option autoImplicit false

/-- Whole numbers keep a fraction digit, powers of ten stand for exponents below -5 and above 15,
and a half goes to the even digit. -/
def number : Decimal.Layout := ⟨.toEven, fun e => -5 ≤ e && e ≤ 15, true⟩

def floatText (x : Float) : String :=
  match Double.of x with
  | .finite .. => number.write x
  | _ => "null"

def leafText : Document → String
  | .bool true => "true"
  | .bool false => "false"
  | .int n => toString n
  | .float x => floatText x
  | .text s => Text.quoted s
  | _ => "null"

/-! ## Without blanks -/

mutual

def compact : Document → String
  | .list items => "[" ++ compactItems items ++ "]"
  | .object fields => "\x7b" ++ compactFields fields ++ "\x7d"
  | d => d.leafText

def compactItems : List Document → String
  | [] => ""
  | [d] => d.compact
  | d :: rest => d.compact ++ "," ++ compactItems rest

def compactFields : List (String × Document) → String
  | [] => ""
  | [(key, d)] => Text.quoted key ++ ":" ++ d.compact
  | (key, d) :: rest => Text.quoted key ++ ":" ++ d.compact ++ "," ++ compactFields rest

end

/-! ## One line per item -/

def newLine (level : Nat) : String := "\n" ++ String.ofList (List.replicate (2 * level) ' ')

mutual

/-- The text of a document with its contents on lines of their own. -/
def prettyAt (level : Nat) : Document → String
  | .list [] => "[]"
  | .object [] => "\x7b\x7d"
  | .list items => "[" ++ prettyItems (level + 1) items ++ newLine level ++ "]"
  | .object fields => "\x7b" ++ prettyFields (level + 1) fields ++ newLine level ++ "\x7d"
  | d => d.leafText

def prettyItems (level : Nat) : List Document → String
  | [] => ""
  | [d] => newLine level ++ prettyAt level d
  | d :: rest => newLine level ++ prettyAt level d ++ "," ++ prettyItems level rest

def prettyFields (level : Nat) : List (String × Document) → String
  | [] => ""
  | [(key, d)] => newLine level ++ Text.quoted key ++ ": " ++ prettyAt level d
  | (key, d) :: rest =>
    newLine level ++ Text.quoted key ++ ": " ++ prettyAt level d ++ "," ++ prettyFields level rest

end

def pretty (d : Document) : String := prettyAt 0 d

end FlowGraph.Document

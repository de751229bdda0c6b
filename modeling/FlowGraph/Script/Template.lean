import FlowGraph.Decimal.Reader

/-! # Templates

A template is text with placeholders: a dollar sign and the longest run of letters, digits and
underscores after it. A dollar sign without such a run is text. Text that is put in place of a
placeholder is not looked at again.
-/

namespace FlowGraph.Script
set_option autoImplicit false

inductive Segment where
  | text (value : String)
  /-- A placeholder, named without its dollar sign. -/
  | placeholder (name : String)
  deriving DecidableEq, Repr

/-- A text cut at its placeholders. -/
structure Template where
  segments : List Segment
  deriving DecidableEq, Repr

namespace Template

/-! ## Parsing -/

def isNameChar (c : Char) : Bool := c.isAlphanum || c == '_'

/-- A text segment, unless it would be empty. -/
def textSegment (collected : List Char) : List Segment :=
  if collected.isEmpty then [] else [.text (String.ofList collected.reverse)]

/-- The characters read since the last placeholder, latest first, and the name that is being read
after a dollar sign, if one is. -/
structure Scan where
  text : List Char
  name : Option (List Char)

/-- Ends the name: an empty one leaves its dollar sign in the text. -/
def Scan.endName (s : Scan) : List Segment × List Char :=
  match s.name with
  | none => ([], s.text)
  | some [] => ([], '$' :: s.text)
  | some name => (textSegment s.text ++ [.placeholder (String.ofList name.reverse)], [])

/-- Reads one character: the segments that are complete with it, and the state after it. -/
def Scan.step (s : Scan) (c : Char) : List Segment × Scan :=
  match s.name with
  | some name =>
    if isNameChar c then ([], ⟨s.text, some (c :: name)⟩) else
    let (done, text) := s.endName
    (done, if c = '$' then ⟨text, some []⟩ else ⟨c :: text, none⟩)
  | none => ([], if c = '$' then ⟨s.text, some []⟩ else ⟨c :: s.text, none⟩)

def scan (s : Scan) : List Char → List Segment
  | [] =>
    let (done, text) := s.endName
    done ++ textSegment text
  | c :: cs =>
    let (done, next) := s.step c
    done ++ scan next cs

def parse (source : String) : Template := ⟨scan ⟨[], none⟩ source.toList⟩

def placeholders (t : Template) : List String :=
  t.segments.filterMap fun
    | .placeholder name => some name
    | .text _ => none

/-! ## Rendering -/

/-- The text of a segment. A placeholder that `resolve` does not know stays as it is. -/
def renderSegment (resolve : String → Option String) : Segment → String
  | .text value => value
  | .placeholder name => (resolve name).getD ("$" ++ name)

def render (t : Template) (resolve : String → Option String) : String :=
  String.join (t.segments.map (renderSegment resolve))

end Template

/-! ## Slots -/

inductive Slot where
  /-- Where the chain goes on. -/
  | further
  | branch (index : Nat)
  | named (name : String)
  deriving DecidableEq, Repr

namespace Slot

/-- The slot of a name. A branch is numbered by decimal digits that a 64-bit word can hold. -/
def ofName (name : String) : Slot :=
  if name = "further" then .further
  else
    let cs := name.toList
    if cs.take 6 = "branch".toList then
      match Decimal.readNat? (cs.drop 6) with
      | some n => if Decimal.inWord n then .branch n else .named name
      | none => .named name
    else .named name

end Slot
end FlowGraph.Script

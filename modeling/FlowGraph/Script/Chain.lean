import FlowGraph.Script.Template

/-! # Chains of steps

A flow whose nodes have been turned into templates. The text of a chain is made from the back, so
that each step is complete before it goes into the `further` slot of the step before it. A branch
step hands its texts to the step before it: that step places them in its `branch` slots, or runs
them ahead of what comes after them when it has no such slot.
-/

namespace FlowGraph.Script
set_option autoImplicit false

inductive Step where
  /-- A template with the texts of its inputs; of two with one name the later one counts. -/
  | snippet (template : Template) (inputs : List (String × String))
  | branch (branches : List (List Step))

/-- The text behind a step: what runs next, and the branches that wait for their place. -/
structure Tail where
  further : String
  waiting : List String

namespace Tail

def empty : Tail := ⟨"", []⟩

/-- The branches, then what runs next. -/
def flat (t : Tail) : String := String.join t.waiting ++ t.further

end Tail

def inputText? (inputs : List (String × String)) (name : String) : Option String :=
  (inputs.reverse.find? (·.1 == name)).map (·.2)

def Template.hasBranchSlot (t : Template) : Bool :=
  t.placeholders.any fun name =>
    match Slot.ofName name with
    | .branch _ => true
    | _ => false

/-- The segments of a template with their slots filled. What runs next goes into the first
`further` slot, and later ones stay empty. -/
def fillSegments (inputs : List (String × String)) (branches : List String) :
    (further : String) → List Segment → String
  | _, [] => ""
  | further, .text value :: rest => value ++ fillSegments inputs branches further rest
  | further, .placeholder name :: rest =>
    match Slot.ofName name with
    | .further => further ++ fillSegments inputs branches "" rest
    | .branch i => branches.getD i "" ++ fillSegments inputs branches further rest
    | .named n => (inputText? inputs n).getD ("$" ++ name) ++ fillSegments inputs branches further rest

def fill (template : Template) (inputs : List (String × String)) (tail : Tail) : String :=
  let further := if template.hasBranchSlot then tail.further else tail.flat
  fillSegments inputs tail.waiting further template.segments

namespace Step

mutual

/-- The text that a chain leaves to whatever stands before it. A branch step takes the place of
branches that were still waiting behind it. -/
def tail : List Step → Tail
  | [] => .empty
  | .snippet template inputs :: rest => ⟨fill template inputs (tail rest), []⟩
  | .branch branches :: rest => ⟨(tail rest).further, renderEach branches⟩

def renderEach : List (List Step) → List String
  | [] => []
  | chain :: rest => (tail chain).flat :: renderEach rest

end

def render (chain : List Step) : String := (tail chain).flat

end Step
end FlowGraph.Script

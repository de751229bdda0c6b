import FlowGraph.Program.Basic

/-! # Outlines

A program as an indented tree with one line per entry. A line hangs on a corner when it is the last
of its level and on a fork otherwise; a vertical bar continues every level that has more lines.
-/

namespace FlowGraph
set_option autoImplicit false

namespace Outline

/-- What a line hangs on. -/
def mark (last : Bool) : String := if last then "└── " else "├── "

/-- What stands before the lines below a line. -/
def indent (last : Bool) : String := if last then "    " else "│   "

/-- Where an input gets its value from, if from anywhere. -/
def inputText? (index : Nat) (input : InputRecord) : Option String :=
  match input.source, input.value with
  | some source, _ =>
    some ("$" ++ toString index ++ "<-" ++ source ++ ":" ++ toString (input.port.getD 0))
  | none, some value => some ("$" ++ toString index ++ "=" ++ value.shown)
  | none, none => none

/-- The line of a record: its uid, its snippet key, and its inputs. -/
def label (r : NodeRecord) : String :=
  let inputs := r.inputs.zipIdx.filterMap fun (input, index) => inputText? index input
  r.uid ++ " [" ++ r.snippetKey ++ "]" ++
    if inputs.isEmpty then "" else " (" ++ ", ".intercalate inputs ++ ")"

mutual

/-- The lines of an entry. The first hangs behind `lead`, the others stand behind `below`. -/
def entryLines (lead below : String) : Entry NodeRecord → List String
  | .node r => [lead ++ label r]
  | .split n => [lead ++ "Split (" ++ toString n ++ ")"]
  | .branch bs => (lead ++ "Branch (" ++ toString bs.length ++ ")") :: branchLines below 0 bs

def flowLines (lead : String) : Flow NodeRecord → List String
  | [] => []
  | e :: rest =>
    entryLines (lead ++ mark rest.isEmpty) (lead ++ indent rest.isEmpty) e ++ flowLines lead rest

def branchLines (lead : String) (number : Nat) : List (Flow NodeRecord) → List String
  | [] => []
  | flow :: rest =>
    let below := lead ++ indent rest.isEmpty
    (lead ++ mark rest.isEmpty ++ "#" ++ toString number) ::
      (if flow.isEmpty then [below ++ mark true ++ "<empty>"] else flowLines below flow) ++
      branchLines lead (number + 1) rest

end

def additionalLines : List NodeRecord → List String
  | [] => []
  | r :: rest => (mark rest.isEmpty ++ label r) :: additionalLines rest

end Outline

def Program.outline (p : Program) : String :=
  let flows := p.flows.zipIdx.flatMap fun (flow, number) =>
    ("Flow " ++ toString number) ::
      if flow.isEmpty then [Outline.mark true ++ "<empty>"] else Outline.flowLines "" flow
  let additional :=
    if p.additional.isEmpty then [] else "Additional" :: Outline.additionalLines p.additional
  String.join ((flows ++ additional).map (· ++ "\n"))

end FlowGraph

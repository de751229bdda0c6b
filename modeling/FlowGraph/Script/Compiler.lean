import FlowGraph.Program.Document
import FlowGraph.Script.Chain
import FlowGraph.Script.Formatter
import FlowGraph.Script.Snippet

/-! # Compiling a program to a script

Each flow becomes a chain of steps. The inputs of a node are expressions: a formatted constant, or
the output expression of the node that feeds it with its own inputs put in place, and so on back
along the data edges. The functions of pure nodes are collected on the way, once each and in order
of first use, and stand ahead of the flows.
-/

namespace FlowGraph.Script
set_option autoImplicit false

inductive CompileError where
  | unknownIdentifier (node identifier : String)
  | missingSource (node : String) (input : Nat) (source : String)
  | missingOutput (node : String) (port : Nat)
  | dataCycle (node : String)
  | recursionLimit (node : String) (limit : Nat)
  | invalidInput (node : String) (input : Nat) (reason : String)
  | invalidProgram
  deriving DecidableEq, Repr

def CompileError.message : CompileError → String
  | .unknownIdentifier node identifier =>
    "Node '" ++ node ++ "' has identifier '" ++ identifier ++
      "', which has no entry in the snippet table"
  | .missingSource node input source =>
    "Node '" ++ node ++ "' reads input " ++ toString input ++ " from node '" ++ source ++
      "', which is not part of the specification"
  | .missingOutput node port =>
    "Node '" ++ node ++ "' has no output expression for port " ++ toString port
  | .dataCycle node => "Data dependency cycle detected at node '" ++ node ++ "'"
  | .recursionLimit node limit =>
    "Data dependencies of node '" ++ node ++ "' nest deeper than the limit of " ++ toString limit
  | .invalidInput node input reason =>
    "Input " ++ toString input ++ " of node '" ++ node ++ "' is invalid: " ++ reason
  | .invalidProgram => "Invalid program specification"

/-- The functions collected so far: their keys and sources, in order of first use. -/
abbrev Functions := List (String × String)

/-- A computation that collects functions and may fail. -/
abbrev Collect (α : Type) := StateT Functions (Except CompileError) α

namespace Collect
variable {α β : Type} {x : Collect α} {f : α → Collect β} {fs : Functions} {e : CompileError}

@[simp] theorem run_pure (a : α) (fs : Functions) : (pure a : Collect α).run fs = .ok (a, fs) := rfl

@[simp] theorem run_throw (e : CompileError) (fs : Functions) :
    (throw e : Collect α).run fs = .error e := rfl

theorem run_bind_eq_ok {r : β × Functions} :
    (x >>= f).run fs = .ok r ↔ ∃ a gs, x.run fs = .ok (a, gs) ∧ (f a).run gs = .ok r := by
  have h : (x >>= f).run fs = (x.run fs >>= fun p => (f p.1).run p.2) := rfl
  rw [h]
  cases x.run fs with
  | error d => simp [bind, Except.bind]
  | ok p => exact ⟨fun hr => ⟨p.1, p.2, rfl, hr⟩, by rintro ⟨a, gs, ⟨⟩, hr⟩; exact hr⟩

theorem run_bind_eq_error :
    (x >>= f).run fs = .error e ↔
      x.run fs = .error e ∨ ∃ a gs, x.run fs = .ok (a, gs) ∧ (f a).run gs = .error e := by
  have h : (x >>= f).run fs = (x.run fs >>= fun p => (f p.1).run p.2) := rfl
  rw [h]
  cases x.run fs with
  | error d => simp [bind, Except.bind]
  | ok p =>
    constructor
    · intro hr
      exact .inr ⟨p.1, p.2, rfl, hr⟩
    · rintro (hr | ⟨a, gs, ⟨⟩, hr⟩)
      · cases hr
      · exact hr

end Collect

structure Compiler where
  snippets : SnippetTable
  formatter : Formatter
  /-- How many sources may feed each other in a row. -/
  maxDepth : Nat

structure Compiled where
  /-- The functions, then the flows. -/
  script : String
  functions : List String
  deriving DecidableEq, Repr

namespace Compiler

/-- Compiles to JavaScript for the browser. -/
def standard : Compiler := ⟨.browser, WordTable.javascript.formatter, 64⟩

/-! ## Inputs -/

/-- The expression for plug `port` of the node `source`, asked for by an input. -/
abbrev Fetch := (input : Nat) → (source : String) → (port : Nat) → Collect String

def inputExpression (c : Compiler) (fetch : Fetch) (record : NodeRecord) (index : Nat) :
    Collect String :=
  match record.inputs[index]? with
  | none => return c.formatter.missing
  | some input =>
    match input.source, input.port, input.value with
    | some source, some port, _ => fetch index source port
    | some source, none, _ =>
      throw (.invalidInput record.uid index ("connected to '" ++ source ++ "' without a source port"))
    | none, _, some value =>
      match c.formatter.format value input.type with
      | .ok text => return text
      | .error reason => throw (.invalidInput record.uid index reason)
    | none, _, none => return c.formatter.missing

/-- The expressions for the inputs of a record from place `index` on, under the names that its
snippet gives them. -/
def inputExpressions (c : Compiler) (fetch : Fetch) (record : NodeRecord) :
    (index : Nat) → List String → Collect (List (String × String))
  | _, [] => return []
  | index, name :: names => do
    let text ← c.inputExpression fetch record index
    let rest ← c.inputExpressions fetch record (index + 1) names
    return (name, text) :: rest

/-- Collects the functions of a pure snippet, unless its key is there already. -/
def hoist (key : String) (snippet : Snippet) (record : NodeRecord) : Collect Unit :=
  modify fun functions =>
    if snippet.pure && !functions.any (·.1 == key) then
      functions ++ [(key, snippet.script.source ⟨some record, 0⟩)]
    else functions

/-- The expression for plug `port` of node `uid`. The nodes on the way from the flow to here are in
`visiting`, and `room` more may follow. -/
def sourceExpression (c : Compiler) (program : Program) :
    (room : Nat) → (visiting : List String) → (consumer : NodeRecord) → Fetch
  | room, visiting, consumer, input, uid, port =>
    match program.find? uid with
    | none => throw (.missingSource consumer.uid input uid)
    | some record =>
      if visiting.contains uid then throw (.dataCycle uid)
      else match room with
        | 0 => throw (.recursionLimit uid c.maxDepth)
        | room + 1 =>
          match c.snippets.lookup? record with
          | none => throw (.unknownIdentifier record.uid record.identifier)
          | some (key, snippet) =>
            match snippet.outputs[port]? with
            | none => throw (.missingOutput record.uid port)
            | some output => do
              hoist key snippet record
              let inputs ← c.inputExpressions
                (sourceExpression c program room (uid :: visiting) record) record 0 snippet.inputs
              return (Template.parse output).render (inputText? inputs)

/-! ## Flows -/

def nodeStep (c : Compiler) (program : Program) (record : NodeRecord) : Collect Step :=
  match c.snippets.lookup? record with
  | none => throw (.unknownIdentifier record.uid record.identifier)
  | some (_, snippet) => do
    let inputs ← c.inputExpressions (c.sourceExpression program c.maxDepth [] record) record 0
      snippet.inputs
    return .snippet (Template.parse (snippet.script.source ⟨some record, snippet.branchCount⟩)) inputs

/-- The step that announces `count` branches after the node `last`. -/
def splitStep (c : Compiler) (last : Option String) (count : Nat) : Collect Step :=
  match c.snippets.get? Program.splitIdentifier with
  | none => throw (.unknownIdentifier (last.getD "") Program.splitIdentifier)
  | some snippet => return .snippet (Template.parse (snippet.script.source ⟨none, count⟩)) []

mutual

/-- The step of an entry that stands after the node `last`. -/
def entryStep (c : Compiler) (program : Program) (last : Option String) :
    Entry NodeRecord → Collect Step
  | .node record => c.nodeStep program record
  | .split count => c.splitStep last count
  | .branch branches => return .branch (← flowsSteps c program last branches)

def flowSteps (c : Compiler) (program : Program) (last : Option String) :
    Flow NodeRecord → Collect (List Step)
  | [] => return []
  | entry :: rest => do
    let step ← entryStep c program last entry
    let last := match entry with
      | .node record => some record.uid
      | _ => last
    let steps ← flowSteps c program last rest
    return step :: steps

def flowsSteps (c : Compiler) (program : Program) (last : Option String) :
    List (Flow NodeRecord) → Collect (List (List Step))
  | [] => return []
  | flow :: rest => do
    let steps ← flowSteps c program last flow
    let others ← flowsSteps c program last rest
    return steps :: others

end

def compile (c : Compiler) (program : Program) : Except CompileError Compiled := do
  let (chains, functions) ← (flowsSteps c program none program.flows).run []
  let definitions := String.join (functions.map fun f => f.2 ++ "\n")
  return ⟨definitions ++ "\n".intercalate (chains.map Step.render), functions.map (·.1)⟩

def compileText (c : Compiler) (text : String) : Except CompileError Compiled :=
  match Program.read? text with
  | some program => c.compile program
  | none => throw .invalidProgram

end Compiler
end FlowGraph.Script

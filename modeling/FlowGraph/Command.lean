import FlowGraph.FileError
import FlowGraph.Program.Outline
import FlowGraph.Program.Restore
import FlowGraph.Script.Compiler

/-! # Commands

The command line compiles a saved program, prints its outline, or restores it to see what is lost.
A command is a function of the text of its file; what is left to the outer layer is to read that
file, to print, and to save a script where the command asks for it.
-/

namespace FlowGraph
set_option autoImplicit false

/-- The language whose words constants are written in. -/
inductive Target where
  | javascript
  | python
  deriving DecidableEq, Repr

namespace Target

def ofName? : String → Option Target
  | "javascript" => some .javascript
  | "python" => some .python
  | _ => none

def words : Target → Script.WordTable
  | .javascript => .javascript
  | .python => .python

end Target

inductive Command where
  | compile (file : String) (output : Option String) (target : Target) (maxDepth : Option Nat)
  | tree (file : String)
  | check (file : String)
  deriving DecidableEq, Repr

/-- How a command ends: its code, and what it prints. -/
structure Ending where
  code : UInt32
  out : String
  err : String

namespace Ending

def fail (reason : String) : Ending := ⟨1, "", "\nError: " ++ reason ++ "\n"⟩

def saved (path done : String) : Except FileError Unit → Ending
  | .ok () => ⟨0, done, ""⟩
  | .error e => fail ("Could not write to file '" ++ path ++ "': " ++ e.message)

end Ending

inductive Action where
  | finish (ending : Ending)
  /-- Save a script; when that succeeds, print what tells so. -/
  | save (path script done : String)

namespace Command

def file : Command → String
  | .compile file .. => file
  | .tree file => file
  | .check file => file

/-! ## Arguments -/

structure Arguments where
  file : Option String
  output : Option String
  target : Option Target
  maxDepth : Option Nat

namespace Arguments

def empty : Arguments := ⟨none, none, none, none⟩

/-- Takes the file, once. -/
def withFile (a : Arguments) (file : String) : Option Arguments :=
  if a.file.isNone then some { a with file := some file } else none

def withOption (a : Arguments) (name value : String) : Option Arguments :=
  match name with
  | "output" => if a.output.isNone then some { a with output := some value } else none
  | "target" =>
    if a.target.isNone then (Target.ofName? value).map fun t => { a with target := some t } else none
  | "max-depth" =>
    let digits := match value.toList with
      | '+' :: cs => cs
      | cs => cs
    match Decimal.readNat? digits with
    | some n =>
      if a.maxDepth.isNone && Decimal.inWord n then some { a with maxDepth := some n } else none
    | none => none
  | _ => none

def optionName? : String → Option String
  | "-o" | "--output" => some "output"
  | "-t" | "--target" => some "target"
  | "--max-depth" => some "max-depth"
  | _ => none

/-- An option that holds its value: a long one after an equals sign, a short one right away. -/
def joinedOption? (arg : String) : Option (String × String) :=
  match arg.toList with
  | '-' :: '-' :: cs =>
    match cs.dropWhile (· != '=') with
    | '=' :: value => some (String.ofList (cs.takeWhile (· != '=')), String.ofList value)
    | _ => none
  | '-' :: letter :: '=' :: value => (short? letter).map (·, String.ofList value)
  | '-' :: letter :: value => (short? letter).map (·, String.ofList value)
  | _ => none
where
  short? : Char → Option String
    | 'o' => some "output"
    | 't' => some "target"
    | _ => none

def isOption (arg : String) : Bool :=
  match arg.toList with
  | '-' :: _ :: _ => true
  | _ => false

/-- Reads arguments; only `compile` has options. -/
def read (a : Arguments) (options : Bool) : List String → Option Arguments
  | [] => some a
  | "--" :: rest => rest.foldlM withFile a
  | arg :: rest =>
    if isOption arg then
      if options then
        match optionName? arg, rest with
        | some name, value :: rest =>
          if isOption value then none else (a.withOption name value).bind (read · options rest)
        | some _, [] => none
        | none, rest =>
          match joinedOption? arg with
          | some (name, value) => (a.withOption name value).bind (read · options rest)
          | none => none
      else none
    else (a.withFile arg).bind (read · options rest)

end Arguments

def ofArguments? : List String → Option Command
  | "compile" :: rest => do
    let a ← Arguments.empty.read true rest
    return .compile (← a.file) a.output (a.target.getD .javascript) a.maxDepth
  | "tree" :: rest => do return .tree (← (← Arguments.empty.read false rest).file)
  | "check" :: rest => do return .check (← (← Arguments.empty.read false rest).file)
  | _ => none

def usage : String :=
  "Usage: compile [-o PATH] [-t javascript|python] [--max-depth N] FILE\n       tree FILE\n       check FILE\n"

/-! ## Running -/

def compileProgram (output : Option String) (target : Target) (maxDepth : Option Nat)
    (program : Program) : Action :=
  let standard := Script.Compiler.standard
  let compiler := { standard with
    formatter := target.words.formatter
    maxDepth := maxDepth.getD standard.maxDepth }
  match compiler.compile program with
  | .error e => .finish (.fail ("Compilation failed: " ++ e.message))
  | .ok compiled =>
    match output with
    | none => .finish ⟨0, compiled.script ++ "\n", ""⟩
    | some path =>
      .save path compiled.script
        ("Compiled " ++ toString program.flows.length ++ " flows (" ++
          toString compiled.functions.length ++ " hoisted functions) into '" ++ path ++ "'")

def checkProgram (program : Program) : Action :=
  let (report, s) := (Session.new .standard).restore .standard program
  let out :=
    "Nodes restored:   " ++ toString report.nodes.size ++ "\n" ++
    "Connectors:       " ++ toString s.connectors.size ++ "\n" ++
    "Skipped nodes:    " ++ toString report.skippedNodes.length ++ "\n" ++
    String.join (report.skippedNodes.map fun uid => "  -> " ++ uid ++ "\n") ++
    "Skipped edges:    " ++ toString report.skippedEdges ++ "\n"
  let complete := report.skippedNodes.isEmpty && report.skippedEdges == 0
  .finish ⟨if complete then 0 else 2, out, ""⟩

/-- What a command does with its file: `text` is the content, or why it could not be read. -/
def run (c : Command) (text : Except FileError String) : Action :=
  match text with
  | .error e =>
    .finish (.fail ("Failed to read specification file '" ++ c.file ++ "': " ++ e.message))
  | .ok text =>
    match Program.read? text with
    | none => .finish (.fail "Failed to parse specification: Failed to parse JSON: the file holds no program")
    | some program =>
      match c with
      | .compile _ output target maxDepth => compileProgram output target maxDepth program
      | .tree _ => .finish ⟨0, program.outline, ""⟩
      | .check _ => checkProgram program

end Command
end FlowGraph

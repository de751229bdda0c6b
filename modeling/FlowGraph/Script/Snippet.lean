import FlowGraph.Program.Basic
import FlowGraph.OrderedMap

/-! # Snippets

How the nodes of a program are written in a script. A node that runs has its code in `script`, with
a placeholder for what comes next and one for each branch. A node that yields values has an
expression per output; when it is pure, its `script` defines functions that are written once, ahead
of everything else.
-/

namespace FlowGraph.Script
set_option autoImplicit false

structure Context where
  /-- The node being written; none for the announcement of a branch. -/
  record : Option NodeRecord
  branchCount : Nat

inductive Code where
  | text (value : String)
  /-- Code that is made anew for each use. -/
  | computed (make : Context → String)

def Code.source : Code → Context → String
  | .text value, _ => value
  | .computed make, context => make context

/-- How the nodes of one identifier are written. -/
structure Snippet where
  script : Code
  /-- The placeholder of each data socket. -/
  inputs : List String
  /-- The expression of each data plug. -/
  outputs : List String
  branching : Bool
  branchCount : Nat
  /-- Whether the script only defines functions, so that one copy serves every use. -/
  pure : Bool

namespace Snippet

def ofCode (script : Code) : Snippet := ⟨script, [], [], false, 0, false⟩

def ofText (script : String) : Snippet := ofCode (.text script)

def withInputs (s : Snippet) (names : List String) : Snippet := { s with inputs := names }

def withOutputs (s : Snippet) (expressions : List String) : Snippet :=
  { s with outputs := expressions }

def withBranches (s : Snippet) (count : Nat) : Snippet :=
  { s with branching := true, branchCount := count }

def asPure (s : Snippet) : Snippet := { s with pure := true }

/-- The placeholders of the first `count` branches, in order. -/
def branchSlots (count : Nat) : String :=
  String.join ((List.range count).map fun i => "$branch" ++ toString i)

/-- Runs every branch in order. -/
def branchSplit : Snippet := ofCode (.computed fun context => branchSlots context.branchCount)

end Snippet

/-- Snippets by key: an identifier, or an identifier with a variant. -/
structure SnippetTable where
  entries : OrderedMap String Snippet

namespace SnippetTable

def empty : SnippetTable := ⟨.empty⟩

def register (t : SnippetTable) (key : String) (snippet : Snippet) : SnippetTable :=
  ⟨t.entries.insert key snippet⟩

def get? (t : SnippetTable) (key : String) : Option Snippet := t.entries.get? key

def contains (t : SnippetTable) (key : String) : Bool := t.entries.contains key

def size (t : SnippetTable) : Nat := t.entries.size

/-- The key and the snippet for a record: those of its variant, or else of its identifier. -/
def lookup? (t : SnippetTable) (record : NodeRecord) : Option (String × Snippet) :=
  match t.get? record.snippetKey with
  | some snippet => some (record.snippetKey, snippet)
  | none => (t.get? record.identifier).map (record.identifier, ·)

/-! ## Scripts for the browser -/

def addition : Snippet := ((Snippet.ofText "").withInputs ["a", "b"]).withOutputs ["($a + $b)"]

def multiplication : Snippet :=
  ((Snippet.ofText "").withInputs ["a", "b"]).withOutputs ["($a * $b)"]

def browserSnippet : NodeKind → Snippet
  | .startEvent => .ofText "(function() \x7b$further\x7d)()"
  | .condition =>
    ((Snippet.ofText "if ($in) \x7b$branch0\x7d else \x7b$branch1\x7d").withInputs
      ["in"]).withBranches 2
  | .consoleLog => (Snippet.ofText "console.log($in);$further").withInputs ["in"]
  | .isMobile =>
    ((Snippet.ofText
      "function OVSBIsMobile() \x7b\n  return typeof screen.orientation !== 'undefined';\n\x7d").withOutputs
      ["OVSBIsMobile()"]).asPure
  | .screenSize =>
    ((Snippet.ofText
      "function OVSBScreenWidth() \x7breturn window.screen.width;\x7d\nfunction OVSBScreenHeight() \x7breturn window.screen.height;\x7d").withOutputs
      ["OVSBScreenWidth()", "OVSBScreenHeight()"]).asPure
  | .addition | .generalAddition | .math => addition
  | .multiplication => multiplication
  | .variableWrite =>
    (Snippet.ofText "(globalThis.OVSVariables ??= \x7b\x7d)[$name] = $value;$further").withInputs
      ["name", "value"]
  | .variableRead =>
    ((Snippet.ofText "").withInputs ["name"]).withOutputs
      ["(globalThis.OVSVariables ?? \x7b\x7d)[$name]"]

def variantKey (variant : Variant) : String := NodeKind.math.identifier ++ ":" ++ variant.key

/-- Browser scripts for every built-in kind. -/
def browser : SnippetTable :=
  let kinds := NodeKind.all.foldl (fun t kind => t.register kind.identifier (browserSnippet kind)) empty
  ((kinds.register (variantKey .add) addition).register (variantKey .multiply)
    multiplication).register Program.splitIdentifier .branchSplit

end SnippetTable
end FlowGraph.Script

import FlowGraph.Decimal.Nearest
import FlowGraph.Document.Basic

/-! # Reading typed values from documents

A record is written as an object, or as the list of its fields in their declared order. In an
object, names that are not declared are passed over and a declared name may stand only once. A
list may leave out fields at its end and holds nothing beyond them. Whether a field that is left
out has a default is decided field by field, with `need` and `orElse`.
-/

namespace FlowGraph.Document
set_option autoImplicit false

/-! ## Single values -/

def bool? : Document → Option Bool
  | .bool b => some b
  | _ => none

def text? : Document → Option String
  | .text s => some s
  | _ => none

def nat? : Document → Option Nat
  | .int (.ofNat n) => some n
  | _ => none

/-- A double; whole numbers are rounded to one. -/
def float? : Document → Option Float
  | .float x => some x
  | .int n => some (Decimal.ofInt n)
  | _ => none

def list? {α : Type} (item? : Document → Option α) : Document → Option (List α)
  | .list items => items.mapM item?
  | _ => none

/-- Reads `null` as the absence of a value. -/
def optional? {α : Type} (value? : Document → Option α) : Document → Option (Option α)
  | .null => some none
  | d => (value? d).map some

/-- One of the names of a closed set. A name may also be the only key of an object that holds
nothing: `null`, or in a `held` document also an object without fields. -/
def name? {α : Type} (ofName? : String → Option α) (held : Bool) : Document → Option α
  | .text s => ofName? s
  | .object [(s, .null)] => ofName? s
  | .object [(s, .object [])] => if held then ofName? s else none
  | _ => none

/-! ## Records -/

/-- The declared fields that a record holds, each at most once. -/
abbrev Fields := List (String × Document)

def fields? (names : List String) : Document → Option Fields
  | .object fields =>
    let known := fields.filter fun f => names.contains f.1
    if (known.map (·.1)).Nodup then some known else none
  | .list items => if items.length ≤ names.length then some (names.zip items) else none
  | _ => none

def Fields.need {α : Type} (fs : Fields) (name : String) (value? : Document → Option α) : Option α :=
  (fs.lookup name).bind value?

/-- A field that stands for `default` when it is left out. -/
def Fields.orElse {α : Type} (fs : Fields) (name : String) (default : α)
    (value? : Document → Option α) : Option α :=
  match fs.lookup name with
  | some d => value? d
  | none => some default

end FlowGraph.Document

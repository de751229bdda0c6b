import FlowGraph.Decimal.Layout
import FlowGraph.Document.Fields

/-! # Constants

The value typed into a data socket that no edge feeds. In documents the form of a value tells its
kind: a whole number of 64 bits with a sign is an `int`, any other number a `float`.
-/

namespace FlowGraph
set_option autoImplicit false

inductive Literal where
  | bool (value : Bool)
  | int (value : Int64)
  | float (value : Float)
  | text (value : String)
  | list (items : List Literal)

namespace Literal

def bool? : Literal → Option Bool
  | .bool b => some b
  | _ => none

def text? : Literal → Option String
  | .text s => some s
  | _ => none

/-! ## Shown to people -/

mutual

/-- The constant as shown in an outline: texts stand without quotes. -/
def shown : Literal → String
  | .bool true => "true"
  | .bool false => "false"
  | .int n => toString n.toInt
  | .float x => Decimal.plain.write x
  | .text s => s
  | .list items => "[" ++ shownItems items ++ "]"

def shownItems : List Literal → String
  | [] => ""
  | [l] => l.shown
  | l :: rest => l.shown ++ ", " ++ shownItems rest

end

/-! ## In documents -/

mutual

def toDocument : Literal → Document
  | .bool b => .bool b
  | .int n => .int n.toInt
  | .float x => .float x
  | .text s => .text s
  | .list items => .list (toDocuments items)

def toDocuments : List Literal → List Document
  | [] => []
  | l :: rest => l.toDocument :: toDocuments rest

end

/-- A whole number as a constant: an `int` if 64 bits with a sign hold it. -/
def ofInt (n : Int) : Literal :=
  if Decimal.inSignedWord n then .int (.ofInt n) else .float (Decimal.ofInt n)

mutual

def ofDocument? : Document → Option Literal
  | .bool b => some (.bool b)
  | .int n => some (ofInt n)
  | .float x => some (.float x)
  | .text s => some (.text s)
  | .list items => (ofDocuments? items).map .list
  | _ => none

def ofDocuments? : List Document → Option (List Literal)
  | [] => some []
  | d :: rest =>
    match ofDocument? d, ofDocuments? rest with
    | some l, some ls => some (l :: ls)
    | _, _ => none

end

end Literal
end FlowGraph

import FlowGraph.Decimal.Reader
import FlowGraph.Port.Literal
import FlowGraph.Port.Type
import FlowGraph.Text

/-! # Constants in scripts

A `Formatter` turns the constant of a socket into an expression of the script's language, or says
why the constant does not suit the type of the socket. A `WordTable` is a formatter given by the
words and marks of the language.
-/

namespace FlowGraph.Script
set_option autoImplicit false

structure Formatter where
  /-- The expression for a constant on a socket of the given type, or why there is none. -/
  format : Literal → PortType → Except String String
  /-- The expression for an input without a constant. -/
  missing : String

/-- The words and marks of constants in a language. -/
structure WordTable where
  trueWord : String
  falseWord : String
  missingWord : String
  listOpen : String
  listClose : String
  separator : String
  nanWord : String
  infinityWord : String
  quote : String → String

namespace WordTable

def javascript : WordTable where
  trueWord := "true"
  falseWord := "false"
  missingWord := "undefined"
  listOpen := "["
  listClose := "]"
  separator := ", "
  nanWord := "NaN"
  infinityWord := "Infinity"
  quote := Text.quoted

def python : WordTable :=
  { javascript with
    trueWord := "True"
    falseWord := "False"
    missingWord := "None"
    nanWord := "float('nan')"
    infinityWord := "float('inf')" }

def bool (t : WordTable) (b : Bool) : String := if b then t.trueWord else t.falseWord

def float (t : WordTable) (x : Float) : String :=
  match Double.of x with
  | .nan => t.nanWord
  | .infinity negative => (if negative then "-" else "") ++ t.infinityWord
  | .finite .. => Decimal.plain.write x

mutual

/-- A constant by its own kind, whatever the socket. -/
def natural (t : WordTable) : Literal → String
  | .bool b => t.bool b
  | .int n => toString n.toInt
  | .float x => t.float x
  | .text s => t.quote s
  | .list items => t.listOpen ++ naturalItems t items ++ t.listClose

def naturalItems (t : WordTable) : List Literal → String
  | [] => ""
  | [l] => t.natural l
  | l :: rest => t.natural l ++ t.separator ++ naturalItems t rest

end

/-! ## By the type of the socket -/

def onBool (t : WordTable) : Literal → Option (Except String String)
  | .bool b => some (.ok (t.bool b))
  | .text s =>
    match String.ofList (Text.trim s.toList) with
    | "true" => some (.ok (t.bool true))
    | "false" => some (.ok (t.bool false))
    | _ => some (.error ("'" ++ s ++ "' is not a boolean"))
  | _ => none

/-- A constant on an `int` socket, if it suits one: a whole number, or a text that spells one. -/
def onInt : Literal → Option (Except String String)
  | .int n => some (.ok (toString n.toInt))
  | .float x =>
    (Double.of x).whole?.map fun n =>
      if Decimal.inSignedWord n then .ok (toString n)
      else .error (Decimal.plain.write x ++ " is out of integer range")
  | .text s =>
    match (Decimal.readInt? (Text.trim s.toList)).filter Decimal.inSignedWord with
    | some n => some (.ok (toString n))
    | none => some (.error ("'" ++ s ++ "' is not an integer"))
  | _ => none

def onNumber (t : WordTable) : Literal → Option (Except String String)
  | .int n => some (.ok (toString n.toInt))
  | .float x => some (.ok (t.float x))
  | .text s =>
    match Decimal.readFloat? (String.ofList (Text.trim s.toList)) with
    | some x => some (.ok (t.float x))
    | none => some (.error ("'" ++ s ++ "' is not a number"))
  | _ => none

def misfit (l : Literal) (type : PortType) : String :=
  l.shown ++ " does not fit a '" ++ type.name ++ "' socket"

def format (t : WordTable) (l : Literal) (type : PortType) : Except String String :=
  let answer : Option (Except String String) := match type with
    | .str =>
      match l with
      | .text s => some (.ok (t.quote s))
      | other => some (.ok (t.quote other.shown))
    | .bool => t.onBool l
    | .int => onInt l
    | .float | .num => t.onNumber l
    | .arr =>
      match l with
      | .list _ => some (.ok (t.natural l))
      | _ => none
    | .any => some (.ok (t.natural l))
    | .connect => some (.error "flow sockets hold no values")
  answer.getD (.error (misfit l type))

def formatter (t : WordTable) : Formatter := ⟨t.format, t.missingWord⟩

end WordTable
end FlowGraph.Script

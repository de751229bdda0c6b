import FlowGraph.Document.Token

/-! # Reading documents

`read?` accepts exactly one value with nothing after it. The reader is a stack machine over the
tokens: a `Level` of the stack is a list or an object whose closing mark is still to come, and the
`Want` state says which tokens may come next. Text nested deeper than `maxNesting` levels is
checked for its form and then counts as unreadable.
-/

namespace FlowGraph.Document
set_option autoImplicit false

/-- How many lists and objects may be open at once in a value that is to be read. -/
def maxNesting : Nat := 127

/-- A list or an object that is being read, its contents latest first. A key is missing when an
escape in it is no character. -/
inductive Level where
  | items (done : List Document)
  | fields (done : List (Option String × Document))
  /-- An object after one of its keys. -/
  | field (done : List (Option String × Document)) (key : Option String)

inductive Want where
  | value
  | firstItem
  | firstKey
  | key
  | colon
  /-- A comma or the end of the level, or of the text. -/
  | separator

structure Reading where
  want : Want
  levels : List Level
  /-- The whole value, once it is complete. -/
  result : Option Document

/-- An object of its fields in order; one with a key that is no text cannot be read. -/
def ofFields (fields : List (Option String × Document)) : Document :=
  match fields.mapM fun f => f.1.map fun key => (key, f.2) with
  | some fs => .object fs
  | none => .unreadable

def place (d : Document) : List Level → Option Reading
  | [] => some ⟨.separator, [], some d⟩
  | .items done :: levels => some ⟨.separator, .items (d :: done) :: levels, none⟩
  | .field done key :: levels => some ⟨.separator, .fields ((key, d) :: done) :: levels, none⟩
  | .fields _ :: _ => none

/-- Ends a list or an object that stands inside `levels`. -/
def close (d : Document) (levels : List Level) : Option Reading :=
  place (if levels.length < maxNesting then d else .unreadable) levels

def Reading.startValue (levels : List Level) : Token → Option Reading
  | .scalar d => place d levels
  | .text (some s) => place (.text s) levels
  | .text none => place .unreadable levels
  | .openList => some ⟨.firstItem, .items [] :: levels, none⟩
  | .openObject => some ⟨.firstKey, .fields [] :: levels, none⟩
  | _ => none

def Reading.step (r : Reading) (t : Token) : Option Reading :=
  match r.want, t, r.levels with
  | .value, t, levels => Reading.startValue levels t
  | .firstItem, .closeList, .items done :: levels => close (.list done.reverse) levels
  | .firstItem, t, levels => Reading.startValue levels t
  | .firstKey, .closeObject, .fields done :: levels => close (ofFields done.reverse) levels
  | .firstKey, .text key, .fields done :: levels => some ⟨.colon, .field done key :: levels, none⟩
  | .key, .text key, .fields done :: levels => some ⟨.colon, .field done key :: levels, none⟩
  | .colon, .colon, levels => some ⟨.value, levels, none⟩
  | .separator, .comma, .items done :: levels => some ⟨.value, .items done :: levels, none⟩
  | .separator, .comma, .fields done :: levels => some ⟨.key, .fields done :: levels, none⟩
  | .separator, .closeList, .items done :: levels => close (.list done.reverse) levels
  | .separator, .closeObject, .fields done :: levels => close (ofFields done.reverse) levels
  | _, _, _ => none

def Reading.run (r : Reading) : List Token → Option Reading
  | [] => some r
  | t :: ts => (r.step t).bind (·.run ts)

def ofTokens? (ts : List Token) : Option Document :=
  (Reading.run ⟨.value, [], none⟩ ts).bind (·.result)

def read? (s : String) : Option Document := (tokens? s).bind ofTokens?

end FlowGraph.Document

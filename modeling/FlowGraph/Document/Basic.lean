/-! # Documents

The values that a saved text can hold. Fields of an object keep their order and may repeat: what a
repetition means is for the reader of the object to say.
-/

namespace FlowGraph
set_option autoImplicit false

inductive Document where
  | null
  | bool (value : Bool)
  | int (value : Int)
  | float (value : Float)
  | text (value : String)
  | list (items : List Document)
  | object (fields : List (String × Document))
  /-- A place where the text is well formed but holds no value: a number beyond every double, an
  escape that is no character, or a level of nesting that is not read. No reader accepts it; a
  field that nobody reads may hold it. -/
  | unreadable

namespace Document

mutual

/-- Whether a document holds a value everywhere. -/
def readable : Document → Bool
  | .unreadable => false
  | .list items => readableItems items
  | .object fields => readableFields fields
  | _ => true

def readableItems : List Document → Bool
  | [] => true
  | d :: rest => d.readable && readableItems rest

def readableFields : List (String × Document) → Bool
  | [] => true
  | (_, d) :: rest => d.readable && readableFields rest

end

end Document
end FlowGraph

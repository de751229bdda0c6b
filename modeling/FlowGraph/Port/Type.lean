/-! # Port types

What a port carries. `connect` is the type of flow ports and never mixes with data. `accepts` is
the rule for data edges: it reads from the socket to the plug and is not symmetric.
-/

namespace FlowGraph
set_option autoImplicit false

inductive PortType where
  | bool
  | int
  | float
  | num
  | str
  | arr
  | any
  | connect
  deriving DecidableEq, Repr, Inhabited

namespace PortType

def all : List PortType := [.bool, .int, .float, .num, .str, .arr, .any, .connect]

def name : PortType → String
  | .bool => "bool"
  | .int => "int"
  | .float => "float"
  | .num => "num"
  | .str => "str"
  | .arr => "arr"
  | .any => "any"
  | .connect => "connect"

def ofName? (s : String) : Option PortType := all.find? (·.name == s)

def label : PortType → String
  | .bool => "BOOL"
  | .int => "INT"
  | .float => "FLOAT"
  | .num => "NUM"
  | .str => "STR"
  | .arr => "ARR"
  | .any => "ANY"
  | .connect => ""

def isFlow (t : PortType) : Bool := t == .connect

/-- Plug types that a socket of this type accepts besides its own. -/
def coercions : PortType → List PortType
  | .num => [.int, .float]
  | _ => []

def isEditable : PortType → Bool
  | .bool | .int | .float | .num | .str => true
  | _ => false

/-- Whether a socket of type `socket` accepts a plug of type `plug`. -/
def accepts (socket plug : PortType) : Bool :=
  (socket == .any && plug != .connect) || socket == plug || socket.coercions.contains plug

/-- The order in which one type absorbs another when inputs are combined. -/
def rank : PortType → Int
  | .bool => -2
  | .int => -1
  | .float => 0
  | .num => 1
  | .str => 2
  | .arr => 3
  | .any => 4
  | .connect => 5

def highest? : List PortType → Option PortType
  | [] => none
  | t :: ts =>
    match highest? ts with
    | none => some t
    | some u => some (if u.rank < t.rank then t else u)

end PortType
end FlowGraph

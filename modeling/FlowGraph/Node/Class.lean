/-! # Classes and variants

The class of a node says where a palette lists it. A variant is the operation chosen on a node
that offers several.
-/

namespace FlowGraph
set_option autoImplicit false

inductive NodeClass where
  | basic
  | event
  | deviceInfo
  | console
  deriving DecidableEq, Repr, Inhabited

namespace NodeClass

def all : List NodeClass := [basic, event, deviceInfo, console]

def name : NodeClass → String
  | .basic => "basic"
  | .event => "event"
  | .deviceInfo => "deviceinfo"
  | .console => "console"

def ofName? (s : String) : Option NodeClass := all.find? (·.name == s)

def title : NodeClass → String
  | .basic => "Basic"
  | .event => "Event"
  | .deviceInfo => "Device Info"
  | .console => "Console"

end NodeClass

/-- An operation of a node that offers several. -/
inductive Variant where
  | add
  | multiply
  deriving DecidableEq, Repr, Inhabited

namespace Variant

def all : List Variant := [add, multiply]

def key : Variant → String
  | .add => "add-concat"
  | .multiply => "multiply"

def ofKey? (s : String) : Option Variant := all.find? (·.key == s)

def title : Variant → String
  | .add => "Add (Math)"
  | .multiply => "Multiply (Math)"

end Variant
end FlowGraph

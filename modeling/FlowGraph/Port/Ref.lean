import FlowGraph.Id

/-! # Addresses of ports

A port belongs to one of the two collections of its node, flow or data, and is counted from zero
there. Sockets are inputs and plugs are outputs; their addresses are kept apart by type.
-/

namespace FlowGraph
set_option autoImplicit false

/-- A collection of ports: control order, or values. -/
inductive PortKind where
  | flow
  | data
  deriving DecidableEq, Repr, Inhabited

namespace PortKind

def name : PortKind → String
  | .flow => "flow"
  | .data => "data"

def ofName? (s : String) : Option PortKind := [flow, data].find? (·.name == s)

end PortKind

@[ext] structure SocketRef where
  node : NodeId
  kind : PortKind
  index : Nat
  deriving DecidableEq, Repr

@[ext] structure PlugRef where
  node : NodeId
  kind : PortKind
  index : Nat
  deriving DecidableEq, Repr

end FlowGraph

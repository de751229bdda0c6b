import FlowGraph.Text

/-! # Identities

Nodes and connectors are numbered separately within a session. A fresh number is always larger
than every number handed out before, so no number is handed out twice. This holds without end only
because the numbers have no bound; see `IdSource`.
-/

namespace FlowGraph
set_option autoImplicit false

/-- A node, by its number. That a word of 64 bits holds only `2 ^ 64` numbers is not modelled. -/
structure NodeId where
  number : Nat
  deriving DecidableEq, Repr, Inhabited

/-- A connector, by its number. As for nodes, the bound of a 64-bit word is not modelled. -/
structure ConnectorId where
  number : Nat
  deriving DecidableEq, Repr, Inhabited

def NodeId.text (id : NodeId) : String := "n" ++ Text.base36 id.number

def ConnectorId.text (id : ConnectorId) : String := "c" ++ Text.base36 id.number

/-- The numbers that come next. They are natural numbers, so there is always one more: that counters of
64 bits are used up after `2 ^ 64` nodes or connectors is not modelled. -/
structure IdSource where
  nextNode : Nat
  nextConnector : Nat
  deriving DecidableEq, Repr

namespace IdSource

def fresh : IdSource := ⟨0, 0⟩

/-- A node identity, and the source without it. -/
def node (s : IdSource) : NodeId × IdSource := (⟨s.nextNode⟩, { s with nextNode := s.nextNode + 1 })

def connector (s : IdSource) : ConnectorId × IdSource :=
  (⟨s.nextConnector⟩, { s with nextConnector := s.nextConnector + 1 })

end IdSource
end FlowGraph

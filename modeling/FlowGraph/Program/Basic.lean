import FlowGraph.Node.Kind
import FlowGraph.SortedMap

/-! # Programs

A program is what is saved of a graph: no live node, only records that name each other by uid. A
flow lists the nodes that run one after the other; where control divides, a branch entry holds one
sub-flow per way to go on.
-/

namespace FlowGraph
set_option autoImplicit false

/-! ## Flows -/

/-- One step of a flow whose nodes are given as `α`. -/
inductive Entry (α : Type) where
  | node (value : α)
  /-- Announces the given number of parallel continuations. -/
  | split (count : Nat)
  /-- One sub-flow per continuation. -/
  | branch (branches : List (List (Entry α)))

/-- A flow: entries in the order in which they run. -/
abbrev Flow (α : Type) := List (Entry α)

namespace Entry
variable {α β : Type}

mutual

def nodes : Entry α → List α
  | .node a => [a]
  | .split _ => []
  | .branch bs => branchNodes bs

def flowNodes : Flow α → List α
  | [] => []
  | e :: rest => e.nodes ++ flowNodes rest

def branchNodes : List (Flow α) → List α
  | [] => []
  | flow :: rest => flowNodes flow ++ branchNodes rest

end

mutual

def map (f : α → β) : Entry α → Entry β
  | .node a => .node (f a)
  | .split n => .split n
  | .branch bs => .branch (mapFlows f bs)

def mapFlow (f : α → β) : Flow α → Flow β
  | [] => []
  | e :: rest => e.map f :: mapFlow f rest

def mapFlows (f : α → β) : List (Flow α) → List (Flow β)
  | [] => []
  | flow :: rest => mapFlow f flow :: mapFlows f rest

end

end Entry

/-! ## Records -/

/-- An outgoing edge: which connector, to which node, into which socket. -/
structure PortLink where
  connector : String
  target : String
  socket : Nat

/-- Where a data socket gets its value from. -/
structure InputRecord where
  source : Option String
  port : Option Nat
  type : PortType
  constant : Bool
  value : Option Literal

structure NodeRecord where
  uid : String
  /-- The stable name by which palettes and snippets know the node. -/
  identifier : String
  /-- The type name of the kind, for information. -/
  node : String
  x : Scalar
  y : Scalar
  scale : Scalar
  variant : Option Variant
  flowPlugs : List (List PortLink)
  dataPlugs : List (List PortLink)
  inputs : List InputRecord

/-- The key under which a snippet is looked up first: the identifier, with the chosen variant. -/
def NodeRecord.snippetKey (r : NodeRecord) : String :=
  match r.variant with
  | some variant => r.identifier ++ ":" ++ variant.key
  | none => r.identifier

structure Program where
  /-- One flow per start node. -/
  flows : List (Flow NodeRecord)
  /-- The nodes outside the flows that feed them. -/
  additional : List NodeRecord
  variableTypes : SortedMap PortType

namespace Program

/-- Every record: the flows depth first, then the additional ones. -/
def records (p : Program) : List NodeRecord := Entry.branchNodes p.flows ++ p.additional

def find? (p : Program) (uid : String) : Option NodeRecord := p.records.find? (·.uid == uid)

/-- The identifier of the entry that announces a branch after any node but a condition. -/
def splitIdentifier : String := "Connector-Branch-Split"

end Program
end FlowGraph

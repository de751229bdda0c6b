import FlowGraph.Proofs.Node.Ends
import FlowGraph.Session.Edit
import Mathlib.Data.List.Basic
import Mathlib.Logic.Relation

/-! # What may happen to a node

A node that stays gets a new constant on one of its data sockets, or it changes in one of the ways that are
listed here. Whatever happens, it has the shape of its kind.
-/

namespace FlowGraph
set_option autoImplicit false

namespace Node

/-- The node with a new constant on a data socket. -/
def hold (n : Node) (index : Nat) (value : Option Literal) (types : Variables) : Node :=
  let f := n.frame.modifySocket .data index fun t => { t with value := value }
  { n with frame := n.kind.valueChanged f index value types }

/-- One change of a node that stays and keeps its constants. -/
inductive Change : Node → Node → Prop
  /-- Moving, scaling and being followed leave the ports and the preview alone. -/
  | carry (n : Node) {f : Frame} (hidentifier : f.identifier = n.frame.identifier)
    (hvariant : f.variant = n.frame.variant) (hbranch : f.forceBranch = n.frame.forceBranch)
    (hsockets : f.sockets = n.frame.sockets) (hplugs : f.plugs = n.frame.plugs)
    (hsimulated : f.simulated = n.frame.simulated) : Change n { n with frame := f }
  | restyle (n : Node) (style : ConnectorStyle) : Change n (Session.restyle style n)
  | resize (n : Node) (port : PortKind) (index : Nat) {G : Socket → Socket}
    (hG : ∀ t, ∃ x, G t = { t with radius := x }) :
    Change n { n with frame := n.frame.modifySocket port index G }
  /-- A data socket takes one connector only. -/
  | receive (n : Node) (c : ConnectorId) {port : PortKind} {index : Nat} {t : Socket}
    (ht : n.frame.socket? port index = some t) (hfree : port = .data → t.incoming = []) (type : PortType) :
    Change n (n.receive c port index type)
  | release (n : Node) (c : ConnectorId) {port : PortKind} {index : Nat} {t : Socket}
    (ht : n.frame.socket? port index = some t) (halone : port = .data → t.incoming = [c]) :
    Change n (n.release c port index)
  | send (n : Node) (c : ConnectorId) (port : PortKind) (index : Nat) : Change n (n.send c port index)
  | withdraw (n : Node) (c : ConnectorId) (port : PortKind) (index : Nat) : Change n (n.withdraw c port index)
  | loosen (n : Node) (c : ConnectorId) (port : PortKind) (index : Nat) :
    Change n { n with frame := n.frame.modifyPlug port index (·.detach c) }
  | relay (n : Node) (h : n.frame.variant.isSome) (variant : Variant) (style : ConnectorStyle)
    (name : String) : Change n { n with frame :=
      { n.frame.layVariantPorts variant style with variant := some variant, name := name } }

/-- Any number of changes. -/
abbrev Changes : Node → Node → Prop := Relation.ReflTransGen Change

theorem Change.kind_eq {n m : Node} (h : n.Change m) : m.kind = n.kind := by
  cases h <;> rfl

theorem Changes.kind_eq {n m : Node} (h : n.Changes m) : m.kind = n.kind := by
  induction h with
  | refl => rfl
  | tail _ hstep ih => exact hstep.kind_eq.trans ih

namespace Shaped
variable {n m : Node}

theorem hold (h : n.Shaped) (index : Nat) (value : Option Literal) (types : Variables) :
    (n.hold index value types).Shaped := by
  refine NodeKind.shaped_valueChanged ?_ index value types
  exact Frame.Shaped.modifySocket h .data index _ fun _ => ⟨rfl, rfl, fun hnone => hnone⟩

/-- The node has the shape of its kind whatever happens to it. -/
theorem change (h : n.Shaped) (hc : n.Change m) : m.Shaped := by
  cases hc with
  | carry hidentifier hvariant hbranch hsockets hplugs _ =>
    exact Frame.Shaped.of_ports h hidentifier hvariant hbranch hsockets hplugs
  | restyle style =>
    refine Frame.Shaped.mapPlugs h (fun p => { p with style := style }) (fun _ => rfl) rfl rfl rfl rfl ?_
    intro port
    cases port <;> exact Or.inl rfl
  | resize port index hG =>
    refine Frame.Shaped.modifySocket h port index _ fun t => ?_
    obtain ⟨x, hx⟩ := hG t
    rw [hx]
    exact ⟨rfl, rfl, fun hnone => hnone⟩
  | receive c _ _ type => exact h.receive c _ _ type
  | release c _ _ => exact h.release c _ _
  | send c port index => exact h.send c port index
  | withdraw c port index => exact h.withdraw c port index
  | loosen c port index => exact Frame.Shaped.modifyPlug_type h port index _ fun _ => rfl
  | relay hv variant style name => exact h.relay hv variant style name

end Shaped
end Node

/-! ## What the shape of a kind says -/

namespace Frame.Fitted
variable {kind : NodeKind} {f : Frame} {port : PortKind} {index : Nat} {t : Socket}

theorem bareType_eq (h : f.Fitted kind) (ht : f.socket? port index = some t) :
    (kind.socketTypes port)[index]? = some (kind.bareType port t) := by
  rw [← h.sockets port, List.getElem?_map]
  exact congrArg (Option.map _) ht

theorem type_flow (h : f.Fitted kind) (ht : f.socket? .flow index = some t) : t.type = .connect := by
  have hall : ∀ type ∈ kind.socketTypes .flow, type = .connect := by
    cases kind <;> decide
  have hbare : kind.bareType .flow t = t.type := by
    rw [NodeKind.bareType, NodeKind.adapts_flow, if_neg Bool.false_ne_true]
  exact hbare ▸ hall _ (List.mem_of_getElem? (h.bareType_eq ht))

/-- Only the socket of a condition takes truth values whatever is connected to it. -/
theorem condition_of_truth (h : f.Fitted kind) (ht : f.socket? port index = some t)
    (htruth : kind.bareType port t = .bool) : kind = .condition ∧ port = .data ∧ index = 0 := by
  have htypes := h.bareType_eq ht
  rw [htruth] at htypes
  have hkind : PortType.bool ∈ kind.socketTypes port → kind = .condition ∧ port = .data := by
    cases kind <;> cases port <;> decide
  obtain ⟨rfl, rfl⟩ := hkind (List.mem_of_getElem? htypes)
  have hlength : index < 1 := (List.getElem?_eq_some_iff.1 htypes).1
  exact ⟨rfl, rfl, Nat.lt_one_iff.1 hlength⟩

end Frame.Fitted

namespace Node.Shaped
variable {n : Node} {index : Nat} {t : Socket}

/-- The data socket of a condition is its only one. -/
theorem at_condition (hs : n.Shaped) (hk : n.kind = .condition) (ht : n.frame.socket? .data index = some t) :
    index = 0 ∧ t.type = .bool := by
  have htypes := hs.bareType_eq ht
  rw [hk] at htypes
  have hlength : index < 1 := (List.getElem?_eq_some_iff.1 htypes).1
  obtain rfl := Nat.lt_one_iff.1 hlength
  exact ⟨rfl, (Option.some.inj htypes).symm⟩

theorem truth_socket (hs : n.Shaped) (hk : n.kind = .condition) : ∃ t, n.frame.sockets .data = [t] := by
  have hlength := congrArg List.length (hs.sockets .data)
  rw [hk, List.length_map] at hlength
  exact List.length_eq_one_iff.1 hlength

theorem branches (hs : n.Shaped) (hk : n.kind = .condition) : ∃ p q, n.frame.plugs .flow = [p, q] := by
  have hlength := hs.length_plugs .flow
  rw [hk] at hlength
  exact List.length_eq_two.1 hlength

end Node.Shaped

end FlowGraph

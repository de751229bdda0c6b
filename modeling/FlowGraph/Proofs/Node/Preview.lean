import FlowGraph.Proofs.Node.Change

/-! # The preview of a condition

A condition remembers the truth value that was last stored on its socket. While nothing feeds the socket, the
branch is dimmed that this value would not take. No change but a new constant makes the condition remember
another value, and whatever draws the branches anew draws them for the value that is remembered, or at full
strength while the socket is fed.
-/

namespace FlowGraph
set_option autoImplicit false

/-- How strongly the two branches of a condition are drawn that previews a truth value, or none. -/
def branchOpacities : Option Bool → List Float
  | none => [1.0, 1.0]
  | some true => [1.0, Measure.dimmedOpacity]
  | some false => [Measure.dimmedOpacity, 1.0]

/-- How strongly the flow plugs are drawn. -/
def Frame.opacities (f : Frame) : List Float := (f.plugs .flow).map (·.opacity)

theorem opacities_shaded {f : Frame} {p q : Plug} (state : Bool) (h : f.plugs .flow = Plug.shaded state [p, q]) :
    f.opacities = branchOpacities (some state) := by
  rw [Frame.opacities, h]
  cases state <;> rfl

theorem bind_bool?_eq_some {value : Option Literal} {b : Bool} :
    value.bind Literal.bool? = some b ↔ value = some (.bool b) := by
  refine ⟨fun h => ?_, fun h => by rw [h]; rfl⟩
  obtain ⟨l, rfl, hl⟩ := Option.bind_eq_some_iff.1 h
  cases l with
  | bool state => exact congrArg (fun state => some (Literal.bool state)) (Option.some.inj hl)
  | int n => cases hl
  | float x => cases hl
  | text s => cases hl
  | list items => cases hl

namespace Node

/-! ## What is held -/

/-- Something is connected to the first data socket. -/
def fed (n : Node) : Bool := (n.frame.socket? .data 0).any (·.isConnected)

/-- The truth value on the first data socket. -/
def truth? (n : Node) : Option Bool := (n.frame.socket? .data 0).bind fun t => t.value.bind Literal.bool?

/-- What the branches of a condition are to be drawn for. -/
def previewed (n : Node) (state : Option Bool) : Option Bool := if n.fed then none else state

section Held
variable {n m : Node} {port : PortKind} {index : Nat} {t : Socket} {F : Socket → Socket}

theorem fed_eq (ht : n.frame.socket? .data 0 = some t) : n.fed = t.isConnected := by
  rw [fed, ht]
  rfl

theorem truth?_eq (ht : n.frame.socket? .data 0 = some t) : n.truth? = t.value.bind Literal.bool? := by
  rw [truth?, ht]
  rfl

theorem fed_congr (h : m.frame.sockets .data = n.frame.sockets .data) : m.fed = n.fed := by
  rw [fed, fed, Frame.socket?, Frame.socket?, h]

theorem truth?_congr (h : m.frame.sockets .data = n.frame.sockets .data) : m.truth? = n.truth? := by
  rw [truth?, truth?, Frame.socket?, Frame.socket?, h]

theorem fed_of_modified (h : ∀ k, m.frame.sockets k =
      if k = port then (n.frame.sockets k).modify index F else n.frame.sockets k)
    (hF : ∀ t, (F t).incoming = t.incoming) : m.fed = n.fed := by
  have hsame (t : Socket) : (F t).isConnected = t.isConnected := congrArg (fun l : List _ => !l.isEmpty) (hF t)
  rw [fed, fed, Frame.socket?_of_modified h]
  split
  · rename_i hat
    rw [hat.1, hat.2, Option.any_map]
    exact congrArg (Option.any · _) (funext hsame)
  · rfl

theorem truth?_of_modified (h : ∀ k, m.frame.sockets k =
      if k = port then (n.frame.sockets k).modify index F else n.frame.sockets k)
    (hF : ∀ t, (F t).value = t.value) : m.truth? = n.truth? := by
  rw [truth?, truth?, Frame.socket?_of_modified h]
  split
  · rename_i hat
    rw [hat.1, hat.2, Option.bind_map]
    exact congrArg (Option.bind _) (funext fun t => congrArg (Option.bind · _) (hF t))
  · rfl

end Held

/-! ## Changes that keep the constant -/

/-- What remembers nothing previews nothing. -/
def Plain (n : Node) : Prop := n.frame.simulated = none → n.frame.opacities = branchOpacities none

/-- The condition remembers and holds what it did, and its branches are drawn as they were, or as they are
to be. -/
structure Retains (n m : Node) : Prop where
  kind : m.kind = n.kind
  simulated : m.frame.simulated = n.frame.simulated
  truth : m.truth? = n.truth?
  shown : m.fed = n.fed ∧ m.frame.opacities = n.frame.opacities ∨
    m.frame.opacities = branchOpacities (m.previewed m.frame.simulated)

namespace Retains
variable {n m k : Node} {port : PortKind} {index : Nat} {t : Socket}

theorem trans (h : n.Retains m) (h' : m.Retains k) : n.Retains k where
  kind := h'.kind.trans h.kind
  simulated := h'.simulated.trans h.simulated
  truth := h'.truth.trans h.truth
  shown := by
    obtain ⟨hfed, hopacities⟩ | hshown := h'.shown
    · obtain ⟨hfed', hopacities'⟩ | hshown := h.shown
      · exact Or.inl ⟨hfed.trans hfed', hopacities.trans hopacities'⟩
      · refine Or.inr (hopacities.trans (hshown.trans ?_))
        rw [previewed, previewed, hfed, h'.simulated]
    · exact Or.inr hshown

theorem refl (n : Node) : n.Retains n := ⟨rfl, rfl, rfl, Or.inl ⟨rfl, rfl⟩⟩

theorem plain (h : n.Retains m) (hplain : n.Plain) : m.Plain := by
  intro hnone
  obtain ⟨-, hopacities⟩ | hshown := h.shown
  · exact hopacities.trans (hplain (h.simulated ▸ hnone))
  · rw [hshown, hnone, previewed, ite_self]

theorem of_ports (hkind : m.kind = n.kind) (hsockets : m.frame.sockets .data = n.frame.sockets .data)
    (hsimulated : m.frame.simulated = n.frame.simulated) (hopacities : m.frame.opacities = n.frame.opacities) :
    n.Retains m :=
  ⟨hkind, hsimulated, truth?_congr hsockets, Or.inl ⟨fed_congr hsockets, hopacities⟩⟩

/-- What is fastened to a plug, and what is taken off, leaves it drawn as it is. -/
theorem of_plugs (hkind : m.kind = n.kind) (hsockets : m.frame.sockets .data = n.frame.sockets .data)
    (hsimulated : m.frame.simulated = n.frame.simulated) {G : Plug → Plug}
    (hplugs : m.frame.plugs .flow =
      if PortKind.flow = port then (n.frame.plugs .flow).modify index G else n.frame.plugs .flow)
    (hG : ∀ p, (G p).opacity = p.opacity) : n.Retains m := by
  refine of_ports hkind hsockets hsimulated ?_
  rw [Frame.opacities, hplugs]
  split
  · exact map_modify _ _ _ _ hG
  · rfl

variable (hs : n.Shaped) (hk : n.kind = .condition) (c : ConnectorId) (ht : n.frame.socket? port index = some t)

include hs hk ht

/-- What arrives at the socket ends the preview. -/
theorem receive (type : PortType) : n.Retains (n.receive c port index type) := by
  have hsockets := sockets_receive c ht type
  have hflow := flowPlugs_receive c ht type
  have hsim := simulated_receive c ht type
  cases port with
  | flow =>
    have hplain : t.type ≠ .bool := by
      rw [hs.type_flow ht]
      decide
    rw [if_neg hplain] at hflow
    exact of_ports rfl (hsockets .data) hsim (congrArg (List.map _) hflow)
  | data =>
    obtain ⟨rfl, htruth⟩ := hs.at_condition hk ht
    obtain ⟨p, q, hplugs⟩ := hs.branches hk
    have hfed : (n.receive c .data 0 type).fed = true := by
      have hgained : (n.receive c .data 0 type).frame.socket? .data 0 =
          some (t.gain (n.kind.adapts .data) c type) := by
        rw [Frame.socket?_of_modified hsockets, if_pos ⟨rfl, rfl⟩, ht, Option.map_some]
      rw [fed_eq hgained, Socket.isConnected, Socket.incoming_gain]
      simp
    refine ⟨rfl, hsim, truth?_of_modified hsockets fun u => Socket.value_gain _ c type u, Or.inr ?_⟩
    rw [previewed, hfed, if_pos rfl, Frame.opacities, hflow, if_pos htruth, hplugs]
    rfl

/-- When the socket is free again, the preview returns. -/
theorem release (hplain : n.Plain) (halone : port = .data → t.incoming = [c]) :
    n.Retains (n.release c port index) := by
  have hsockets := sockets_release c ht
  have hflow := flowPlugs_release c ht
  have hsim := simulated_release c ht
  rw [NodeKind.type_adapted_any] at hflow
  cases port with
  | flow =>
    have hother : n.kind.bareType .flow t ≠ .bool := by
      rw [NodeKind.bareType, NodeKind.adapts_flow, if_neg Bool.false_ne_true, hs.type_flow ht]
      decide
    rw [if_neg hother] at hflow
    exact of_ports rfl (hsockets .data) hsim (congrArg (List.map _) hflow)
  | data =>
    obtain ⟨rfl, htruth⟩ := hs.at_condition hk ht
    obtain ⟨p, q, hplugs⟩ := hs.branches hk
    have hfree : (n.release c .data 0).fed = false := by
      have hlost : (n.release c .data 0).frame.socket? .data 0 = some (t.lose (n.kind.adapts .data) c) := by
        rw [Frame.socket?_of_modified hsockets, if_pos ⟨rfl, rfl⟩, ht, Option.map_some]
      rw [fed_eq hlost, Socket.isConnected, Socket.incoming_lose, halone rfl]
      simp
    have hbare : n.kind.bareType .data t = .bool := by
      rw [hk]
      exact htruth
    rw [if_pos hbare, hplugs] at hflow
    refine ⟨rfl, hsim, truth?_of_modified hsockets fun u => Socket.value_lose _ c u, Or.inr ?_⟩
    rw [previewed, hfree, if_neg Bool.false_ne_true, hsim]
    cases hstate : n.frame.simulated with
    | some state =>
      rw [hstate] at hflow
      exact opacities_shaded state hflow
    | none =>
      -- Nothing is drawn anew, so this needs what was drawn before.
      rw [hstate] at hflow
      have hold := hplain hstate
      rw [Frame.opacities, hplugs] at hold
      rw [Frame.opacities, hflow]
      exact hold

end Retains

theorem Change.retains {n m : Node} (hs : n.Shaped) (hk : n.kind = .condition) (hplain : n.Plain)
    (hc : n.Change m) : n.Retains m := by
  cases hc with
  | carry _ _ _ hsockets hplugs hsimulated =>
    exact .of_ports rfl (congrFun hsockets .data) hsimulated (congrArg (List.map _) (congrFun hplugs .flow))
  | restyle style =>
    refine .of_ports rfl rfl rfl ?_
    show (n.frame.flowPlugs.map _).map _ = n.frame.flowPlugs.map _
    rw [List.map_map]
    rfl
  | @resize port index G hG =>
    have hsockets (k : PortKind) := n.frame.sockets_modifySocket port k index G
    refine ⟨rfl, n.frame.simulated_modifySocket _ _ _, truth?_of_modified hsockets fun t => ?_,
      Or.inl ⟨fed_of_modified hsockets fun t => ?_, congrArg (List.map _) (n.frame.plugs_modifySocket _ _ _ _)⟩⟩
    · obtain ⟨x, hx⟩ := hG t
      rw [hx]
    · obtain ⟨x, hx⟩ := hG t
      rw [hx]
  | receive c ht _ type => exact .receive hs hk c ht type
  | release c ht halone => exact .release hs hk c ht hplain halone
  | send c port index =>
    exact .of_plugs rfl (n.sockets_send port index c .data) (n.simulated_send port index c)
      (n.plugs_send port index c .flow) fun _ => rfl
  | withdraw c port index =>
    exact .of_plugs rfl (n.sockets_withdraw port index c .data) (n.simulated_withdraw port index c)
      (n.plugs_withdraw port index c .flow) fun _ => rfl
  | loosen c port index =>
    exact .of_plugs rfl (n.frame.sockets_modifyPlug port .data index _) (n.frame.simulated_modifyPlug port index _)
      (n.frame.plugs_modifyPlug port .flow index _) fun _ => rfl
  | relay hv variant style name =>
    have hmath : n.kind = .math := eq_of_beq (hs.variant.symm.trans hv)
    cases hk.symm.trans hmath

theorem Changes.retains {n m : Node} (hs : n.Shaped) (hk : n.kind = .condition) (hplain : n.Plain)
    (hc : n.Changes m) : n.Retains m := by
  have hboth : m.Shaped ∧ n.Retains m := by
    induction hc with
    | refl => exact ⟨hs, .refl n⟩
    | tail _ hstep ih =>
      obtain ⟨hs', hr⟩ := ih
      exact ⟨hs'.change hstep, hr.trans (hstep.retains hs' (hr.kind.trans hk) (hr.plain hplain))⟩
  exact hboth.2

/-! ## New constants -/

section Hold
variable {n : Node} (hs : n.Shaped) (hk : n.kind = .condition) (value : Option Literal) (types : Variables)

theorem sockets_hold (n : Node) (index : Nat) (k : PortKind) : (n.hold index value types).frame.sockets k =
    if k = .data then (n.frame.sockets k).modify index fun t => { t with value := value }
    else n.frame.sockets k := by
  rw [hold]
  dsimp only
  rw [NodeKind.sockets_valueChanged, Frame.sockets_modifySocket]

theorem fed_hold (n : Node) (index : Nat) : (n.hold index value types).fed = n.fed :=
  fed_of_modified (sockets_hold value types n index) fun _ => rfl

include hk

theorem simulated_hold (index : Nat) : (n.hold index value types).frame.simulated =
    (value.bind Literal.bool?).or n.frame.simulated := by
  rw [hold]
  dsimp only
  rw [NodeKind.simulated_valueChanged, if_pos hk, Frame.simulated_modifySocket]

include hs

theorem truth?_hold : (n.hold 0 value types).truth? = value.bind Literal.bool? := by
  obtain ⟨t, ht⟩ := hs.truth_socket hk
  have hin : n.frame.socket? .data 0 = some t := by
    rw [Frame.socket?, ht]
    rfl
  have hheld : (n.hold 0 value types).frame.socket? .data 0 = some { t with value := value } := by
    rw [Frame.socket?_of_modified (sockets_hold value types n 0), if_pos ⟨rfl, rfl⟩, hin, Option.map_some]
  exact truth?_eq hheld

/-- A truth value is previewed, whether the socket is fed or not; anything else leaves the branches as they
are drawn. -/
theorem opacities_hold (index : Nat) : (n.hold index value types).frame.opacities =
    (value.bind Literal.bool?).elim n.frame.opacities fun b => branchOpacities (some b) := by
  obtain ⟨p, q, hplugs⟩ := hs.branches hk
  have hflow : (n.hold index value types).frame.plugs .flow =
      Plug.previewed (value.bind Literal.bool?) (n.frame.plugs .flow) := by
    rw [hold]
    dsimp only
    rw [NodeKind.flowPlugs_valueChanged, if_pos hk, Frame.plugs_modifySocket]
  cases hstate : value.bind Literal.bool? with
  | some state =>
    rw [hstate, hplugs] at hflow
    exact opacities_shaded state hflow
  | none =>
    rw [hstate] at hflow
    exact congrArg (List.map _) hflow

end Hold

/-! ## Conditions that have shown nothing else -/

/-- The condition remembers the truth value that it holds, and its branches are drawn for it. -/
structure Truthful (n : Node) : Prop where
  remembers : n.frame.simulated = n.truth?
  shows : n.frame.opacities = branchOpacities (n.previewed n.truth?)

namespace Truthful
variable {n m : Node}

theorem plain (h : n.Truthful) : n.Plain := by
  intro hnone
  rw [h.shows, ← h.remembers, hnone, previewed, ite_self]

theorem retained (h : n.Truthful) (hr : n.Retains m) : m.Truthful := by
  have hremembers : m.frame.simulated = m.truth? := hr.simulated.trans (h.remembers.trans hr.truth.symm)
  refine ⟨hremembers, ?_⟩
  obtain ⟨hfed, hopacities⟩ | hshown := hr.shown
  · rw [hopacities, h.shows, previewed, previewed, hfed, hr.truth]
  · rw [hshown, hremembers]

theorem fresh (position : Point) (scale : Scalar) (style : ConnectorStyle) :
    Node.Truthful ⟨.condition, NodeKind.condition.freshFrame position scale style⟩ := ⟨rfl, rfl⟩

/-- The first constant of a condition that nothing feeds. -/
theorem hold (h : n.Truthful) (hs : n.Shaped) (hk : n.kind = .condition) (hblank : n.frame.simulated = none)
    (hfree : n.fed = false) (value : Option Literal) (types : Variables) : (n.hold 0 value types).Truthful := by
  have htruth := truth?_hold hs hk value types
  refine ⟨?_, ?_⟩
  · rw [simulated_hold hk, htruth, hblank, Option.or_none]
  · rw [opacities_hold hs hk, previewed, fed_hold, hfree, if_neg Bool.false_ne_true, htruth]
    cases value.bind Literal.bool? with
    | some state => rfl
    | none => exact h.plain hblank

end Truthful
end Node
end FlowGraph

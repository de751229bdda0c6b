import FlowGraph.Proofs.Node.Preview

/-! # Settled nodes

The editor of a socket shows exactly while nothing arrives there, its radius at rest goes with its type, and
the branches of a condition are drawn for the value that it remembers while nothing feeds its socket. All
that happens to a node leaves it so.
-/

namespace FlowGraph
set_option autoImplicit false

/-- The socket looks as its connections and its type say. -/
structure Socket.Settled (typed : Bool) (t : Socket) : Prop where
  editable : t.editable = typed
  editor : t.editorShown = (typed && !t.isConnected)
  rest : t.restRadius = Socket.restRadiusOf t.type

structure Node.Settled (n : Node) : Prop where
  sockets : ∀ port index t, n.frame.socket? port index = some t →
    t.Settled (n.kind.bareType port t).isEditable
  /-- A condition shows the branch of the value that it remembers while nothing feeds it. -/
  preview : n.kind = .condition → n.fed = false ∨ n.frame.simulated = none →
    n.frame.opacities = branchOpacities n.frame.simulated
  value : n.kind = .condition → ∀ b, n.truth? = some b → n.frame.simulated = some b

/-! ## Sockets -/

namespace Socket.Settled
variable {typed adapts : Bool} {t : Socket} {c : ConnectorId} {type : PortType}

theorem new (type : PortType) (label : String) : (Socket.new type label).Settled type.isEditable :=
  ⟨rfl, (Bool.and_true _).symm, rfl⟩

theorem gain (h : t.Settled typed) : (t.gain adapts c type).Settled typed := by
  have hshown : ((t.attach c).resetRadius.showEditor false).Settled typed := by
    unfold Socket.showEditor
    split
    · refine ⟨h.editable, ?_, h.rest⟩
      simp [Socket.isConnected, Socket.resetRadius, Socket.attach]
    · rename_i hplain
      have hnone : typed = false := h.editable.symm.trans (Bool.eq_false_iff.2 hplain)
      exact ⟨h.editable, h.editor.trans (by simp [hnone]), h.rest⟩
  unfold Socket.gain Socket.adapted
  split
  · exact ⟨hshown.editable, hshown.editor, rfl⟩
  · exact hshown

theorem lose (h : t.Settled typed) (halone : typed = true → t.incoming = [c]) :
    (t.lose adapts c).Settled typed := by
  have hbare : ((t.detach c).adapted adapts .any).editable = typed ∧
      ((t.detach c).adapted adapts .any).restRadius =
        Socket.restRadiusOf ((t.detach c).adapted adapts .any).type := by
    unfold Socket.adapted
    split
    · exact ⟨h.editable, rfl⟩
    · exact ⟨h.editable, h.rest⟩
  have hleft : ((t.detach c).adapted adapts .any).incoming = t.incoming.filter (· ≠ c) := by
    cases adapts <;> rfl
  have hold : ((t.detach c).adapted adapts .any).editorShown = t.editorShown := by
    cases adapts <;> rfl
  unfold Socket.lose Socket.showEditor
  cases typed with
  | true =>
    rw [if_pos hbare.1]
    refine ⟨hbare.1, ?_, hbare.2⟩
    show true = (true && !!(((t.detach c).adapted adapts .any).incoming.isEmpty))
    rw [hleft, halone rfl]
    simp
  | false =>
    rw [if_neg (by simp [hbare.1])]
    exact ⟨hbare.1, hold.trans h.editor, hbare.2⟩

end Socket.Settled

/-! ## Settled nodes stay so -/

namespace Node.Settled
variable {n m : Node} {port : PortKind} {index : Nat} {t : Socket} {c : ConnectorId}

theorem plain (h : n.Settled) (hk : n.kind = .condition) : n.Plain := by
  intro hnone
  rw [h.preview hk (Or.inr hnone), hnone]

/-- What is left to show of a change that keeps the constants. -/
theorem of_retains (h : n.Settled) (hsockets : ∀ port index t, m.frame.socket? port index = some t →
      t.Settled (m.kind.bareType port t).isEditable)
    (hkind : m.kind = n.kind) (hr : n.kind = .condition → n.Retains m) : m.Settled := by
  refine ⟨hsockets, fun hk hidle => ?_, fun hk b hb => ?_⟩
  · have hr := hr (hkind ▸ hk)
    obtain ⟨hfed, hopacities⟩ | hshown := hr.shown
    · rw [hfed, hr.simulated] at hidle
      rw [hopacities, hr.simulated]
      exact h.preview (hkind ▸ hk) hidle
    · rw [hshown, previewed]
      obtain hfree | hnone := hidle
      · rw [hfree, if_neg Bool.false_ne_true]
      · rw [hnone, ite_self]
  · have hr := hr (hkind ▸ hk)
    rw [hr.simulated]
    exact h.value (hkind ▸ hk) b (hr.truth ▸ hb)

theorem sockets_of_modified (h : n.Settled) (hkind : m.kind = n.kind) {F : Socket → Socket}
    (hsockets : ∀ k, m.frame.sockets k =
      if k = port then (n.frame.sockets k).modify index F else n.frame.sockets k)
    (hbare : ∀ t, n.kind.bareType port (F t) = n.kind.bareType port t)
    (hF : ∀ t, n.frame.socket? port index = some t → t.Settled (n.kind.bareType port t).isEditable →
      (F t).Settled (n.kind.bareType port t).isEditable) (k : PortKind) (i : Nat) (u : Socket)
    (hu : m.frame.socket? k i = some u) : u.Settled (m.kind.bareType k u).isEditable := by
  rw [Frame.socket?_of_modified hsockets] at hu
  rw [hkind]
  split at hu
  · rename_i hat
    obtain ⟨t, ht, rfl⟩ := Option.map_eq_some_iff.1 hu
    rw [hat.1, hbare]
    exact hF t ht (h.sockets port index t ht)
  · exact h.sockets k i u hu

theorem sockets_of_same (h : n.Settled) (hkind : m.kind = n.kind)
    (hsockets : ∀ k, m.frame.sockets k = n.frame.sockets k) (k : PortKind) (i : Nat) (u : Socket)
    (hu : m.frame.socket? k i = some u) : u.Settled (m.kind.bareType k u).isEditable := by
  rw [Frame.socket?, hsockets] at hu
  rw [hkind]
  exact h.sockets k i u hu

theorem sockets_release (h : n.Settled) (hs : n.Shaped) (ht : n.frame.socket? port index = some t)
    (halone : port = .data → t.incoming = [c]) : ∀ k i u, (n.release c port index).frame.socket? k i = some u →
      u.Settled (n.kind.bareType k u).isEditable := by
  refine h.sockets_of_modified (m := n.release c port index) rfl (Node.sockets_release c ht)
    (n.kind.bareType_lose port c) fun u hu hset => hset.lose fun hedit => ?_
  cases port with
  | flow =>
    rw [NodeKind.bareType, NodeKind.adapts_flow, if_neg Bool.false_ne_true, hs.type_flow hu] at hedit
    cases hedit
  | data =>
    rw [ht] at hu
    exact Option.some.inj hu ▸ halone rfl

/-- The ports of a variant are new. -/
theorem sockets_relay (h : n.Settled) (hk : n.kind = .math) (variant : Variant) (style : ConnectorStyle)
    (k : PortKind) (i : Nat) (u : Socket)
    (hu : (n.frame.layVariantPorts variant style).socket? k i = some u) :
    u.Settled (n.kind.bareType k u).isEditable := by
  cases k with
  | flow => exact h.sockets .flow i u hu
  | data =>
    have hmem : u ∈ [Socket.new .num "A", Socket.new .num "B"] := List.mem_of_getElem? hu
    obtain ⟨label, rfl⟩ : ∃ label, u = Socket.new .num label := by
      simp only [List.mem_cons, List.not_mem_nil, or_false] at hmem
      obtain rfl | rfl := hmem <;> exact ⟨_, rfl⟩
    have hbare : n.kind.bareType .data (Socket.new .num label) = .num := by
      rw [hk]
      rfl
    rw [hbare]
    exact Socket.Settled.new .num label

/-- Whatever happens to a settled node leaves it settled. -/
theorem change (h : n.Settled) (hs : n.Shaped) (hc : n.Change m) : m.Settled := by
  refine h.of_retains ?_ hc.kind_eq fun hk => hc.retains hs hk (h.plain hk)
  cases hc with
  | carry _ _ _ hsockets _ _ => exact h.sockets_of_same rfl (congrFun hsockets)
  | restyle style =>
    refine h.sockets_of_same rfl fun k => ?_
    cases k <;> rfl
  | @resize port index G hG =>
    refine h.sockets_of_modified rfl (n.frame.sockets_modifySocket port · index G) (fun t => ?_) fun t _ hset => ?_
    · obtain ⟨x, hx⟩ := hG t
      rw [hx]
      rfl
    · obtain ⟨x, hx⟩ := hG t
      rw [hx]
      exact ⟨hset.editable, hset.editor, hset.rest⟩
  | @receive c port index t ht _ type =>
    exact h.sockets_of_modified rfl (sockets_receive c ht type) (n.kind.bareType_gain port c type)
      fun u _ hu => hu.gain
  | release c ht halone => exact h.sockets_release hs ht halone
  | send c port index => exact h.sockets_of_same rfl (n.sockets_send port index c)
  | withdraw c port index => exact h.sockets_of_same rfl (n.sockets_withdraw port index c)
  | loosen c port index => exact h.sockets_of_same rfl (n.frame.sockets_modifyPlug port · index _)
  | relay hv variant style _ =>
    exact h.sockets_relay (eq_of_beq (hs.variant.symm.trans hv)) variant style

/-- A settled node that gets a new constant is settled. -/
theorem hold (h : n.Settled) (hs : n.Shaped) (hin : (n.frame.socket? .data index).isSome)
    (value : Option Literal) (types : Variables) : (n.hold index value types).Settled := by
  refine ⟨?_, fun (hk : n.kind = .condition) hidle => ?_, fun (hk : n.kind = .condition) b hb => ?_⟩
  · exact h.sockets_of_modified (m := n.hold index value types) rfl (sockets_hold value types n index)
      (fun _ => rfl) fun u _ hu => ⟨hu.editable, hu.editor, hu.rest⟩
  · rw [fed_hold, simulated_hold hk] at hidle
    rw [opacities_hold hs hk, simulated_hold hk]
    cases hstate : value.bind Literal.bool? with
    | some state => rfl
    | none =>
      rw [hstate] at hidle
      exact h.preview hk hidle
  · obtain ⟨t, ht⟩ := Option.isSome_iff_exists.1 hin
    obtain ⟨rfl, -⟩ := hs.at_condition hk ht
    rw [truth?_hold hs hk] at hb
    rw [simulated_hold hk, hb]
    rfl

theorem fresh (kind : NodeKind) (position : Point) (scale : Scalar) (style : ConnectorStyle) :
    Node.Settled ⟨kind, kind.freshFrame position scale style⟩ := by
  have hlooks (port : PortKind) : ((kind.freshFrame position scale style).sockets port).map
      (fun t => (t.editable, t.editorShown, t.restRadius)) =
        ((kind.freshFrame position scale style).sockets port).map fun t =>
          ((kind.bareType port t).isEditable, (kind.bareType port t).isEditable && !t.isConnected,
            Socket.restRadiusOf t.type) := by
    cases kind <;> cases port <;> rfl
  refine ⟨fun port index t ht => ?_, fun hk _ => ?_, fun hk b hb => ?_⟩
  · have hlook := List.map_inj_left.1 (hlooks port) t (List.mem_of_getElem? ht)
    simp only [Prod.mk.injEq] at hlook
    exact ⟨hlook.1, hlook.2.1, hlook.2.2⟩
  · obtain rfl : kind = .condition := hk
    rfl
  · obtain rfl : kind = .condition := hk
    rw [(Truthful.fresh position scale style).remembers]
    exact hb

end Node.Settled

end FlowGraph

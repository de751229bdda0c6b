import FlowGraph.Proofs.Node.Settled

/-! # Ends of an edge undone

A node that is in shape and settled is the same as before when a connector has left again: at the socket
where it had arrived, and at the plug it was fastened to. On other nodes this is false, since the reactions
overwrite the type and the radii of the socket, its editor, the branches that are drawn and the type of a
sum.
-/

namespace FlowGraph
set_option autoImplicit false

/-- A change of one item that does nothing to it. -/
theorem modify_eq_of_getElem? {α : Type} {l : List α} {i : Nat} {f : α → α} (h : ∀ a, l[i]? = some a → f a = a) :
    l.modify i f = l := by
  refine List.ext_getElem? fun j => ?_
  rw [List.getElem?_modify]
  split
  · rename_i hj
    subst hj
    cases ha : l[i]? with
    | none => rfl
    | some a => exact congrArg some (h a ha)
  · exact Option.map_id'

theorem filter_append_of_not_mem {l : List ConnectorId} {c : ConnectorId} (h : c ∉ l) :
    (l ++ [c]).filter (· ≠ c) = l := by
  have hkeep : ∀ d ∈ l, decide (d ≠ c) = true := by
    intro d hd
    refine decide_eq_true ?_
    rintro rfl
    exact h hd
  rw [List.filter_append, List.filter_eq_self.2 hkeep]
  simp

namespace Frame
variable (f : Frame) (port : PortKind) (index : Nat)

theorem modifySocket_eq_self {G : Socket → Socket} (h : ∀ t, f.socket? port index = some t → G t = t) :
    f.modifySocket port index G = f := by
  have hsame : (f.sockets port).modify index G = f.sockets port := modify_eq_of_getElem? h
  refine eq_of_parts (f.body_modifySocket _ _ _) (fun k => ?_) (f.plugs_modifySocket port · index G)
    (f.dependents_modifySocket _ _ _) (f.simulated_modifySocket _ _ _)
  rw [sockets_modifySocket]
  split
  · rename_i hk
    rw [hk, hsame]
  · rfl

theorem modifyPlug_eq_self {G : Plug → Plug} (h : ∀ p, f.plug? port index = some p → G p = p) :
    f.modifyPlug port index G = f := by
  have hsame : (f.plugs port).modify index G = f.plugs port := modify_eq_of_getElem? h
  refine eq_of_parts (f.body_modifyPlug _ _ _) (f.sockets_modifyPlug port · index G) (fun k => ?_)
    (f.dependents_modifyPlug _ _ _) (f.simulated_modifyPlug _ _ _)
  rw [plugs_modifyPlug]
  split
  · rename_i hk
    rw [hk, hsame]
  · rfl

theorem modifyPlug_modifyPlug (G H : Plug → Plug) :
    (f.modifyPlug port index G).modifyPlug port index H = f.modifyPlug port index (H ∘ G) := by
  cases port <;> simp only [modifyPlug, List.modify_modify_eq]

theorem modifySocket_modifySocket (G H : Socket → Socket) :
    (f.modifySocket port index G).modifySocket port index H = f.modifySocket port index (H ∘ G) := by
  cases port <;> simp only [modifySocket, List.modify_modify_eq]

end Frame

/-! ## Sockets -/

theorem Socket.lose_gain {t : Socket} {typed adapts : Bool} {c : ConnectorId} (h : t.Settled typed)
    (htype : adapts = true → t.type = .any) (hidle : typed = true → t.incoming = [])
    (hrest : t.radius = t.restRadius) (hnew : c ∉ t.incoming) (type : PortType) :
    (t.gain adapts c type).lose adapts c = t := by
  obtain ⟨own, label, incoming, value, editable, shown, phantoms, radius, rest⟩ := t
  obtain ⟨rfl, heditor, hown⟩ := h
  dsimp only at heditor hown hrest htype hidle hnew
  subst hrest
  have hkeep : ∀ d ∈ incoming, ¬d = c := by
    rintro d hd rfl
    exact hnew hd
  subst hown
  have hshown : editable = true → shown = true ∧ incoming = [] := by
    rintro rfl
    obtain rfl := hidle rfl
    exact ⟨heditor, rfl⟩
  cases adapts with
  | false =>
    cases editable with
    | false => simpa [gain, lose, adapted, attach, detach, showEditor, resetRadius] using hkeep
    | true =>
      obtain ⟨rfl, rfl⟩ := hshown rfl
      simp [gain, lose, adapted, attach, detach, showEditor, resetRadius]
  | true =>
    obtain rfl := htype rfl
    cases editable with
    | false => simpa [gain, lose, adapted, attach, detach, showEditor, resetRadius, setType] using hkeep
    | true =>
      obtain ⟨rfl, rfl⟩ := hshown rfl
      simp [gain, lose, adapted, attach, detach, showEditor, resetRadius, setType]

/-! ## Plugs -/

namespace Plug
variable {p q : Plug}

theorem full_of_opacity (h : p.opacity = 1.0) : p.full = p := by
  obtain ⟨type, label, style, connected, opacity⟩ := p
  obtain rfl : opacity = 1.0 := h
  rfl

theorem dimmed_of_opacity (h : p.opacity = Measure.dimmedOpacity) : p.dimmed = p := by
  obtain ⟨type, label, style, connected, opacity⟩ := p
  obtain rfl : opacity = Measure.dimmedOpacity := h
  rfl

/-- The preview returns to the branches as they were drawn before it ended. -/
theorem previewed_full {state : Option Bool} (h : [p, q].map (·.opacity) = branchOpacities state) :
    previewed state ([p, q].map full) = [p, q] := by
  have hboth : p.opacity = (branchOpacities state)[0]! ∧ q.opacity = (branchOpacities state)[1]! := by
    rw [← h]
    exact ⟨rfl, rfl⟩
  cases state with
  | none =>
    show [p.full, q.full] = [p, q]
    rw [full_of_opacity hboth.1, full_of_opacity hboth.2]
  | some state =>
    cases state with
    | true =>
      show [p.full.full, q.full.dimmed] = [p, q]
      have hq : q.full.dimmed = q.dimmed := rfl
      rw [full_of_opacity (p := p.full) rfl, full_of_opacity hboth.1, hq, dimmed_of_opacity hboth.2]
    | false =>
      show [p.full.dimmed, q.full.full] = [p, q]
      have hp : p.full.dimmed = p.dimmed := rfl
      rw [full_of_opacity (p := q.full) rfl, full_of_opacity hboth.2, hp, dimmed_of_opacity hboth.1]

/-- The output of a sum has no memory of other inputs. -/
theorem summed_summed {types : List PortType} (h : [p].map (·.type) = (PortType.highest? types).toList)
    (others : List PortType) : summed types (summed others [p]) = [p] := by
  cases hhigh : PortType.highest? types with
  | none =>
    rw [hhigh] at h
    cases h
  | some type =>
    rw [hhigh] at h
    obtain ⟨type', label, style, connected, opacity⟩ := p
    obtain rfl : type' = type := (List.cons.inj h).1
    simp only [summed, hhigh]
    cases PortType.highest? others <;> rfl

end Plug

/-! ## Nodes -/

namespace Node
variable {n : Node} {port : PortKind} {index : Nat} {t : Socket} {c : ConnectorId}

theorem idle_of_editable (hs : n.Shaped) (ht : n.frame.socket? port index = some t)
    (hfree : port = .data → t.incoming = []) (hedit : (n.kind.bareType port t).isEditable = true) :
    t.incoming = [] := by
  cases port with
  | flow =>
    rw [NodeKind.bareType, NodeKind.adapts_flow, if_neg Bool.false_ne_true, hs.type_flow ht] at hedit
    cases hedit
  | data => exact hfree rfl

/-- The type of a socket to which nothing is connected. -/
theorem type_of_free (hs : n.Shaped) (ht : n.frame.socket? port index = some t)
    (hfree : port = .data → t.incoming = []) : t.type = n.kind.bareType port t := by
  unfold NodeKind.bareType
  split
  · rename_i hadapts
    have hdata : port = .data := (NodeKind.adapts_iff.1 hadapts).2
    exact hs.idle port index t ht hadapts (hfree hdata)
  · rfl

theorem socket?_receive (ht : n.frame.socket? port index = some t) (type : PortType) :
    (n.receive c port index type).frame.socket? port index = some (t.gain (n.kind.adapts port) c type) := by
  rw [Frame.socket?_of_modified (sockets_receive c ht type), if_pos ⟨rfl, rfl⟩, ht, Option.map_some]

section Back
variable (hs : n.Shaped) (ht : n.frame.socket? port index = some t) (hfree : port = .data → t.incoming = [])
  (type : PortType)

include hs ht hfree

theorem sockets_back (h : n.Settled) (hrest : t.radius = t.restRadius) (hnew : c ∉ t.incoming) (k : PortKind) :
    ((n.receive c port index type).release c port index).frame.sockets k = n.frame.sockets k := by
  have hback : (t.gain (n.kind.adapts port) c type).lose (n.kind.adapts port) c = t := by
    refine Socket.lose_gain (h.sockets port index t ht) (fun hadapts => ?_) (idle_of_editable hs ht hfree)
      hrest hnew type
    rw [type_of_free hs ht hfree, NodeKind.bareType, if_pos hadapts]
  rw [sockets_release c (socket?_receive ht type), sockets_receive c ht]
  split
  · rename_i hk
    subst hk
    rw [List.modify_modify_eq]
    refine modify_eq_of_getElem? fun u hu => ?_
    obtain rfl := Option.some.inj (ht.symm.trans hu)
    exact hback
  · rfl

theorem flowPlugs_back (h : n.Settled) :
    ((n.receive c port index type).release c port index).frame.plugs .flow = n.frame.plugs .flow := by
  rw [flowPlugs_release c (socket?_receive ht type), flowPlugs_receive c ht, simulated_receive c ht,
    kind_receive, NodeKind.type_adapted_any, NodeKind.bareType_gain, type_of_free hs ht hfree]
  split
  · rename_i htruth
    obtain ⟨hk, rfl, rfl⟩ := hs.condition_of_truth ht htruth
    obtain ⟨p, q, hplugs⟩ := hs.branches hk
    have hidle : n.fed = false := by
      rw [fed_eq ht, Socket.isConnected, hfree rfl]
      rfl
    have hopacities := h.preview hk (Or.inl hidle)
    rw [Frame.opacities, hplugs] at hopacities
    rw [hplugs]
    exact Plug.previewed_full hopacities
  · rfl

omit hfree in
theorem dataPlugs_back (hsockets : ∀ k, ((n.receive c port index type).release c port index).frame.sockets k =
      n.frame.sockets k) :
    ((n.receive c port index type).release c port index).frame.plugs .data = n.frame.plugs .data := by
  rw [dataPlugs_release c (socket?_receive ht type), hsockets, dataPlugs_receive c ht, kind_receive]
  cases hadapts : n.kind.adapts port with
  | false => rfl
  | true =>
    obtain ⟨hk, -⟩ := NodeKind.adapts_iff.1 hadapts
    obtain ⟨p, hp⟩ : ∃ p, n.frame.plugs .data = [p] := by
      refine List.length_eq_one_iff.1 ((hs.length_plugs .data).trans ?_)
      rw [hk]
      rfl
    have hsum : [p].map (·.type) = (PortType.highest? ((n.frame.sockets .data).map (·.type))).toList := by
      rw [← hp]
      exact hs.sum hk
    rw [hp]
    exact Plug.summed_summed hsum _

/-- A connector that arrives at a socket and leaves it again has done nothing to the node. -/
theorem Settled.release_receive (h : n.Settled) (hrest : t.radius = t.restRadius) (hnew : c ∉ t.incoming)
    (hdependents : c ∉ n.frame.dependents) : (n.receive c port index type).release c port index = n := by
  have hsockets := sockets_back hs ht hfree type h hrest hnew
  have hbody : ((n.receive c port index type).release c port index).body = n.body :=
    (body_release _ c port index).trans (body_receive n c port index type)
  have hframe : ((n.receive c port index type).release c port index).frame = n.frame := by
    refine Frame.eq_of_parts (congrArg Prod.snd hbody) hsockets (fun k => ?_) ?_ ?_
    · cases k with
      | flow => exact flowPlugs_back hs ht hfree type h
      | data => exact dataPlugs_back hs ht type hsockets
    · rw [dependents_release, dependents_receive, if_neg]
      · exact filter_append_of_not_mem hdependents
      · rw [List.contains_iff_mem]
        exact hdependents
    · exact (simulated_release c (socket?_receive ht type)).trans (simulated_receive c ht type)
  exact congrArg (Node.mk n.kind) hframe

end Back

/-- The node with one more connector that follows it. -/
def follow (n : Node) (c : ConnectorId) : Node :=
  { n with frame := { n.frame with dependents := n.frame.dependents ++ [c] } }

theorem unsubscribe_follow (hdependents : c ∉ n.frame.dependents) :
    { n with frame := (n.follow c).frame.unsubscribe c } = n := by
  have hback : (n.follow c).frame.unsubscribe c = n.frame := by
    show { n.frame with dependents := (n.frame.dependents ++ [c]).filter (· ≠ c) } = n.frame
    rw [filter_append_of_not_mem hdependents]
  rw [hback]

/-- A connector that is taken off a plug to which it is not fastened only stops to follow the node. -/
theorem withdraw_follow (hplug : ∀ q, n.frame.plug? port index = some q → c ∉ q.connected)
    (hdependents : c ∉ n.frame.dependents) : (n.follow c).withdraw c port index = n := by
  have hsame : (n.follow c).frame.modifyPlug port index (·.detach c) = (n.follow c).frame := by
    refine Frame.modifyPlug_eq_self _ port index fun q hq => ?_
    have hq : n.frame.plug? port index = some q := by
      cases port <;> exact hq
    have hkeep : ∀ d ∈ q.connected, decide (d ≠ c) = true := by
      intro d hd
      refine decide_eq_true ?_
      rintro rfl
      exact hplug q hq hd
    rw [Plug.detach, List.filter_eq_self.2 hkeep]
  rw [withdraw, hsame]
  exact unsubscribe_follow hdependents

/-- A connector that is fastened to a plug and taken off again has done nothing to the node. -/
theorem withdraw_send_follow (hplug : ∀ q, n.frame.plug? port index = some q → c ∉ q.connected)
    (hdependents : c ∉ n.frame.dependents) :
    ((n.follow c).send c port index).withdraw c port index = n := by
  have hfollows : c ∈ (n.follow c).frame.dependents := List.mem_append_right _ (List.mem_singleton.2 rfl)
  have hsend : (n.follow c).send c port index =
      { n with frame := (n.follow c).frame.modifyPlug port index (·.attach c) } := by
    rw [send, Frame.subscribe, Frame.dependents_modifyPlug, if_pos (List.contains_iff_mem.2 hfollows)]
    rfl
  have hback : ((n.follow c).frame.modifyPlug port index (·.attach c)).modifyPlug port index (·.detach c) =
      (n.follow c).frame := by
    rw [Frame.modifyPlug_modifyPlug]
    refine Frame.modifyPlug_eq_self _ port index fun q hq => ?_
    have hq : n.frame.plug? port index = some q := by
      cases port <;> exact hq
    show { q with connected := (q.connected ++ [c]).filter (· ≠ c) } = q
    rw [filter_append_of_not_mem (hplug q hq)]
  rw [hsend, withdraw, hback]
  exact unsubscribe_follow hdependents

end Node
end FlowGraph

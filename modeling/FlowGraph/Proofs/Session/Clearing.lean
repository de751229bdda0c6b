import FlowGraph.Proofs.Session.Move
import Mathlib.Logic.Relation

/-! # Clearing a node

Before a node goes or gets other ports, its edges are dropped one by one, and a drag that touches it is
abandoned. This module shows that each of these steps is a move, that exactly the listed connectors go,
and that nothing hangs on the node afterwards.
-/

namespace FlowGraph
set_option autoImplicit false

namespace Session

/-- Any number of moves. -/
abbrev Moves : Session → Session → Prop := Relation.ReflTransGen Move

theorem Intact.moves {s t : Session} (h : s.Intact) (hm : s.Moves t) : t.Intact := by
  induction hm with
  | refl => exact h
  | tail _ hstep ih => exact ih.move hstep

/-- What the session knows of a node apart from its ports. -/
def body? (s : Session) (id : NodeId) : Option (NodeKind × Frame) := (s.node? id).map Node.body

section Bodies
variable (s : Session)

theorem body?_modifyNode (id n : NodeId) (f : Node → Node) (hf : ∀ m, (f m).body = m.body) :
    (s.modifyNode id f).body? n = s.body? n := by
  rw [body?, node?_modifyNode]
  split
  · simp only [body?, Option.map_map, Function.comp_def, hf]
  · rfl

theorem body?_resetRadius? (r : Option SocketRef) (n : NodeId) :
    (s.resetRadius? r).body? n = s.body? n := by
  cases r with
  | none => rfl
  | some r =>
    refine s.body?_modifyNode r.node n _ fun m => ?_
    simp [Node.body]

theorem body?_detachSocket (c : ConnectorId) (n : NodeId) : (s.detachSocket c).body? n = s.body? n := by
  unfold detachSocket
  split
  · rfl
  · exact body?_modifyNode _ _ n _ fun m => m.body_release c _ _

theorem body?_destroyConnector (c : ConnectorId) (n : NodeId) :
    (s.destroyConnector c).body? n = s.body? n := by
  unfold destroyConnector
  split
  · rfl
  · exact body?_modifyNode { s with connectors := s.connectors.erase c } _ n _
      fun m => m.body_withdraw c _ _

theorem drag_detachSocket (c : ConnectorId) : (s.detachSocket c).drag = s.drag := by
  unfold detachSocket
  split <;> rfl

theorem drag_destroyConnector (c : ConnectorId) : (s.destroyConnector c).drag = s.drag := by
  unfold destroyConnector
  split <;> rfl

end Bodies

/-! ## Dropping connectors -/

/-- The second session results from the first by dropping connectors. -/
structure Cleared (s t : Session) (ids : List ConnectorId) : Prop where
  moves : s.Moves t
  edge : ∀ c, t.wiring.edge c = if c ∈ ids then none else s.wiring.edge c
  body : ∀ id, t.body? id = s.body? id
  drag : t.drag = s.drag ∨ t.drag = none

namespace Cleared
variable {s t u : Session} {ids more : List ConnectorId}

theorem refl (s : Session) : s.Cleared s [] := by
  refine ⟨.refl, fun c => ?_, fun _ => rfl, Or.inl rfl⟩
  rw [if_neg List.not_mem_nil]

theorem trans (h : s.Cleared t ids) (h' : t.Cleared u more) : s.Cleared u (ids ++ more) := by
  refine ⟨h.moves.trans h'.moves, fun c => ?_, fun id => (h'.body id).trans (h.body id), ?_⟩
  · rw [h'.edge, h.edge]
    by_cases hc : c ∈ more <;> by_cases hd : c ∈ ids <;> simp [hc, hd]
  · obtain hd | hd := h'.drag
    · rw [hd]
      exact h.drag
    · exact Or.inr hd

end Cleared

variable {s : Session}

theorem cleared_discard (h : s.Intact) {d : Drag} (hd : s.drag = some d) :
    s.Cleared (s.discardDrag d) [d.connector] := by
  have hquiet := quiet_resetRadius? { s with drag := none } d.snap
  have hedge := h.edge_released hd d.snap
  refine ⟨.single (.discard hd), fun c => ?_, fun id => ?_, Or.inr ?_⟩
  · rw [discardDrag, wiring_destroyConnector hedge, hquiet.wiring]
    simp only [List.mem_singleton]
    rfl
  · rw [discardDrag, body?_destroyConnector, body?_resetRadius?]
    rfl
  · exact Option.map_eq_none_iff.1 (hquiet.toSteady.trans (steady_destroyConnector _ _)).drag

theorem cleared_disconnect (h : s.Intact) (c : ConnectorId) : s.Cleared (s.disconnect c).2 [c] := by
  unfold disconnect
  split
  · rename_i hc
    obtain ⟨d, hd, rfl⟩ := Option.map_eq_some_iff.1 hc
    unfold cancelDrag
    rw [hd]
    exact cleared_discard h hd
  · rename_i hc
    split
    · rename_i hin
      obtain ⟨k, hk⟩ := Option.isSome_iff_exists.1 ((s.connectors.get?_isSome c).trans hin)
      obtain ⟨r, hedge⟩ := h.edge_idle hk hc
      refine ⟨.single (.disconnect hk hc), fun e => ?_, fun id => ?_, Or.inl ?_⟩
      · rw [Tied.edge_disconnect hedge]
        simp only [List.mem_singleton]
      · rw [body?_destroyConnector, body?_detachSocket]
      · rw [drag_destroyConnector, drag_detachSocket]
    · rename_i hout
      have hnone : s.wiring.edge c = none := by
        rw [OrderedMap.contains_iff_mem_keys, ← OrderedMap.get?_eq_none_iff] at hout
        exact congrArg (Option.map Connector.edge) hout
      refine ⟨.refl, fun e => ?_, fun _ => rfl, Or.inl rfl⟩
      simp only [List.mem_singleton]
      split
      · rename_i he
        rw [he, hnone]
      · rfl

theorem cleared_disconnectAll (h : s.Intact) (ids : List ConnectorId) :
    s.Cleared (s.disconnectAll ids).2 ids := by
  induction ids generalizing s with
  | nil => exact Cleared.refl s
  | cons c rest ih =>
    have hfirst := cleared_disconnect h c
    exact hfirst.trans (ih (h.moves hfirst.moves))

/-! ## A node without connections -/

theorem mem_attached_of_socket {f : Frame} {kind : PortKind} {index : Nat} {t : Socket}
    (ht : f.socket? kind index = some t) {c : ConnectorId} (hc : c ∈ t.incoming) : c ∈ f.attached := by
  have hmem : t ∈ f.flowSockets ++ f.dataSockets := by
    cases kind with
    | flow => exact List.mem_append_left _ (List.mem_of_getElem? ht)
    | data => exact List.mem_append_right _ (List.mem_of_getElem? ht)
  exact List.mem_append_left _ (List.mem_flatMap.2 ⟨t, hmem, hc⟩)

theorem mem_attached_of_plug {f : Frame} {kind : PortKind} {index : Nat} {p : Plug}
    (hp : f.plug? kind index = some p) {c : ConnectorId} (hc : c ∈ p.connected) : c ∈ f.attached := by
  have hmem : p ∈ f.flowPlugs ++ f.dataPlugs := by
    cases kind with
    | flow => exact List.mem_append_left _ (List.mem_of_getElem? hp)
    | data => exact List.mem_append_right _ (List.mem_of_getElem? hp)
  exact List.mem_append_right _ (List.mem_flatMap.2 ⟨p, hmem, hc⟩)

/-- Every edge on a node is attached to one of its ports. -/
theorem attached_of_touches (h : s.Intact) {id : NodeId} {n : Node} (hn : s.node? id = some n)
    {c : ConnectorId} {e : Edge} (he : s.wiring.edge c = some e) (hto : e.connectedTo.isSome)
    (ht : e.Touches id) : c ∈ n.frame.attached := by
  obtain hp | ⟨r, hr, rfl⟩ := ht
  · obtain ⟨l, hl⟩ := Option.isSome_iff_exists.1 (h.tied.sound.plug c e he)
    obtain ⟨q, hq, rfl⟩ := Option.map_eq_some_iff.1 hl
    have hc := ((h.tied.sound.departures _ _ hl).2 c).2 ⟨e, he, rfl, hto⟩
    rw [plug?, hp, hn] at hq
    exact mem_attached_of_plug hq hc
  · obtain ⟨l, hl⟩ := Option.isSome_iff_exists.1 (h.tied.sound.socket c e r he hr)
    obtain ⟨t, ht, rfl⟩ := Option.map_eq_some_iff.1 hl
    have hc := ((h.tied.sound.arrivals _ _ hl).2 c).2 ⟨e, he, hr⟩
    rw [socket?, hn] at ht
    exact mem_attached_of_socket ht hc

theorem dragTouches_of_cleared {t : Session} {ids : List ConnectorId} {id : NodeId}
    (hclear : s.Cleared t ids) (hs : s.dragTouches id = false) : t.dragTouches id = false := by
  unfold dragTouches at hs ⊢
  obtain hd | hd := hclear.drag
  · rw [hd]
    exact hs
  · rw [hd]

theorem node?_isSome_of_body {t : Session} {id : NodeId} (h : t.body? id = s.body? id) :
    (t.node? id).isSome = (s.node? id).isSome := by
  have hsome := congrArg Option.isSome h
  rw [body?, body?, Option.isSome_map, Option.isSome_map] at hsome
  exact hsome

theorem cleared_abandon (h : s.Intact) (id : NodeId) :
    ∃ ids, s.Cleared (if s.dragTouches id then s.cancelDrag else s) ids ∧
      (if s.dragTouches id then s.cancelDrag else s).dragTouches id = false := by
  cases hd : s.drag with
  | none =>
    have htouch : s.dragTouches id = false := by
      rw [dragTouches, hd]
    rw [htouch, if_neg Bool.false_ne_true]
    exact ⟨[], Cleared.refl s, htouch⟩
  | some d =>
    split
    · have hclear := cleared_discard h hd
      have hnone : (s.discardDrag d).drag = none := by
        rw [discardDrag, drag_destroyConnector]
        exact Option.map_eq_none_iff.1 (quiet_resetRadius? { s with drag := none } d.snap).drag
      rw [cancelDrag, hd]
      refine ⟨_, hclear, ?_⟩
      rw [dragTouches, hnone]
    · rename_i htouch
      exact ⟨[], Cleared.refl s, Bool.eq_false_iff.2 htouch⟩

/-- A loose connector on a node is dragged out of it. -/
theorem dragTouches_of_loose (h : s.Intact) {id : NodeId} {c : ConnectorId} {e : Edge}
    (he : s.wiring.edge c = some e) (hto : e.connectedTo = none) (ht : e.Touches id) :
    s.dragTouches id = true := by
  have hc := (h.tied.sound.loose c).2 ⟨e, he, hto⟩
  obtain ⟨d, hd, rfl⟩ := Option.map_eq_some_iff.1 hc
  have hends := (h.drag d hd).symm.trans he
  obtain hp | ⟨r, hr, -⟩ := ht
  · rw [dragTouches, hd]
    simp only [Bool.or_eq_true, decide_eq_true_eq]
    left
    rw [← hp]
    exact congrArg (fun e : Edge => e.plug.node) (Option.some.inj hends)
  · rw [hto] at hr
    cases hr

/-- After a node has been cleared, the drag leaves it alone and nothing hangs on it. -/
theorem cleared_clearConnections (h : s.Intact) (id : NodeId) :
    ∃ ids, s.Cleared (s.clearConnections id).2 ids ∧
      (s.clearConnections id).2.dragTouches id = false ∧
        ∀ c, ¬(s.clearConnections id).2.wiring.Joined (·.Touches id) c := by
  obtain ⟨ids, hfirst, htouch⟩ := cleared_abandon h id
  have hmid := h.moves hfirst.moves
  unfold clearConnections
  dsimp only
  generalize (if s.dragTouches id then s.cancelDrag else s) = m at hfirst htouch hmid ⊢
  split
  · rename_i n hn
    have hrest := cleared_disconnectAll hmid n.frame.attached
    refine ⟨_, hfirst.trans hrest, dragTouches_of_cleared hrest htouch, ?_⟩
    rintro c ⟨e, he, ht⟩
    -- What is left was on no port of the node, so it was loose, and no drag touches the node.
    rw [hrest.edge] at he
    split at he
    · cases he
    · rename_i hout
      cases hto : e.connectedTo with
      | none =>
        rw [dragTouches_of_loose hmid he hto ht] at htouch
        cases htouch
      | some r => exact hout (attached_of_touches hmid hn he (by rw [hto]; rfl) ht)
  · rename_i hn
    exact ⟨ids, hfirst, htouch, hmid.untouched_of_absent hn⟩

end Session
end FlowGraph

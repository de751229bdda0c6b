import FlowGraph.Proofs.Session.Clearing
import FlowGraph.Session.Operation

/-! # Reached sessions

Whatever a host asks of an intact session is carried out in moves, so every session that is reached
from a new one is intact.
-/

namespace FlowGraph
set_option autoImplicit false

/-- Nodes enter only as new nodes of a kind; a prepared node may bring ports of any shape. -/
def Operation.Public : Operation → Prop
  | .addNode .. => False
  | _ => True

namespace Session

/-! ## Removing nodes -/

theorem dependents_of_untouched {s : Session} (h : s.Intact) {id : NodeId} {n : Node}
    (hn : s.node? id = some n) (hfree : ∀ c, ¬s.wiring.Joined (·.Touches id) c) :
    n.frame.dependents = [] :=
  (h.tied.sound.followers id _ (followers_of_node? hn)).eq_nil hfree

theorem moves_removeNode {s : Session} (h : s.Intact) (id : NodeId) :
    s.Moves (s.removeNode id).2 ∧
      ∀ n, (s.removeNode id).2.body? n = if n = id then none else s.body? n := by
  obtain ⟨ids, hclear, htouch, hfree⟩ := cleared_clearConnections h id
  have hmid := h.moves hclear.moves
  rw [removeNode_eq]
  split
  · rename_i hin
    have hsome : ((s.clearConnections id).2.node? id).isSome := by
      rw [node?_isSome_of_body (hclear.body id)]
      exact (s.nodes.get?_isSome id).trans hin
    obtain ⟨n, hn⟩ := Option.isSome_iff_exists.1 hsome
    refine ⟨hclear.moves.tail (.eraseNode hn (dependents_of_untouched hmid hn hfree) htouch), fun m => ?_⟩
    show (((s.clearConnections id).2.nodes.erase id).get? m).map Node.body = _
    rw [OrderedMap.get?_erase, ← hclear.body m]
    split <;> rfl
  · rename_i hout
    refine ⟨.refl, fun m => ?_⟩
    split
    · rename_i hm
      rw [OrderedMap.contains_iff_mem_keys, ← OrderedMap.get?_eq_none_iff] at hout
      rw [hm]
      exact congrArg (Option.map Node.body) hout
    · rfl

theorem moves_removeNodes {s : Session} (h : s.Intact) (ids : List NodeId) :
    s.Moves (ids.foldl (fun s id => (s.removeNode id).2) s) ∧
      ∀ n, (ids.foldl (fun s id => (s.removeNode id).2) s).body? n =
        if n ∈ ids then none else s.body? n := by
  induction ids generalizing s with
  | nil =>
    refine ⟨.refl, fun n => ?_⟩
    rw [if_neg List.not_mem_nil]
    rfl
  | cons id rest ih =>
    obtain ⟨hfirst, hbody⟩ := moves_removeNode h id
    obtain ⟨hrest, hgone⟩ := ih (h.moves hfirst)
    refine ⟨hfirst.trans hrest, fun n => ?_⟩
    rw [List.foldl_cons, hgone, hbody]
    by_cases hn : n = id <;> by_cases hr : n ∈ rest <;> simp [hn, hr]

theorem connectors_of_no_nodes {s : Session} (h : s.Intact) (hnone : ∀ id, s.body? id = none) :
    s.connectors = .empty := by
  have hkeys : s.connectors.keys = [] := by
    refine List.eq_nil_iff_forall_not_mem.2 fun c hc => ?_
    obtain ⟨e, he⟩ := Option.isSome_iff_exists.1 ((edge_isSome c).2 hc)
    have hplug := h.tied.sound.plug c e he
    have habsent : s.node? e.plug.node = none := Option.map_eq_none_iff.1 (hnone _)
    rw [departures_eq, wires?, habsent] at hplug
    cases hplug
  have hentries : s.connectors.entries = [] := List.map_eq_nil_iff.1 hkeys
  exact congrArg OrderedMap.mk hentries

theorem moves_cancelDrag (s : Session) : s.Moves s.cancelDrag := by
  unfold cancelDrag
  split
  · rename_i d hd
    exact .single (.discard hd)
  · exact .refl

theorem moves_removeAll {s : Session} (h : s.Intact) :
    s.Moves s.removeAll ∧ ∀ id, s.removeAll.body? id = none := by
  have hcancel := moves_cancelDrag s
  obtain ⟨hremove, hgone⟩ := moves_removeNodes (h.moves hcancel) s.cancelDrag.nodes.keys
  have hnone (n : NodeId) : (s.cancelDrag.nodes.keys.foldl (fun s id => (s.removeNode id).2)
      s.cancelDrag).body? n = none := by
    rw [hgone]
    split
    · rfl
    · rename_i hout
      rw [← OrderedMap.get?_eq_none_iff] at hout
      exact congrArg (Option.map Node.body) hout
  have hmoves := hcancel.trans hremove
  have hempty := connectors_of_no_nodes (h.moves hmoves) hnone
  have hsame : s.removeAll = s.cancelDrag.nodes.keys.foldl (fun s id => (s.removeNode id).2)
      s.cancelDrag := by
    unfold removeAll
    dsimp only
    generalize (s.cancelDrag.nodes.keys.foldl _ s.cancelDrag) = t at hempty
    obtain ⟨settings, ids, nodes, connectors, drag, types, calls⟩ := t
    cases hempty
    rfl
  rw [hsame]
  exact ⟨hmoves, hnone⟩

/-! ## Choosing a variant -/

theorem moves_selectVariant {s : Session} (h : s.Intact) (id : NodeId) (variant : Variant) :
    s.Moves (s.selectVariant id variant).2 := by
  unfold selectVariant
  split
  · exact .refl
  · rename_i old hold
    obtain ⟨n, hn, hv⟩ := Option.bind_eq_some_iff.1 hold
    obtain ⟨ids, hclear, htouch, hfree⟩ := cleared_clearConnections h id
    have hmid := h.moves hclear.moves
    have hbody : (s.clearConnections id).2.body? id = some n.body := by
      rw [hclear.body, body?, hn]
      rfl
    obtain ⟨m, hm, hsame⟩ := Option.map_eq_some_iff.1 hbody
    have hvariant : m.frame.variant = some old := by
      rw [← hv]
      exact congrArg (fun b : NodeKind × Frame => b.2.variant) hsame
    have hrelay : (s.clearConnections id).2.Move ((s.clearConnections id).2.relayPorts id variant) :=
      .relayPorts hm hvariant (dependents_of_untouched hmid hm hfree) htouch variant
    exact (hclear.moves.tail hrelay).tail (.emitMove _ id)

/-! ## Restoring -/

section Restoring

theorem moves_registerVariables (s : Session) (types : SortedMap PortType) :
    s.Moves (Restore.registerVariables s types) := by
  unfold Restore.registerVariables
  induction types.entries generalizing s with
  | nil => exact .refl
  | cons e rest ih => exact .head (.registerVariable s e.1 e.2) (ih _)

theorem moves_setConstants (s : Session) (id : NodeId) (r : NodeRecord) :
    s.Moves (Restore.setConstants s id r) := by
  unfold Restore.setConstants
  induction r.inputs.zipIdx generalizing s with
  | nil => exact .refl
  | cons e rest ih =>
    rw [List.foldl_cons]
    refine Relation.ReflTransGen.trans ?_ (ih _)
    obtain ⟨input, index⟩ := e
    dsimp only
    split
    · exact .single (.setValue s _ _)
    · exact .refl

theorem moves_spawnRecord {s : Session} (h : s.Intact) (kind : NodeKind) (r : NodeRecord) :
    s.Moves (Restore.spawnRecord s kind r).2 := by
  have hspawn : s.Moves (s.spawn kind ⟨r.x, r.y⟩ r.scale).2 := .single (.spawn s kind _ _)
  unfold Restore.spawnRecord
  dsimp only
  refine Relation.ReflTransGen.trans ?_ (moves_setConstants _ _ r)
  split
  · exact hspawn.trans (moves_selectVariant (h.moves hspawn) _ _)
  · exact hspawn

theorem moves_spawnAll {s : Session} (h : s.Intact) (palette : Palette) (report : RestoreReport)
    (records : List NodeRecord) : s.Moves (Restore.spawnAll palette s report records).1 := by
  induction records generalizing s report with
  | nil => exact .refl
  | cons r rest ih =>
    unfold Restore.spawnAll
    split
    · exact ih h _
    · rename_i kind hkind
      have hspawn := moves_spawnRecord h kind r
      exact hspawn.trans (ih (h.moves hspawn) _)

theorem moves_connectEach (s : Session) (edges : List PendingEdge) :
    s.Moves (Restore.connectEach s edges).session := by
  induction edges generalizing s with
  | nil => exact .refl
  | cons e rest ih =>
    unfold Restore.connectEach
    split
    · rename_i c t ht
      exact .head (.connect ht) (ih t)
    · exact ih s
    · exact ih s

theorem moves_connectAll (rounds : Nat) (s : Session) (edges : List PendingEdge) :
    s.Moves (Restore.connectAll rounds s edges).2 := by
  induction rounds generalizing s edges with
  | zero => exact .refl
  | succ rounds ih =>
    unfold Restore.connectAll
    dsimp only
    split
    · exact moves_connectEach s edges
    · exact (moves_connectEach s edges).trans (ih _ _)

theorem moves_restore {s : Session} (h : s.Intact) (palette : Palette) (program : Program) :
    s.Moves (s.restore palette program).2 := by
  have hremove := (moves_removeAll h).1
  have hregister := hremove.trans (moves_registerVariables s.removeAll program.variableTypes)
  have hspawn := hregister.trans (moves_spawnAll (h.moves hregister) palette ⟨.empty, [], 0⟩
    (Restore.firstRecords program.records))
  exact hspawn.trans (moves_connectAll _ _ _)

end Restoring

/-! ## Operations -/

theorem moves_disconnect {s : Session} (h : s.Intact) (c : ConnectorId) : s.Moves (s.disconnect c).2 :=
  (cleared_disconnect h c).moves

theorem moves_clearConnections {s : Session} (h : s.Intact) (id : NodeId) :
    s.Moves (s.clearConnections id).2 := by
  obtain ⟨ids, hclear, -⟩ := cleared_clearConnections h id
  exact hclear.moves

section Stepwise
variable {R : Session → Session → Prop} (hrefl : ∀ s, R s s) (htrans : ∀ {s t u}, R s t → R t u → R s u)
  (hdrop : ∀ (s : Session) c, s.Intact → R s (s.disconnect c).2) {s : Session} (h : s.Intact)

include hrefl htrans hdrop h

theorem disconnectAll_stepwise (ids : List ConnectorId) : R s (s.disconnectAll ids).2 := by
  induction ids generalizing s with
  | nil => exact hrefl s
  | cons c rest ih => exact htrans (hdrop s c h) (ih (h.moves (moves_disconnect h c)))

/-- A node is cleared in steps: the drag is abandoned, and the edges are dropped one by one. -/
theorem clearConnections_stepwise (hcancel : R s s.cancelDrag) (id : NodeId) :
    R s (s.clearConnections id).2 := by
  have habandon : R s (if s.dragTouches id then s.cancelDrag else s) ∧
      (if s.dragTouches id then s.cancelDrag else s).Intact := by
    split
    · exact ⟨hcancel, h.moves (moves_cancelDrag s)⟩
    · exact ⟨hrefl s, h⟩
  unfold clearConnections
  dsimp only
  generalize (if s.dragTouches id then s.cancelDrag else s) = m at habandon ⊢
  obtain ⟨hfirst, hmid⟩ := habandon
  split
  · exact htrans hfirst (disconnectAll_stepwise hrefl htrans hdrop hmid _)
  · exact hfirst

end Stepwise

theorem eq_of_beginDrag_none {s t : Session} {plug : PlugRef} {pointer : Point}
    (ht : s.beginDrag plug pointer = (none, t)) : t = s := by
  unfold beginDrag at ht
  split at ht
  · split at ht
    · exact (congrArg Prod.snd ht).symm
    · cases ht
  · exact (congrArg Prod.snd ht).symm

theorem moves_beginDrag (s : Session) (plug : PlugRef) (pointer : Point) :
    s.Moves (s.beginDrag plug pointer).2 := by
  cases ht : s.beginDrag plug pointer with
  | mk id t =>
    cases id with
    | some id => exact .single (.beginDrag ht)
    | none => rw [eq_of_beginDrag_none ht]

theorem eq_of_reconnect_false {s t : Session} {id : ConnectorId} {pointer : Point}
    (ht : s.reconnect id pointer = (false, t)) : t = s := by
  unfold reconnect at ht
  split at ht
  · cases ht
  · exact (congrArg Prod.snd ht).symm

theorem moves_reconnect (s : Session) (id : ConnectorId) (pointer : Point) :
    s.Moves (s.reconnect id pointer).2 := by
  cases ht : s.reconnect id pointer with
  | mk picked t =>
    cases picked with
    | true => exact .single (.reconnect ht)
    | false => rw [eq_of_reconnect_false ht]

theorem moves_endDrag (s : Session) : s.Moves s.endDrag.2 := by
  unfold endDrag
  split
  · exact .refl
  · rename_i d hd
    split
    · exact .single (.discard hd)
    · rename_i r hr
      dsimp only
      split
      · rename_i hok
        exact .single (.release hd hr hok)
      · have hdiscard : s.Move (s.discardDrag d) := .discard hd
        rw [discardDrag, hr] at hdiscard
        exact .single hdiscard

theorem moves_pointer (s : Session) (event : PointerEvent) : s.Moves (s.pointer event).2 := by
  cases event with
  | press target position =>
    cases target with
    | plug p => exact moves_beginDrag s p position
    | connector id => exact moves_reconnect s id position
    | canvas => exact .refl
  | move position => exact .single (.updateDrag s position)
  | release => exact moves_endDrag s

theorem moves_connect (s : Session) (p : PlugRef) (r : SocketRef) :
    s.Moves (s.apply (.connect p r)) := by
  unfold apply perform
  dsimp only
  split
  · rename_i hok
    exact .single (.connect hok)
  · exact .refl

/-- What a host asks for is carried out in moves. -/
theorem moves_apply {s : Session} (h : s.Intact) (o : Operation) (ho : o.Public) : s.Moves (s.apply o) := by
  cases o with
  | spawn kind position scale => exact .single (.spawn s kind position scale)
  | addNode id node => cases ho
  | moveNode id position => exact .single (.moveNode s id position)
  | setScale id scale => exact .single (.setScale s id scale)
  | emitMove id => exact .single (.emitMove s id)
  | bringToFront id => exact .single (.bringToFront s id)
  | clearConnections id => exact moves_clearConnections h id
  | removeNode id => exact (moves_removeNode h id).1
  | removeAll => exact (moves_removeAll h).1
  | selectVariant id variant => exact moves_selectVariant h id variant
  | setValue socket value => exact .single (.setValue s socket value)
  | registerVariable name type => exact .single (.registerVariable s name type)
  | setStyle style => exact .single (.setStyle s style)
  | toggleStyle => exact .single (.setStyle s _)
  | connect plug socket => exact moves_connect s plug socket
  | disconnect id => exact moves_disconnect h id
  | reconnect id position => exact moves_reconnect s id position
  | beginDrag plug position => exact moves_beginDrag s plug position
  | updateDrag position => exact .single (.updateDrag s position)
  | endDrag => exact moves_endDrag s
  | cancelDrag => exact moves_cancelDrag s
  | pointer event => exact moves_pointer s event
  | restore palette program => exact moves_restore h palette program

theorem moves_applyAll {s : Session} (h : s.Intact) (os : List Operation) (hos : ∀ o ∈ os, o.Public) :
    s.Moves (s.applyAll os) := by
  induction os generalizing s with
  | nil => exact .refl
  | cons o rest ih =>
    have hfirst := moves_apply h o (hos o List.mem_cons_self)
    exact hfirst.trans (ih (h.moves hfirst) fun o ho => hos o (List.mem_cons_of_mem _ ho))

/-- The session results from a new one by operations of a host. -/
def Reached (s : Session) : Prop :=
  ∃ settings os, (∀ o ∈ os, Operation.Public o) ∧ s = (new settings).applyAll os

theorem Reached.moves {s : Session} (h : s.Reached) : ∃ settings, (new settings).Moves s := by
  obtain ⟨settings, os, hos, rfl⟩ := h
  exact ⟨settings, moves_applyAll (intact_new settings) os hos⟩

/-- Every session that is reached is intact. -/
theorem Reached.intact {s : Session} (h : s.Reached) : s.Intact := by
  obtain ⟨settings, hm⟩ := h.moves
  exact (intact_new settings).moves hm

/-- What holds of a new session and is kept by every move of an intact one holds of every session that
is reached. -/
theorem Reached.induction {P : Session → Prop} {s : Session} (h : s.Reached)
    (hnew : ∀ settings, P (new settings))
    (hmove : ∀ s t : Session, s.Intact → P s → s.Move t → P t) : P s := by
  obtain ⟨settings, hm⟩ := h.moves
  have hboth : s.Intact ∧ P s := by
    clear h
    induction hm with
    | refl => exact ⟨intact_new settings, hnew settings⟩
    | tail _ hstep ih => exact ⟨ih.1.move hstep, hmove _ _ ih.1 ih.2 hstep⟩
  exact hboth.2

end Session
end FlowGraph

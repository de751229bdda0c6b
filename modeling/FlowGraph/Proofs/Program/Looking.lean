import FlowGraph.Proofs.Node.Look
import FlowGraph.Proofs.Program.Alike
import FlowGraph.Proofs.Session.Typing

/-! # Looking at a session

Laying nodes on top, drawing connectors in another style and pulling a connector out of a plug without
fastening it anywhere changes what is seen of a graph, but nothing that saving reads. A connector that is
being dragged is on no port, so no flow and no record comes upon it.
-/

namespace FlowGraph
set_option autoImplicit false

theorem OrderedMap.get?_of_perm {κ α : Type} [DecidableEq κ] {m m' : OrderedMap κ α} (hm : m.keys.Nodup)
    (h : m'.entries.Perm m.entries) (k : κ) : m'.get? k = m.get? k := by
  have hm' : m'.keys.Nodup := (h.map Prod.fst).nodup_iff.2 hm
  refine Option.ext fun a => ⟨fun ha => ?_, fun ha => ?_⟩
  · exact get?_of_mem hm (h.mem_iff.1 (mem_of_get? ha))
  · exact get?_of_mem hm' (h.mem_iff.2 (mem_of_get? ha))

/-- What saving reads of a node besides its connectors. -/
def Node.content (n : Node) : (NodeKind × PortTypes) × Look := (n.typing, n.frame.look)

theorem Node.content_modifySocket (n : Node) (port : PortKind) (index : Nat) (f : Socket → Socket)
    (htype : ∀ t, (f t).type = t.type) (hvalue : ∀ t, (f t).value = t.value) :
    Node.content { n with frame := n.frame.modifySocket port index f } = n.content := by
  have htypes := n.frame.portTypes_modifySocket port index f htype
  have hlook := Frame.look_eq (n.frame.body_modifySocket port index f)
    (n.frame.values_modifySocket port index f hvalue)
  exact Prod.ext (congrArg (Prod.mk n.kind) htypes) hlook

theorem Node.content_withdraw (n : Node) (c : ConnectorId) (port : PortKind) (index : Nat) :
    (n.withdraw c port index).content = n.content := by
  refine Prod.ext (n.typing_withdraw c port index) (Frame.look_eq ?_ ?_)
  · exact congrArg Prod.snd (n.body_withdraw c port index)
  · exact n.frame.values_modifyPlug port index _

namespace Session

def content? (s : Session) (id : NodeId) : Option ((NodeKind × PortTypes) × Look) :=
  (s.node? id).map Node.content

/-- Saving sees no difference between the sessions. -/
structure Unseen (s t : Session) : Prop where
  content : ∀ id, t.content? id = s.content? id
  leaving : ∀ p, t.leaving p = s.leaving p
  edge : ∀ c, t.edge? c = s.edge? c
  variableTypes : t.variableTypes = s.variableTypes

theorem edge?_eq (s : Session) (c : ConnectorId) :
    s.edge? c = (s.wiring.edge c).bind fun e => e.connectedTo.map (⟨e.plug, ·⟩) := by
  rw [edge?, wiring, Option.bind_map]
  rfl

namespace Unseen
variable {s t u : Session}

theorem of_wiring (hcontent : ∀ id, t.content? id = s.content? id) (hwiring : t.wiring = s.wiring)
    (hvariables : t.variableTypes = s.variableTypes) : s.Unseen t := by
  refine ⟨hcontent, fun p => ?_, fun c => ?_, hvariables⟩
  · rw [leaving_eq, leaving_eq, hwiring]
  · rw [edge?_eq, edge?_eq, hwiring]

theorem of_nodes (hnodes : ∀ id, t.node? id = s.node? id) (hwiring : t.wiring = s.wiring)
    (hvariables : t.variableTypes = s.variableTypes) : s.Unseen t :=
  of_wiring (fun id => congrArg (Option.map Node.content) (hnodes id)) hwiring hvariables

theorem refl (s : Session) : s.Unseen s := of_nodes (fun _ => rfl) rfl rfl

theorem trans (h : s.Unseen t) (h' : t.Unseen u) : s.Unseen u where
  content id := (h'.content id).trans (h.content id)
  leaving p := (h'.leaving p).trans (h.leaving p)
  edge c := (h'.edge c).trans (h.edge c)
  variableTypes := h'.variableTypes.trans h.variableTypes

theorem foldl {α : Type} (f : Session → α → Session) (hf : ∀ (s : Session) a, s.Unseen (f s a)) (l : List α)
    (s : Session) : s.Unseen (l.foldl f s) :=
  List.foldlRecOn (motive := s.Unseen) l f (refl s) fun t ht a _ => ht.trans (hf t a)

theorem setDrag (h : s.Unseen t) (drag : Option Drag) : s.Unseen { t with drag := drag } :=
  h.trans (of_nodes (fun _ => rfl) rfl rfl)

/-! ## What is saved -/

theorem node (h : s.Unseen t) {id : NodeId} {n : Node} (hn : s.node? id = some n) :
    ∃ m, t.node? id = some m ∧ m.content = n.content := by
  have hcontent := h.content id
  rw [content?, content?, hn] at hcontent
  exact Option.map_eq_some_iff.1 hcontent

theorem typing? (h : s.Unseen t) (id : NodeId) : t.typing? id = s.typing? id := by
  have hcontent := congrArg (Option.map Prod.fst) (h.content id)
  rw [content?, content?, Option.map_map, Option.map_map] at hcontent
  exact hcontent

theorem edge_iff (h : s.Unseen t) {c : ConnectorId} {e : PendingEdge} :
    (∃ k, t.connector? c = some k ∧ k.plug = e.plug ∧ k.connectedTo = some e.socket) ↔
      ∃ k, s.connector? c = some k ∧ k.plug = e.plug ∧ k.connectedTo = some e.socket := by
  have hedge (u : Session) :
      (∃ k, u.connector? c = some k ∧ k.plug = e.plug ∧ k.connectedTo = some e.socket) ↔
        u.edge? c = some e := by
    refine ⟨?_, edge?_eq_some⟩
    rintro ⟨k, hk, hplug, hsocket⟩
    rw [edge?_of_connector? hk hsocket, hplug]
  rw [hedge, hedge, h.edge]

theorem startNodes (h : s.Unseen t) (hi : s.Intact) (hi' : t.Intact) : t.startNodes = s.startNodes := by
  refine startNodes_eq hi' (sorted_startNodes hi) fun id => ?_
  have hkind : (t.node? id).map (·.kind) = (s.node? id).map (·.kind) := kindOf_congr (h.typing? id)
  have hstart (u : Session) : (∃ n, u.node? id = some n ∧ n.kind = .startEvent) ↔
      (u.node? id).map (·.kind) = some .startEvent := Option.map_eq_some_iff.symm
  rw [mem_startNodes hi, hstart, hstart, hkind]

theorem alike (h : s.Unseen t) (hi : s.Intact) (hi' : t.Intact) (ht : t.Shaped) : s.Alike t id id where
  intact := hi'
  shaped := ht
  apart _ _ _ _ hsame := hsame
  starts := by rw [h.startNodes hi hi', List.map_id]
  node id n _ hn := by
    obtain ⟨m, hm, hcontent⟩ := h.node hn
    have hlook : m.frame.look = n.frame.look := congrArg Prod.snd hcontent
    exact ⟨m, hm, congrArg (·.1.1) hcontent, congrArg Look.position hlook, congrArg Look.scale hlook,
      congrArg Look.variant hlook⟩
  input r u u' _ hdata hu hu' := by
    have htype : t.inputType? r = s.inputType? r := inputType?_congr (h.typing? r.node)
    rw [inputType?, inputType?, hu, show t.socket? r = some u' from hu'] at htype
    obtain ⟨n, hn, hsocket⟩ := Option.bind_eq_some_iff.1 hu
    obtain ⟨m, hm, hsocket'⟩ := Option.bind_eq_some_iff.1 hu'
    obtain ⟨m', hm', hcontent⟩ := h.node hn
    obtain rfl := Option.some.inj (hm.symm.trans hm')
    have hvalue : m.frame.values[r.index]? = n.frame.values[r.index]? :=
      congrArg (·.2.values[r.index]?) hcontent
    rw [hdata] at hsocket hsocket'
    rw [Frame.values_getElem?, Frame.values_getElem?, hsocket, hsocket'] at hvalue
    exact ⟨Option.some.inj htype, fun _ => Option.some.inj hvalue⟩
  leaving p _ := by rw [List.map_id]; exact h.leaving p
  edge c k r hk hr _ := (h.edge_iff (e := ⟨k.plug, r⟩)).2 ⟨k, hk, rfl, hr⟩
  arrival c' k' r hk' _ hr' := by
    obtain ⟨k, hk, hplug, hr⟩ := (h.edge_iff (e := ⟨k'.plug, r⟩)).1 ⟨k', hk', rfl, hr'⟩
    exact ⟨c', k, hk, hr, hplug.symm⟩
  variableTypes := congrArg (fun types : Variables => SortedMap.ofList types.entries) h.variableTypes

theorem toProgram (h : s.Unseen t) (hi : s.Intact) (hs : s.Shaped) (hi' : t.Intact) (ht : t.Shaped) :
    t.toProgram = s.toProgram := by
  have hsame := (h.alike hi hi' ht).toProgram hi hs (f := .identity) ⟨fun _ _ => rfl, fun _ _ => rfl, fun _ _ => rfl⟩
  rw [hsame, Program.rename_identity]

end Unseen

/-! ## Changes that are not saved -/

section Changes
variable (s : Session)

theorem content?_modifyNode (id : NodeId) (f : Node → Node) (hf : ∀ n, (f n).content = n.content) (m : NodeId) :
    (s.modifyNode id f).content? m = s.content? m := by
  rw [content?, node?_modifyNode]
  split
  · rw [Option.map_map]
    exact congrArg (Option.map · _) (funext hf)
  · rfl

theorem unseen_modifyNode (id : NodeId) (f : Node → Node) (hcontent : ∀ n, (f n).content = n.content)
    (hwires : ∀ n, (f n).frame.wires = n.frame.wires) : s.Unseen (s.modifyNode id f) :=
  .of_wiring (s.content?_modifyNode id f hcontent) (s.wiring_modifyNode id f hwires) rfl

theorem unseen_modifyConnector (c : ConnectorId) (f : Connector → Connector) (hf : ∀ k, (f k).edge = k.edge) :
    s.Unseen (s.modifyConnector c f) :=
  .of_nodes (fun _ => rfl) (s.wiring_modifyConnector_eq c f hf) rfl

theorem unseen_drawPath (c : ConnectorId) : s.Unseen (s.drawPath c) := by
  unfold drawPath
  split
  · exact .of_nodes (fun _ => rfl) rfl rfl
  · exact .refl s

theorem unseen_setRadius (r : SocketRef) (radius : Float) : s.Unseen (s.setRadius r radius) :=
  s.unseen_modifyNode r.node _ (fun n => n.content_modifySocket _ _ _ (fun _ => rfl) fun _ => rfl)
    fun n => n.frame.wires_modifySocket_eq _ _ _ fun _ => rfl

theorem unseen_resetRadius? (r : Option SocketRef) : s.Unseen (s.resetRadius? r) := by
  cases r with
  | none => exact .refl s
  | some r =>
    exact s.unseen_modifyNode r.node _ (fun n => n.content_modifySocket _ _ _ (fun _ => rfl) fun _ => rfl)
      fun n => n.frame.wires_modifySocket_eq _ _ _ fun _ => rfl

theorem unseen_emitMove (id : NodeId) : s.Unseen (s.emitMove id) := by
  unfold emitMove
  split
  · refine .foldl _ (fun s c => ?_) _ s
    refine Unseen.trans ?_ (unseen_drawPath _ c)
    exact s.unseen_modifyConnector c _ fun _ => rfl
  · exact .refl s

theorem unseen_bringToFront (id : NodeId) : s.Unseen (s.bringToFront id) := by
  unfold bringToFront
  split
  · exact .refl s
  · have hraise : s.Unseen ({ s with nodes := s.nodes.raise id }.draw (.raise (.node id))) :=
      .of_nodes (s.nodes.get?_raise id) (s.quiet_raiseNode id).wiring rfl
    refine hraise.trans (.foldl _ (fun s c => ?_) _ _)
    exact .of_nodes (fun _ => rfl) (s.quiet_raiseConnector c).wiring rfl

theorem content_restyle (style : ConnectorStyle) (n : Node) : (restyle style n).content = n.content :=
  Prod.ext (typing_restyle style n) rfl

theorem unseen_setStyle (style : ConnectorStyle) : s.Unseen (s.setStyle style) := by
  have hwiring := (s.quiet_setStyle style).wiring
  have hdrawn (t : Session) (l : List ConnectorId) : t.Unseen (l.foldl drawPath t) := .foldl _ unseen_drawPath l t
  unfold setStyle at hwiring ⊢
  refine .of_wiring (fun m => ((hdrawn _ _).content m).trans ?_) hwiring (hdrawn _ _).variableTypes
  show ((s.nodes.mapValues (restyle style)).get? m).map Node.content = (s.nodes.get? m).map Node.content
  rw [OrderedMap.get?_mapValues, Option.map_map]
  exact congrArg (Option.map · _) (funext (content_restyle style))

theorem unseen_updateDrag (pointer : Point) : s.Unseen (s.updateDrag pointer) := by
  refine updateDrag_induction pointer (.refl s) (fun d _ => ?_) (fun t r ht => ht.trans (t.unseen_resetRadius? r))
    (fun t r x ht => ht.trans (t.unseen_setRadius r x)) fun _ e ht => ht.setDrag e
  refine Unseen.trans ?_ (unseen_drawPath _ d.connector)
  exact s.unseen_modifyConnector d.connector _ fun _ => rfl

variable {s}

/-- A new connector is loose, so it is on no port and no edge. -/
theorem unseen_addConnector (h : s.Intact) (p : PlugRef) (start stop : Point) (style : ConnectorStyle) :
    s.Unseen (s.addConnector p start stop style).2 where
  content id := content?_modifyNode { s with ids := s.ids.connector.2 } p.node
    (fun n => { n with frame := { n.frame with dependents := n.frame.dependents ++ [s.ids.connector.1] } })
    (fun _ => rfl) id
  leaving q := by
    rw [leaving_eq, leaving_eq, wiring_addConnector]
    rfl
  edge c := by
    rw [edge?_eq, edge?_eq, wiring_addConnector]
    show (if c = s.ids.connector.1 then some (Edge.mk p none .dragging) else s.wiring.edge c).bind _ = _
    split
    · rename_i hc
      rw [hc, h.tied.edge_fresh]
      rfl
    · rfl
  variableTypes := rfl

theorem unseen_beginDrag (h : s.Intact) (p : PlugRef) (pointer : Point) :
    s.Unseen (s.beginDrag p pointer).2 := by
  cases ht : s.beginDrag p pointer with
  | mk c t =>
    cases c with
    | none =>
      rw [eq_of_beginDrag_none ht]
      exact .refl s
    | some c =>
      obtain ⟨-, q, start, -, rfl, rfl⟩ := Intact.beginDrag_eq ht
      exact ((unseen_addConnector h p start pointer q.style).trans (unseen_drawPath _ _)).setDrag _

/-- What is on no port takes nothing along that is saved. -/
theorem unseen_destroyConnector {c : ConnectorId} {p : PlugRef}
    (hc : s.wiring.edge c = some ⟨p, none, .dragging⟩) (hloose : ∀ q, c ∉ s.leaving q) :
    s.Unseen (s.destroyConnector c) where
  content id := by
    unfold destroyConnector
    split
    · rfl
    · rename_i k _
      exact content?_modifyNode { s with connectors := s.connectors.erase c } k.plug.node _
        (fun n => n.content_withdraw c _ _) id
  leaving q := by
    have hfree := hloose q
    rw [leaving_eq] at hfree
    rw [leaving_eq, leaving_eq, wiring_destroyConnector hc]
    show (if q = p then (s.wiring.departures p).map (without c) else s.wiring.departures q).getD [] = _
    split
    · rename_i hq
      rw [← hq]
      cases hl : s.wiring.departures q with
      | none => rfl
      | some l =>
        rw [hl] at hfree
        refine List.filter_eq_self.2 fun d hd => decide_eq_true ?_
        rintro rfl
        exact hfree hd
    · rfl
  edge d := by
    rw [edge?_eq, edge?_eq, wiring_destroyConnector hc]
    show (if d = c then none else s.wiring.edge d).bind _ = _
    split
    · rename_i hd
      rw [hd, hc]
      rfl
    · rfl
  variableTypes := by
    unfold destroyConnector
    split <;> rfl

theorem unseen_discardDrag (h : s.Intact) {d : Drag} (hd : s.drag = some d) : s.Unseen (s.discardDrag d) := by
  have hidle := ((Unseen.refl s).setDrag none).trans (unseen_resetRadius? _ d.snap)
  refine hidle.trans (unseen_destroyConnector (h.edge_released hd d.snap) fun q hin => ?_)
  rw [hidle.leaving] at hin
  obtain ⟨k, r, hk, -, hr⟩ := (mem_leaving h).1 hin
  have hdragged := (edge_of_connector? hk).symm.trans (h.drag d hd)
  exact absurd (hr.symm.trans (congrArg Edge.connectedTo (Option.some.inj hdragged))) nofun

theorem unseen_cancelDrag (h : s.Intact) : s.Unseen s.cancelDrag := by
  unfold cancelDrag
  split
  · rename_i d hd
    exact unseen_discardDrag h hd
  · exact .refl s

theorem unseen_endDrag (h : s.Intact) (hsnap : s.snapTarget? = none) : s.Unseen s.endDrag.2 := by
  unfold endDrag
  split
  · exact .refl s
  · rename_i d hd
    have hnone : d.snap = none := by
      rw [snapTarget?, hd] at hsnap
      exact hsnap
    rw [hnone]
    exact unseen_discardDrag h hd

end Changes

/-! ## Looking -/

/-- Whether carrying out the operation only shows the graph differently. A release only does so if there is
nothing to snap to. -/
def Looks (s : Session) : Operation → Prop
  | .emitMove _ | .bringToFront _ | .setStyle _ | .toggleStyle => True
  | .beginDrag .. | .updateDrag _ | .cancelDrag => True
  | .endDrag | .pointer .release => s.snapTarget? = none
  | .pointer (.press (.plug _) _) | .pointer (.press .canvas _) | .pointer (.move _) => True
  | _ => False

/-- Whether each of the operations only does so when its turn has come. -/
def OnlyLooks : Session → List Operation → Prop
  | _, [] => True
  | s, o :: rest => s.Looks o ∧ OnlyLooks (s.apply o) rest

theorem Looks.isPublic {s : Session} {o : Operation} (h : s.Looks o) : o.Public := by
  cases o <;> trivial

theorem unseen_apply {s : Session} (h : s.Intact) {o : Operation} (ho : s.Looks o) : s.Unseen (s.apply o) := by
  cases o with
  | emitMove id => exact s.unseen_emitMove id
  | bringToFront id => exact s.unseen_bringToFront id
  | setStyle style => exact s.unseen_setStyle style
  | toggleStyle => exact s.unseen_setStyle _
  | beginDrag p pointer => exact unseen_beginDrag h p pointer
  | updateDrag pointer => exact s.unseen_updateDrag pointer
  | cancelDrag => exact unseen_cancelDrag h
  | endDrag => exact unseen_endDrag h ho
  | pointer event =>
    cases event with
    | press target pointer =>
      cases target with
      | plug p => exact unseen_beginDrag h p pointer
      | canvas => exact .refl s
      | connector c => cases ho
    | move pointer => exact s.unseen_updateDrag pointer
    | release => exact unseen_endDrag h ho
  | _ => cases ho

theorem toProgram_applyAll {s : Session} (hi : s.Intact) (hs : s.Shaped) {os : List Operation}
    (h : s.OnlyLooks os) : (s.applyAll os).toProgram = s.toProgram := by
  induction os generalizing s with
  | nil => rfl
  | cons o rest ih =>
    have hm := moves_apply hi o h.1.isPublic
    have hstep := (unseen_apply hi h.1).toProgram hi hs (hi.moves hm) (hs.moves hm)
    exact (ih (hi.moves hm) (hs.moves hm) h.2).trans hstep

/-- The order in which things are drawn is not saved. -/
theorem toProgram_of_perm {s : Session} (hi : s.Intact) (hs : s.Shaped) {nodes : OrderedMap NodeId Node}
    {connectors : OrderedMap ConnectorId Connector} (hnodes : nodes.entries.Perm s.nodes.entries)
    (hconnectors : connectors.entries.Perm s.connectors.entries) :
    { s with nodes := nodes, connectors := connectors }.toProgram = s.toProgram := by
  let t : Session := { s with nodes := nodes, connectors := connectors }
  have hnode : ∀ id, t.node? id = s.node? id := OrderedMap.get?_of_perm hi.tied.nodesOnce hnodes
  have hconnector : ∀ c, t.connector? c = s.connector? c :=
    OrderedMap.get?_of_perm hi.tied.connectorsOnce hconnectors
  have hquiet : s.Quiet t :=
    { nodesOnce := fun honce => (hnodes.map Prod.fst).nodup_iff.2 honce
      connectorsOnce := fun honce => (hconnectors.map Prod.fst).nodup_iff.2 honce
      ids := rfl
      drag := rfl
      kinds := fun id => congrArg (Option.map Node.kind) (hnode id)
      wiring := wiring_congr (fun id => congrArg (Option.map fun n : Node => n.frame.wires) (hnode id))
        (funext fun c => congrArg (Option.map Connector.edge) (hconnector c)) }
  exact (Unseen.of_nodes hnode hquiet.wiring rfl).toProgram hi hs (hi.quiet hquiet) (hs.of_nodes hnode)

/-- Whoever only looks at a graph, in whatever order it is drawn, finds the same program saved. -/
theorem Reached.same_program {s : Session} (h : s.Reached) :
    (∀ os, s.OnlyLooks os → (s.applyAll os).toProgram = s.toProgram) ∧
      ∀ (nodes : OrderedMap NodeId Node) (connectors : OrderedMap ConnectorId Connector),
        nodes.entries.Perm s.nodes.entries → connectors.entries.Perm s.connectors.entries →
          { s with nodes := nodes, connectors := connectors }.toProgram = s.toProgram :=
  ⟨fun _ hos => toProgram_applyAll h.intact h.shaped hos,
    fun _ _ hnodes hconnectors => toProgram_of_perm h.intact h.shaped hnodes hconnectors⟩

/-- A session in which a connector is being pulled out of a logging. -/
def amidPull : Session := (new .standard).applyAll [.spawn .startEvent .origin 1.0,
  .spawn .consoleLog .origin 1.0, .connect ⟨⟨0⟩, .flow, 0⟩ ⟨⟨1⟩, .flow, 0⟩, .beginDrag ⟨⟨1⟩, .flow, 0⟩ .origin]

/-- The connector is let go, and others are pulled out of the start while nodes are laid on top and connectors
are drawn in another style. -/
def pulls : List Operation :=
  [.endDrag, .pointer (.press (.plug ⟨⟨0⟩, .flow, 0⟩) .origin), .bringToFront ⟨0⟩, .emitMove ⟨0⟩,
    .pointer .release, .toggleStyle, .beginDrag ⟨⟨0⟩, .flow, 0⟩ .origin, .updateDrag .origin, .cancelDrag]

theorem same_program_pulls : amidPull.OnlyLooks pulls ∧
    (amidPull.applyAll pulls).toProgram = amidPull.toProgram ∧
      { amidPull with
        nodes := ⟨amidPull.nodes.entries.reverse⟩
        connectors := ⟨amidPull.connectors.entries.reverse⟩ }.toProgram = amidPull.toProgram := by
  have hlooks : amidPull.OnlyLooks pulls :=
    ⟨rfl, trivial, trivial, trivial, rfl, trivial, trivial, trivial, trivial, trivial⟩
  obtain ⟨hrun, horder⟩ := Reached.same_program (s := amidPull) ⟨.standard, _, by simp [Operation.Public], rfl⟩
  exact ⟨hlooks, hrun pulls hlooks, horder _ _ (List.reverse_perm _) (List.reverse_perm _)⟩

end Session
end FlowGraph

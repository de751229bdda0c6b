import FlowGraph.Proofs.Node.Renumbered
import FlowGraph.Proofs.Program.Carried
import FlowGraph.Proofs.Program.Respawn
import FlowGraph.Proofs.Session.Picture

/-! # Sessions under other identities

Two sessions may hold the same graph under other identities. What is asked of one of them has the same answer
in the other one, and changes both alike. Identities are handed out in order, so it is enough for this that
the numbers of one session are those of the other one, all further up by the same amount.
-/

namespace FlowGraph
set_option autoImplicit false

namespace OrderedMap
variable {κ ν α β : Type} {f : κ → ν} {h : α → β}

def relabel (m : OrderedMap κ α) (f : κ → ν) (h : α → β) : OrderedMap ν β :=
  ⟨m.entries.map fun e => (f e.1, h e.2)⟩

theorem keys_relabel (m : OrderedMap κ α) (f : κ → ν) (h : α → β) : (m.relabel f h).keys = m.keys.map f := by
  simp only [keys, relabel, List.map_map]
  rfl

theorem relabel_relabel {ω γ : Type} (m : OrderedMap κ α) (f : κ → ν) (h : α → β) (f' : ν → ω) (h' : β → γ) :
    (m.relabel f h).relabel f' h' = m.relabel (f' ∘ f) (h' ∘ h) := by
  simp only [relabel, List.map_map]
  rfl

theorem image_image {γ : Type} (m : OrderedMap κ α) (u : α → β) (v : β → γ) :
    (m.image u).image v = m.image (v ∘ u) := by
  simp only [image, List.map_map]
  rfl

variable [DecidableEq κ] [DecidableEq ν]

theorem get?_relabel {m : OrderedMap κ α} {k : κ} (hf : ∀ j ∈ m.keys, f j = f k → j = k) (h : α → β) :
    (m.relabel f h).get? (f k) = (m.get? k).map h := by
  obtain ⟨entries⟩ := m
  simp only [keys] at hf
  simp only [get?, relabel]
  induction entries with
  | nil => rfl
  | cons e es ih =>
    have hrest := ih fun j hj => hf j (List.mem_cons_of_mem _ hj)
    by_cases hk : e.1 = k
    · simp [hk]
    · have hfk : f e.1 ≠ f k := fun hsame => hk (hf e.1 List.mem_cons_self hsame)
      simpa [hk, hfk] using hrest

theorem exists_of_get?_relabel {m : OrderedMap κ α} (honce : m.keys.Nodup) {k : ν} {b : β}
    (hk : (m.relabel f h).get? k = some b) : ∃ j a, m.get? j = some a ∧ f j = k ∧ h a = b := by
  obtain ⟨e, he, hsame⟩ := List.mem_map.1 (mem_of_get? hk)
  obtain ⟨hkey, hvalue⟩ := Prod.mk.inj hsame
  exact ⟨e.1, e.2, get?_of_mem honce he, hkey, hvalue⟩

theorem relabel_modify (hf : Function.Injective f) (m : OrderedMap κ α) (k : κ) {u : α → α} {u' : β → β}
    (hu : ∀ a, h (u a) = u' (h a)) : (m.modify k u).relabel f h = (m.relabel f h).modify (f k) u' := by
  simp only [relabel, modify, List.map_map, mk.injEq]
  refine List.map_congr_left fun e _ => ?_
  by_cases he : e.1 = k <;> simp [he, hu, hf.eq_iff]

theorem relabel_put (hf : Function.Injective f) (m : OrderedMap κ α) (k : κ) (a : α) :
    (m.put k a).relabel f h = (m.relabel f h).put (f k) (h a) := by
  have hkeep : ((fun e : ν × β => decide (e.1 ≠ f k)) ∘ fun e : κ × α => (f e.1, h e.2)) =
      fun e => decide (e.1 ≠ k) := by
    funext e
    simp only [Function.comp_apply, ne_eq, hf.eq_iff]
  simp only [put, erase, relabel, List.map_append, List.map_cons, List.map_nil, List.filter_map, hkeep]

end OrderedMap

def PlugRef.renumber (f : NodeId → NodeId) (p : PlugRef) : PlugRef := { p with node := f p.node }

def SocketRef.renumber (f : NodeId → NodeId) (r : SocketRef) : SocketRef := { r with node := f r.node }

def Connector.renumber (f : NodeId → NodeId) (k : Connector) : Connector :=
  { k with plug := k.plug.renumber f, connectedTo := k.connectedTo.map (SocketRef.renumber f) }

def ConnectionError.renumber (f : NodeId → NodeId) : ConnectionError → ConnectionError
  | .unknownNode id => .unknownNode (f id)
  | .unknownPort id side index => .unknownPort (f id) side index
  | .selfConnection id => .selfConnection (f id)
  | .typeMismatch socket plug => .typeMismatch socket plug
  | .duplicate => .duplicate
  | .socketOccupied => .socketOccupied

namespace Session

/-- The graph of the second session is that of the first one, under other identities. -/
structure Renumbered (s t : Session) (f : NodeId → NodeId) (g : ConnectorId → ConnectorId) : Prop where
  nodes : t.nodes = s.nodes.relabel f (Node.renumber g)
  connectors : t.connectors = s.connectors.relabel g (Connector.renumber f)

namespace Renumbered
variable {s t : Session} {f : NodeId → NodeId} {g : ConnectorId → ConnectorId}

/-! ## Answers -/

section Views
variable (h : s.Renumbered t f g) (hf : Function.Injective f)
include h hf

theorem node? (id : NodeId) : t.node? (f id) = (s.node? id).map (Node.renumber g) := by
  rw [Session.node?, h.nodes]
  exact OrderedMap.get?_relabel (fun _ _ hsame => hf hsame) _

theorem plug? (p : PlugRef) : t.plug? (p.renumber f) = (s.plug? p).map (Plug.renumber g) := by
  show (t.node? (f p.node)).bind _ = _
  rw [h.node? hf, Session.plug?, Option.bind_map, Option.map_bind]
  exact congrArg _ (funext fun n => n.frame.plug?_renumber g p.kind p.index)

theorem socket? (r : SocketRef) : t.socket? (r.renumber f) = (s.socket? r).map (Socket.renumber g) := by
  show (t.node? (f r.node)).bind _ = _
  rw [h.node? hf, Session.socket?, Option.bind_map, Option.map_bind]
  exact congrArg _ (funext fun n => n.frame.socket?_renumber g r.kind r.index)

theorem plugAnchor? (p : PlugRef) : t.plugAnchor? (p.renumber f) = s.plugAnchor? p := by
  show (t.node? (f p.node)).bind _ = _
  rw [h.node? hf, Session.plugAnchor?, Option.bind_map]
  exact congrArg _ (funext fun n => n.frame.plugAnchor?_renumber g p.kind p.index)

theorem socketAnchor? (r : SocketRef) : t.socketAnchor? (r.renumber f) = s.socketAnchor? r := by
  show (t.node? (f r.node)).bind _ = _
  rw [h.node? hf, Session.socketAnchor?, Option.bind_map]
  exact congrArg _ (funext fun n => n.frame.socketAnchor?_renumber g r.kind r.index)

omit hf in
theorem connector? (hg : Function.Injective g) (c : ConnectorId) :
    t.connector? (g c) = (s.connector? c).map (Connector.renumber f) := by
  rw [Session.connector?, h.connectors]
  exact OrderedMap.get?_relabel (fun _ _ hsame => hg hsame) _

theorem isLinked (hg : Function.Injective g) (p : PlugRef) (r : SocketRef) :
    t.isLinked (p.renumber f) (r.renumber f) = s.isLinked p r := by
  have hsocket : Function.Injective (SocketRef.renumber f) := fun a b hab =>
    SocketRef.eq_of_moved (fun hnode => hf hnode) hab
  have harrives (c : ConnectorId) : ((t.connector? (g c)).bind (·.connectedTo) == some (r.renumber f)) =
      ((s.connector? c).bind (·.connectedTo) == some r) := by
    have hto : (t.connector? (g c)).bind (·.connectedTo) =
        ((s.connector? c).bind (·.connectedTo)).map (SocketRef.renumber f) := by
      rw [h.connector? hg, Option.bind_map, Option.map_bind]
      rfl
    rw [hto, Bool.eq_iff_iff, beq_iff_eq, beq_iff_eq]
    exact (Option.map_injective hsocket).eq_iff (b := some r)
  unfold Session.isLinked
  rw [h.plug? hf]
  cases s.plug? p with
  | none => rfl
  | some q =>
    show (q.connected.map g).any _ = q.connected.any _
    rw [List.any_map]
    exact congrArg _ (funext harrives)

theorem validate (hg : Function.Injective g) (p : PlugRef) (r : SocketRef) :
    t.validate (p.renumber f) (r.renumber f) = (s.validate p r).mapError (·.renumber f) := by
  have hlinked := h.isLinked hf hg p r
  have hsource : t.node? (p.renumber f).node = _ := h.node? hf p.node
  have htarget : t.node? (r.renumber f).node = _ := h.node? hf r.node
  unfold Session.validate
  rw [hsource, htarget, hlinked]
  cases s.node? p.node with
  | none => rfl
  | some n =>
    cases s.node? r.node with
    | none => rfl
    | some m =>
      have hplug : (n.renumber g).frame.plug? (p.renumber f).kind (p.renumber f).index = _ :=
        n.frame.plug?_renumber g p.kind p.index
      have hsocket : (m.renumber g).frame.socket? (r.renumber f).kind (r.renumber f).index = _ :=
        m.frame.socket?_renumber g r.kind r.index
      simp only [Option.map_some]
      rw [hplug, hsocket]
      cases n.frame.plug? p.kind p.index with
      | none => rfl
      | some q =>
        cases m.frame.socket? r.kind r.index with
        | none => rfl
        | some u =>
          have hsame : (p.renumber f).node = (r.renumber f).node ↔ p.node = r.node := hf.eq_iff
          have hconnected := u.isConnected_renumber g
          simp only [Option.map_some, hsame, hconnected]
          rw [apply_ite (Except.mapError _), apply_ite (Except.mapError _), apply_ite (Except.mapError _),
            apply_ite (Except.mapError _)]
          rfl

end Views

/-! ## Changes -/

section Changes
variable (h : s.Renumbered t f g)
include h

theorem modifyNode (hf : Function.Injective f) (id : NodeId) (F F' : Node → Node)
    (hF : ∀ n, (F n).renumber g = F' (n.renumber g)) :
    (s.modifyNode id F).Renumbered (t.modifyNode (f id) F') f g := by
  refine ⟨?_, h.connectors⟩
  show t.nodes.modify (f id) F' = (s.nodes.modify id F).relabel f (Node.renumber g)
  rw [h.nodes, OrderedMap.relabel_modify hf _ _ hF]

theorem modifyConnector (hg : Function.Injective g) (c : ConnectorId) (F F' : Connector → Connector)
    (hF : ∀ k, (F k).renumber f = F' (k.renumber f)) :
    (s.modifyConnector c F).Renumbered (t.modifyConnector (g c) F') f g := by
  refine ⟨h.nodes, ?_⟩
  show t.connectors.modify (g c) F' = (s.connectors.modify c F).relabel g (Connector.renumber f)
  rw [h.connectors, OrderedMap.relabel_modify hg _ _ hF]

end Changes

theorem drawPath (h : s.Renumbered t f g) (c d : ConnectorId) :
    (s.drawPath c).Renumbered (t.drawPath d) f g := by
  obtain ⟨calls, hs⟩ := s.drawPath_eq c
  obtain ⟨calls', ht⟩ := t.drawPath_eq d
  rw [hs, ht]
  exact ⟨h.nodes, h.connectors⟩

end Renumbered
end Session

/-! ## Sessions in step -/

def NodeId.shift (a : Nat) (id : NodeId) : NodeId := ⟨id.number + a⟩

def ConnectorId.shift (b : Nat) (c : ConnectorId) : ConnectorId := ⟨c.number + b⟩

theorem NodeId.shift_injective (a : Nat) : Function.Injective (shift a) := by
  rintro ⟨m⟩ ⟨n⟩ hsame
  exact congrArg NodeId.mk (Nat.add_right_cancel (NodeId.mk.inj hsame))

theorem ConnectorId.shift_injective (b : Nat) : Function.Injective (shift b) := by
  rintro ⟨m⟩ ⟨n⟩ hsame
  exact congrArg ConnectorId.mk (Nat.add_right_cancel (ConnectorId.mk.inj hsame))

namespace Session

/-- Both sessions hold the same graph and hand out what comes next in the same order, the second one further
up in the numbers. -/
structure Shifted (a b : Nat) (s t : Session) : Prop extends s.Renumbered t (.shift a) (.shift b) where
  settings : t.settings = s.settings
  nextNode : t.ids.nextNode = s.ids.nextNode + a
  nextConnector : t.ids.nextConnector = s.ids.nextConnector + b
  idle : s.drag = none
  idleAbove : t.drag = none
  variableTypes : t.variableTypes.get? = s.variableTypes.get?

namespace Shifted
variable {a b : Nat} {s t : Session}

/-! ## Edges -/

theorem freshNode (h : Shifted a b s t) : t.ids.node.1 = s.ids.node.1.shift a :=
  congrArg NodeId.mk h.nextNode

theorem freshConnector (h : Shifted a b s t) : t.ids.connector.1 = s.ids.connector.1.shift b :=
  congrArg ConnectorId.mk h.nextConnector

theorem modifyNode (h : Shifted a b s t) (id : NodeId) (F F' : Node → Node)
    (hF : ∀ n, (F n).renumber (.shift b) = F' (n.renumber (.shift b))) :
    Shifted a b (s.modifyNode id F) (t.modifyNode (id.shift a) F') :=
  ⟨h.toRenumbered.modifyNode (NodeId.shift_injective a) id F F' hF, h.settings, h.nextNode, h.nextConnector, h.idle,
    h.idleAbove, h.variableTypes⟩

theorem modifyConnector (h : Shifted a b s t) (c : ConnectorId) (F F' : Connector → Connector)
    (hF : ∀ k, (F k).renumber (.shift a) = F' (k.renumber (.shift a))) :
    Shifted a b (s.modifyConnector c F) (t.modifyConnector (c.shift b) F') :=
  ⟨h.toRenumbered.modifyConnector (ConnectorId.shift_injective b) c F F' hF, h.settings, h.nextNode,
    h.nextConnector, h.idle, h.idleAbove, h.variableTypes⟩

theorem drawPath (h : Shifted a b s t) (c d : ConnectorId) : Shifted a b (s.drawPath c) (t.drawPath d) := by
  have hdrawn := h.toRenumbered.drawPath c d
  obtain ⟨calls, hs⟩ := s.drawPath_eq c
  obtain ⟨calls', ht⟩ := t.drawPath_eq d
  rw [hs, ht] at hdrawn ⊢
  exact ⟨hdrawn, h.settings, h.nextNode, h.nextConnector, h.idle, h.idleAbove, h.variableTypes⟩

theorem addConnector (h : Shifted a b s t) (p : PlugRef) (start stop : Point) (style : ConnectorStyle) :
    Shifted a b (s.addConnector p start stop style).2
      (t.addConnector (p.renumber (.shift a)) start stop style).2 := by
  have hfollow := h.modifyNode p.node
    (fun n => { n with frame := { n.frame with dependents := n.frame.dependents ++ [s.ids.connector.1] } })
    (fun n => { n with frame := { n.frame with dependents := n.frame.dependents ++ [t.ids.connector.1] } })
    fun n => by
      rw [h.freshConnector]
      simp only [Node.renumber, Frame.renumber, List.map_append, List.map_cons, List.map_nil]
  refine ⟨⟨hfollow.nodes, ?_⟩, h.settings, h.nextNode, ?_, h.idle, h.idleAbove, h.variableTypes⟩
  · show t.connectors.put t.ids.connector.1 _ = (s.connectors.put s.ids.connector.1 _).relabel _ _
    rw [h.connectors, h.freshConnector, OrderedMap.relabel_put (ConnectorId.shift_injective b)]
    rfl
  · show t.ids.nextConnector + 1 = s.ids.nextConnector + 1 + b
    rw [h.nextConnector, Nat.add_right_comm]

theorem link (h : Shifted a b s t) (c : ConnectorId) (r : SocketRef) :
    Shifted a b (s.link c r) (t.link (c.shift b) (r.renumber (.shift a))) := by
  have hf := NodeId.shift_injective a
  have hg := ConnectorId.shift_injective b
  unfold Session.link
  rw [h.connector? hg]
  cases s.connector? c with
  | none => exact h
  | some k =>
    have hplug : t.plug? (k.renumber (.shift a)).plug = _ := h.plug? hf k.plug
    have htype (q : Plug) : (q.renumber (.shift b)).type = q.type := rfl
    simp only [Option.map_some]
    rw [h.socketAnchor? hf, hplug]
    simp only [Option.map_map, Function.comp_def, htype]
    generalize ((s.plug? k.plug).map (·.type)).getD .any = type
    have harrived := h.modifyNode r.node (·.receive c r.kind r.index type)
      (·.receive (c.shift b) r.kind r.index type) fun n => n.renumber_receive c r.kind r.index hg type
    have hsent := harrived.modifyNode k.plug.node (·.send c k.plug.kind k.plug.index)
      (·.send (c.shift b) k.plug.kind k.plug.index) fun n => n.renumber_send c k.plug.kind k.plug.index hg
    have hjoined := hsent.modifyConnector c
      (fun l => { l with
        connectedTo := some r, state := .connected, stop := (s.socketAnchor? r).getD l.stop })
      (fun l => { l with
        connectedTo := some (r.renumber (.shift a)), state := .connected,
        stop := (s.socketAnchor? r).getD l.stop }) fun _ => rfl
    exact hjoined.drawPath c _

theorem validate (h : Shifted a b s t) (p : PlugRef) (r : SocketRef) :
    t.validate (p.renumber (.shift a)) (r.renumber (.shift a)) =
      (s.validate p r).mapError (·.renumber (.shift a)) :=
  h.toRenumbered.validate (NodeId.shift_injective a) (ConnectorId.shift_injective b) p r

theorem connect_error (h : Shifted a b s t) {p : PlugRef} {r : SocketRef} {e : ConnectionError}
    (he : s.connect p r = .error e) :
    t.connect (p.renumber (.shift a)) (r.renumber (.shift a)) = .error (e.renumber (.shift a)) := by
  unfold Session.connect at he ⊢
  rw [h.validate]
  cases hv : s.validate p r with
  | ok _ =>
    rw [hv] at he
    cases he
  | error e' =>
    rw [hv] at he
    cases he
    rfl

theorem connect_ok (h : Shifted a b s t) {p : PlugRef} {r : SocketRef} {c : ConnectorId} {u : Session}
    (hu : s.connect p r = .ok (c, u)) : ∃ u', Shifted a b u u' ∧
      t.connect (p.renumber (.shift a)) (r.renumber (.shift a)) = .ok (c.shift b, u') := by
  have hf := NodeId.shift_injective a
  unfold Session.connect at hu ⊢
  rw [h.validate]
  cases hv : s.validate p r with
  | error e' =>
    rw [hv] at hu
    cases hu
  | ok _ =>
    have hstyle (q : Plug) : (q.renumber (.shift b)).style = q.style := rfl
    rw [hv] at hu
    cases hu
    simp only [Except.mapError]
    rw [h.plug? hf, h.plugAnchor? hf, h.settings]
    simp only [Option.map_map, Function.comp_def, hstyle]
    have hopened := h.addConnector p ((s.plugAnchor? p).getD .origin) ((s.plugAnchor? p).getD .origin)
      (((s.plug? p).map (·.style)).getD s.settings.connectorStyle)
    have hlinked := hopened.link s.ids.connector.1 r
    rw [← h.freshConnector] at hlinked
    exact ⟨_, hlinked, congrArg (fun c => Except.ok (c, _)) h.freshConnector⟩

/-! ## Nodes -/

theorem setValue (h : Shifted a b s t) (r : SocketRef) (value : Option Literal) :
    Shifted a b (s.setValue r value).2 (t.setValue (r.renumber (.shift a)) value).2 := by
  unfold Session.setValue
  rw [h.socket? (NodeId.shift_injective a), Option.isSome_map]
  show Shifted a b (if _ then _ else _ : Bool × Session).2
    (if (decide (r.kind = .data) && (s.socket? r).isSome) = true then _ else _ : Bool × Session).2
  split
  · refine h.modifyNode r.node _ _ fun n => congrArg (Node.mk n.kind) ?_
    rw [n.kind.renumber_valueChanged _ _ _ value h.variableTypes]
    exact congrArg (n.kind.valueChanged · _ _ _) (n.frame.renumber_modifySocket _ _ _ _ _ fun _ => rfl)
  · exact h

theorem setConstants (h : Shifted a b s t) (id : NodeId) (r : NodeRecord) :
    Shifted a b (Restore.setConstants s id r) (Restore.setConstants t (id.shift a) r) := by
  unfold Restore.setConstants
  induction r.inputs.zipIdx generalizing s t with
  | nil => exact h
  | cons e rest ih =>
    obtain ⟨⟨source, port, type, constant, value⟩, index⟩ := e
    refine ih ?_
    cases constant with
    | false => exact h
    | true =>
      cases value with
      | none => exact h
      | some value => exact h.setValue ⟨id, .data, index⟩ (some value)

theorem spawn (h : Shifted a b s t) (kind : NodeKind) (position : Point) (scale : Scalar) :
    Shifted a b (s.spawn kind position scale).2 (t.spawn kind position scale).2 := by
  refine ⟨⟨?_, h.connectors⟩, h.settings, ?_, h.nextConnector, h.idle, h.idleAbove, h.variableTypes⟩
  · show t.nodes.put t.ids.node.1 ⟨kind, kind.freshFrame position scale t.settings.connectorStyle⟩ =
      (s.nodes.put s.ids.node.1 ⟨kind, kind.freshFrame position scale s.settings.connectorStyle⟩).relabel _ _
    rw [h.nodes, h.settings, h.freshNode, OrderedMap.relabel_put (NodeId.shift_injective a), Node.renumber,
      kind.renumber_freshFrame]
  · show t.ids.nextNode + 1 = s.ids.nextNode + 1 + a
    rw [h.nextNode, Nat.add_right_comm]

theorem relayPorts (h : Shifted a b s t) (id : NodeId) (variant : Variant) :
    Shifted a b (s.relayPorts id variant) (t.relayPorts (id.shift a) variant) := by
  refine h.modifyNode id _ _ fun n => congrArg (Node.mk n.kind) ?_
  rw [h.settings]
  show ({ (n.frame.layVariantPorts variant s.settings.connectorStyle).renumber (.shift b) with
    variant := some variant, name := variant.title } : Frame) = _
  rw [Frame.renumber_layVariantPorts]
  rfl

theorem spawnRecord (h : Shifted a b s t) (kind : NodeKind) (r : NodeRecord) :
    Shifted a b (Restore.spawnRecord s kind r).2 (Restore.spawnRecord t kind r).2 := by
  have hspawned := h.spawn kind ⟨r.x, r.y⟩ r.scale
  have hnode (u : Session) : (u.spawn kind ⟨r.x, r.y⟩ r.scale).2.node? u.ids.node.1 =
      some ⟨kind, kind.freshFrame ⟨r.x, r.y⟩ r.scale u.settings.connectorStyle⟩ := by
    rw [node?_spawn, if_pos rfl]
  unfold Restore.spawnRecord
  dsimp only
  show Shifted a b (Restore.setConstants _ s.ids.node.1 r) (Restore.setConstants _ t.ids.node.1 r)
  rw [h.freshNode]
  refine setConstants ?_ _ r
  split
  · rename_i variant _
    have hselect := selectVariant_unwired (hnode s) h.idle (Frame.Unwired.freshFrame ..) variant
    have hselect' := selectVariant_unwired (hnode t) h.idleAbove (Frame.Unwired.freshFrame ..) variant
    show Shifted a b ((s.spawn kind ⟨r.x, r.y⟩ r.scale).2.selectVariant s.ids.node.1 variant).2
      ((t.spawn kind ⟨r.x, r.y⟩ r.scale).2.selectVariant t.ids.node.1 variant).2
    rw [hselect, hselect', h.settings, h.freshNode]
    split
    · exact hspawned.relayPorts _ variant
    · exact hspawned
  · exact hspawned

end Shifted
end Session

/-! ## Restoring -/

def RestoreReport.renumber (f : NodeId → NodeId) (report : RestoreReport) : RestoreReport :=
  { report with nodes := report.nodes.image f }

namespace Restore

theorem edgesOf_image (nodes : OrderedMap String NodeId) (f : NodeId → NodeId) (id : NodeId)
    (kind : PortKind) (plugs : List (List PortLink)) :
    edgesOf (nodes.image f) (f id) kind plugs =
      (edgesOf nodes id kind plugs).map (Option.map (PendingEdge.carry f)) := by
  rw [edgesOf, edgesOf, List.map_flatMap]
  refine List.flatMap_congr fun e _ => ?_
  show plugEdges (nodes.image f) ⟨f id, kind, e.2⟩ e.1 = (plugEdges nodes ⟨id, kind, e.2⟩ e.1).map _
  rw [plugEdges, plugEdges, List.map_map]
  refine List.map_congr_left fun l _ => ?_
  rw [Function.comp_apply, OrderedMap.get?_image, Option.map_map, Option.map_map]
  rfl

/-- The same edges are asked for between the nodes that are reported. -/
theorem edges_image (nodes : OrderedMap String NodeId) (f : NodeId → NodeId) (records : List NodeRecord) :
    edges (nodes.image f) records = (edges nodes records).map (Option.map (PendingEdge.carry f)) := by
  rw [edges, edges, List.map_flatMap]
  refine List.flatMap_congr fun r _ => ?_
  rw [OrderedMap.get?_image]
  cases nodes.get? r.uid with
  | none => rfl
  | some id => exact (congrArg₂ (· ++ ·) (edgesOf_image ..) (edgesOf_image ..)).trans List.map_append.symm

end Restore

theorem OrderedMap.image_insert {κ α β : Type} [DecidableEq κ] (m : OrderedMap κ α) (f : α → β) (k : κ) (x : α) :
    (m.insert k x).image f = (m.image f).insert k (f x) := by
  unfold insert
  rw [contains_image]
  split
  · refine image_modify (fun y => ?_) k
    rfl
  · exact image_put m f k x

namespace Session
namespace Shifted
variable {a b : Nat} {s t : Session}

theorem spawnAll (h : Shifted a b s t) (palette : Palette) (report : RestoreReport) (records : List NodeRecord) :
    Shifted a b (Restore.spawnAll palette s report records).1
        (Restore.spawnAll palette t (report.renumber (.shift a)) records).1 ∧
      (Restore.spawnAll palette t (report.renumber (.shift a)) records).2 =
        (Restore.spawnAll palette s report records).2.renumber (.shift a) := by
  induction records generalizing s t report with
  | nil => exact ⟨h, rfl⟩
  | cons r rest ih =>
    unfold Restore.spawnAll
    split
    · exact ih h { report with skippedNodes := report.skippedNodes ++ [r.uid] }
    · rename_i kind _
      have hmore := ih (h.spawnRecord kind r)
        { report with nodes := report.nodes.insert r.uid (Restore.spawnRecord s kind r).1 }
      have hid : (Restore.spawnRecord t kind r).1 = (Restore.spawnRecord s kind r).1.shift a := h.freshNode
      dsimp only
      rw [hid]
      rw [RestoreReport.renumber, OrderedMap.image_insert] at hmore
      exact hmore

theorem connectEach (h : Shifted a b s t) (es : List PendingEdge) :
    Shifted a b (Restore.connectEach s es).session
        (Restore.connectEach t (es.map (·.carry (.shift a)))).session ∧
      (Restore.connectEach t (es.map (·.carry (.shift a)))).deferred =
        (Restore.connectEach s es).deferred.map (·.carry (.shift a)) ∧
      (Restore.connectEach t (es.map (·.carry (.shift a)))).refused = (Restore.connectEach s es).refused := by
  induction es generalizing s t with
  | nil => exact ⟨h, rfl, rfl⟩
  | cons e rest ih =>
    rw [List.map_cons, Restore.connectEach, Restore.connectEach]
    cases he : s.connect e.plug e.socket with
    | ok made =>
      obtain ⟨c, u⟩ := made
      obtain ⟨u', hshift, hu'⟩ := h.connect_ok he
      have hmade : t.connect (e.carry (.shift a)).plug (e.carry (.shift a)).socket = _ := hu'
      rw [hmade]
      exact ih hshift
    | error x =>
      have hrefused : t.connect (e.carry (.shift a)).plug (e.carry (.shift a)).socket = _ := h.connect_error he
      obtain ⟨hshift, hdeferred, hcount⟩ := ih h
      rw [hrefused]
      cases x with
      | typeMismatch socket plug => exact ⟨hshift, congrArg (_ :: ·) hdeferred, hcount⟩
      | _ => exact ⟨hshift, hdeferred, congrArg (· + 1) hcount⟩

theorem connectAll (h : Shifted a b s t) (rounds : Nat) (es : List PendingEdge) :
    Shifted a b (Restore.connectAll rounds s es).2
        (Restore.connectAll rounds t (es.map (·.carry (.shift a)))).2 ∧
      (Restore.connectAll rounds t (es.map (·.carry (.shift a)))).1 = (Restore.connectAll rounds s es).1 := by
  induction rounds generalizing s t es with
  | zero => exact ⟨h, List.length_map _⟩
  | succ rounds ih =>
    obtain ⟨hshift, hdeferred, hcount⟩ := h.connectEach es
    unfold Restore.connectAll
    dsimp only
    rw [hdeferred, hcount, List.isEmpty_map, List.length_map, List.length_map]
    split
    · exact ⟨hshift, rfl⟩
    · obtain ⟨hrest, hskipped⟩ := ih hshift (Restore.connectEach s es).deferred
      exact ⟨hrest, congrArg ((Restore.connectEach s es).refused + ·) hskipped⟩

theorem registerVariables (h : Shifted a b s t) (types : SortedMap PortType) :
    Shifted a b (Restore.registerVariables s types) (Restore.registerVariables t types) := by
  obtain ⟨known, heq, hget⟩ := registerVariables_eq s types
  obtain ⟨known', heq', hget'⟩ := registerVariables_eq t types
  rw [heq, heq']
  refine ⟨⟨h.nodes, h.connectors⟩, h.settings, h.nextNode, h.nextConnector, h.idle, h.idleAbove, funext fun name => ?_⟩
  rw [hget, hget', h.variableTypes]

/-- A restored graph does not depend on the identities from which it starts. -/
theorem restore (h : Shifted a b s.removeAll t.removeAll) (palette : Palette) (program : Program) :
    Shifted a b (s.restore palette program).2 (t.restore palette program).2 ∧
      (t.restore palette program).1 = (s.restore palette program).1.renumber (.shift a) := by
  obtain ⟨hspawned, hreport⟩ := (h.registerVariables program.variableTypes).spawnAll palette ⟨.empty, [], 0⟩
    (Restore.firstRecords program.records)
  have hasked := Restore.edges_image (Restore.spawnAll palette
    (Restore.registerVariables s.removeAll program.variableTypes) ⟨.empty, [], 0⟩
    (Restore.firstRecords program.records)).2.nodes (.shift a) (Restore.firstRecords program.records)
  have hpending (l : List (Option PendingEdge)) :
      (l.map (Option.map (PendingEdge.carry (.shift a)))).filterMap id =
        (l.filterMap id).map (·.carry (.shift a)) := by
    rw [List.filterMap_map, List.map_filterMap]
    rfl
  have hempty : RestoreReport.renumber (.shift a) ⟨.empty, [], 0⟩ = ⟨.empty, [], 0⟩ := rfl
  unfold Session.restore
  dsimp only
  rw [hempty] at hspawned hreport
  rw [hreport, RestoreReport.renumber]
  dsimp only
  rw [hasked, hpending, List.length_map, List.length_map]
  obtain ⟨hmade, hskipped⟩ := hspawned.connectAll _ _
  refine ⟨hmade, ?_⟩
  rw [hskipped]
  rfl

end Shifted
end Session
end FlowGraph

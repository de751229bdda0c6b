import FlowGraph.Proofs.Session.Anchors
import FlowGraph.Proofs.Session.Picture

/-! # The calls of a session

A session tells whoever draws it what has changed, and nothing else. Carrying out its calls one after the
other, from an empty picture, gives what the session would show if it were drawn as a whole: every node where
it is and as large as it is, every connector along its curve, both in their order from back to front.
-/

namespace FlowGraph
set_option autoImplicit false

theorem Node.sprite_of_body {m n : Node} (h : m.body = n.body) : m.sprite = n.sprite := by
  obtain ⟨hposition, hscale, -⟩ := Frame.place_of_body (congrArg Prod.snd h)
  rw [sprite, sprite, hposition, hscale]

namespace Session

/-! ## Connectors that are raised with a node -/

section Raised
variable {s : Session} {id : NodeId} {n : Node} {c : ConnectorId}

theorem live_of_joined {P : Edge → Prop} (h : s.wiring.Joined P c) : (s.connector? c).isSome := by
  obtain ⟨e, he, -⟩ := h
  obtain ⟨k, hk, -⟩ := edge_eq_some he
  exact Option.isSome_of_eq_some hk

/-- A connector that is listed on a port is there. -/
theorem live_of_attached (h : s.Intact) (hn : s.node? id = some n) (hc : c ∈ n.frame.attached) :
    (s.connector? c).isSome := by
  obtain hc | hc := List.mem_append.1 hc
  · obtain ⟨t, ht, hc⟩ := List.mem_flatMap.1 hc
    obtain ⟨kind, index, hport⟩ : ∃ kind index, n.frame.socket? kind index = some t := by
      obtain ht | ht := List.mem_append.1 ht
      · obtain ⟨index, hindex⟩ := List.getElem?_of_mem ht
        exact ⟨.flow, index, hindex⟩
      · obtain ⟨index, hindex⟩ := List.getElem?_of_mem ht
        exact ⟨.data, index, hindex⟩
    have hsocket : s.socket? ⟨id, kind, index⟩ = some t := by
      rw [socket?, hn]
      exact hport
    exact live_of_joined (((h.tied.sound.arrivals _ _ (arrivals_of_socket? hsocket)).2 c).1 hc)
  · obtain ⟨q, hq, hc⟩ := List.mem_flatMap.1 hc
    obtain ⟨kind, index, hport⟩ : ∃ kind index, n.frame.plug? kind index = some q := by
      obtain hq | hq := List.mem_append.1 hq
      · obtain ⟨index, hindex⟩ := List.getElem?_of_mem hq
        exact ⟨.flow, index, hindex⟩
      · obtain ⟨index, hindex⟩ := List.getElem?_of_mem hq
        exact ⟨.data, index, hindex⟩
    have hplug : s.plug? ⟨id, kind, index⟩ = some q := by
      rw [plug?, hn]
      exact hport
    exact live_of_joined (((h.tied.sound.departures _ _ (departures_of_plug? hplug)).2 c).1 hc)

/-- The connectors on the ports of a node, and the one that is dragged out of it. -/
def raisedWith (s : Session) (id : NodeId) (f : Frame) : List ConnectorId :=
  f.attached ++ match s.drag with
    | some d => if d.plug.node = id && !f.attached.contains d.connector then [d.connector] else []
    | none => []

theorem bringToFront_eq (hn : s.node? id = some n) : s.bringToFront id =
    (s.raisedWith id n.frame).foldl raiseConnector
      ({ s with nodes := s.nodes.raise id }.draw (.raise (.node id))) := by
  rw [bringToFront, hn]
  rfl

theorem live_of_raisedWith (h : s.Intact) (hn : s.node? id = some n) (hc : c ∈ s.raisedWith id n.frame) :
    (s.connector? c).isSome := by
  obtain hc | hc := List.mem_append.1 hc
  · exact live_of_attached h hn hc
  · split at hc
    · rename_i d hd
      split at hc
      · obtain ⟨k, hk, -⟩ := edge_eq_some (h.drag d hd)
        rw [List.mem_singleton.1 hc]
        exact Option.isSome_of_eq_some hk
      · cases hc
    · cases hc

end Raised

/-! ## Drawn sessions -/

/-- The calls so far give a picture that shows the session, but for some paths. -/
def Drawn (s : Session) (stale : ConnectorId → Prop) : Prop :=
  ∃ p, Picture.ofCalls s.calls = some p ∧ p.Shows s.nodes s.connectors stale

namespace Drawn
variable {s t : Session} {stale : ConnectorId → Prop}

/-- When no path is out of date the calls give the whole picture. -/
theorem ofCalls (h : s.Drawn fun _ => False) (hn : s.connectors.keys.Nodup) :
    Picture.ofCalls s.calls = some s.picture := by
  obtain ⟨p, hp, hnodes, hkeys, hpaths⟩ := h
  have hconnectors : p.connectors = s.connectors.image Connector.sprite := by
    refine OrderedMap.eq_of_get? (hkeys.trans (s.connectors.keys_image _).symm) ?_ fun c => ?_
    · rw [OrderedMap.keys_image]
      exact hn
    · rw [OrderedMap.get?_image]
      cases hk : s.connectors.get? c with
      | none =>
        rw [Option.map_none, OrderedMap.get?_eq_none_iff, hkeys, ← OrderedMap.get?_eq_none_iff]
        exact hk
      | some k =>
        obtain ⟨path, hget, hpath⟩ := hpaths c k hk
        rw [hget, hpath not_false]
        rfl
  rw [hp, picture, ← hnodes, ← hconnectors]

/-- Connectors that are not there need no path. -/
theorem narrow {stale' : ConnectorId → Prop} (h : s.Drawn stale)
    (hs : ∀ c, (s.connector? c).isSome → stale c → stale' c) : s.Drawn stale' := by
  obtain ⟨p, hp, hnodes, hkeys, hpaths⟩ := h
  refine ⟨p, hp, hnodes, hkeys, fun c k hk => ?_⟩
  obtain ⟨path, hget, hpath⟩ := hpaths c k hk
  exact ⟨path, hget, fun hc => hpath fun hold => hc (hs c (Option.isSome_of_eq_some hk) hold)⟩

/-! ## Changes without a call -/

theorem of_nodes (h : s.Drawn stale) (hcalls : t.calls = s.calls) (hconnectors : t.connectors = s.connectors)
    (hnodes : t.nodes.image Node.sprite = s.nodes.image Node.sprite) : t.Drawn stale := by
  obtain ⟨p, hp, hshows⟩ := h
  rw [Drawn, hcalls, hconnectors]
  exact ⟨p, hp, hshows.nodes.trans hnodes.symm, hshows.order, hshows.paths⟩

theorem modifyNode (h : s.Drawn stale) (id : NodeId) {f : Node → Node} (hf : ∀ n, (f n).sprite = n.sprite) :
    (s.modifyNode id f).Drawn stale :=
  h.of_nodes rfl rfl (OrderedMap.image_modify_eq hf id)

/-- A connector that changes keeps its path, or the path is out of date. -/
theorem of_connectors {stale' : ConnectorId → Prop} (h : s.Drawn stale) (hcalls : t.calls = s.calls)
    (hnodes : t.nodes.image Node.sprite = s.nodes.image Node.sprite)
    (hkeys : t.connectors.keys = s.connectors.keys)
    (hpaths : ∀ c l, t.connector? c = some l → ∃ k, s.connector? c = some k ∧
      (¬stale' c → ¬stale c ∧ l.path = k.path)) : t.Drawn stale' := by
  obtain ⟨p, hp, hshown, horder, hold⟩ := h
  refine ⟨p, ?_, hshown.trans hnodes.symm, horder.trans hkeys.symm, fun c l hl => ?_⟩
  · rw [hcalls]
    exact hp
  · obtain ⟨k, hk, hsame⟩ := hpaths c l hl
    obtain ⟨path, hget, hpath⟩ := hold c k hk
    refine ⟨path, hget, fun hc => ?_⟩
    obtain ⟨hfresh, hkept⟩ := hsame hc
    rw [hpath hfresh, hkept]

theorem modifyConnector (h : s.Drawn stale) (c : ConnectorId) (f : Connector → Connector) :
    (s.modifyConnector c f).Drawn fun d => stale d ∨ d = c := by
  refine h.of_connectors rfl rfl (s.connectors.keys_modify c f) fun d l hl => ?_
  rw [connector?_modifyConnector] at hl
  split at hl
  · rename_i hd
    obtain ⟨k, hk, -⟩ := Option.map_eq_some_iff.1 hl
    exact ⟨k, hk, fun hfresh => absurd (Or.inr hd) hfresh⟩
  · exact ⟨l, hl, fun hfresh => ⟨fun hold => hfresh (Or.inl hold), rfl⟩⟩

theorem modifyConnector_eq (h : s.Drawn stale) (c : ConnectorId) {f : Connector → Connector}
    (hf : ∀ k, (f k).path = k.path) : (s.modifyConnector c f).Drawn stale := by
  refine h.of_connectors rfl rfl (s.connectors.keys_modify c f) fun d l hl => ?_
  rw [connector?_modifyConnector] at hl
  split at hl
  · obtain ⟨k, hk, rfl⟩ := Option.map_eq_some_iff.1 hl
    exact ⟨k, hk, fun hfresh => ⟨hfresh, hf k⟩⟩
  · exact ⟨l, hl, fun hfresh => ⟨hfresh, rfl⟩⟩

/-! ## Drawing connectors -/

theorem has_connector {p : Picture} (h : p.connectors.keys = s.connectors.keys) (c : ConnectorId) :
    p.has (.connector c) = (s.connector? c).isSome := by
  show p.connectors.contains c = (s.connectors.get? c).isSome
  rw [Bool.eq_iff_iff, OrderedMap.contains_iff_mem_keys, h, OrderedMap.mem_keys_iff]

/-- A path that is drawn is up to date. -/
theorem drawPath (h : s.Drawn stale) (c : ConnectorId) : (s.drawPath c).Drawn fun d => stale d ∧ d ≠ c := by
  unfold Session.drawPath
  split
  · rename_i k hk
    obtain ⟨p, hp, hnodes, hkeys, hpaths⟩ := h
    refine ⟨p.draw (.path c k.style k.curve), Picture.ofCalls_cons hp _ ?_, hnodes,
      (p.connectors.keys_modify c _).trans hkeys, fun d l hl => ?_⟩
    · exact (has_connector hkeys c).trans (Option.isSome_of_eq_some hk)
    · obtain ⟨path, hget, hpath⟩ := hpaths d l hl
      show ∃ path, (p.connectors.modify c _).get? d = _ ∧ _
      rw [OrderedMap.get?_modify, hget]
      split
      · rename_i hd
        rw [hd] at hl
        obtain rfl := Option.some.inj (hk.symm.trans hl)
        exact ⟨_, rfl, fun _ => rfl⟩
      · rename_i hd
        exact ⟨path, rfl, fun hfresh => hpath fun hold => hfresh ⟨hold, hd⟩⟩
  · rename_i hnone
    refine h.narrow fun d hlive hold => ⟨hold, ?_⟩
    rintro rfl
    rw [hnone] at hlive
    cases hlive

theorem foldl_drawPath (h : s.Drawn stale) (l : List ConnectorId) :
    (l.foldl Session.drawPath s).Drawn fun d => stale d ∧ d ∉ l := by
  induction l generalizing s stale with
  | nil => exact h.narrow fun d _ hold => ⟨hold, List.not_mem_nil⟩
  | cons c rest ih =>
    refine (ih (h.drawPath c)).narrow fun d _ hold => ?_
    obtain ⟨⟨hold, hne⟩, hrest⟩ := hold
    exact ⟨hold, List.not_mem_cons_of_ne_of_not_mem hne hrest⟩

theorem connector?_drawPaths (s : Session) (l : List ConnectorId) (c : ConnectorId) :
    (l.foldl Session.drawPath s).connector? c = s.connector? c :=
  List.foldlRecOn (motive := fun t : Session => t.connector? c = s.connector? c) l _ rfl
    fun t ht d _ => (t.connector?_drawPath d c).trans ht

/-- A connector that changes and is drawn then is up to date. -/
theorem redraw (h : s.Drawn stale) (c : ConnectorId) (f : Connector → Connector) :
    ((s.modifyConnector c f).drawPath c).Drawn stale := by
  refine ((h.modifyConnector c f).drawPath c).narrow fun d _ hold => ?_
  obtain ⟨hold | hd, hne⟩ := hold
  · exact hold
  · exact absurd hd hne

theorem emitMove (h : s.Drawn stale) (id : NodeId) : (s.emitMove id).Drawn stale := by
  unfold Session.emitMove
  split
  · exact List.foldlRecOn (motive := fun t : Session => t.Drawn stale) _ _ h fun t ht c _ => ht.redraw c _
  · exact h

/-! ## Connectors that come, go and are raised -/

/-- A new connector comes in without a path. -/
theorem addConnector (h : s.Drawn stale) (hnew : s.connector? s.ids.connector.1 = none) (plug : PlugRef)
    (start stop : Point) (style : ConnectorStyle) :
    (s.addConnector plug start stop style).2.Drawn fun d => stale d ∨ d = s.ids.connector.1 := by
  generalize hc : s.ids.connector.1 = c at hnew
  have hattach : ({ s with connectors := s.connectors.put c (.drawnFrom plug start stop style) }.draw
      (.attach (.connector c))).Drawn fun d => stale d ∨ d = c := by
    obtain ⟨p, hp, hnodes, hkeys, hpaths⟩ := h
    refine ⟨p.draw (.attach (.connector c)), Picture.ofCalls_cons hp _ ?_, hnodes, ?_, fun d l hl => ?_⟩
    · exact (has_connector hkeys c).trans (congrArg Option.isSome hnew)
    · show (p.connectors.put c _).keys = (s.connectors.put c _).keys
      rw [OrderedMap.keys_put, OrderedMap.keys_put, hkeys]
    · change (s.connectors.put c _).get? d = some l at hl
      show ∃ path, (p.connectors.put c _).get? d = _ ∧ _
      rw [OrderedMap.get?_put] at hl ⊢
      split at hl
      · rename_i hd
        rw [if_pos hd]
        exact ⟨none, rfl, fun hfresh => absurd (Or.inr hd) hfresh⟩
      · rename_i hd
        obtain ⟨path, hget, hpath⟩ := hpaths d l hl
        rw [if_neg hd]
        exact ⟨path, hget, fun hfresh => hpath fun hold => hfresh (Or.inl hold)⟩
  rw [← hc] at hattach ⊢
  exact hattach.modifyNode plug.node (f := fun n => { n with frame :=
    { n.frame with dependents := n.frame.dependents ++ [s.ids.connector.1] } }) fun _ => rfl

theorem destroyConnector (h : s.Drawn stale) (c : ConnectorId) : (s.destroyConnector c).Drawn stale := by
  unfold Session.destroyConnector
  split
  · exact h
  · rename_i k hk
    have herase : ({ s with connectors := s.connectors.erase c }.draw (.dispose (.connector c))).Drawn stale := by
      obtain ⟨p, hp, hnodes, hkeys, hpaths⟩ := h
      refine ⟨p.draw (.dispose (.connector c)), Picture.ofCalls_cons hp _ ?_, hnodes, ?_, fun d l hl => ?_⟩
      · exact (has_connector hkeys c).trans (Option.isSome_of_eq_some hk)
      · show (p.connectors.erase c).keys = (s.connectors.erase c).keys
        rw [OrderedMap.keys_erase, OrderedMap.keys_erase, hkeys]
      · change (s.connectors.erase c).get? d = some l at hl
        show ∃ path, (p.connectors.erase c).get? d = _ ∧ _
        rw [OrderedMap.get?_erase] at hl ⊢
        split at hl
        · cases hl
        · rename_i hd
          rw [if_neg hd]
          exact hpaths d l hl
    exact herase.modifyNode k.plug.node fun n => Node.sprite_of_body (n.body_withdraw c _ _)

theorem raiseConnector (h : s.Drawn stale) {c : ConnectorId} (hc : (s.connector? c).isSome) :
    (s.raiseConnector c).Drawn stale := by
  obtain ⟨p, hp, hnodes, hkeys, hpaths⟩ := h
  refine ⟨p.draw (.raise (.connector c)), Picture.ofCalls_cons hp _ ?_, hnodes, ?_, fun d l hl => ?_⟩
  · exact (has_connector hkeys c).trans hc
  · show (p.connectors.raise c).keys = (s.connectors.raise c).keys
    rw [OrderedMap.keys_raise, OrderedMap.keys_raise, hkeys]
  · change (s.connectors.raise c).get? d = some l at hl
    show ∃ path, (p.connectors.raise c).get? d = _ ∧ _
    rw [OrderedMap.get?_raise] at hl ⊢
    exact hpaths d l hl

theorem raiseConnectors (h : s.Drawn stale) {l : List ConnectorId} (hl : ∀ c ∈ l, (s.connector? c).isSome) :
    (l.foldl Session.raiseConnector s).Drawn stale := by
  have hboth := List.foldlRecOn (motive := fun t : Session => t.Drawn stale ∧ ∀ c, t.connector? c = s.connector? c) l
    Session.raiseConnector ⟨h, fun _ => rfl⟩ fun t ht c hc => ?_
  · exact hboth.1
  · refine ⟨ht.1.raiseConnector ?_, fun d => (t.connectors.get?_raise c d).trans (ht.2 d)⟩
    rw [ht.2]
    exact hl c hc

/-! ## Nodes that come, go, move and are raised -/

theorem has_node {p : Picture} (h : p.nodes = s.nodes.image Node.sprite) (id : NodeId) :
    p.has (.node id) = (s.node? id).isSome := by
  rw [Picture.has, h, OrderedMap.contains_image, ← OrderedMap.get?_isSome, node?]

/-- A call about a node brings its picture up to date. -/
theorem of_call {call : DrawCall} (h : s.Drawn stale) (hcalls : t.calls = call :: s.calls)
    (hconnectors : t.connectors = s.connectors) (hcall : ∀ p : Picture, p.nodes = s.nodes.image Node.sprite →
      p.has call.target = !call.attaches ∧ (p.draw call).connectors = p.connectors ∧
        (p.draw call).nodes = t.nodes.image Node.sprite) : t.Drawn stale := by
  obtain ⟨p, hp, hnodes, hkeys, hpaths⟩ := h
  obtain ⟨hapt, hsame, hshown⟩ := hcall p hnodes
  refine ⟨p.draw call, ?_, hshown, ?_, ?_⟩
  · rw [hcalls]
    exact Picture.ofCalls_cons hp call hapt
  · rw [hsame, hconnectors]
    exact hkeys
  · rw [hsame, hconnectors]
    exact hpaths

/-- A node comes in, and then gets its size and its place. -/
theorem addNode (h : s.Drawn stale) {id : NodeId} (hnew : s.node? id = none) (n : Node) :
    (s.addNode id n).Drawn stale := by
  obtain ⟨p, hp, hnodes, hkeys, hpaths⟩ := h
  have hin (sprite : Sprite) : (p.nodes.put id sprite).contains id = true := by
    rw [← OrderedMap.get?_isSome, OrderedMap.get?_put, if_pos rfl]
    rfl
  have hattach : Picture.ofCalls (.attach (.node id) :: s.calls) = some (p.attach (.node id)) :=
    Picture.ofCalls_cons hp _ ((has_node hnodes id).trans (congrArg Option.isSome hnew))
  have hscale : Picture.ofCalls (.scale (.node id) n.frame.scale :: .attach (.node id) :: s.calls) =
      some { p with nodes := p.nodes.put id ⟨none, some n.frame.scale, none⟩ } := by
    rw [Picture.ofCalls_cons hattach (.scale (.node id) _) (hin .blank)]
    exact congrArg (fun nodes => some { p with nodes }) (p.nodes.modify_put id _ _)
  refine ⟨{ p with nodes := p.nodes.put id n.sprite }, ?_, ?_, hkeys, hpaths⟩
  · show Picture.ofCalls (.position (.node id) n.frame.position :: .scale (.node id) n.frame.scale ::
      .attach (.node id) :: s.calls) = _
    rw [Picture.ofCalls_cons hscale (.position (.node id) _) (hin _)]
    exact congrArg (fun nodes => some { p with nodes }) (p.nodes.modify_put id _ _)
  · rw [hnodes]
    exact (s.nodes.image_put Node.sprite id n).symm

/-- A node that changes its place or its size is brought up to date by the call for it. -/
theorem touchNode (h : s.Drawn stale) {id : NodeId} (hin : s.nodes.contains id) (f : Frame → Frame)
    (call : DrawCall) {g : Sprite → Sprite} (hf : ∀ n : Node, { n with frame := f n.frame }.sprite = g n.sprite)
    (hcall : ∀ p : Picture, p.draw call = p.touch (.node id) g)
    (hapt : call.target = .node id ∧ call.attaches = false) : ((s.modifyFrame id f).draw call).Drawn stale := by
  refine h.of_call rfl rfl fun p hp => ⟨?_, ?_, ?_⟩
  · rw [hapt.1, hapt.2, has_node hp]
    exact (s.nodes.get?_isSome id).trans hin
  · rw [hcall]
    rfl
  · rw [hcall]
    show p.nodes.modify id g = (s.nodes.modify id _).image Node.sprite
    rw [OrderedMap.image_modify hf, hp]

theorem moveNode (h : s.Drawn stale) (id : NodeId) (position : Point) : (s.moveNode id position).Drawn stale := by
  unfold Session.moveNode
  split
  · rename_i hin
    have hplace := h.touchNode hin (fun f => { f with position := position, positioned := true })
      (.position (.node id) position) (fun _ => rfl) (fun _ => rfl) ⟨rfl, rfl⟩
    exact hplace.emitMove id
  · exact h

theorem setScale (h : s.Drawn stale) (id : NodeId) (scale : Scalar) : (s.setScale id scale).Drawn stale := by
  unfold Session.setScale
  split
  · rename_i hin
    have hscale := h.touchNode hin (fun f => { f with scale := scale })
      (.scale (.node id) scale) (fun _ => rfl) (fun _ => rfl) ⟨rfl, rfl⟩
    exact hscale.emitMove id
  · exact h

theorem eraseNode (h : s.Drawn stale) {id : NodeId} {n : Node} (hn : s.node? id = some n) :
    (s.eraseNode id).Drawn stale := by
  refine h.of_call rfl rfl fun p hp => ⟨?_, rfl, ?_⟩
  · exact (has_node hp id).trans (Option.isSome_of_eq_some hn)
  · show p.nodes.erase id = (s.nodes.erase id).image Node.sprite
    rw [OrderedMap.image_erase, hp]

theorem bringToFront (h : s.Drawn stale) (hi : s.Intact) (id : NodeId) : (s.bringToFront id).Drawn stale := by
  cases hn : s.node? id with
  | none =>
    rw [Session.bringToFront, hn]
    exact h
  | some n =>
    have hraise : ({ s with nodes := s.nodes.raise id }.draw (.raise (.node id))).Drawn stale := by
      refine h.of_call rfl rfl fun p hp => ⟨?_, rfl, ?_⟩
      · exact (has_node hp id).trans (Option.isSome_of_eq_some hn)
      · show p.nodes.raise id = (s.nodes.raise id).image Node.sprite
        rw [OrderedMap.image_raise, hp]
    have hlive : ∀ c ∈ s.raisedWith id n.frame, (s.connector? c).isSome := by
      intro c hc
      exact live_of_raisedWith hi hn hc
    rw [bringToFront_eq hn]
    exact hraise.raiseConnectors hlive

/-! ## Every move -/

/-- A change of style puts every path out of date, and then draws them all. -/
theorem setStyle (h : s.Drawn stale) (style : ConnectorStyle) : (s.setStyle style).Drawn fun _ => False := by
  unfold Session.setStyle
  have hrestyled : Drawn { s with
      settings := { s.settings with connectorStyle := style }
      nodes := s.nodes.mapValues (restyle style)
      connectors := s.connectors.mapValues fun c => { c with style := style } } fun _ => True := by
    refine h.of_connectors rfl (OrderedMap.image_mapValues fun _ => rfl) (s.connectors.keys_mapValues _)
      fun c l hl => ?_
    change (s.connectors.mapValues _).get? c = some l at hl
    rw [OrderedMap.get?_mapValues] at hl
    obtain ⟨k, hk, -⟩ := Option.map_eq_some_iff.1 hl
    exact ⟨k, hk, fun hfresh => absurd trivial hfresh⟩
  refine (hrestyled.foldl_drawPath _).narrow fun c hlive hold => hold.2 ?_
  rw [connector?_drawPaths] at hlive
  exact (OrderedMap.mem_keys_iff _ c).2 hlive

theorem link (h : s.Drawn stale) (c : ConnectorId) (r : SocketRef) :
    (s.link c r).Drawn fun d => stale d ∧ d ≠ c := by
  unfold Session.link
  split
  · rename_i hnone
    refine h.narrow fun d hlive hold => ⟨hold, ?_⟩
    rintro rfl
    rw [hnone] at hlive
    cases hlive
  · rename_i k hk
    have hreceive := h.modifyNode r.node
      (f := (·.receive c r.kind r.index (((s.plug? k.plug).map (·.type)).getD .any)))
      fun n => Node.sprite_of_body (n.body_receive c _ _ _)
    have hsend := hreceive.modifyNode k.plug.node (f := (·.send c k.plug.kind k.plug.index))
      fun n => Node.sprite_of_body (n.body_send c _ _)
    refine ((hsend.modifyConnector c _).drawPath c).narrow fun d _ hold => ?_
    obtain ⟨hold | hd, hne⟩ := hold
    · exact ⟨hold, hne⟩
    · exact absurd hd hne

theorem detachSocket (h : s.Drawn stale) (c : ConnectorId) : (s.detachSocket c).Drawn stale := by
  unfold Session.detachSocket
  split
  · exact h
  · rename_i r hr
    have hloose := h.modifyConnector_eq c (f := fun c => { c with connectedTo := none, state := .dragging })
      fun _ => rfl
    exact hloose.modifyNode r.node fun n => Node.sprite_of_body (n.body_release c r.kind r.index)

theorem pickUp (h : s.Drawn stale) (c : ConnectorId) (p : PlugRef) (pointer : Point) :
    (s.pickUp c p pointer).Drawn stale := by
  refine redraw (modifyNode (h.detachSocket c) p.node fun n => Node.sprite_of_body ?_) c _
  exact Prod.ext rfl (n.frame.body_modifyPlug p.kind p.index _)

theorem modifySocket (h : s.Drawn stale) (r : SocketRef) (f : Socket → Socket) :
    (s.modifyFrame r.node fun g => g.modifySocket r.kind r.index f).Drawn stale :=
  h.modifyNode r.node fun n => Node.sprite_of_body (Prod.ext rfl (n.frame.body_modifySocket r.kind r.index f))

theorem resetRadius? (h : s.Drawn stale) (r : Option SocketRef) : (s.resetRadius? r).Drawn stale := by
  cases r with
  | none => exact h
  | some r => exact h.modifySocket r _

theorem updateDrag (h : s.Drawn stale) (pointer : Point) : (s.updateDrag pointer).Drawn stale := by
  exact updateDrag_induction (P := fun t : Session => t.Drawn stale) pointer h (fun d _ => h.redraw d.connector _)
    (fun _ r ht => ht.resetRadius? r) (fun _ r x ht => ht.modifySocket r _) fun _ _ ht => ht

theorem setValue (h : s.Drawn stale) (r : SocketRef) (value : Option Literal) :
    (s.setValue r value).2.Drawn stale := by
  unfold Session.setValue
  split
  · refine h.modifyNode r.node fun n => Node.sprite_of_body (Prod.ext rfl ?_)
    simp [Node.body]
  · exact h

/-- A connector that has come in is up to date when its path is drawn for the first time. -/
theorem of_new {c : ConnectorId} (h : s.Drawn fun d => (False ∨ d = c) ∧ d ≠ c) : s.Drawn fun _ => False :=
  h.narrow fun _ _ hold => hold.1.elim (fun hnot => hnot) hold.2

theorem connect (h : s.Drawn fun _ => False) (hi : s.Intact) {p : PlugRef} {r : SocketRef} {c : ConnectorId}
    (hc : s.connect p r = .ok (c, t)) : t.Drawn fun _ => False := by
  obtain ⟨-, -, start, style, rfl⟩ := Intact.connect_eq hc
  have hnew : s.connector? s.ids.connector.1 = none := Option.map_eq_none_iff.1 hi.tied.edge_fresh
  exact ((h.addConnector hnew p start start style).link _ r).of_new

theorem beginDrag (h : s.Drawn fun _ => False) (hi : s.Intact) {p : PlugRef} {pointer : Point} {c : ConnectorId}
    (hc : s.beginDrag p pointer = (some c, t)) : t.Drawn fun _ => False := by
  obtain ⟨-, q, start, -, rfl, rfl⟩ := Intact.beginDrag_eq hc
  have hnew : s.connector? s.ids.connector.1 = none := Option.map_eq_none_iff.1 hi.tied.edge_fresh
  exact ((h.addConnector hnew p start pointer q.style).drawPath _).of_new

theorem move (h : s.Drawn fun _ => False) (hi : s.Intact) (hm : s.Move t) : t.Drawn fun _ => False := by
  cases hm with
  | spawn kind position scale =>
    have hfresh : s.node? s.ids.node.1 = none := Option.map_eq_none_iff.1 hi.tied.followers_fresh
    have hids : Drawn { s with ids := s.ids.node.2 } fun _ => False := h
    exact hids.addNode hfresh _
  | moveNode id position => exact h.moveNode id position
  | setScale id scale => exact h.setScale id scale
  | emitMove id => exact h.emitMove id
  | bringToFront id => exact h.bringToFront hi id
  | setStyle style => exact h.setStyle style
  | setValue r value => exact h.setValue r value
  | registerVariable name type =>
    unfold registerVariable
    split
    · exact h
    · exact h
  | updateDrag pointer => exact h.updateDrag pointer
  | connect hc => exact h.connect hi hc
  | beginDrag hc => exact h.beginDrag hi hc
  | reconnect hc =>
    obtain ⟨-, k, -, rfl⟩ := reconnect_eq hc
    exact h.pickUp _ k.plug _
  | @release d r hd hr hok =>
    have hidle : Drawn { s with drag := none } fun _ => False := h
    exact ((hidle.modifySocket r _).link d.connector r).narrow fun c _ hold => hold.1
  | @discard d hd =>
    have hidle : Drawn { s with drag := none } fun _ => False := h
    exact (hidle.resetRadius? d.snap).destroyConnector d.connector
  | @disconnect c k hk hc => exact (h.detachSocket c).destroyConnector c
  | eraseNode hn hfree hdrag => exact h.eraseNode hn
  | @relayPorts id n old hn hold hfree hdrag variant => exact h.modifyNode id fun _ => rfl

end Drawn

/-- The calls that were made on the way to a session give its picture. -/
theorem Reached.ofCalls {s : Session} (h : s.Reached) : Picture.ofCalls s.calls = some s.picture := by
  have hdrawn : s.Drawn fun _ => False := by
    refine Reached.induction (P := fun s => s.Drawn fun _ => False) h ?_ ?_
    · exact fun settings => ⟨.empty, rfl, rfl, rfl, fun _ _ hc => nomatch hc⟩
    · exact fun _ _ hi hdrawn hm => hdrawn.move hi hm
  exact hdrawn.ofCalls h.intact.tied.connectorsOnce

/-- In every session that is reached the calls made so far, carried out one after the other, give the picture
of the session. What each of them names was there when it was made, or was not there and has come in by it. -/
theorem Reached.picture_calls {s : Session} (h : s.Reached) : Picture.ofCalls s.calls = some s.picture ∧
    ∀ later call earlier, s.calls = later ++ call :: earlier →
      ∃ p, Picture.ofCalls earlier = some p ∧ p.has call.target = !call.attaches := by
  have hpicture := h.ofCalls
  refine ⟨hpicture, fun later call earlier hcalls => ?_⟩
  rw [hcalls] at hpicture
  exact Picture.apt_of_ofCalls hpicture

/-- The calls of a session in which a condition was laid on top with its edge, the style was changed, and the
other condition was removed while a connector was being dragged. -/
theorem picture_calls_amid_drag : ∃ s, s = (new .standard).applyAll
    [.spawn .isMobile .origin 1.0, .spawn .condition .origin 1.0, .spawn .condition .origin 1.0,
      .connect ⟨⟨0⟩, .data, 0⟩ ⟨⟨1⟩, .data, 0⟩, .connect ⟨⟨0⟩, .data, 0⟩ ⟨⟨2⟩, .data, 0⟩, .toggleStyle,
      .beginDrag ⟨⟨0⟩, .data, 0⟩ .origin, .bringToFront ⟨1⟩, .moveNode ⟨0⟩ ⟨7.0, 5.0⟩, .removeNode ⟨2⟩] ∧
    s.calls.length = 25 ∧ s.picture.nodes.keys = [⟨0⟩, ⟨1⟩] ∧ s.picture.connectors.keys = [⟨2⟩, ⟨0⟩] ∧
    Picture.ofCalls s.calls = some s.picture := by
  refine ⟨_, rfl, rfl, rfl, rfl, ?_⟩
  exact (Reached.picture_calls ⟨.standard, _, by simp [Operation.Public], rfl⟩).1

end Session
end FlowGraph

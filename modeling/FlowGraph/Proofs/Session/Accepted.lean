import FlowGraph.Proofs.Session.Typing

/-! # Edges whose sockets accept them

Whether a socket accepts a plug is looked at when the edge between them is made. Making an edge never
spoils another one: a sum to which something new is connected did not know its output before, so its
output leads to sockets that accept anything. What is dropped can spoil an edge, but only behind the sum
that it was an input of.
-/

namespace FlowGraph
set_option autoImplicit false

namespace Session

/-! ## What a sum gives out -/

/-- No input of a sum carries the type of flow. -/
def DataTyped (s : Session) : Prop := ∀ r, s.adaptive r = true → s.inputType? r ≠ some .connect

section Sums
variable {s : Session} {p : PlugRef} {r : SocketRef} {a : PortType}

/-- The output of a sum has the highest type of its inputs. -/
theorem output_of_sum (hs : s.Shaped) (hk : s.kindOf p.node = some .generalAddition)
    (ha : s.outputType? p = some a) : ∃ n, s.node? p.node = some n ∧ n.kind = .generalAddition ∧
      PortType.highest? (n.frame.dataSockets.map (·.type)) = some a := by
  obtain ⟨n, hn, hkind⟩ := Option.map_eq_some_iff.1 hk
  refine ⟨n, hn, hkind, ?_⟩
  obtain ⟨q, hq, rfl⟩ := Option.map_eq_some_iff.1 ha
  rw [plug?, hn] at hq
  have hmem : q ∈ n.frame.plugs p.kind := List.mem_of_getElem? hq
  cases hport : p.kind with
  | flow =>
    have hnone := (hs _ n hn).length_plugs .flow
    rw [hkind] at hnone
    rw [hport, List.length_eq_zero_iff.1 hnone] at hmem
    cases hmem
  | data =>
    rw [hport] at hmem
    have hout : q.type ∈ n.frame.dataPlugs.map (·.type) := List.mem_map_of_mem hmem
    rw [(hs _ n hn).sum hkind, Option.mem_toList] at hout
    exact hout

theorem adaptive_of_sum {n : Node} (hn : s.node? r.node = some n) (hk : n.kind = .generalAddition)
    (hr : r.kind = .data) : s.adaptive r = true := by
  rw [adaptive_of_node? hn, hk, hr]
  rfl

theorem inputType?_of_node? {id : NodeId} {n : Node} (hn : s.node? id = some n) (i : Nat) :
    s.inputType? ⟨id, .data, i⟩ = (n.frame.dataSockets.map (·.type))[i]? := by
  rw [inputType?, socket?, hn, Option.bind_some, List.getElem?_map]
  rfl

theorem output_ne_connect (hs : s.Shaped) (hd : s.DataTyped)
    (hk : s.kindOf p.node = some .generalAddition) (ha : s.outputType? p = some a) : a ≠ .connect := by
  rintro rfl
  obtain ⟨n, hn, hkind, hhigh⟩ := output_of_sum hs hk ha
  obtain ⟨i, hi⟩ := List.mem_iff_getElem?.1 (PortType.highest?_mem hhigh)
  rw [← inputType?_of_node? hn] at hi
  exact hd ⟨p.node, .data, i⟩ (adaptive_of_sum hn hkind rfl) hi

/-- A sum with an input that has no type has none itself. -/
theorem output_eq_any (hs : s.Shaped) (hd : s.DataTyped)
    (hk : s.kindOf p.node = some .generalAddition) (ha : s.outputType? p = some a)
    (hnode : r.node = p.node) (hr : r.kind = .data) (hin : s.inputType? r = some .any) : a = .any := by
  obtain ⟨n, hn, -, hhigh⟩ := output_of_sum hs hk ha
  obtain ⟨node, kind, index⟩ := r
  dsimp only at hnode hr
  subst hnode hr
  rw [inputType?_of_node? hn] at hin
  exact PortType.eq_any_of_rank (output_ne_connect hs hd hk ha)
    (PortType.rank_le_highest? hhigh (List.mem_of_getElem? hin))

theorem sum_of_adaptive (h : s.adaptive r = true) : s.kindOf r.node = some .generalAddition := by
  rw [adaptive] at h
  cases hn : s.node? r.node with
  | none =>
    rw [hn] at h
    cases h
  | some n =>
    rw [hn] at h
    rw [kindOf, hn]
    exact congrArg some (NodeKind.adapts_iff.1 h).1

theorem inputType?_of_idle (hs : s.Shaped) (h : s.adaptive r = true)
    (hidle : s.wiring.arrivals r = some []) : s.inputType? r = some .any := by
  obtain ⟨t, ht, hnone⟩ := Option.map_eq_some_iff.1 hidle
  obtain ⟨n, hn, hsocket⟩ := Option.bind_eq_some_iff.1 ht
  rw [adaptive_of_node? hn] at h
  rw [inputType?, ht]
  exact congrArg some ((hs _ n hn).idle r.kind r.index t hsocket h hnone)

end Sums

namespace DataTyped
variable {s t : Session}

theorem of_typing (h : s.DataTyped) (ht : ∀ id, t.typing? id = s.typing? id) : t.DataTyped := by
  intro a ha
  rw [inputType?_congr (ht a.node)]
  refine h a ?_
  rw [← adaptive_congr (kindOf_congr (ht a.node))]
  exact ha

/-- One socket is given a type if it adapts. -/
theorem given (h : s.DataTyped) (r : SocketRef) (type : PortType)
    (hkinds : ∀ id, t.kindOf id = s.kindOf id)
    (htype : s.adaptive r = true → type ≠ .connect)
    (hin : ∀ a, t.inputType? a =
      if a = r ∧ s.adaptive r then (s.inputType? a).map fun _ => type else s.inputType? a) :
    t.DataTyped := by
  intro a ha hflow
  rw [adaptive_congr (hkinds a.node)] at ha
  rw [hin] at hflow
  split at hflow
  · rename_i hat
    obtain ⟨_, -, rfl⟩ := Option.map_eq_some_iff.1 hflow
    exact htype hat.2 rfl
  · exact h a ha hflow

theorem spawn (h : s.DataTyped) (kind : NodeKind) (position : Point) (scale : Scalar) :
    (s.spawn kind position scale).2.DataTyped := by
  intro a ha hflow
  by_cases hnew : a.node = s.ids.node.1
  · have hnode : (s.spawn kind position scale).2.node? a.node =
        some ⟨kind, kind.freshFrame position scale s.settings.connectorStyle⟩ := by
      show (s.nodes.put s.ids.node.1 _).get? a.node = _
      rw [OrderedMap.get?_put, if_pos hnew]
      rfl
    rw [adaptive_of_node? hnode] at ha
    obtain ⟨rfl, hdata⟩ := NodeKind.adapts_iff.1 ha
    obtain ⟨node, port, index⟩ := a
    dsimp only at hdata hnode
    subst hdata
    rw [inputType?_of_node? hnode] at hflow
    have hmem : PortType.connect ∈ [PortType.any, PortType.any] := List.mem_of_getElem? hflow
    simp at hmem
  · have hold := s.typing?_spawn kind position scale a.node
    rw [if_neg hnew] at hold
    rw [inputType?_congr hold] at hflow
    rw [adaptive_congr (kindOf_congr hold)] at ha
    exact h a ha hflow

theorem eraseNode (h : s.DataTyped) (id : NodeId) : (s.eraseNode id).DataTyped := by
  intro a ha hflow
  have htyping := s.typing?_eraseNode id a.node
  split at htyping
  · rw [inputType?_eq, htyping] at hflow
    cases hflow
  · rw [inputType?_congr htyping] at hflow
    rw [adaptive_congr (kindOf_congr htyping)] at ha
    exact h a ha hflow

/-- Only a node with several operations gets other ports, and it is no sum. -/
theorem relayPorts (h : s.DataTyped) (hs : s.Shaped) {id : NodeId} {n : Node} (hn : s.node? id = some n)
    (hv : n.frame.variant.isSome) (variant : Variant) : (s.relayPorts id variant).DataTyped := by
  intro a ha hflow
  have hkinds : (s.relayPorts id variant).kindOf a.node = s.kindOf a.node :=
    (s.steady_modifyFrame id _).kinds a.node
  rw [adaptive_congr hkinds] at ha
  have hother : a.node ≠ id := by
    intro hid
    rw [adaptive_of_node? (hid ▸ hn)] at ha
    have hmath : n.kind = .math := eq_of_beq ((hs id n hn).variant.symm.trans hv)
    rw [hmath] at ha
    cases ha
  rw [inputType?_congr (s.typing?_relayPorts_of_ne hother variant)] at hflow
  exact h a ha hflow

theorem setValue (h : s.DataTyped) (r : SocketRef) (value : Option Literal) :
    (s.setValue r value).2.DataTyped := by
  intro a ha
  rw [inputType?_setValue]
  refine h a ?_
  rw [← adaptive_congr ((s.quiet_setValue r value).kinds a.node)]
  exact ha

theorem detachSocket (h : s.DataTyped) (c : ConnectorId) : (s.detachSocket c).DataTyped := by
  cases hto : (s.connector? c).bind (·.connectedTo) with
  | none =>
    have hsame : s.detachSocket c = s := by
      unfold Session.detachSocket
      rw [hto]
    rw [hsame]
    exact h
  | some r =>
    refine h.given r .any (s.steady_detachSocket c).kinds (fun _ hflow => by cases hflow) fun a => ?_
    rw [inputType?_congr (typing?_detachSocket hto a.node), inputType?_release]

end DataTyped

theorem joins_of_quiet {s t : Session} (h : s.Quiet t) {c : ConnectorId} {p : PlugRef} {r : SocketRef}
    (hc : t.Joins c p r) : s.Joins c p r := by
  rw [joins_iff] at hc ⊢
  rw [h.wiring] at hc
  exact hc

/-! ## Making an edge -/

/-- Whatever the second session joins is accepted there, or it was joined before and, if it was accepted
then, the plug is one of those that were retyped. -/
def Keeps (s t : Session) (retyped : PlugRef → Prop) : Prop :=
  ∀ c p r, t.Joins c p r → t.Accepts p r ∨ s.Joins c p r ∧ (s.Accepts p r → retyped p)

theorem joins_link {s : Session} {c d : ConnectorId} {p q : PlugRef} {r a : SocketRef}
    (he : s.wiring.edge c = some ⟨p, none, .dragging⟩) (hj : (s.link c r).Joins d q a) :
    d = c ∧ q = p ∧ a = r ∨ s.Joins d q a := by
  obtain ⟨e, hd, rfl, ha⟩ := joins_iff.1 hj
  rw [wiring_link he r] at hd
  change (if d = c then some _ else s.wiring.edge d) = some e at hd
  split at hd
  · rename_i hdc
    obtain rfl := Option.some.inj hd
    exact Or.inl ⟨hdc, rfl, (Option.some.inj ha).symm⟩
  · exact Or.inr (joins_iff.2 ⟨e, hd, rfl, ha⟩)

section Linking
variable {s : Session} {c : ConnectorId} {p : PlugRef} {r : SocketRef} {a b : PortType}

/-- A loose connector is brought to a socket that accepts its plug, and that is free if it takes data. -/
structure Fastens (s : Session) (c : ConnectorId) (p : PlugRef) (r : SocketRef) : Prop where
  loose : s.wiring.edge c = some ⟨p, none, .dragging⟩
  apart : p.node ≠ r.node
  accepts : s.Accepts p r
  idle : r.kind = .data → s.wiring.arrivals r = some []

theorem allowed_of_validate (hok : s.validate p r = .ok ()) :
    p.node ≠ r.node ∧ s.Accepts p r ∧ (r.kind = .data → s.wiring.arrivals r = some []) := by
  obtain ⟨q, t, hq, ht, hnode, -, haccepts, -, hfree⟩ := validate_eq_ok.1 hok
  refine ⟨hnode, ⟨q, t, hq, ht, haccepts⟩, fun hr => ?_⟩
  have hempty := hfree hr
  rw [Socket.isConnected, Bool.not_eq_false'] at hempty
  rw [arrivals_of_socket? ht, List.isEmpty_iff.1 hempty]

namespace Fastens

theorem typing (h : s.Fastens c p r) {m : NodeId} (hm : m ≠ r.node ∨ s.adaptive r = false) :
    (s.link c r).typing? m = s.typing? m := by
  obtain ⟨k, hk, -⟩ := edge_eq_some h.loose
  rw [typing?_link hk, typing?_receive hm]

/-- A socket that adapts takes the type of the plug, and no other input changes. -/
theorem inputType? (h : s.Fastens c p r) (ha : s.outputType? p = some a) (x : SocketRef) :
    (s.link c r).inputType? x =
      if x = r ∧ s.adaptive r then (s.inputType? x).map fun _ => a else s.inputType? x := by
  obtain ⟨k, hk, he⟩ := edge_eq_some h.loose
  have hplug : k.plug = p := congrArg Edge.plug he
  rw [inputType?_congr (typing?_link hk r x.node), inputType?_receive, hplug, ha]
  rfl

theorem plugType_ne_connect (h : s.Fastens c p r) (hs : s.Shaped) (hr : s.adaptive r = true)
    (ha : s.outputType? p = some a) : a ≠ .connect := by
  obtain ⟨a', b, ha', hb, haccepts⟩ := (accepts_iff hs).1 h.accepts
  rw [ha] at ha'
  obtain rfl := Option.some.inj ha'
  rw [inputType?_of_idle hs hr (h.idle (kind_of_adaptive hr))] at hb
  obtain rfl := Option.some.inj hb
  exact PortType.accepts_any_iff.1 haccepts

theorem dataTyped (h : s.Fastens c p r) (hs : s.Shaped) (hd : s.DataTyped) : (s.link c r).DataTyped := by
  obtain ⟨a, -, ha, -⟩ := (accepts_iff hs).1 h.accepts
  exact hd.given r a (s.steady_link c r).kinds (fun hr => h.plugType_ne_connect hs hr ha) (h.inputType? ha)

/-- The new edge is accepted: if its socket adapts it has the type of the plug by now. -/
theorem accepts_new (h : s.Fastens c p r) (hs : s.Shaped) : (s.link c r).Accepts p r := by
  obtain ⟨a, b, ha, hb, haccepts⟩ := (accepts_iff hs).1 h.accepts
  have hout : (s.link c r).outputType? p = some a :=
    (outputType?_congr (h.typing (Or.inl h.apart))).trans ha
  have hin := h.inputType? ha r
  rw [hb] at hin
  refine (accepts_iff (hs.link c r)).2 ?_
  split at hin
  · refine ⟨a, a, hout, hin, ?_⟩
    rw [PortType.accepts, beq_self_eq_true, Bool.or_true, Bool.true_or]
  · exact ⟨a, b, hout, hin, haccepts⟩

/-- An edge that was accepted is accepted still. -/
theorem accepts_old (h : s.Fastens c p r) (hs : s.Shaped) (hd : s.DataTyped) (hi : (s.link c r).Intact)
    {d : ConnectorId} {q : PlugRef} {x : SocketRef} (hj : (s.link c r).Joins d q x) (hx : x ≠ r ∨ r.kind ≠ .data)
    (hold : s.Accepts q x) : (s.link c r).Accepts q x := by
  have ht := hs.link c r
  obtain ⟨a, -, ha, -⟩ := (accepts_iff hs).1 h.accepts
  have hin : (s.link c r).inputType? x = s.inputType? x := by
    refine (h.inputType? ha x).trans (if_neg ?_)
    rintro ⟨hxr, hr⟩
    exact hx.elim (fun hne => hne hxr) fun hflow => hflow (kind_of_adaptive hr)
  by_cases hsame : q.node ≠ r.node ∨ s.adaptive r = false
  · exact hold.congr hs ht (outputType?_congr (h.typing hsame)) hin
  · -- The plug is the output of the sum. It had no type before, since the socket was idle.
    obtain ⟨hnode, hr⟩ := not_or.1 hsame
    have hnode : r.node = q.node := (Decidable.not_not.1 hnode).symm
    have hr : s.adaptive r = true := eq_true_of_ne_false hr
    have hsum : s.kindOf q.node = some .generalAddition := hnode ▸ sum_of_adaptive hr
    have hdata := kind_of_adaptive hr
    obtain ⟨u, b, hu, hb, haccepts⟩ := (accepts_iff hs).1 hold
    obtain rfl := output_eq_any hs hd hsum hu hnode hdata (inputType?_of_idle hs hr (h.idle hdata))
    obtain ⟨v, hv⟩ := Option.isSome_iff_exists.1 (hj.ends hi).1
    have hv : (s.link c r).outputType? q = some v.type := congrArg (Option.map Plug.type) hv
    have hsum' : (s.link c r).kindOf q.node = some .generalAddition :=
      ((s.steady_link c r).kinds q.node).trans hsum
    have hne := output_ne_connect ht (h.dataTyped hs hd) hsum' hv
    exact (accepts_iff ht).2 ⟨v.type, b, hv, hin.trans hb, PortType.accepts_of_any haccepts hne⟩

theorem joins_new (h : s.Fastens c p r) : (s.link c r).Joins c p r := by
  refine joins_iff.2 ⟨⟨p, some r, .connected⟩, ?_, rfl, rfl⟩
  rw [wiring_link h.loose]
  exact if_pos rfl

theorem not_joins (h : s.Fastens c p r) (q : PlugRef) (x : SocketRef) : ¬s.Joins c q x := by
  intro hc
  obtain ⟨e, he, -, hto⟩ := joins_iff.1 hc
  rw [h.loose] at he
  obtain rfl := Option.some.inj he
  cases hto

/-- An edge that was there does not share a data socket with the new one. -/
theorem elsewhere (h : s.Fastens c p r) (hi : (s.link c r).Intact) {d : ConnectorId} {q : PlugRef} {x : SocketRef}
    (hold : s.Joins d q x) (hj : (s.link c r).Joins d q x) : x ≠ r ∨ r.kind ≠ .data := by
  refine Decidable.or_iff_not_imp_left.2 fun hx hdata => ?_
  obtain rfl := Decidable.not_not.1 hx
  obtain rfl := hj.unique hi h.joins_new (Or.inl hdata)
  exact h.not_joins q x hold

/-- Making an edge spoils none. -/
theorem keeps (h : s.Fastens c p r) (hs : s.Shaped) (hd : s.DataTyped) (hi : (s.link c r).Intact) :
    s.Keeps (s.link c r) fun _ => False := by
  intro d q x hj
  obtain ⟨-, rfl, rfl⟩ | hold := joins_link h.loose hj
  · exact Or.inl (h.accepts_new hs)
  · by_cases haccepts : s.Accepts q x
    · exact Or.inl (h.accepts_old hs hd hi hj (h.elsewhere hi hold hj) haccepts)
    · exact Or.inr ⟨hold, haccepts⟩

end Fastens
end Linking

section Making
variable {s t : Session} {p : PlugRef} {r : SocketRef} {c : ConnectorId}

theorem accepts_congr (hs : s.Shaped) (ht : t.Shaped) (h : ∀ id, t.typing? id = s.typing? id)
    (haccepts : s.Accepts p r) : t.Accepts p r :=
  haccepts.congr hs ht (outputType?_congr (h p.node)) (inputType?_congr (h r.node))

/-- The new connector of an edge, before it is brought to its socket. -/
theorem fastens_addConnector (hs : s.Shaped) (hok : s.validate p r = .ok ()) (start stop : Point)
    (style : ConnectorStyle) :
    (s.addConnector p start stop style).2.Fastens s.ids.connector.1 p r := by
  obtain ⟨hnode, haccepts, hidle⟩ := allowed_of_validate hok
  refine ⟨s.edge_addConnector p start stop style, hnode, ?_, fun hr => ?_⟩
  · exact accepts_congr hs (hs.addConnector p start stop style)
      (s.typing?_addConnector p start stop style) haccepts
  · rw [wiring_addConnector]
    exact hidle hr

theorem fastens_release (hi : s.Intact) {d : Drag} (hd : s.drag = some d)
    (hok : ({ s with drag := none }.resetRadius r).validate d.plug r = .ok ()) :
    ({ s with drag := none }.resetRadius r).Fastens d.connector d.plug r := by
  obtain ⟨hnode, haccepts, hidle⟩ := allowed_of_validate hok
  exact ⟨hi.edge_released hd (some r), hnode, haccepts, hidle⟩

theorem joins_addConnector (s : Session) (p : PlugRef) (start stop : Point) (style : ConnectorStyle)
    {d : ConnectorId} {q : PlugRef} {x : SocketRef}
    (hj : (s.addConnector p start stop style).2.Joins d q x) : s.Joins d q x := by
  obtain ⟨e, he, hq, hx⟩ := joins_iff.1 hj
  rw [wiring_addConnector] at he
  change (if d = s.ids.connector.1 then some _ else s.wiring.edge d) = some e at he
  split at he
  · obtain rfl := Option.some.inj he
    cases hx
  · exact joins_iff.2 ⟨e, he, hq, hx⟩

end Making

/-! ## Typed sessions -/

/-- The session is intact, its nodes are in shape, and its sums carry data. -/
structure Typed (s : Session) : Prop where
  intact : s.Intact
  shaped : s.Shaped
  data : s.DataTyped

theorem typed_new (settings : Settings) : (new settings).Typed :=
  ⟨intact_new settings, shaped_new settings, fun _ h => by cases h⟩

namespace DataTyped
variable {s t : Session}

/-- Every move keeps flow out of the sums. -/
theorem move (h : s.DataTyped) (hs : s.Shaped) (hi : s.Intact) (hm : s.Move t) : t.DataTyped := by
  cases hm with
  | spawn kind position scale => exact h.spawn kind position scale
  | moveNode id position => exact h.of_typing (s.typing?_moveNode id position)
  | setScale id scale => exact h.of_typing (s.typing?_setScale id scale)
  | emitMove id => exact h.of_typing (s.typing?_emitMove id)
  | bringToFront id => exact h.of_typing (s.typing?_bringToFront id)
  | setStyle style => exact h.of_typing (s.typing?_setStyle style)
  | setValue r value => exact h.setValue r value
  | registerVariable name type => exact h.of_typing (s.typing?_registerVariable name type)
  | updateDrag pointer => exact h.of_typing (s.typing?_updateDrag pointer)
  | connect ht =>
    obtain ⟨hok, -, start, style, rfl⟩ := Intact.connect_eq ht
    exact (fastens_addConnector hs hok start start style).dataTyped (hs.addConnector _ _ _ _)
      (h.of_typing (s.typing?_addConnector _ start start style))
  | beginDrag ht => exact h.of_typing (typing?_beginDrag ht)
  | reconnect ht =>
    obtain ⟨-, k, -, rfl⟩ := reconnect_eq ht
    exact (h.detachSocket _).of_typing (typing?_pickUp _ k.plug _)
  | release hd hr hok =>
    exact (fastens_release hi hd hok).dataTyped (Shaped.resetRadius hs _) (h.of_typing (typing?_resetRadius _ _))
  | discard hd => exact h.of_typing (s.typing?_discardDrag _)
  | disconnect hk hc => exact (h.detachSocket _).of_typing (typing?_destroyConnector _ _)
  | eraseNode hn hfree hdrag => exact h.eraseNode _
  | relayPorts hn hold hfree hdrag variant => exact h.relayPorts hs hn (by rw [hold]; rfl) variant

end DataTyped

namespace Typed
variable {s t : Session}

theorem move (h : s.Typed) (hm : s.Move t) : t.Typed :=
  ⟨h.intact.move hm, h.shaped.move hm, h.data.move h.shaped h.intact hm⟩

theorem moves (h : s.Typed) (hm : s.Moves t) : t.Typed := by
  induction hm with
  | refl => exact h
  | tail _ hstep ih => exact ih.move hstep

/-- An edge that is made is accepted, and spoils none. -/
theorem keeps_connect (h : s.Typed) {p : PlugRef} {r : SocketRef} {c : ConnectorId}
    (ht : s.connect p r = .ok (c, t)) : s.Keeps t fun _ => False := by
  have hi := h.intact.connect ht
  obtain ⟨hok, -, start, style, rfl⟩ := Intact.connect_eq ht
  have htyping := s.typing?_addConnector p start start style
  have hshaped := h.shaped.addConnector p start start style
  have hlink := (fastens_addConnector h.shaped hok start start style).keeps hshaped
    (h.data.of_typing htyping) hi
  intro d q x hj
  refine (hlink d q x hj).imp_right ?_
  rintro ⟨hold, hrefused⟩
  exact ⟨joins_addConnector s p start start style hold,
    fun haccepts => hrefused (accepts_congr h.shaped hshaped htyping haccepts)⟩

theorem keeps_release (h : s.Typed) {d : Drag} {r : SocketRef} (hd : s.drag = some d)
    (hok : ({ s with drag := none }.resetRadius r).validate d.plug r = .ok ()) :
    s.Keeps (({ s with drag := none }.resetRadius r).link d.connector r) fun _ => False := by
  have hi := h.intact.release hd hok
  have hidle : Shaped { s with drag := none } := h.shaped
  have htyping (m : NodeId) : ({ s with drag := none }.resetRadius r).typing? m = s.typing? m :=
    typing?_resetRadius _ r m
  have hlink := (fastens_release h.intact hd hok).keeps (hidle.resetRadius r) (h.data.of_typing htyping) hi
  intro c q x hj
  refine (hlink c q x hj).imp_right ?_
  rintro ⟨hold, hrefused⟩
  exact ⟨joins_of_quiet (quiet_resetRadius { s with drag := none } r) hold,
    fun haccepts => hrefused (accepts_congr h.shaped (hidle.resetRadius r) htyping haccepts)⟩

end Typed
end Session
end FlowGraph

import FlowGraph.Proofs.Node.Look
import FlowGraph.Proofs.Program.Saved
import FlowGraph.Proofs.Session.Shape

/-! # The nodes of a restored session

For each saved node a new one of its kind is made, and nothing else changes on the way. Of the types
that a kind leaves open only that of a variable reader is known by then.
-/

namespace FlowGraph
set_option autoImplicit false

namespace Session

/-! ## Changes inside one node -/

/-- The sessions differ at one node only, and that keeps its kind. -/
structure Within (id : NodeId) (s t : Session) : Prop where
  others : ∀ n, n ≠ id → t.node? n = s.node? n
  kind : (t.node? id).map (·.kind) = (s.node? id).map (·.kind)
  connectors : t.connectors = s.connectors
  drag : t.drag = s.drag
  ids : t.ids = s.ids
  variableTypes : t.variableTypes = s.variableTypes

namespace Within
variable {id : NodeId} {s t u : Session}

theorem refl (id : NodeId) (s : Session) : Within id s s := ⟨fun _ _ => rfl, rfl, rfl, rfl, rfl, rfl⟩

theorem trans (h : Within id s t) (h' : Within id t u) : Within id s u where
  others n hn := (h'.others n hn).trans (h.others n hn)
  kind := h'.kind.trans h.kind
  connectors := h'.connectors.trans h.connectors
  drag := h'.drag.trans h.drag
  ids := h'.ids.trans h.ids
  variableTypes := h'.variableTypes.trans h.variableTypes

theorem modifyNode (s : Session) (id : NodeId) (f : Node → Node) (hf : ∀ n, (f n).kind = n.kind) :
    Within id s (s.modifyNode id f) := by
  refine ⟨fun n hn => ?_, ?_, rfl, rfl, rfl, rfl⟩
  · rw [node?_modifyNode, if_neg hn]
  · rw [node?_modifyNode, if_pos rfl, Option.map_map]
    congr 1
    funext n
    exact hf n

theorem setValue (s : Session) (id : NodeId) (index : Nat) (value : Option Literal) :
    Within id s (s.setValue ⟨id, .data, index⟩ value).2 := by
  unfold Session.setValue
  split
  · exact modifyNode s id _ fun _ => rfl
  · exact refl id s

theorem setConstants (s : Session) (id : NodeId) (r : NodeRecord) :
    Within id s (Restore.setConstants s id r) := by
  unfold Restore.setConstants
  induction r.inputs.zipIdx generalizing s with
  | nil => exact refl id s
  | cons e rest ih =>
    rw [List.foldl_cons]
    refine trans ?_ (ih _)
    obtain ⟨input, index⟩ := e
    dsimp only
    split
    · exact setValue s id index _
    · exact refl id s

end Within

/-- On a node without connections, choosing a variant only lays out the ports. -/
theorem selectVariant_unwired {s : Session} {id : NodeId} {n : Node} (hn : s.node? id = some n)
    (hd : s.drag = none) (hbare : n.frame.Unwired) (variant : Variant) :
    (s.selectVariant id variant).2 =
      if n.frame.variant.isSome then s.relayPorts id variant else s := by
  have htouch : s.dragTouches id = false := by
    rw [dragTouches, hd]
  have hattached : n.frame.attached = [] := by
    have hsockets : (n.frame.flowSockets ++ n.frame.dataSockets).flatMap (·.incoming) = [] := by
      refine List.flatMap_eq_nil_iff.2 fun t ht => ?_
      obtain ht | ht := List.mem_append.1 ht
      · exact hbare.sockets .flow t ht
      · exact hbare.sockets .data t ht
    have hplugs : (n.frame.flowPlugs ++ n.frame.dataPlugs).flatMap (·.connected) = [] := by
      refine List.flatMap_eq_nil_iff.2 fun p hp => ?_
      obtain hp | hp := List.mem_append.1 hp
      · exact hbare.plugs .flow p hp
      · exact hbare.plugs .data p hp
    rw [Frame.attached, hsockets, hplugs]
    rfl
  have hclear : (s.clearConnections id).2 = s := by
    unfold clearConnections
    rw [htouch, if_neg Bool.false_ne_true]
    dsimp only
    rw [hn]
    dsimp only
    rw [hattached]
    rfl
  have hmove : (s.relayPorts id variant).emitMove id = s.relayPorts id variant := by
    have hnode : (s.relayPorts id variant).node? id = some { n with frame :=
        { n.frame.layVariantPorts variant s.settings.connectorStyle with
          variant := some variant, name := variant.title } } := by
      rw [relayPorts, modifyFrame, node?_modifyNode, if_pos rfl, hn]
      rfl
    have hfollow : (n.frame.layVariantPorts variant s.settings.connectorStyle).dependents = [] :=
      hbare.dependents
    unfold emitMove
    rw [hnode]
    dsimp only
    rw [hfollow]
    rfl
  unfold selectVariant
  rw [hn, Option.bind_some]
  cases n.frame.variant with
  | none => rfl
  | some old =>
    dsimp only
    rw [hclear]
    exact hmove.trans (if_pos rfl).symm

/-! ## One record -/

/-- The second session has new nodes, and otherwise the same. -/
structure Grows (s t : Session) : Prop where
  old : ∀ n, n.number < s.ids.nextNode → t.node? n = s.node? n
  next : s.ids.nextNode ≤ t.ids.nextNode
  connectors : t.connectors = s.connectors
  drag : t.drag = s.drag
  variableTypes : t.variableTypes = s.variableTypes

namespace Grows
variable {s t u : Session}

theorem refl (s : Session) : s.Grows s := ⟨fun _ _ => rfl, Nat.le_refl _, rfl, rfl, rfl⟩

theorem trans (h : s.Grows t) (h' : t.Grows u) : s.Grows u where
  old n hn := (h'.old n (Nat.lt_of_lt_of_le hn h.next)).trans (h.old n hn)
  next := Nat.le_trans h.next h'.next
  connectors := h'.connectors.trans h.connectors
  drag := h'.drag.trans h.drag
  variableTypes := h'.variableTypes.trans h.variableTypes

end Grows

/-- The type that a new variable reader gets from its record. -/
def readerType (types : Variables) (r : NodeRecord) : PortType :=
  match r.inputs with
  | i :: _ => if i.constant then ((i.value.bind Literal.text?).bind types.get?).getD .any else .any
  | [] => .any

theorem node?_spawn (s : Session) (kind : NodeKind) (position : Point) (scale : Scalar) (id : NodeId) :
    (s.spawn kind position scale).2.node? id =
      if id = s.ids.node.1 then some ⟨kind, kind.freshFrame position scale s.settings.connectorStyle⟩
      else s.node? id :=
  s.nodes.get?_put s.ids.node.1 id _

/-- What is done to the node of a record after it has been made. -/
theorem within_spawnRecord {s : Session} (hd : s.drag = none) (kind : NodeKind) (r : NodeRecord) :
    Within s.ids.node.1 (s.spawn kind ⟨r.x, r.y⟩ r.scale).2 (Restore.spawnRecord s kind r).2 := by
  have hnode : (s.spawn kind ⟨r.x, r.y⟩ r.scale).2.node? s.ids.node.1 =
      some ⟨kind, kind.freshFrame ⟨r.x, r.y⟩ r.scale s.settings.connectorStyle⟩ := by
    rw [node?_spawn, if_pos rfl]
  have hbare := Frame.Unwired.freshFrame kind ⟨r.x, r.y⟩ r.scale s.settings.connectorStyle
  unfold Restore.spawnRecord
  dsimp only
  refine Within.trans ?_ (Within.setConstants _ _ r)
  split
  · rename_i variant hv
    have hselect := selectVariant_unwired hnode hd hbare variant
    show Within _ _ ((s.spawn kind ⟨r.x, r.y⟩ r.scale).2.selectVariant s.ids.node.1 variant).2
    rw [hselect]
    split
    · exact Within.modifyNode _ _ _ fun _ => rfl
    · exact Within.refl _ _
  · exact Within.refl _ _

theorem grows_spawnRecord {s : Session} (hd : s.drag = none) (kind : NodeKind) (r : NodeRecord) :
    s.Grows (Restore.spawnRecord s kind r).2 ∧
      (Restore.spawnRecord s kind r).2.ids.nextNode = s.ids.nextNode + 1 ∧
        ((Restore.spawnRecord s kind r).2.node? s.ids.node.1).map (·.kind) = some kind ∧
          ∀ id, id ≠ s.ids.node.1 → (Restore.spawnRecord s kind r).2.node? id = s.node? id := by
  have hwithin := within_spawnRecord hd kind r
  have hothers (id : NodeId) (hid : id ≠ s.ids.node.1) :
      (Restore.spawnRecord s kind r).2.node? id = s.node? id := by
    rw [hwithin.others id hid, node?_spawn, if_neg hid]
  have hnext : (Restore.spawnRecord s kind r).2.ids.nextNode = s.ids.nextNode + 1 :=
    congrArg IdSource.nextNode hwithin.ids
  refine ⟨⟨fun n hn => hothers n ?_, ?_, hwithin.connectors, hwithin.drag, hwithin.variableTypes⟩,
    hnext, ?_, hothers⟩
  · rintro rfl
    exact Nat.lt_irrefl _ hn
  · rw [hnext]
    exact Nat.le_succ _
  · rw [hwithin.kind, node?_spawn, if_pos rfl]
    rfl

/-- What one input of a record does to the node that is made for it. -/
def setConstant (s : Session) (id : NodeId) (input : InputRecord) (index : Nat) : Session :=
  if input.constant then
    input.value.elim s fun value => (s.setValue ⟨id, .data, index⟩ (some value)).2
  else s

theorem setConstants_eq (s : Session) (id : NodeId) (r : NodeRecord) : Restore.setConstants s id r =
    r.inputs.zipIdx.foldl (fun s e => s.setConstant id e.1 e.2) s := by
  refine congrArg (r.inputs.zipIdx.foldl · s) (funext fun s => funext fun e => ?_)
  obtain ⟨⟨source, port, type, constant, value⟩, index⟩ := e
  cases constant <;> cases value <;> rfl

section Constant
variable {s : Session} {id : NodeId} {input : InputRecord} {index : Nat}

theorem setConstant_of_none (hvalue : input.value = none) : s.setConstant id input index = s := by
  unfold setConstant
  rw [hvalue]
  exact ite_self s

theorem setConstant_of_some {value : Literal} (hconstant : input.constant = true)
    (hvalue : input.value = some value) :
    s.setConstant id input index = (s.setValue ⟨id, .data, index⟩ (some value)).2 := by
  unfold setConstant
  rw [if_pos hconstant, hvalue]
  rfl

end Constant

theorem reader_setConstants {t : Session} {id : NodeId} {f : Frame} {s : Socket} {p : Plug}
    (hn : t.node? id = some ⟨.variableRead, f⟩) (hs : f.dataSockets = [s]) (hp : f.dataPlugs = [p])
    (hany : p.type = .any) {r : NodeRecord} {i : InputRecord} (hi : r.inputs = [i]) :
    ((Restore.setConstants t id r).node? id).map (fun n => n.frame.dataPlugs.map (·.type)) =
      some [readerType t.variableTypes r] := by
  have hone : Restore.setConstants t id r = t.setConstant id i 0 := by
    rw [setConstants_eq, hi]
    rfl
  have hsame : (t.node? id).map (fun n => n.frame.dataPlugs.map (·.type)) = some [.any] := by
    rw [hn, Option.map_some, hp, List.map_singleton, hany]
  rw [hone, readerType, hi]
  dsimp only
  cases hvalue : i.value with
  | none =>
    rw [setConstant_of_none hvalue]
    exact hsame.trans (congrArg (fun type => some [type]) (ite_self _).symm)
  | some value =>
    cases hconstant : i.constant with
    | false =>
      unfold setConstant
      rw [hconstant]
      exact hsame
    | true =>
      rw [setConstant_of_some hconstant hvalue]
      have hlive : (t.socket? ⟨id, .data, 0⟩).isSome := by
        rw [socket?, hn, Option.bind_some, Frame.socket?, Frame.sockets, hs]
        rfl
      have hstored : (t.setValue ⟨id, .data, 0⟩ (some value)).2.node? id = some ⟨.variableRead,
          NodeKind.variableRead.valueChanged (f.modifySocket .data 0 fun t => { t with value := some value })
            0 (some value) t.variableTypes⟩ := by
        have hdata : (decide (PortKind.data = PortKind.data) &&
          (t.socket? ⟨id, .data, 0⟩).isSome) = true := hlive
        unfold setValue
        rw [if_pos hdata]
        dsimp only
        rw [node?_modifyNode, if_pos rfl, hn]
        rfl
      rw [hstored]
      show some ((f.dataPlugs.modify 0 _).map (·.type)) = _
      rw [hp]
      rfl

/-- A variable reader takes the type of the variable that its record names. -/
theorem reader_spawnRecord {s : Session} (hd : s.drag = none) {r : NodeRecord} {i : InputRecord}
    (hi : r.inputs = [i]) :
    ((Restore.spawnRecord s .variableRead r).2.node? s.ids.node.1).map
        (fun n => n.frame.dataPlugs.map (·.type)) = some [readerType s.variableTypes r] := by
  have hnode : (s.spawn .variableRead ⟨r.x, r.y⟩ r.scale).2.node? s.ids.node.1 = some
      ⟨.variableRead, NodeKind.variableRead.freshFrame ⟨r.x, r.y⟩ r.scale s.settings.connectorStyle⟩ := by
    rw [node?_spawn, if_pos rfl]
  -- A reader offers no variants, so its record cannot choose one.
  have hspawn : (Restore.spawnRecord s .variableRead r).2 =
      Restore.setConstants (s.spawn .variableRead ⟨r.x, r.y⟩ r.scale).2 s.ids.node.1 r := by
    unfold Restore.spawnRecord
    dsimp only
    split
    · have hselect := selectVariant_unwired hnode hd (Frame.Unwired.freshFrame ..)
      exact congrArg (Restore.setConstants · s.ids.node.1 r) (hselect _)
    · rfl
  rw [hspawn]
  exact reader_setConstants hnode rfl rfl rfl hi

theorem inputs_reader (s : Session) (id : NodeId) {n : Node} (h : n.Shaped) (hk : n.kind = .variableRead) :
    ∃ t, n.frame.dataSockets = [t] ∧ (s.recordOf id n).inputs = [s.inputOf t] := by
  have hlength := h.length_sockets .data
  rw [hk] at hlength
  obtain ⟨t, ht⟩ := List.length_eq_one_iff.1 hlength
  have hsockets : n.frame.dataSockets = [t] := ht
  refine ⟨t, hsockets, ?_⟩
  show n.frame.dataSockets.map s.inputOf = _
  rw [hsockets]
  rfl

theorem readerType_recordOf (s : Session) (id : NodeId) {n : Node} (h : n.Shaped)
    (hk : n.kind = .variableRead) {types : Variables}
    (hvars : ∀ name, types.get? name = s.toProgram.variableTypes.get? name) :
    readerType types (s.recordOf id n) = s.namedType n := by
  obtain ⟨t, ht, hi⟩ := inputs_reader s id h hk
  have hlookup : types.get? = s.toProgram.variableTypes.get? := funext hvars
  rw [readerType, namedType, hi, ht, hlookup]
  dsimp only
  unfold inputOf
  cases s.feeder? t with
  | some p => rfl
  | none => rfl

/-! ## Looks -/

theorem look_setValue {t : Session} {id : NodeId} {m : Node} (hm : t.node? id = some m) {index : Nat}
    (hindex : index < m.frame.values.length) (value : Option Literal) :
    ∃ m', (t.setValue ⟨id, .data, index⟩ value).2.node? id = some m' ∧
      m'.frame.look = { m.frame.look with values := m.frame.values.set index value } := by
  have hlive : (decide (PortKind.data = PortKind.data) &&
      (t.socket? ⟨id, .data, index⟩).isSome) = true := by
    rw [Frame.values, List.length_map] at hindex
    rw [socket?, hm]
    show (m.frame.dataSockets[index]?).isSome = true
    rw [List.getElem?_eq_getElem hindex]
    rfl
  unfold setValue
  rw [if_pos hlive]
  dsimp only
  refine ⟨_, (node?_modifyNode ..).trans ((if_pos rfl).trans (congrArg (Option.map _) hm)), ?_⟩
  refine (Frame.look_eq (NodeKind.body_valueChanged ..) (NodeKind.values_valueChanged ..)).trans ?_
  exact congrArg (Look.mk _ _ _) (m.frame.values_setValue index value)

theorem look_setConstant {t : Session} {id : NodeId} {m : Node} (hm : t.node? id = some m)
    {input : InputRecord} (hplain : input.constant = false → input.value = none) {index : Nat}
    (hunset : m.frame.values[index]? = some none) :
    ∃ m', (t.setConstant id input index).node? id = some m' ∧
      m'.frame.look = { m.frame.look with values := m.frame.values.set index input.value } := by
  obtain ⟨hindex, hnone⟩ := List.getElem?_eq_some_iff.1 hunset
  cases hvalue : input.value with
  | none =>
    have hsame : m.frame.values.set index none = m.frame.values := by
      rw [← hnone]
      exact List.set_getElem_self hindex
    rw [setConstant_of_none hvalue, hsame]
    exact ⟨m, hm, rfl⟩
  | some value =>
    have hconstant : input.constant = true := by
      cases hc : input.constant with
      | true => rfl
      | false =>
        rw [hplain hc] at hvalue
        cases hvalue
    rw [setConstant_of_some hconstant hvalue]
    exact look_setValue hm hindex (some value)

/-- A record without values for its connected inputs gives a node without values all of its own. -/
theorem look_setConstants {id : NodeId} {inputs : List InputRecord}
    (hplain : ∀ i ∈ inputs, i.constant = false → i.value = none) {t : Session} {m : Node}
    (hm : t.node? id = some m) {done : List (Option Literal)}
    (hvalues : m.frame.values = done ++ inputs.map fun _ => none) :
    (((inputs.zipIdx done.length).foldl (fun s e => s.setConstant id e.1 e.2) t).node? id).map
        (·.frame.look) = some { m.frame.look with values := done ++ inputs.map (·.value) } := by
  induction inputs generalizing t m done with
  | nil =>
    have hlook : m.frame.look = { m.frame.look with values := done ++ [] } :=
      congrArg (Look.mk _ _ _) hvalues
    rw [List.zipIdx_nil, List.foldl_nil, hm]
    exact congrArg some hlook
  | cons input rest ih =>
    have hunset : m.frame.values[done.length]? = some none := by
      rw [hvalues, List.getElem?_append_right (Nat.le_refl _), Nat.sub_self]
      rfl
    obtain ⟨m', hm', hlook⟩ := look_setConstant hm (hplain input List.mem_cons_self) hunset
    have hset : m'.frame.values = (done ++ [input.value]) ++ rest.map fun _ => none := by
      have hnew : m'.frame.values = m.frame.values.set done.length input.value := congrArg Look.values hlook
      rw [hnew, hvalues, List.set_append_right _ _ (Nat.le_refl _), Nat.sub_self, List.append_assoc]
      rfl
    have hdone := ih (fun i hi => hplain i (List.mem_cons_of_mem _ hi)) hm' hset
    rw [List.length_append, List.append_assoc, hlook] at hdone
    exact hdone

/-- A new node has the look that its record tells of. -/
theorem look_spawnRecord {s : Session} (hd : s.drag = none) {kind : NodeKind} {r : NodeRecord}
    (hlength : r.inputs.length = (kind.socketTypes .data).length)
    (hvariant : r.variant.isSome = (kind == .math))
    (hplain : ∀ i ∈ r.inputs, i.constant = false → i.value = none) :
    ((Restore.spawnRecord s kind r).2.node? s.ids.node.1).map (·.frame.look) =
      some ⟨⟨r.x, r.y⟩, r.scale, r.variant, r.inputs.map (·.value)⟩ := by
  have hnode : (s.spawn kind ⟨r.x, r.y⟩ r.scale).2.node? s.ids.node.1 =
      some ⟨kind, kind.freshFrame ⟨r.x, r.y⟩ r.scale s.settings.connectorStyle⟩ := by
    rw [node?_spawn, if_pos rfl]
  have hnone : (kind.socketTypes .data).map (fun _ => none) =
      r.inputs.map fun _ => (none : Option Literal) := by
    rw [List.map_const', List.map_const', hlength]
  have hfresh := kind.look_freshFrame ⟨r.x, r.y⟩ r.scale s.settings.connectorStyle
  rw [hnone] at hfresh
  have hset (u : Session) (m : Node) (hm : u.node? s.ids.node.1 = some m)
      (hlook : m.frame.look = ⟨⟨r.x, r.y⟩, r.scale, r.variant, r.inputs.map fun _ => none⟩) :
      ((Restore.setConstants u s.ids.node.1 r).node? s.ids.node.1).map (·.frame.look) =
        some ⟨⟨r.x, r.y⟩, r.scale, r.variant, r.inputs.map (·.value)⟩ := by
    have hvalues : m.frame.values = [] ++ r.inputs.map fun _ => none := congrArg Look.values hlook
    have hdone := look_setConstants hplain hm hvalues
    rw [hlook] at hdone
    rw [setConstants_eq]
    exact hdone
  unfold Restore.spawnRecord
  dsimp only
  cases hchosen : r.variant with
  | none =>
    have hother : kind ≠ .math := by
      rintro rfl
      rw [hchosen] at hvariant
      cases hvariant
    rw [hchosen] at hset
    refine hset _ _ hnode ?_
    rw [hfresh, if_neg hother]
  | some variant =>
    have hmath : kind = .math := by
      rw [hchosen] at hvariant
      exact eq_of_beq hvariant.symm
    subst hmath
    rw [hchosen] at hset
    dsimp only
    have hselect := selectVariant_unwired hnode hd (Frame.Unwired.freshFrame ..) variant
    have hoffers : (NodeKind.math.freshFrame ⟨r.x, r.y⟩ r.scale s.settings.connectorStyle).variant.isSome =
        true := rfl
    rw [if_pos hoffers] at hselect
    show ((Restore.setConstants ((s.spawn .math ⟨r.x, r.y⟩ r.scale).2.selectVariant s.ids.node.1
      variant).2 s.ids.node.1 r).node? s.ids.node.1).map _ = _
    rw [hselect]
    have hrelaid := node?_modifyNode (s.spawn .math ⟨r.x, r.y⟩ r.scale).2 s.ids.node.1 s.ids.node.1
    refine hset _ _ ((hrelaid _).trans ((if_pos rfl).trans (congrArg (Option.map _) hnode))) ?_
    rw [← hnone]
    rfl

/-- The look that is saved of a node: a constant only where nothing is connected. -/
def savedLook (s : Session) (n : Node) : Look :=
  { n.frame.look with values := n.frame.dataSockets.map fun t => (s.inputOf t).value }

theorem look_saved {s t : Session} (hd : t.drag = none) {id : NodeId} {n : Node} (h : n.Shaped) :
    ((Restore.spawnRecord t n.kind (s.recordOf id n)).2.node? t.ids.node.1).map (·.frame.look) =
      some (s.savedLook n) := by
  have hlength : (s.recordOf id n).inputs.length = (n.kind.socketTypes .data).length :=
    (List.length_map _).trans (h.length_sockets .data)
  have hplain : ∀ i ∈ (s.recordOf id n).inputs, i.constant = false → i.value = none := by
    intro i hi hconstant
    obtain ⟨t, -, rfl⟩ := List.mem_map.1 hi
    unfold inputOf at hconstant ⊢
    cases hfeeder : s.feeder? t with
    | some p => rfl
    | none =>
      rw [hfeeder] at hconstant
      cases hconstant
  have hlook := look_spawnRecord hd hlength h.variant hplain
  have hvalues : (s.recordOf id n).inputs.map (·.value) =
      n.frame.dataSockets.map fun t => (s.inputOf t).value := List.map_map
  rw [hvalues] at hlook
  exact hlook

/-! ## Variables -/

/-- Variables are registered in order, so of two with one name the first counts. -/
theorem registerVariables_eq (s : Session) (types : SortedMap PortType) :
    ∃ known, Restore.registerVariables s types = { s with variableTypes := known } ∧
      ∀ name, known.get? name = (s.variableTypes.get? name).or (types.get? name) := by
  unfold Restore.registerVariables SortedMap.get?
  induction types.entries generalizing s with
  | nil =>
    refine ⟨s.variableTypes, rfl, fun name => ?_⟩
    rw [List.lookup_nil, Option.or_none]
  | cons e rest ih =>
    obtain ⟨name, type⟩ := e
    obtain ⟨known, hrest, hget⟩ := ih (s.registerVariable name type).2
    refine ⟨known, ?_, fun other => ?_⟩
    · rw [List.foldl_cons, hrest]
      unfold registerVariable
      split <;> rfl
    · rw [hget, List.lookup_cons]
      unfold registerVariable
      cases hc : s.variableTypes.contains name with
      | true =>
        rw [if_pos rfl]
        by_cases ho : other = name
        · rw [← OrderedMap.get?_isSome, ← ho] at hc
          obtain ⟨type', htype⟩ := Option.isSome_iff_exists.1 hc
          rw [htype, Option.some_or, Option.some_or]
        · rw [beq_false_of_ne ho]
      | false =>
        rw [if_neg Bool.false_ne_true]
        dsimp only
        rw [OrderedMap.get?_insert]
        by_cases ho : other = name
        · rw [← OrderedMap.get?_isSome, ← ho, Option.isSome_eq_false_iff] at hc
          rw [if_pos ho, ho, beq_self_eq_true, ← ho, Option.isNone_iff_eq_none.1 hc, Option.none_or,
            Option.some_or]
        · rw [if_neg ho, beq_false_of_ne ho]

/-- A session without variables takes over those that are registered, in their order. -/
theorem entries_registerVariables {s : Session} (hnone : s.variableTypes.entries = [])
    (types : SortedMap PortType) :
    (Restore.registerVariables s types).variableTypes.entries = types.entries := by
  have hall (es : List (String × PortType)) (t : Session)
      (h : (t.variableTypes.entries ++ es).Pairwise fun a b => a.1 < b.1) :
      (es.foldl (fun t e => (t.registerVariable e.1 e.2).2) t).variableTypes.entries =
        t.variableTypes.entries ++ es := by
    induction es generalizing t with
    | nil => exact (List.append_nil _).symm
    | cons e rest ih =>
      have hnew : e.1 ∉ t.variableTypes.keys := by
        intro hin
        obtain ⟨x, hx, hsame⟩ := List.mem_map.1 hin
        have hless := (List.pairwise_append.1 h).2.2 x hx e List.mem_cons_self
        rw [hsame] at hless
        exact String.lt_irrefl _ hless
      have hunknown : t.variableTypes.contains e.1 = false := by
        rw [← Bool.not_eq_true, ← OrderedMap.get?_isSome, ← OrderedMap.mem_keys_iff]
        exact hnew
      have hmore : (t.registerVariable e.1 e.2).2.variableTypes.entries ++ rest =
          t.variableTypes.entries ++ e :: rest := by
        rw [registerVariable, hunknown, if_neg Bool.false_ne_true]
        dsimp only
        rw [OrderedMap.entries_insert hnew, List.append_assoc]
        rfl
      rw [List.foldl_cons, ih _ (by rw [hmore]; exact h), hmore]
  have hregistered := hall types.entries s (by rw [hnone]; exact types.sorted)
  rw [hnone] at hregistered
  exact hregistered

/-! ## All records -/

/-- A new node stands for a saved one. -/
structure Respawned (s t : Session) (id place : NodeId) : Prop where
  kind : (t.node? place).map (·.kind) = (s.node? id).map (·.kind)
  reader : ∀ n, s.node? id = some n → n.kind = .variableRead →
    (t.node? place).map (fun m => m.frame.dataPlugs.map (·.type)) = some [s.namedType n]
  look : (t.node? place).map (·.frame.look) = (s.node? id).map s.savedLook

theorem Respawned.grows {s t u : Session} {id place : NodeId} (h : s.Respawned t id place)
    (hg : t.Grows u) (hp : place.number < t.ids.nextNode) : s.Respawned u id place := by
  have hsame := hg.old place hp
  refine ⟨?_, fun n hn hk => ?_, ?_⟩
  · rw [hsame]
    exact h.kind
  · rw [hsame]
    exact h.reader n hn hk
  · rw [hsame]
    exact h.look

/-- A node that stands for a sum is one. -/
theorem Respawned.adaptive {s t : Session} {r : SocketRef} {place : NodeId}
    (h : s.Respawned t r.node place) : t.adaptive { r with node := place } = s.adaptive r := by
  have hkind := congrArg (Option.map (·.adapts r.kind)) h.kind
  rw [Option.map_map, Option.map_map] at hkind
  exact congrArg (·.getD false) hkind

theorem respawned_spawnRecord {s t : Session} (hs : s.Shaped) (hd : t.drag = none)
    (hvars : ∀ name, t.variableTypes.get? name = s.toProgram.variableTypes.get? name) {id : NodeId}
    {n : Node} (hn : s.node? id = some n) :
    s.Respawned (Restore.spawnRecord t n.kind (s.recordAt id)).2 id t.ids.node.1 := by
  obtain ⟨-, -, hkind, -⟩ := grows_spawnRecord hd n.kind (s.recordAt id)
  refine ⟨?_, fun m hm hk => ?_, ?_⟩
  · rw [hn]
    exact hkind
  · rw [hn] at hm
    obtain rfl := Option.some.inj hm
    obtain ⟨i, -, hi⟩ := inputs_reader s id (hs id n hn) hk
    have hreader := reader_spawnRecord hd (r := s.recordOf id n) hi
    rw [readerType_recordOf s id (hs id n hn) hk hvars] at hreader
    rw [hk, recordAt_of_node? hn]
    exact hreader
  · rw [hn, recordAt_of_node? hn]
    exact look_saved hd (hs id n hn)

theorem kind?_standard (kind : NodeKind) : Palette.standard.kind? kind.identifier = some kind := by
  cases kind <;> rfl

/-- What the restored session has after all nodes have been made. -/
structure Spawned (s t : Session) (report : RestoreReport) (ids : List NodeId)
    (out : Session × RestoreReport) : Prop where
  grows : t.Grows out.1
  skipped : out.2.skippedNodes = report.skippedNodes
  only : ∀ place, (out.1.node? place).isSome →
    (t.node? place).isSome ∨ ∃ id ∈ ids, out.2.nodes.get? id.text = some place
  ordered : ids.Pairwise fun a b => ∀ p q, out.2.nodes.get? a.text = some p →
    out.2.nodes.get? b.text = some q → p.number < q.number
  other : ∀ uid, (∀ id ∈ ids, id.text ≠ uid) → out.2.nodes.get? uid = report.nodes.get? uid
  placed : ∀ id ∈ ids, ∃ place, out.2.nodes.get? id.text = some place ∧
    t.ids.nextNode ≤ place.number ∧ place.number < out.1.ids.nextNode ∧ s.Respawned out.1 id place
  apart : ∀ id ∈ ids, ∀ id' ∈ ids, out.2.nodes.get? id.text = out.2.nodes.get? id'.text → id = id'

/-- One node more has been made before the others. -/
theorem Spawned.cons {s t u : Session} {report : RestoreReport} {id : NodeId} {rest : List NodeId}
    {out : Session × RestoreReport} (hnew : id ∉ rest) (hgrows : t.Grows u)
    (hothers : ∀ place, place ≠ t.ids.node.1 → u.node? place = t.node? place)
    (hnext : u.ids.nextNode = t.ids.nextNode + 1) (hfirst : s.Respawned u id t.ids.node.1)
    (hmore : s.Spawned u { report with nodes := report.nodes.insert id.text t.ids.node.1 } rest out) :
    s.Spawned t report (id :: rest) out := by
  have htext (m : NodeId) (hm : m ∈ rest) : m.text ≠ id.text := by
    intro hsame
    rw [NodeId.text_injective hsame] at hm
    exact hnew hm
  have hget : out.2.nodes.get? id.text = some t.ids.node.1 := by
    rw [hmore.other id.text htext]
    show (report.nodes.insert id.text t.ids.node.1).get? id.text = _
    rw [OrderedMap.get?_insert, if_pos rfl]
  have hplaced (m : NodeId) (hm : m ∈ rest) : out.2.nodes.get? m.text ≠ some t.ids.node.1 := by
    obtain ⟨place, hplace, hle, -, -⟩ := hmore.placed m hm
    rw [hplace]
    intro hsame
    have hnumber := congrArg NodeId.number (Option.some.inj hsame)
    have hfresh : t.ids.node.1.number = t.ids.nextNode := rfl
    omega
  have hbelow : t.ids.node.1.number < u.ids.nextNode := by
    rw [hnext]
    exact Nat.lt_succ_self _
  refine ⟨hgrows.trans hmore.grows, hmore.skipped, fun place hplace => ?_,
    List.pairwise_cons.2 ⟨fun m hm p q hp hq => ?_, hmore.ordered⟩, fun uid huid => ?_, fun m hm => ?_,
    fun m hm m' hm' hsame => ?_⟩
  · obtain hold | ⟨m, hm, hat⟩ := hmore.only place hplace
    · by_cases hfresh : place = t.ids.node.1
      · exact Or.inr ⟨id, List.mem_cons_self, hget.trans (congrArg some hfresh.symm)⟩
      · rw [hothers place hfresh] at hold
        exact Or.inl hold
    · exact Or.inr ⟨m, List.mem_cons_of_mem _ hm, hat⟩
  · obtain ⟨place, hplace, hle, -, -⟩ := hmore.placed m hm
    rw [hget] at hp
    rw [hplace] at hq
    obtain rfl := Option.some.inj hp
    obtain rfl := Option.some.inj hq
    have hfresh : t.ids.node.1.number = t.ids.nextNode := rfl
    omega
  · rw [hmore.other uid fun m hm => huid m (List.mem_cons_of_mem _ hm)]
    show (report.nodes.insert id.text t.ids.node.1).get? uid = _
    rw [OrderedMap.get?_insert, if_neg fun e => huid id List.mem_cons_self e.symm]
  · obtain rfl | hm := List.mem_cons.1 hm
    · exact ⟨_, hget, Nat.le_refl _, Nat.lt_of_lt_of_le hbelow hmore.grows.next,
        hfirst.grows hmore.grows hbelow⟩
    · obtain ⟨place, hplace, hle, hlt, hstands⟩ := hmore.placed m hm
      exact ⟨place, hplace, by omega, hlt, hstands⟩
  · obtain rfl | hin := List.mem_cons.1 hm
    · obtain rfl | hin' := List.mem_cons.1 hm'
      · rfl
      · rw [hget] at hsame
        exact absurd hsame.symm (hplaced m' hin')
    · obtain rfl | hin' := List.mem_cons.1 hm'
      · rw [hget] at hsame
        exact absurd hsame (hplaced m hin)
      · exact hmore.apart m hin m' hin' hsame

theorem spawned_spawnAll {s : Session} (hs : s.Shaped) {ids : List NodeId} (hids : ids.Nodup)
    (hlive : ∀ id ∈ ids, (s.node? id).isSome) {t : Session} (hd : t.drag = none)
    (hvars : ∀ name, t.variableTypes.get? name = s.toProgram.variableTypes.get? name)
    (report : RestoreReport) :
    s.Spawned t report ids (Restore.spawnAll .standard t report (ids.map s.recordAt)) := by
  induction ids generalizing t report with
  | nil =>
    refine ⟨Grows.refl t, rfl, fun _ hplace => Or.inl hplace, List.Pairwise.nil, fun _ _ => rfl,
      fun id hid => ?_, fun id hid => ?_⟩
    · cases hid
    · cases hid
  | cons id rest ih =>
    obtain ⟨hnew, hrest⟩ := List.nodup_cons.1 hids
    obtain ⟨n, hn⟩ := Option.isSome_iff_exists.1 (hlive id List.mem_cons_self)
    have hkind : Palette.standard.kind? (s.recordAt id).identifier = some n.kind := by
      have hidentifier : (s.recordAt id).identifier = n.kind.identifier := by
        rw [recordAt_of_node? hn]
        exact (hs id n hn).identifier
      rw [hidentifier]
      exact kind?_standard n.kind
    have huid : (s.recordAt id).uid = id.text := uid_recordAt (hlive id List.mem_cons_self)
    obtain ⟨hgrows, hnext, -, hothers⟩ := grows_spawnRecord hd n.kind (s.recordAt id)
    have hfirst := respawned_spawnRecord hs hd hvars hn
    have hout : Restore.spawnAll .standard t report ((id :: rest).map s.recordAt) =
        Restore.spawnAll .standard (Restore.spawnRecord t n.kind (s.recordAt id)).2
          { report with nodes := report.nodes.insert id.text t.ids.node.1 } (rest.map s.recordAt) := by
      rw [List.map_cons, Restore.spawnAll, hkind, ← huid]
      rfl
    rw [hout]
    refine Spawned.cons hnew hgrows hothers hnext hfirst ?_
    refine ih hrest (fun m hm => hlive m (List.mem_cons_of_mem _ hm)) (hgrows.drag.trans hd)
      (fun name => ?_) _
    rw [hgrows.variableTypes]
    exact hvars name

end Session
end FlowGraph

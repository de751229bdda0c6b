import FlowGraph.Proofs.Program.Copy
import FlowGraph.Proofs.Session.Reached

/-! # Sessions that are saved alike

What is saved of one session may be found again in another one under other identities: the same kinds of
nodes in the same places, the same connectors between them in the same order, the same types and constants.
Both sessions are then saved as one program, but for the names of nodes and connectors.
-/

namespace FlowGraph
set_option autoImplicit false

/-! ## Programs under other names -/

/-- New names for the nodes and the connectors of a program. -/
structure Renaming where
  node : String → String
  connector : String → String

def PortLink.rename (f : Renaming) (l : PortLink) : PortLink :=
  ⟨f.connector l.connector, f.node l.target, l.socket⟩

def InputRecord.rename (f : Renaming) (i : InputRecord) : InputRecord :=
  { i with source := i.source.map f.node }

def NodeRecord.rename (f : Renaming) (r : NodeRecord) : NodeRecord :=
  { r with
    uid := f.node r.uid
    flowPlugs := r.flowPlugs.map (List.map (PortLink.rename f))
    dataPlugs := r.dataPlugs.map (List.map (PortLink.rename f))
    inputs := r.inputs.map (InputRecord.rename f) }

def Program.rename (f : Renaming) (p : Program) : Program where
  flows := Entry.mapFlows (NodeRecord.rename f) p.flows
  additional := p.additional.map (NodeRecord.rename f)
  variableTypes := p.variableTypes

def Renaming.identity : Renaming := ⟨id, id⟩

theorem PortLink.rename_identity : rename .identity = id := rfl

theorem InputRecord.rename_identity : rename .identity = id := by
  funext i
  simp [rename, Renaming.identity]

theorem NodeRecord.rename_identity : rename .identity = id := by
  funext r
  simp only [rename, PortLink.rename_identity, InputRecord.rename_identity, List.map_id, List.map_id_fun,
    id_eq]
  rfl

theorem Program.rename_identity (p : Program) : p.rename .identity = p := by
  rw [rename, NodeRecord.rename_identity, Entry.mapFlows_id, List.map_id]

/-- Something is found by its name. -/
theorem find?_name {α : Type} {name : α → String} (hname : Function.Injective name) {l : List α} {a : α}
    (ha : a ∈ l) : l.find? (fun b => name b == name a) = some a := by
  have hfound : (l.find? fun b => name b == name a).isSome :=
    List.find?_isSome.2 ⟨a, ha, beq_self_eq_true (name a)⟩
  obtain ⟨b, hb⟩ := Option.isSome_iff_exists.1 hfound
  have hsame : (name b == name a) = true := List.find?_some (p := fun b => name b == name a) hb
  rw [hb, hname (eq_of_beq hsame)]

/-- Lists that agree place by place. -/
theorem map_eq_of_getElem? {α β γ : Type} {l : List α} {l' : List β} {f : α → γ} {g : β → γ}
    (hlength : l'.length = l.length) (h : ∀ (i : Nat) a b, l[i]? = some a → l'[i]? = some b → g b = f a) :
    l'.map g = l.map f := by
  refine List.ext_getElem ?_ fun i hi hi' => ?_
  · rw [List.length_map, List.length_map, hlength]
  · rw [List.getElem_map, List.getElem_map]
    exact h i _ _ (List.getElem?_eq_getElem _) (List.getElem?_eq_getElem _)

namespace Session

/-- Start nodes are put in order, so it is enough to know which they are. -/
theorem startNodes_eq {s : Session} (h : s.Intact) {l : List NodeId} (hl : l.Pairwise (·.number < ·.number))
    (hmem : ∀ id, id ∈ l ↔ ∃ n, s.node? id = some n ∧ n.kind = .startEvent) : s.startNodes = l := by
  have honce {l : List NodeId} (hl : l.Pairwise (·.number < ·.number)) : l.Nodup := by
    refine hl.imp fun hless hsame => ?_
    rw [hsame] at hless
    exact Nat.lt_irrefl _ hless
  have hsorted := sorted_startNodes h
  refine List.Perm.eq_of_pairwise (fun a b _ _ hab hba => ?_) hsorted hl
    ((List.perm_ext_iff_of_nodup (honce hsorted) (honce hl)).2 fun id => ?_)
  · exact absurd (Nat.lt_trans hab hba) (Nat.lt_irrefl _)
  · rw [mem_startNodes h, hmem]

/-! ## Alike sessions -/

/-- What is saved of `s` is found again in `t`, under other identities. -/
structure Alike (s t : Session) (place : NodeId → NodeId) (renew : ConnectorId → ConnectorId) : Prop where
  intact : t.Intact
  shaped : t.Shaped
  apart : ∀ a b, s.FeedsFlow a → s.FeedsFlow b → place a = place b → a = b
  starts : t.startNodes = s.startNodes.map place
  node : ∀ id n, s.FeedsFlow id → s.node? id = some n → ∃ m, t.node? (place id) = some m ∧
    m.kind = n.kind ∧ m.frame.position = n.frame.position ∧ m.frame.scale = n.frame.scale ∧
      m.frame.variant = n.frame.variant
  /-- Inputs have the same types, and the same constants where they count. -/
  input : ∀ (r : SocketRef) u u', s.FeedsFlow r.node → r.kind = .data → s.socket? r = some u →
    t.socket? { r with node := place r.node } = some u' →
      u'.type = u.type ∧ (s.feeder? u = none → u'.value = u.value)
  leaving : ∀ p : PlugRef, s.FeedsFlow p.node →
    t.leaving { p with node := place p.node } = (s.leaving p).map renew
  edge : ∀ c k r, s.connector? c = some k → k.connectedTo = some r → s.FeedsFlow k.plug.node →
    ∃ k', t.connector? (renew c) = some k' ∧ k'.plug = { k.plug with node := place k.plug.node } ∧
      k'.connectedTo = some { r with node := place r.node }
  arrival : ∀ c' k' (r : SocketRef), t.connector? c' = some k' → s.FeedsFlow r.node →
    k'.connectedTo = some { r with node := place r.node } → ∃ c k, s.connector? c = some k ∧
      k.connectedTo = some r ∧ k'.plug = { k.plug with node := place k.plug.node }
  variableTypes : t.toProgram.variableTypes = s.toProgram.variableTypes

/-- The renaming knows the new names of what is saved. -/
structure Relabels (s : Session) (place : NodeId → NodeId) (renew : ConnectorId → ConnectorId)
    (f : Renaming) : Prop where
  node : ∀ id, s.FeedsFlow id → f.node id.text = (place id).text
  target : ∀ e ∈ s.savedEdges, f.node e.socket.node.text = (place e.socket.node).text
  connector : ∀ c ∈ s.savedConnectors, f.connector c.text = (renew c).text

namespace Alike
variable {s t : Session} {place : NodeId → NodeId} {renew : ConnectorId → ConnectorId} {f : Renaming}

/-! ## Ports -/

theorem connected (h : s.Alike t place renew) {p : PlugRef} {q q' : Plug} (hp : s.FeedsFlow p.node)
    (hq : s.plug? p = some q) (hq' : t.plug? { p with node := place p.node } = some q') :
    q'.connected = q.connected.map renew := by
  have hleaving := h.leaving p hp
  rw [leaving_of_plug? hq, leaving_of_plug? hq'] at hleaving
  exact hleaving

/-- A connector of a saved plug arrives in one session where it arrives in the other. -/
theorem target (h : s.Alike t place renew) (hi : s.Intact) {p : PlugRef} {q : Plug} (hp : s.FeedsFlow p.node)
    (hq : s.plug? p = some q) {c : ConnectorId} (hc : c ∈ q.connected) :
    ∃ r, (s.connector? c).bind (·.connectedTo) = some r ∧ c ∈ s.savedConnectors ∧
      ⟨p, r⟩ ∈ s.savedEdges ∧
      (t.connector? (renew c)).bind (·.connectedTo) = some { r with node := place r.node } := by
  have hsaved := (saved_iff hi).2 hp
  rw [← leaving_of_plug? hq] at hc
  obtain ⟨k, r, hk, rfl, hr⟩ := (mem_leaving hi).1 hc
  obtain ⟨k', hk', -, hr'⟩ := h.edge c k r hk hr hp
  refine ⟨r, ?_, (mem_savedConnectors hi).2 ⟨k, r, hk, hr, hsaved⟩,
    (mem_savedEdges hi).2 ⟨hsaved, c, k, hk, rfl, hr⟩, ?_⟩
  · rw [hk]
    exact hr
  · rw [hk']
    exact hr'

theorem linksOf (h : s.Alike t place renew) (hi : s.Intact) (hf : s.Relabels place renew f) {p : PlugRef}
    {q q' : Plug} (hp : s.FeedsFlow p.node) (hq : s.plug? p = some q)
    (hq' : t.plug? { p with node := place p.node } = some q') :
    t.linksOf q' = (s.linksOf q).map (PortLink.rename f) := by
  rw [Session.linksOf, Session.linksOf, h.connected hp hq hq', List.filterMap_map, List.map_filterMap]
  refine List.filterMap_congr fun c hc => ?_
  obtain ⟨r, hr, hsaved, he, hr'⟩ := h.target hi hp hq hc
  rw [Function.comp_apply, hr, hr', Option.map_some, Option.map_some, Option.map_some, PortLink.rename,
    hf.connector c hsaved, hf.target _ he]

theorem waysOut (h : s.Alike t place renew) (hi : s.Intact) {p : PlugRef} {q q' : Plug}
    (hp : s.FeedsFlow p.node) (hq : s.plug? p = some q)
    (hq' : t.plug? { p with node := place p.node } = some q') :
    t.waysOut q' = (s.waysOut q).map (Option.map place) := by
  rw [Session.waysOut, Session.waysOut, h.connected hp hq hq', List.isEmpty_map]
  split
  · rfl
  · rw [List.filterMap_map, List.map_filterMap]
    refine List.filterMap_congr fun c hc => ?_
    obtain ⟨r, hr, -, -, hr'⟩ := h.target hi hp hq hc
    rw [Function.comp_apply, hr, hr']
    rfl

/-- A saved input is fed by the plug that stands for the one that feeds it. -/
theorem feeder? (h : s.Alike t place renew) (hi : s.Intact) {r : SocketRef} {u u' : Socket}
    (hdata : r.kind = .data) (hr : s.FeedsFlow r.node) (hu : s.socket? r = some u)
    (hu' : t.socket? { r with node := place r.node } = some u') :
    t.feeder? u' = (s.feeder? u).map fun p => { p with node := place p.node } := by
  refine Option.ext fun p' => ?_
  rw [feeder?_eq_some h.intact hu' hdata, Option.map_eq_some_iff]
  simp only [feeder?_eq_some hi hu hdata]
  constructor
  · rintro ⟨c', k', hk', rfl, hr'⟩
    obtain ⟨c, k, hk, hsocket, hplug⟩ := h.arrival c' k' r hk' hr hr'
    exact ⟨k.plug, ⟨c, k, hk, rfl, hsocket⟩, hplug.symm⟩
  · rintro ⟨p, ⟨c, k, hk, rfl, hr'⟩, rfl⟩
    have hfed := (feeder?_eq_some hi hu hdata).2 ⟨c, k, hk, rfl, hr'⟩
    have hsource := (saved_iff hi).1 (saved_of_feeder hi hdata ((saved_iff hi).2 hr) hu hfed)
    obtain ⟨k', hk', hplug, hsocket⟩ := h.edge c k r hk hr' hsource
    exact ⟨renew c, k', hk', hplug, hsocket⟩

/-! ## Records -/

theorem length_plugs (h : s.Alike t place renew) (hs : s.Shaped) {id : NodeId} {n m : Node}
    (hn : s.node? id = some n) (hm : t.node? (place id) = some m) (hkind : m.kind = n.kind)
    (port : PortKind) : (m.frame.plugs port).length = (n.frame.plugs port).length := by
  rw [(h.shaped _ m hm).length_plugs, (hs id n hn).length_plugs, hkind]

theorem length_sockets (h : s.Alike t place renew) (hs : s.Shaped) {id : NodeId} {n m : Node}
    (hn : s.node? id = some n) (hm : t.node? (place id) = some m) (hkind : m.kind = n.kind)
    (port : PortKind) : (m.frame.sockets port).length = (n.frame.sockets port).length := by
  rw [(h.shaped _ m hm).length_sockets, (hs id n hn).length_sockets, hkind]

theorem inputOf (h : s.Alike t place renew) (hi : s.Intact) (hf : s.Relabels place renew f) {r : SocketRef}
    {u u' : Socket} (hdata : r.kind = .data) (hr : s.FeedsFlow r.node) (hu : s.socket? r = some u)
    (hu' : t.socket? { r with node := place r.node } = some u') :
    t.inputOf u' = (s.inputOf u).rename f := by
  obtain ⟨htype, hvalue⟩ := h.input r u u' hr hdata hu hu'
  unfold Session.inputOf
  rw [h.feeder? hi hdata hr hu hu']
  cases hold : s.feeder? u with
  | none =>
    show (⟨none, none, u'.type, true, u'.value⟩ : InputRecord) = ⟨none, none, u.type, true, u.value⟩
    rw [htype, hvalue hold]
  | some p =>
    have hsource := (saved_iff hi).1 (saved_of_feeder hi hdata ((saved_iff hi).2 hr) hu hold)
    show (⟨some (place p.node).text, some p.index, u'.type, false, none⟩ : InputRecord) =
      ⟨some (f.node p.node.text), some p.index, u.type, false, none⟩
    rw [htype, hf.node _ hsource]

theorem links (h : s.Alike t place renew) (hi : s.Intact) (hs : s.Shaped) (hf : s.Relabels place renew f)
    {id : NodeId} {n m : Node} (hid : s.FeedsFlow id) (hn : s.node? id = some n)
    (hm : t.node? (place id) = some m) (hkind : m.kind = n.kind) (port : PortKind) :
    (m.frame.plugs port).map t.linksOf =
      ((n.frame.plugs port).map s.linksOf).map (List.map (PortLink.rename f)) := by
  rw [List.map_map]
  refine map_eq_of_getElem? (h.length_plugs hs hn hm hkind port) fun i q q' hq hq' => ?_
  exact h.linksOf hi hf (p := ⟨id, port, i⟩) hid ((plug?_of_node? hn port i).trans hq)
    ((plug?_of_node? hm port i).trans hq')

/-- The record of a node that stands for a saved one is that of the saved one, renamed. -/
theorem recordAt (h : s.Alike t place renew) (hi : s.Intact) (hs : s.Shaped) (hf : s.Relabels place renew f)
    {id : NodeId} (hid : s.FeedsFlow id) : t.recordAt (place id) = (s.recordAt id).rename f := by
  obtain ⟨n, hn⟩ := Option.isSome_iff_exists.1 (hid.live hi)
  obtain ⟨m, hm, hkind, hposition, hscale, hvariant⟩ := h.node id n hid hn
  have hidentifier : m.frame.identifier = n.frame.identifier := by
    rw [(h.shaped _ m hm).identifier, (hs id n hn).identifier, hkind]
  have hflow : m.frame.flowPlugs.map t.linksOf =
      (n.frame.flowPlugs.map s.linksOf).map (List.map (PortLink.rename f)) :=
    h.links hi hs hf hid hn hm hkind .flow
  have hdata : m.frame.dataPlugs.map t.linksOf =
      (n.frame.dataPlugs.map s.linksOf).map (List.map (PortLink.rename f)) :=
    h.links hi hs hf hid hn hm hkind .data
  have hinputs : m.frame.dataSockets.map t.inputOf =
      (n.frame.dataSockets.map s.inputOf).map (InputRecord.rename f) := by
    rw [List.map_map]
    refine map_eq_of_getElem? (h.length_sockets hs hn hm hkind .data) fun i u u' hu hu' => ?_
    refine h.inputOf hi hf (r := ⟨id, .data, i⟩) rfl hid ?_ ?_
    · rw [socket?, hn]
      exact hu
    · rw [socket?, hm]
      exact hu'
  rw [recordAt_of_node? hn, recordAt_of_node? hm, NodeRecord.rename, Session.recordOf, Session.recordOf,
    hidentifier, hkind, hposition, hscale, hvariant, hflow, hdata, hinputs, hf.node id hid]

/-! ## Programs -/

theorem copies (h : s.Alike t place renew) (hi : s.Intact) (hs : s.Shaped) : s.Copies t place where
  apart := h.apart
  node id n hid hn := by
    obtain ⟨m, hm, hkind, -⟩ := h.node id n hid hn
    refine ⟨m, hm, ?_, ?_, ?_, ?_⟩
    · rw [(h.shaped _ m hm).identifier, (hs id n hn).identifier, hkind]
    · rw [(h.shaped _ m hm).forceBranch, (hs id n hn).forceBranch, hkind]
    · have hways : m.frame.flowPlugs.map t.waysOut =
          n.frame.flowPlugs.map fun q => (s.waysOut q).map (Option.map place) := by
        refine map_eq_of_getElem? (h.length_plugs hs hn hm hkind .flow) fun i q q' hq hq' => ?_
        exact h.waysOut hi (p := ⟨id, .flow, i⟩) hid ((plug?_of_node? hn .flow i).trans hq)
          ((plug?_of_node? hm .flow i).trans hq')
      rw [waysFrom, waysFrom, List.flatMap_def, hways, List.map_flatMap, List.flatMap_def]
    · have hfeeders : m.frame.dataSockets.map t.feeder? = n.frame.dataSockets.map fun u =>
          (s.feeder? u).map fun p => { p with node := place p.node } := by
        refine map_eq_of_getElem? (h.length_sockets hs hn hm hkind .data) fun i u u' hu hu' => ?_
        refine h.feeder? hi (r := ⟨id, .data, i⟩) rfl hid ?_ ?_
        · rw [socket?, hn]
          exact hu
        · rw [socket?, hm]
          exact hu'
      have hsources (v : Session) (l : List Socket) : l.filterMap (fun u => (v.feeder? u).map (·.node)) =
          (l.map v.feeder?).filterMap (Option.map (·.node)) := by
        rw [List.filterMap_map]
        rfl
      rw [dataSources, hsources, hfeeders, List.filterMap_map, dataSources, List.map_filterMap]
      refine List.filterMap_congr fun u _ => ?_
      rw [Function.comp_apply, Option.map_map, Option.map_map]
      rfl

/-- Sessions that are alike are saved as one program, but for the names. -/
theorem toProgram (h : s.Alike t place renew) (hi : s.Intact) (hs : s.Shaped)
    (hf : s.Relabels place renew f) : t.toProgram = s.toProgram.rename f := by
  have hcopies := h.copies hi hs
  have hbound : s.SavesAtMost s.savedNodes.length :=
    fun l honce hl => (honce.subperm fun x hx => (saved_iff hi).2 (hl x hx)).length_le
  have hsize : s.savedNodes.length ≤ s.nodes.size :=
    length_le_size (nodup_eachOnce _) fun id hid => live_saved hi hid
  have hsize' : s.savedNodes.length ≤ t.nodes.size := by
    have honce : (s.savedNodes.map place).Nodup := List.Nodup.map_on
      (fun a ha b hb => h.apart a b ((saved_iff hi).1 ha) ((saved_iff hi).1 hb)) (nodup_eachOnce _)
    have hle := length_le_size (s := t) honce fun x hx => by
      obtain ⟨id, hid, rfl⟩ := List.mem_map.1 hx
      obtain ⟨n, hn⟩ := Option.isSome_iff_exists.1 (live_saved hi hid)
      obtain ⟨m, hm, -⟩ := h.node id n ((saved_iff hi).1 hid) hn
      exact Option.isSome_of_eq_some hm
    rw [List.length_map] at hle
    exact hle
  have hflows := hcopies.flows hi hs hbound hsize hsize' h.starts
  have hadditional := hcopies.additionalNodes hi hbound hsize' hflows
  have hrecord (id : NodeId) (hid : s.FeedsFlow id) :
      (t.recordAt ∘ place) id = (NodeRecord.rename f ∘ s.recordAt) id := h.recordAt hi hs hf hid
  have hsameFlows : t.toProgram.flows = Entry.mapFlows (NodeRecord.rename f) s.toProgram.flows := by
    show Entry.mapFlows t.recordAt t.flows =
      Entry.mapFlows (NodeRecord.rename f) (Entry.mapFlows s.recordAt s.flows)
    rw [hflows, ← Entry.mapFlows_eq_map, Entry.mapFlows_mapFlows, Entry.mapFlows_mapFlows]
    exact Entry.mapFlows_congr _ fun id hid => hrecord id ⟨id, (mem_flows hi).1 hid, .refl⟩
  have hsameAdditional : t.toProgram.additional = s.toProgram.additional.map (NodeRecord.rename f) := by
    rw [additional_toProgram h.intact, additional_toProgram hi, hadditional, List.map_map, List.map_map]
    refine List.map_congr_left fun id hid => hrecord id ?_
    exact (mem_recordedNodes hi).1 (List.mem_append_right _ hid)
  show Program.mk t.toProgram.flows t.toProgram.additional t.toProgram.variableTypes = _
  rw [hsameFlows, hsameAdditional, h.variableTypes]
  rfl

end Alike
end Session
end FlowGraph

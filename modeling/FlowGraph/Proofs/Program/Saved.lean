import FlowGraph.Proofs.Program.Flow
import FlowGraph.Proofs.Program.Settling
import FlowGraph.Proofs.Session.Intact
import FlowGraph.Proofs.Text.Radix

/-! # What is saved of a session

The nodes whose records a program holds, each once and in order, and the edges that leave them. When
every node is saved, every edge is, exactly once.
-/

namespace FlowGraph
set_option autoImplicit false

namespace Session

/-- Some nodes, each where it occurs first. -/
def eachOnce : List NodeId → List NodeId
  | [] => []
  | id :: rest => id :: (eachOnce rest).filter (· ≠ id)

/-- The nodes that a program has records of, in the order of these. -/
def recordedNodes (s : Session) : List NodeId :=
  let inFlows := Entry.branchNodes s.flows
  inFlows ++ (s.sourcesOf inFlows).filter (!inFlows.contains ·)

def savedNodes (s : Session) : List NodeId := eachOnce s.recordedNodes

def plugsOf (s : Session) (id : NodeId) : List PlugRef :=
  match s.node? id with
  | some n =>
    (List.range n.frame.flowPlugs.length).map (⟨id, .flow, ·⟩) ++
      (List.range n.frame.dataPlugs.length).map (⟨id, .data, ·⟩)
  | none => []

def leaving (s : Session) (p : PlugRef) : List ConnectorId :=
  ((s.plug? p).map (·.connected)).getD []

/-- The edge that a connector is. -/
def edge? (s : Session) (c : ConnectorId) : Option PendingEdge :=
  (s.connector? c).bind fun k => k.connectedTo.map (⟨k.plug, ·⟩)

def edgesOut (s : Session) (p : PlugRef) : List PendingEdge := (s.leaving p).filterMap s.edge?

def savedPlugs (s : Session) : List PlugRef := s.savedNodes.flatMap s.plugsOf

/-- The connectors that are saved, in the order in which they are made again. -/
def savedConnectors (s : Session) : List ConnectorId := s.savedPlugs.flatMap s.leaving

/-- The edges that are saved, in the order in which they are made again. -/
def savedEdges (s : Session) : List PendingEdge := s.savedPlugs.flatMap s.edgesOut

/-! ## Each node once -/

theorem mem_eachOnce {l : List NodeId} {id : NodeId} : id ∈ eachOnce l ↔ id ∈ l := by
  induction l with
  | nil => rfl
  | cons a rest ih =>
    rw [eachOnce, List.mem_cons, List.mem_cons, List.mem_filter, ih, decide_eq_true_eq]
    by_cases h : id = a <;> simp [h]

theorem nodup_eachOnce (l : List NodeId) : (eachOnce l).Nodup := by
  induction l with
  | nil => exact List.nodup_nil
  | cons a rest ih =>
    refine List.nodup_cons.2 ⟨fun h => ?_, ih.filter _⟩
    exact of_decide_eq_true (List.mem_filter.1 h).2 rfl

theorem eachOnce_of_nodup {l : List NodeId} (h : l.Nodup) : eachOnce l = l := by
  induction l with
  | nil => rfl
  | cons a rest ih =>
    obtain ⟨hnew, hrest⟩ := List.nodup_cons.1 h
    rw [eachOnce, ih hrest, List.filter_eq_self.2]
    intro id hid
    exact decide_eq_true fun hsame => hnew (hsame ▸ hid)

theorem filter_eachOnce (p : NodeId → Bool) (l : List NodeId) :
    (eachOnce l).filter p = eachOnce (l.filter p) := by
  induction l with
  | nil => rfl
  | cons a rest ih =>
    have hcomm : ((eachOnce rest).filter (· ≠ a)).filter p = (eachOnce (rest.filter p)).filter (· ≠ a) := by
      rw [← ih, List.filter_filter, List.filter_filter]
      exact List.filter_congr fun id _ => Bool.and_comm ..
    rw [eachOnce]
    cases ha : p a with
    | true => rw [List.filter_cons_of_pos ha, List.filter_cons_of_pos ha, eachOnce, hcomm]
    | false =>
      rw [List.filter_cons_of_neg (by simp [ha]), List.filter_cons_of_neg (by simp [ha]), hcomm,
        List.filter_eq_self.2]
      intro id hid
      refine decide_eq_true fun hsame => ?_
      rw [mem_eachOnce, hsame, List.mem_filter, ha] at hid
      cases hid.2

theorem firstRecords_map {f : NodeId → NodeRecord} {l : List NodeId}
    (h : ∀ id ∈ l, (f id).uid = id.text) :
    Restore.firstRecords (l.map f) = (eachOnce l).map f := by
  induction l with
  | nil => rfl
  | cons a rest ih =>
    have hrest (id : NodeId) (hid : id ∈ rest) : (f id).uid = id.text := h id (List.mem_cons_of_mem _ hid)
    have hne (id : NodeId) (hid : id ∈ eachOnce rest) :
        decide ((f id).uid ≠ (f a).uid) = decide (id ≠ a) := by
      rw [hrest id (mem_eachOnce.1 hid), h a List.mem_cons_self]
      refine decide_eq_decide.2 (not_congr ⟨NodeId.text_injective, fun e => ?_⟩)
      rw [e]
    rw [List.map_cons, Restore.firstRecords, eachOnce, List.map_cons, ih hrest, List.filter_map]
    congr 2
    exact List.filter_congr hne

/-! ## Only live nodes are saved -/

theorem live_flowFrom (s : Session) (room : Nat) (path : List NodeId) (id : NodeId) :
    ∀ n ∈ Entry.flowNodes (s.flowFrom room path id), (s.node? n).isSome := by
  induction room generalizing path id with
  | zero =>
    intro n hn
    cases hn
  | succ room ih =>
    intro n hn
    cases hm : s.node? id with
    | none =>
      rw [flowFrom_succ, hm] at hn
      cases hn
    | some m =>
      rw [s.flowFrom_of_node? room path hm, Entry.flowNodes_nodeFlow, List.mem_cons] at hn
      obtain rfl | hn := hn
      · exact Option.isSome_of_eq_some hm
      · exact forall_behind (fun next _ => ih (id :: path) next) n hn

theorem live_dataSources {s : Session} (h : s.Intact) (n : Node) :
    ∀ id ∈ s.dataSources n, (s.node? id).isSome := by
  intro id hid
  obtain ⟨t, -, hfeeder⟩ := List.mem_filterMap.1 hid
  obtain ⟨p, hp, rfl⟩ := Option.map_eq_some_iff.1 hfeeder
  obtain ⟨k, hk, rfl⟩ := Option.map_eq_some_iff.1 hp
  obtain ⟨c, -, hc⟩ := Option.bind_eq_some_iff.1 hk
  exact live_of_edge h hc

theorem live_meetSources {s : Session} (h : s.Intact) (room : Nat) (met : List NodeId) (id : NodeId)
    (hmet : ∀ m ∈ met, (s.node? m).isSome) (hid : (s.node? id).isSome) :
    ∀ m ∈ s.meetSources room met id, (s.node? m).isSome := by
  induction room generalizing met id with
  | zero => exact hmet
  | succ room ih =>
    have hmore : ∀ m ∈ met ++ [id], (s.node? m).isSome := by
      intro m hm
      obtain hm | hm := List.mem_append.1 hm
      · exact hmet m hm
      · rw [List.mem_singleton.1 hm]
        exact hid
    unfold meetSources
    split
    · exact hmet
    · split
      · exact hmore
      · rename_i n hn
        have hsources := live_dataSources h n
        generalize s.dataSources n = sources at hsources
        generalize met ++ [id] = seen at hmore
        induction sources generalizing seen with
        | nil => exact hmore
        | cons a rest ihs =>
          have hfirst := ih seen a hmore (hsources a List.mem_cons_self)
          exact ihs (fun b hb => hsources b (List.mem_cons_of_mem _ hb)) _ hfirst

theorem live_sourcesOf {s : Session} (h : s.Intact) (ids : List NodeId) :
    ∀ m ∈ s.sourcesOf ids, (s.node? m).isSome := by
  have hsources : ∀ m ∈ (ids.filterMap s.node?).flatMap s.dataSources, (s.node? m).isSome := by
    intro m hm
    obtain ⟨n, -, hm⟩ := List.mem_flatMap.1 hm
    exact live_dataSources h n m hm
  have hfold (sources seen : List NodeId) (hs : ∀ m ∈ sources, (s.node? m).isSome)
      (hseen : ∀ m ∈ seen, (s.node? m).isSome) :
      ∀ m ∈ sources.foldl (s.meetSources (s.nodes.size + 1)) seen, (s.node? m).isSome := by
    induction sources generalizing seen with
    | nil => exact hseen
    | cons a rest ih =>
      have hfirst := live_meetSources h (s.nodes.size + 1) seen a hseen (hs a List.mem_cons_self)
      exact ih _ (fun b hb => hs b (List.mem_cons_of_mem _ hb)) hfirst
  exact hfold _ [] hsources fun m hm => by cases hm

theorem live_flows (s : Session) : ∀ id ∈ Entry.branchNodes s.flows, (s.node? id).isSome := by
  unfold flows
  induction s.startNodes with
  | nil =>
    intro id hid
    cases hid
  | cons a rest ih =>
    intro id hid
    obtain hid | hid := List.mem_append.1 hid
    · exact s.live_flowFrom _ _ _ id hid
    · exact ih id hid

theorem live_recorded {s : Session} (h : s.Intact) : ∀ id ∈ s.recordedNodes, (s.node? id).isSome := by
  intro id hid
  obtain hid | hid := List.mem_append.1 hid
  · exact s.live_flows id hid
  · exact live_sourcesOf h _ id (List.mem_filter.1 hid).1

/-! ## Records -/

def recordAt (s : Session) (id : NodeId) : NodeRecord := (s.record? id).getD noRecord

theorem recordAt_of_node? {s : Session} {id : NodeId} {n : Node} (hn : s.node? id = some n) :
    s.recordAt id = s.recordOf id n := by
  rw [recordAt, record?, hn]
  rfl

theorem uid_recordAt {s : Session} {id : NodeId} (h : (s.node? id).isSome) :
    (s.recordAt id).uid = id.text := by
  obtain ⟨n, hn⟩ := Option.isSome_iff_exists.1 h
  rw [recordAt_of_node? hn]
  rfl

theorem record?_of_live {s : Session} {id : NodeId} (h : (s.node? id).isSome) :
    s.record? id = some (s.recordAt id) := by
  obtain ⟨n, hn⟩ := Option.isSome_iff_exists.1 h
  rw [recordAt_of_node? hn, record?, hn]
  rfl

theorem filterMap_record? {s : Session} {l : List NodeId} (h : ∀ id ∈ l, (s.node? id).isSome) :
    l.filterMap s.record? = l.map s.recordAt := by
  induction l with
  | nil => rfl
  | cons id rest ih =>
    rw [List.filterMap_cons_some (record?_of_live (h id List.mem_cons_self)), List.map_cons,
      ih fun m hm => h m (List.mem_cons_of_mem _ hm)]

/-- The nodes that feed the flows and are in none, in the order in which they are met. -/
def additionalNodes (s : Session) : List NodeId :=
  (s.sourcesOf (Entry.branchNodes s.flows)).filter (!(Entry.branchNodes s.flows).contains ·)

theorem flows_toProgram (s : Session) : s.toProgram.flows = s.flows.map (Entry.mapFlow s.recordAt) :=
  Entry.mapFlows_eq_map s.recordAt s.flows

theorem additional_toProgram {s : Session} (h : s.Intact) :
    s.toProgram.additional = s.additionalNodes.map s.recordAt :=
  filterMap_record? fun id hid => live_sourcesOf h _ id (List.mem_filter.1 hid).1

theorem records_toProgram {s : Session} (h : s.Intact) :
    s.toProgram.records = s.recordedNodes.map s.recordAt := by
  rw [Program.records, additional_toProgram h, recordedNodes, List.map_append]
  exact congrArg (· ++ _) (Entry.branchNodes_mapFlows s.recordAt s.flows)

/-- The records that a program is restored from: one of each saved node. -/
theorem firstRecords_toProgram {s : Session} (h : s.Intact) :
    Restore.firstRecords s.toProgram.records = s.savedNodes.map s.recordAt := by
  rw [records_toProgram h]
  exact firstRecords_map fun id hid => uid_recordAt (live_recorded h id hid)

theorem live_saved {s : Session} (h : s.Intact) {id : NodeId} (hid : id ∈ s.savedNodes) :
    (s.node? id).isSome :=
  live_recorded h id (mem_eachOnce.1 hid)

/-- The saved nodes are those that the program has records of. -/
theorem mem_savedNodes {s : Session} (h : s.Intact) {id : NodeId} :
    id ∈ s.savedNodes ↔ ∃ r ∈ s.toProgram.records, r.uid = id.text := by
  rw [savedNodes, mem_eachOnce, records_toProgram h]
  constructor
  · intro hid
    exact ⟨s.recordAt id, List.mem_map_of_mem hid, uid_recordAt (live_recorded h id hid)⟩
  · rintro ⟨r, hr, huid⟩
    obtain ⟨m, hm, rfl⟩ := List.mem_map.1 hr
    rw [uid_recordAt (live_recorded h m hm)] at huid
    rw [← NodeId.text_injective huid]
    exact hm

/-! ## Edges -/

section Edges
variable {s : Session}

theorem leaving_eq (s : Session) (p : PlugRef) : s.leaving p = (s.wiring.departures p).getD [] := rfl

theorem leaving_of_plug? {p : PlugRef} {q : Plug} (hq : s.plug? p = some q) :
    s.leaving p = q.connected := by
  rw [leaving, hq]
  rfl

theorem mem_leaving (h : s.Intact) {p : PlugRef} {c : ConnectorId} :
    c ∈ s.leaving p ↔ ∃ k r, s.connector? c = some k ∧ k.plug = p ∧ k.connectedTo = some r := by
  rw [leaving_eq]
  constructor
  · intro hc
    cases hl : s.wiring.departures p with
    | none =>
      rw [hl] at hc
      cases hc
    | some l =>
      rw [hl] at hc
      obtain ⟨e, he, hp, hto⟩ := ((h.tied.sound.departures p l hl).2 c).1 hc
      obtain ⟨k, hk, rfl⟩ := edge_eq_some he
      obtain ⟨r, hr⟩ := Option.isSome_iff_exists.1 hto
      exact ⟨k, r, hk, hp, hr⟩
  · rintro ⟨k, r, hk, rfl, hr⟩
    have hedge := edge_of_connector? hk
    obtain ⟨l, hl⟩ := Option.isSome_iff_exists.1 (h.tied.sound.plug c _ hedge)
    have hl' : s.wiring.departures k.plug = some l := hl
    have hto : k.edge.connectedTo.isSome := by
      show k.connectedTo.isSome
      rw [hr]
      rfl
    rw [hl']
    exact ((h.tied.sound.departures _ l hl).2 c).2 ⟨k.edge, hedge, rfl, hto⟩

theorem nodup_leaving (h : s.Intact) (p : PlugRef) : (s.leaving p).Nodup := by
  rw [leaving_eq]
  cases hl : s.wiring.departures p with
  | none => exact List.nodup_nil
  | some l => exact (h.tied.sound.departures p l hl).1

theorem mem_plugsOf {id : NodeId} {p : PlugRef} :
    p ∈ s.plugsOf id ↔ p.node = id ∧ (s.plug? p).isSome := by
  unfold plugsOf
  constructor
  · intro hp
    split at hp
    · rename_i n hn
      have hlive (kind : PortKind) (index : Nat) (hi : index < (n.frame.plugs kind).length) :
          (s.plug? ⟨id, kind, index⟩).isSome := by
        rw [plug?, hn, Option.bind_some, Frame.plug?, List.getElem?_eq_getElem hi]
        rfl
      obtain hp | hp := List.mem_append.1 hp
      · obtain ⟨index, hi, rfl⟩ := List.mem_map.1 hp
        exact ⟨rfl, hlive .flow index (List.mem_range.1 hi)⟩
      · obtain ⟨index, hi, rfl⟩ := List.mem_map.1 hp
        exact ⟨rfl, hlive .data index (List.mem_range.1 hi)⟩
    · cases hp
  · rintro ⟨rfl, hp⟩
    obtain ⟨q, hq⟩ := Option.isSome_iff_exists.1 hp
    obtain ⟨n, hn, hq⟩ := Option.bind_eq_some_iff.1 hq
    obtain ⟨hi, -⟩ := List.getElem?_eq_some_iff.1 hq
    obtain ⟨node, kind, index⟩ := p
    rw [hn]
    cases kind with
    | flow => exact List.mem_append_left _ (List.mem_map.2 ⟨index, List.mem_range.2 hi, rfl⟩)
    | data => exact List.mem_append_right _ (List.mem_map.2 ⟨index, List.mem_range.2 hi, rfl⟩)

theorem nodup_plugsOf (s : Session) (id : NodeId) : (s.plugsOf id).Nodup := by
  unfold plugsOf
  split
  · have hrange (kind : PortKind) (n : Nat) :
        ((List.range n).map fun i => (⟨id, kind, i⟩ : PlugRef)).Nodup := by
      refine List.pairwise_map.2 (List.nodup_range.imp fun hne hsame => ?_)
      exact hne (congrArg PlugRef.index hsame)
    refine List.nodup_append.2 ⟨hrange .flow _, hrange .data _, fun a ha b hb hab => ?_⟩
    obtain ⟨i, -, rfl⟩ := List.mem_map.1 ha
    obtain ⟨j, -, rfl⟩ := List.mem_map.1 hb
    cases congrArg PlugRef.kind hab
  · exact List.nodup_nil

theorem nodup_savedPlugs (s : Session) : s.savedPlugs.Nodup := by
  refine List.pairwise_flatMap.2 ⟨fun id _ => s.nodup_plugsOf id, ?_⟩
  refine (nodup_eachOnce s.recordedNodes).imp fun hne p hp q hq hpq => hne ?_
  rw [← (mem_plugsOf.1 hp).1, ← (mem_plugsOf.1 hq).1, hpq]

/-- No connector leaves two plugs, or one plug twice. -/
theorem nodup_savedConnectors (h : s.Intact) : s.savedConnectors.Nodup := by
  refine List.pairwise_flatMap.2 ⟨fun p _ => nodup_leaving h p, ?_⟩
  refine s.nodup_savedPlugs.imp fun hne c hc d hd hcd => hne ?_
  obtain ⟨k, -, hk, rfl, -⟩ := (mem_leaving h).1 hc
  obtain ⟨k', -, hk', rfl, -⟩ := (mem_leaving h).1 hd
  rw [hcd, hk'] at hk
  cases hk
  rfl

theorem savedEdges_eq (s : Session) :
    s.savedEdges = s.savedConnectors.filterMap s.edge? := by
  rw [savedConnectors, List.filterMap_flatMap]
  rfl

theorem edge?_eq_some {c : ConnectorId} {e : PendingEdge} (h : s.edge? c = some e) :
    ∃ k, s.connector? c = some k ∧ k.plug = e.plug ∧ k.connectedTo = some e.socket := by
  obtain ⟨k, hk, he⟩ := Option.bind_eq_some_iff.1 h
  obtain ⟨r, hr, rfl⟩ := Option.map_eq_some_iff.1 he
  exact ⟨k, hk, rfl, hr⟩

theorem connector_of_saved {e : PendingEdge} (he : e ∈ s.savedEdges) :
    ∃ c k, s.connector? c = some k ∧ k.plug = e.plug ∧ k.connectedTo = some e.socket := by
  rw [savedEdges_eq] at he
  obtain ⟨c, -, hc⟩ := List.mem_filterMap.1 he
  obtain ⟨k, hk, hp, hr⟩ := edge?_eq_some hc
  exact ⟨c, k, hk, hp, hr⟩

theorem mem_savedConnectors (h : s.Intact) {c : ConnectorId} : c ∈ s.savedConnectors ↔
    ∃ k r, s.connector? c = some k ∧ k.connectedTo = some r ∧ k.plug.node ∈ s.savedNodes := by
  constructor
  · intro hc
    obtain ⟨p, hp, hc⟩ := List.mem_flatMap.1 hc
    obtain ⟨id, hid, hp⟩ := List.mem_flatMap.1 hp
    obtain ⟨k, r, hk, hfrom, hr⟩ := (mem_leaving h).1 hc
    refine ⟨k, r, hk, hr, ?_⟩
    rw [hfrom, (mem_plugsOf.1 hp).1]
    exact hid
  · rintro ⟨k, r, hk, hr, hsource⟩
    have hp : k.plug ∈ s.savedPlugs :=
      List.mem_flatMap.2 ⟨k.plug.node, hsource, mem_plugsOf.2 ⟨rfl, live_plug h hk⟩⟩
    exact List.mem_flatMap.2 ⟨k.plug, hp, (mem_leaving h).2 ⟨k, r, hk, rfl, hr⟩⟩

theorem edge?_of_connector? {c : ConnectorId} {k : Connector} {r : SocketRef} (hk : s.connector? c = some k)
    (hr : k.connectedTo = some r) : s.edge? c = some ⟨k.plug, r⟩ := by
  rw [edge?, hk, Option.bind_some, hr]
  rfl

/-- The saved edges are those that leave a saved node. -/
theorem mem_savedEdges (h : s.Intact) {e : PendingEdge} : e ∈ s.savedEdges ↔
    e.plug.node ∈ s.savedNodes ∧
      ∃ c k, s.connector? c = some k ∧ k.plug = e.plug ∧ k.connectedTo = some e.socket := by
  rw [savedEdges_eq, List.mem_filterMap]
  constructor
  · rintro ⟨c, hc, he⟩
    obtain ⟨k, hk, hplug, hsocket⟩ := edge?_eq_some he
    obtain ⟨k', -, hk', -, hsource⟩ := (mem_savedConnectors h).1 hc
    obtain rfl := Option.some.inj (hk.symm.trans hk')
    exact ⟨hplug ▸ hsource, c, k, hk, hplug, hsocket⟩
  · rintro ⟨hsource, c, k, hk, hplug, hsocket⟩
    refine ⟨c, (mem_savedConnectors h).2 ⟨k, _, hk, hsocket, hplug.symm ▸ hsource⟩, ?_⟩
    rw [edge?_of_connector? hk hsocket, hplug]

theorem target_of_saved (h : s.Intact) {e : PendingEdge} (he : e ∈ s.savedEdges) :
    (s.node? e.socket.node).isSome := by
  obtain ⟨-, c, k, hk, -, hsocket⟩ := (mem_savedEdges h).1 he
  exact live_of_arrival h hk hsocket

/-- Saved edges do not exclude each other. -/
theorem apart_savedEdges (h : s.Intact) : s.savedEdges.Pairwise PendingEdge.Apart := by
  rw [savedEdges_eq, List.pairwise_filterMap]
  refine (nodup_savedConnectors h).imp fun {c d} hne e he f hf hsame => ?_
  obtain ⟨k, hk, hkp, hkr⟩ := edge?_eq_some he
  obtain ⟨k', hk', hkp', hkr'⟩ := edge?_eq_some hf
  have hsingle := h.tied.sound.single c d k.edge k'.edge e.socket (edge_of_connector? hk)
    (edge_of_connector? hk') hkr (hkr'.trans (congrArg some hsame.symm))
  refine ⟨fun hdata => hne (hsingle (Or.inl hdata)), fun hplug => hne (hsingle (Or.inr ?_))⟩
  exact (hkp.trans hplug).trans hkp'.symm

/-- Without a drag, every connector is saved if every node is. -/
theorem length_savedEdges (h : s.Intact) (hdrag : s.drag = none)
    (hall : ∀ id, (s.node? id).isSome → id ∈ s.savedNodes) :
    s.savedEdges.length = s.connectors.size := by
  have hedge : ∀ c ∈ s.savedConnectors, (s.edge? c).isSome := by
    intro c hc
    obtain ⟨k, r, hk, hr, -⟩ := (mem_savedConnectors h).1 hc
    exact Option.isSome_of_eq_some (edge?_of_connector? hk hr)
  have hmem (c : ConnectorId) : c ∈ s.savedConnectors ↔ c ∈ s.connectors.keys := by
    rw [mem_savedConnectors h, OrderedMap.mem_keys_iff]
    constructor
    · rintro ⟨k, -, hk, -, -⟩
      exact Option.isSome_of_eq_some hk
    · intro hc
      obtain ⟨k, hk⟩ := Option.isSome_iff_exists.1 hc
      have hk' : s.connector? c = some k := hk
      have hidle : s.draggedConnector? ≠ some c := by
        rw [Intact.dragged_of_no_drag hdrag]
        exact fun hn => by cases hn
      obtain ⟨r, hr⟩ := h.connected (edge_of_connector? hk') hidle
      exact ⟨k, r, hk', congrArg Edge.connectedTo hr, hall _ (live_of_edge h hk')⟩
  have hperm := (List.perm_ext_iff_of_nodup (nodup_savedConnectors h) h.tied.connectorsOnce).2 hmem
  rw [savedEdges_eq, List.length_filterMap_eq_countP, List.countP_eq_length.2 hedge, hperm.length_eq,
    OrderedMap.keys, List.length_map]
  rfl

end Edges

end Session
end FlowGraph

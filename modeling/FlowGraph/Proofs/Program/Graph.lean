import FlowGraph.Proofs.Program.Saved
import FlowGraph.Proofs.Session.Shape
import Mathlib.Logic.Relation

/-! # The graph of a session

Which node leads to which, read off the connectors alone. The ways out of a node and the sources of a
node, which are read off its ports, say the same.
-/

namespace FlowGraph
set_option autoImplicit false

namespace Session

/-- A connected edge of the collection leads from the one node to the other. -/
def Leads (s : Session) (kind : PortKind) (a b : NodeId) : Prop :=
  ∃ c k r, s.connector? c = some k ∧ k.connectedTo = some r ∧
    k.plug.kind = kind ∧ k.plug.node = a ∧ r.node = b

/-- A start node reaches the node along flow edges. -/
def InFlow (s : Session) (id : NodeId) : Prop :=
  ∃ start n, s.node? start = some n ∧ n.kind = .startEvent ∧
    Relation.ReflTransGen (s.Leads .flow) start id

/-- The node feeds one that is in a flow, directly or through others. -/
def FeedsFlow (s : Session) (id : NodeId) : Prop :=
  ∃ user, s.InFlow user ∧ Relation.ReflTransGen (s.Leads .data) id user

section Edges
variable {s : Session} {kind : PortKind} {a b id : NodeId} {n : Node}

theorem Leads.live (h : s.Intact) (hab : s.Leads kind a b) :
    (s.node? a).isSome ∧ (s.node? b).isSome := by
  obtain ⟨c, k, r, hk, hr, -, rfl, rfl⟩ := hab
  exact ⟨live_of_edge h hk, live_of_arrival h hk hr⟩

theorem mem_waysOut {p : Plug} {next : NodeId} :
    some next ∈ s.waysOut p ↔
      ∃ c ∈ p.connected, ∃ k r, s.connector? c = some k ∧ k.connectedTo = some r ∧ r.node = next := by
  have htarget (c : ConnectorId) : ((s.connector? c).bind (·.connectedTo)).map (fun r => some r.node) =
      some (some next) ↔ ∃ k r, s.connector? c = some k ∧ k.connectedTo = some r ∧ r.node = next := by
    simp only [Option.map_eq_some_iff, Option.bind_eq_some_iff, Option.some.injEq]
    constructor
    · rintro ⟨r, ⟨k, hk, hr⟩, hnext⟩
      exact ⟨k, r, hk, hr, hnext⟩
    · rintro ⟨k, r, hk, hr, hnext⟩
      exact ⟨r, ⟨k, hk, hr⟩, hnext⟩
  unfold waysOut
  split
  · rename_i hnone
    rw [List.isEmpty_iff.1 hnone]
    simp
  · rw [List.mem_filterMap]
    simp only [htarget]

theorem plug?_of_node? (hn : s.node? a = some n) (kind : PortKind) (i : Nat) :
    s.plug? ⟨a, kind, i⟩ = (n.frame.plugs kind)[i]? := by
  rw [plug?, hn]
  rfl

/-- What is on a plug of a node is an edge out of the node. -/
theorem edge_of_plug (h : s.Intact) (hn : s.node? a = some n) (kind : PortKind) {p : Plug}
    (hp : p ∈ n.frame.plugs kind) {c : ConnectorId} (hc : c ∈ p.connected) :
    ∃ k r, s.connector? c = some k ∧ k.plug.kind = kind ∧ k.plug.node = a ∧ k.connectedTo = some r := by
  obtain ⟨i, hi⟩ := List.getElem?_of_mem hp
  rw [← leaving_of_plug? ((plug?_of_node? hn kind i).trans hi)] at hc
  obtain ⟨k, r, hk, hfrom, hr⟩ := (mem_leaving h).1 hc
  exact ⟨k, r, hk, congrArg PlugRef.kind hfrom, congrArg PlugRef.node hfrom, hr⟩

/-- The edges out of a node are on its plugs. -/
theorem leads_iff (h : s.Intact) (hn : s.node? a = some n) : s.Leads kind a b ↔
    ∃ p ∈ n.frame.plugs kind, ∃ c ∈ p.connected, ∃ k r, s.connector? c = some k ∧
      k.connectedTo = some r ∧ r.node = b := by
  constructor
  · rintro ⟨c, k, r, hk, hr, hkind, hnode, hb⟩
    have hc : c ∈ s.leaving k.plug := (mem_leaving h).2 ⟨k, r, hk, rfl, hr⟩
    have href : k.plug = ⟨a, kind, k.plug.index⟩ := PlugRef.ext hnode hkind rfl
    rw [href, leaving, plug?_of_node? hn] at hc
    cases hp : (n.frame.plugs kind)[k.plug.index]? with
    | none =>
      rw [hp] at hc
      cases hc
    | some p =>
      rw [hp] at hc
      exact ⟨p, List.mem_of_getElem? hp, c, hc, k, r, hk, hr, hb⟩
  · rintro ⟨p, hp, c, hc, k, r, hk, hr, hb⟩
    obtain ⟨k', -, hk', hkind, hnode, -⟩ := edge_of_plug h hn kind hp hc
    obtain rfl := Option.some.inj (hk.symm.trans hk')
    exact ⟨c, k, r, hk, hr, hkind, hnode, hb⟩

/-- The ways out of a node are its outgoing flow edges. -/
theorem mem_waysFrom (h : s.Intact) (hn : s.node? id = some n) {next : NodeId} :
    some next ∈ s.waysFrom n ↔ s.Leads .flow id next := by
  rw [waysFrom, List.mem_flatMap, leads_iff h hn]
  simp only [mem_waysOut]
  rfl

/-- On a data socket there is at most one connector, so the one that arrived last is the only one. -/
theorem connector?_eq_some (h : s.Intact) {r : SocketRef} {t : Socket} (ht : s.socket? r = some t)
    (hdata : r.kind = .data) {c : ConnectorId} :
    t.connector? = some c ↔ ∃ k, s.connector? c = some k ∧ k.connectedTo = some r := by
  have harrive := h.tied.sound.arrivals r _ (arrivals_of_socket? ht)
  have hmem (d : ConnectorId) :
      d ∈ t.incoming ↔ ∃ k, s.connector? d = some k ∧ k.connectedTo = some r := by
    rw [harrive.2 d]
    constructor
    · rintro ⟨e, he, hr⟩
      obtain ⟨k, hk, rfl⟩ := edge_eq_some he
      exact ⟨k, hk, hr⟩
    · rintro ⟨k, hk, hr⟩
      exact ⟨k.edge, edge_of_connector? hk, hr⟩
  constructor
  · intro hlast
    exact (hmem c).1 (List.mem_of_getLast? hlast)
  · intro hc
    have hin := (hmem c).2 hc
    cases hlast : t.connector? with
    | none =>
      rw [List.getLast?_eq_none_iff.1 hlast] at hin
      cases hin
    | some d =>
      obtain ⟨k, hk, hr⟩ := (hmem d).1 (List.mem_of_getLast? hlast)
      obtain ⟨k', hk', hr'⟩ := hc
      rw [h.tied.sound.single d c _ _ r (edge_of_connector? hk) (edge_of_connector? hk') hr hr'
        (Or.inl hdata)]

theorem feeder?_eq_some (h : s.Intact) {r : SocketRef} {t : Socket} (ht : s.socket? r = some t)
    (hdata : r.kind = .data) {p : PlugRef} : s.feeder? t = some p ↔
      ∃ c k, s.connector? c = some k ∧ k.plug = p ∧ k.connectedTo = some r := by
  unfold feeder?
  rw [Option.map_eq_some_iff]
  constructor
  · rintro ⟨k, hk, rfl⟩
    obtain ⟨c, hc, hk⟩ := Option.bind_eq_some_iff.1 hk
    obtain ⟨k', hk', hr⟩ := (connector?_eq_some h ht hdata).1 hc
    obtain rfl := Option.some.inj (hk.symm.trans hk')
    exact ⟨c, k, hk, rfl, hr⟩
  · rintro ⟨c, k, hk, rfl, hr⟩
    have hc := (connector?_eq_some h ht hdata).2 ⟨k, hk, hr⟩
    exact ⟨k, Option.bind_eq_some_iff.2 ⟨c, hc, hk⟩, rfl⟩

/-- The sources of a node are those from which a data edge leads to it. -/
theorem mem_dataSources (h : s.Intact) (hn : s.node? id = some n) {source : NodeId} :
    source ∈ s.dataSources n ↔ s.Leads .data source id := by
  have hsocket (i : Nat) : s.socket? ⟨id, .data, i⟩ = n.frame.dataSockets[i]? := by
    rw [socket?, hn]
    rfl
  rw [dataSources, List.mem_filterMap]
  constructor
  · rintro ⟨t, ht, hsource⟩
    obtain ⟨i, hi⟩ := List.getElem?_of_mem ht
    obtain ⟨p, hp, rfl⟩ := Option.map_eq_some_iff.1 hsource
    obtain ⟨c, k, hk, rfl, hr⟩ := (feeder?_eq_some h ((hsocket i).trans hi) rfl).1 hp
    exact ⟨c, k, _, hk, hr, (h.tied.sound.linked c _ _ (edge_of_connector? hk) hr).2.1, rfl, rfl⟩
  · rintro ⟨c, k, r, hk, hr, hkind, rfl, hnode⟩
    have hdata : r.kind = .data := (h.tied.sound.linked c _ r (edge_of_connector? hk) hr).2.1 ▸ hkind
    have href : r = ⟨id, .data, r.index⟩ := SocketRef.ext hnode hdata rfl
    obtain ⟨t, ht⟩ := Option.isSome_iff_exists.1 (live_socket h hk hr)
    have hin : n.frame.dataSockets[r.index]? = some t := by
      rw [← hsocket, ← href]
      exact ht
    refine ⟨t, List.mem_of_getElem? hin, ?_⟩
    rw [(feeder?_eq_some h ht hdata).2 ⟨c, k, hk, rfl, hr⟩]
    rfl

/-! ## Nodes that feed -/

theorem InFlow.live (h : s.Intact) (hid : s.InFlow id) : (s.node? id).isSome := by
  obtain ⟨start, n, hn, -, hway⟩ := hid
  obtain rfl | ⟨a, -, hlast⟩ := Relation.ReflTransGen.cases_tail hway
  · exact Option.isSome_of_eq_some hn
  · exact (hlast.live h).2

theorem FeedsFlow.live (h : s.Intact) (hid : s.FeedsFlow id) : (s.node? id).isSome := by
  obtain ⟨user, huser, hreach⟩ := hid
  obtain rfl | ⟨a, hfirst, -⟩ := Relation.ReflTransGen.cases_head hreach
  · exact huser.live h
  · exact (hfirst.live h).1

/-- No node has both flow edges and data edges going out. -/
theorem not_leads_both (h : s.Intact) (hs : s.Shaped) {c : NodeId} (hdata : s.Leads .data a b) :
    ¬ s.Leads .flow a c := by
  intro hflow
  obtain ⟨n, hn⟩ := Option.isSome_iff_exists.1 (hdata.live h).1
  have hplug (kind : PortKind) (hlead : ∃ d, s.Leads kind a d) : n.kind.plugTypes kind ≠ [] := by
    obtain ⟨d, hlead⟩ := hlead
    obtain ⟨p, hp, -⟩ := (leads_iff h hn).1 hlead
    intro hnone
    rw [← (hs a n hn).plugs kind, List.map_eq_nil_iff] at hnone
    rw [hnone] at hp
    cases hp
  obtain hnone | hnone := NodeKind.one_sided n.kind
  · exact hplug .flow ⟨c, hflow⟩ hnone
  · exact hplug .data ⟨b, hdata⟩ hnone

/-- A flow edge out of a node that feeds a flow leads on in a flow. -/
theorem FeedsFlow.flow (h : s.Intact) (hs : s.Shaped) (ha : s.FeedsFlow a) (hab : s.Leads .flow a b) :
    s.FeedsFlow b := by
  obtain ⟨user, huser, hreach⟩ := ha
  obtain rfl | ⟨c, hac, -⟩ := Relation.ReflTransGen.cases_head hreach
  · obtain ⟨start, n, hn, hk, hway⟩ := huser
    exact ⟨b, ⟨start, n, hn, hk, hway.tail hab⟩, .refl⟩
  · exact absurd hab (not_leads_both h hs hac)

theorem FeedsFlow.source (hb : s.FeedsFlow b) (hab : s.Leads .data a b) : s.FeedsFlow a := by
  obtain ⟨user, huser, hreach⟩ := hb
  exact ⟨user, huser, .head hab hreach⟩

end Edges

end Session
end FlowGraph

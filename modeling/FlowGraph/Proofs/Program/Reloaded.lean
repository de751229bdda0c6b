import FlowGraph.Proofs.Program.Links
import FlowGraph.Proofs.Program.Loaded

/-! # Sessions saved as text and loaded again

The counts in a saved session are places among the few ports of a node and numbers of connectors on a
plug. So the text of a session is read back as what was saved, up to a depth of branches.
-/

namespace FlowGraph
set_option autoImplicit false

/-! ## Announced ways -/

namespace Entry
variable {α β : Type}

mutual

theorem splits_map (f : α → β) : (e : Entry α) → (e.map f).splits = e.splits
  | .node _ => rfl
  | .split _ => rfl
  | .branch bs => branchSplits_mapFlows f bs

theorem flowSplits_mapFlow (f : α → β) : (flow : Flow α) → flowSplits (mapFlow f flow) = flowSplits flow
  | [] => rfl
  | e :: rest => by rw [mapFlow, flowSplits, flowSplits, splits_map f e, flowSplits_mapFlow f rest]

theorem branchSplits_mapFlows (f : α → β) : (flows : List (Flow α)) →
    branchSplits (mapFlows f flows) = branchSplits flows
  | [] => rfl
  | flow :: rest => by
    rw [mapFlows, branchSplits, branchSplits, flowSplits_mapFlow f flow, branchSplits_mapFlows f rest]

end

theorem mem_branchSplits {n : Nat} {flows : List (Flow α)} :
    n ∈ branchSplits flows ↔ ∃ flow ∈ flows, n ∈ flowSplits flow := by
  induction flows with
  | nil => simp [branchSplits]
  | cons flow rest ih => simp [branchSplits, ih]

theorem flowSplits_append (flow rest : Flow α) :
    flowSplits (flow ++ rest) = flowSplits flow ++ flowSplits rest := by
  induction flow with
  | nil => rfl
  | cons e flow ih => rw [List.cons_append, flowSplits, flowSplits, ih, List.append_assoc]

theorem flowSplits_flatten (flows : List (Flow α)) : flowSplits flows.flatten = branchSplits flows := by
  induction flows with
  | nil => rfl
  | cons flow rest ih => rw [List.flatten_cons, flowSplits_append, ih, branchSplits]

/-- What is announced for a node is its number of ways, unless nothing is announced for such nodes. -/
theorem mem_flowSplits_nodeFlow {a : α} {plain force : Bool} {ways : List (Option (Flow α))} {n : Nat}
    (h : n ∈ flowSplits (nodeFlow a plain force ways)) :
    (plain = false ∧ n = ways.length) ∨ n ∈ branchSplits (ways.map (·.getD [])) := by
  unfold nodeFlow at h
  split at h
  · cases h
  · split at h
    · rw [flowSplits, flowSplits_flatten] at h
      exact Or.inr h
    · cases plain with
      | true =>
        simp only [if_true, List.cons_append, List.nil_append, flowSplits, splits, List.append_nil] at h
        exact Or.inr h
      | false =>
        rw [if_neg Bool.false_ne_true] at h
        simp only [List.cons_append, List.nil_append, flowSplits, splits, List.append_nil, List.mem_cons] at h
        obtain rfl | h := h
        · exact Or.inl ⟨rfl, rfl⟩
        · exact Or.inr h

end Entry

namespace Session

section
variable {s : Session}

/-! ## Counts of a saved session -/

theorem length_connected_le_size (h : s.Intact) {p : PlugRef} {q : Plug} (hq : s.plug? p = some q) :
    q.connected.length ≤ s.connectors.size := by
  have hsub : q.connected ⊆ s.connectors.keys := by
    intro c hc
    rw [← leaving_of_plug? hq] at hc
    obtain ⟨k, -, hk, -⟩ := (mem_leaving h).1 hc
    exact (s.connectors.mem_keys_iff c).2 (Option.isSome_of_eq_some hk)
  have hnodup := nodup_leaving h p
  rw [leaving_of_plug? hq] at hnodup
  have hle := (hnodup.subperm hsub).length_le
  rw [OrderedMap.keys, List.length_map] at hle
  exact hle

theorem length_waysOut_le (s : Session) (p : Plug) : (s.waysOut p).length ≤ max 1 p.connected.length := by
  unfold waysOut
  split
  · exact Nat.le_max_left _ _
  · exact (List.length_filterMap_le _ _).trans (Nat.le_max_right _ _)

/-- Only a condition has more than one flow plug. -/
theorem length_flowPlugs_le (hs : s.Shaped) {id : NodeId} {n : Node} (hn : s.node? id = some n)
    (hplain : n.frame.identifier ≠ NodeKind.condition.identifier) : n.frame.flowPlugs.length ≤ 1 := by
  have hfit := (hs id n hn).toFitted
  rw [hfit.identifier] at hplain
  have hlength := hfit.length_plugs .flow
  have hkind : ∀ kind : NodeKind, kind ≠ .condition → (kind.plugTypes .flow).length ≤ 1 := by
    intro kind hkind
    cases kind <;> first | exact absurd rfl hkind | decide
  have hne : n.kind ≠ .condition := fun heq => hplain (congrArg NodeKind.identifier heq)
  exact hlength.trans_le (hkind n.kind hne)

theorem length_waysFrom_le (h : s.Intact) (hs : s.Shaped) {id : NodeId} {n : Node}
    (hn : s.node? id = some n) (hplain : n.frame.identifier ≠ NodeKind.condition.identifier) :
    (s.waysFrom n).length ≤ max 1 s.connectors.size := by
  have hone := length_flowPlugs_le hs hn hplain
  unfold waysFrom
  match hplugs : n.frame.flowPlugs with
  | [] => exact Nat.zero_le _
  | [p] =>
    have hq : s.plug? ⟨id, .flow, 0⟩ = some p := by
      rw [plug?_of_node? hn]
      exact congrArg (·[0]?) hplugs
    have hsize := length_connected_le_size h hq
    have hways := s.length_waysOut_le p
    rw [List.flatMap_singleton]
    omega
  | _ :: _ :: _ =>
    rw [hplugs] at hone
    exact absurd hone (by simp)

theorem splits_flowFrom (h : s.Intact) (hs : s.Shaped) (room : Nat) (path : List NodeId) (id : NodeId) :
    ∀ k ∈ Entry.flowSplits (s.flowFrom room path id), k ≤ max 1 s.connectors.size := by
  induction room generalizing path id with
  | zero =>
    intro k hk
    cases hk
  | succ room ih =>
    intro k hk
    cases hn : s.node? id with
    | none =>
      rw [flowFrom_succ, hn] at hk
      cases hk
    | some n =>
      rw [s.flowFrom_of_node? room path hn] at hk
      obtain ⟨hplain, rfl⟩ | hk := Entry.mem_flowSplits_nodeFlow hk
      · rw [List.length_map]
        exact length_waysFrom_le h hs hn (of_decide_eq_false hplain)
      · obtain ⟨flow, hflow, hk⟩ := Entry.mem_branchSplits.1 hk
        rw [List.map_map] at hflow
        obtain ⟨way, -, rfl⟩ := List.mem_map.1 hflow
        cases way with
        | none => cases hk
        | some next =>
          change k ∈ Entry.flowSplits (s.onward room (id :: path) next) at hk
          rw [onward] at hk
          split at hk
          · cases hk
          · exact ih (id :: path) next k hk

/-- No kind has more than two ports of one sort on a side. -/
theorem length_types_le_two (kind : NodeKind) (port : PortKind) :
    (kind.socketTypes port).length ≤ 2 ∧ (kind.plugTypes port).length ≤ 2 := by
  cases kind <;> cases port <;> decide

theorem socket_index_lt (h : s.Intact) (hs : s.Shaped) {c : ConnectorId} {k : Connector} {r : SocketRef}
    (hk : s.connector? c = some k) (hr : k.connectedTo = some r) : r.index < 2 := by
  obtain ⟨t, ht⟩ := Option.isSome_iff_exists.1 (live_socket h hk hr)
  obtain ⟨n, hn, ht⟩ := Option.bind_eq_some_iff.1 ht
  have hlt := (List.getElem?_eq_some_iff.1 ht).1
  rw [(hs _ n hn).toFitted.length_sockets] at hlt
  exact hlt.trans_le (length_types_le_two n.kind r.kind).1

theorem plug_index_lt (h : s.Intact) (hs : s.Shaped) {c : ConnectorId} {k : Connector}
    (hk : s.connector? c = some k) : k.plug.index < 2 := by
  obtain ⟨q, hq⟩ := Option.isSome_iff_exists.1 (live_plug h hk)
  obtain ⟨n, hn, hq⟩ := Option.bind_eq_some_iff.1 hq
  have hlt := (List.getElem?_eq_some_iff.1 hq).1
  rw [(hs _ n hn).toFitted.length_plugs] at hlt
  exact hlt.trans_le (length_types_le_two n.kind k.plug.kind).2

theorem counts_recordOf (h : s.Intact) (hs : s.Shaped) (id : NodeId) (n : Node) :
    ∀ k ∈ (s.recordOf id n).counts, k < 2 := by
  have hlink (plugs : List Plug) (l : PortLink) (hl : l ∈ (plugs.map s.linksOf).flatten) : l.socket < 2 := by
    obtain ⟨links, hlinks, hl⟩ := List.mem_flatten.1 hl
    obtain ⟨p, -, rfl⟩ := List.mem_map.1 hlinks
    obtain ⟨c, -, hl⟩ := List.mem_filterMap.1 hl
    obtain ⟨r, hr, rfl⟩ := Option.map_eq_some_iff.1 hl
    obtain ⟨k, hk, hr⟩ := Option.bind_eq_some_iff.1 hr
    exact socket_index_lt h hs hk hr
  intro k hk
  obtain hk | hk := List.mem_append.1 hk
  · obtain ⟨l, hl, rfl⟩ := List.mem_map.1 hk
    obtain hl | hl := List.mem_append.1 hl
    · exact hlink _ l hl
    · exact hlink _ l hl
  · obtain ⟨i, hi, hport⟩ := List.mem_filterMap.1 hk
    obtain ⟨t, -, rfl⟩ := List.mem_map.1 hi
    unfold inputOf at hport
    split at hport
    · rename_i p hp
      cases hport
      obtain ⟨connector, hfound, rfl⟩ := Option.map_eq_some_iff.1 hp
      obtain ⟨c, -, hfound⟩ := Option.bind_eq_some_iff.1 hfound
      exact plug_index_lt h hs hfound
    · cases hport

theorem counts_toProgram (h : s.Intact) (hs : s.Shaped) :
    ∀ k ∈ s.toProgram.counts, k ≤ max 1 s.connectors.size := by
  intro k hk
  obtain hk | hk := List.mem_append.1 hk
  · rw [toProgram, Entry.branchSplits_mapFlows] at hk
    obtain ⟨flow, hflow, hk⟩ := Entry.mem_branchSplits.1 hk
    obtain ⟨id, -, rfl⟩ := List.mem_map.1 hflow
    exact splits_flowFrom h hs _ _ id k hk
  · obtain ⟨r, hr, hk⟩ := List.mem_flatMap.1 hk
    obtain ⟨id, n, -, -, rfl⟩ := (mem_records h).1 hr
    have hlt := counts_recordOf h hs id n k hk
    omega

end

/-! ## Saving and loading -/

/-- The text of a saved session is read back as what was saved exactly if it is not nested deeper than
the reader opens lists and objects, and each branch within a branch takes three levels of these. -/
theorem Reached.load_save {s : Session} (h : s.Reached) (hsize : s.connectors.size < UInt64.size)
    (hfinite : s.toProgram.Finite) (hshallow : s.toProgram.Shallow)
    (hfloats : ∀ x ∈ s.toProgram.floats, x.isFinite → Document.Rereads x) :
    let p := s.toProgram
    Program.read? p.write = (if p.toDocument.depth ≤ Document.maxNesting then some p else none) ∧
      2 + 3 * Entry.branchLevels p.flows ≤ p.toDocument.depth ∧
      p.toDocument.depth ≤ 70 + 3 * Entry.branchLevels p.flows := by
  have hcounts (k : Nat) (hk : k ∈ s.toProgram.counts) : k < UInt64.size := by
    have hle := counts_toProgram h.intact h.shaped k hk
    exact hle.trans_lt (max_lt (by decide) hsize)
  have hreread (x : Float) (hx : x ∈ s.toProgram.floats) : Document.Rereads x :=
    hfloats x hx (Program.isFinite_of_floats hfinite x hx)
  exact ⟨Program.read?_write hfinite hshallow hcounts hreread, Program.depth_bounds hshallow⟩

/-- A start node, and 42 conditions each of which is the first way of the one before it. -/
def nestedConditions : Session := (new .standard).applyAll
  (.spawn .startEvent .origin 1.0 :: List.replicate 42 (.spawn .condition .origin 1.0) ++
    (List.range 42).map fun k => .connect ⟨⟨k⟩, .flow, 0⟩ ⟨⟨k + 1⟩, .flow, 0⟩)

theorem reached_nestedConditions : nestedConditions.Reached :=
  ⟨.standard, _, by simp [Operation.Public], rfl⟩

theorem load_save_nestedConditions : nestedConditions.toProgram.Finite ∧
    nestedConditions.toProgram.Shallow ∧
    Program.read? nestedConditions.toProgram.write = none := by
  have hprogram : nestedConditions.connectors.size < UInt64.size ∧ nestedConditions.toProgram.Finite ∧
      nestedConditions.toProgram.Shallow ∧
      (∀ x ∈ nestedConditions.toProgram.floats, x = 0.0 ∨ x = 1.0) ∧
      Document.maxNesting < nestedConditions.toProgram.toDocument.depth := by decide +kernel
  obtain ⟨hsize, hfinite, hshallow, hfloats, hdeep⟩ := hprogram
  have hreread (x : Float) (hx : x ∈ nestedConditions.toProgram.floats) (_ : x.isFinite) :
      Document.Rereads x := by
    obtain rfl | rfl := hfloats x hx
    · decide +kernel
    · decide +kernel
  obtain ⟨hload, -, -⟩ := Reached.load_save reached_nestedConditions hsize hfinite hshallow hreread
  rw [if_neg (Nat.not_le.2 hdeep)] at hload
  exact ⟨hfinite, hshallow, hload⟩

end Session
end FlowGraph

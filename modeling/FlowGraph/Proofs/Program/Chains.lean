import FlowGraph.Proofs.Program.Branches

/-! # Chains

A saved flow is a chain: nodes that run one after the other and, where control divides, one branch entry at
the end. Saving comes to an end whatever rounds the edges form, since no node joins a path twice and none is
met twice. `Follows` and `Meets` say this without the room that the two searches are given: each of them
comes to an end, in one way, and that is what is written.
-/

namespace FlowGraph
set_option autoImplicit false

namespace Entry
variable {α β : Type}

/-- One node or more. Where control divides, a branch entry ends the chain: right behind a `plain` node, and
behind any other one after the number of its branches has been announced. Each branch is a chain or empty. -/
inductive Chain (plain : α → Prop) : Flow α → Prop where
  | last (a : α) : Chain plain [.node a]
  | next (a : α) {rest : Flow α} (h : Chain plain rest) : Chain plain (.node a :: rest)
  | branch {a : α} {branches : List (Flow α)} (ha : plain a)
      (h : ∀ flow ∈ branches, flow ≠ [] → Chain plain flow) : Chain plain [.node a, .branch branches]
  | split {a : α} {branches : List (Flow α)} (ha : ¬plain a)
      (h : ∀ flow ∈ branches, flow ≠ [] → Chain plain flow) :
      Chain plain [.node a, .split branches.length, .branch branches]

namespace Chain

theorem mapFlow {f : α → β} {plain : β → Prop} {flow : Flow α} (h : Chain (plain ∘ f) flow) :
    Chain plain (mapFlow f flow) := by
  have hbranches {branches : List (Flow α)}
      (h : ∀ flow ∈ branches, flow ≠ [] → Chain plain (Entry.mapFlow f flow)) :
      ∀ flow ∈ branches.map (Entry.mapFlow f), flow ≠ [] → Chain plain flow := by
    intro flow hflow hsome
    obtain ⟨branch, hbranch, rfl⟩ := List.mem_map.1 hflow
    refine h branch hbranch fun hnil => hsome ?_
    rw [hnil, Entry.mapFlow]
  induction h with
  | last a => exact .last (f a)
  | next a _ ih => exact .next (f a) ih
  | branch ha _ ih =>
    simp only [Entry.mapFlow, map, mapFlows_eq_map]
    exact .branch ha (hbranches ih)
  | @split a branches ha _ ih =>
    simp only [Entry.mapFlow, map, mapFlows_eq_map]
    rw [← @List.length_map _ _ branches (Entry.mapFlow f)]
    exact .split ha (hbranches ih)

/-- What is written for a node is a chain if what follows on each way out is one, or nothing. -/
theorem nodeFlow {plain : α → Prop} {a : α} {isPlain : Bool} (ha : isPlain = true ↔ plain a) (force : Bool)
    {ways : List (Option (Flow α))} (h : ∀ flow, some flow ∈ ways → flow ≠ [] → Chain plain flow) :
    Chain plain (nodeFlow a isPlain force ways) := by
  have hway : ∀ flow ∈ ways.map (·.getD []), flow ≠ [] → Chain plain flow := by
    intro flow hflow hsome
    obtain ⟨way, hmem, rfl⟩ := List.mem_map.1 hflow
    cases way with
    | none => exact absurd rfl hsome
    | some flow => exact h flow hmem hsome
  unfold Entry.nodeFlow
  split
  · exact .last a
  · split
    · rename_i hone
      obtain ⟨way, rfl⟩ := List.length_eq_one_iff.1 hone.1
      rw [List.map_singleton, List.flatten_singleton]
      by_cases hnil : way.getD [] = []
      · rw [hnil]
        exact .last a
      · exact .next a (hway _ (List.mem_singleton.2 rfl) hnil)
    · cases isPlain with
      | true => exact .branch (ha.1 rfl) hway
      | false =>
        rw [← @List.length_map _ _ ways (·.getD [])]
        exact .split (fun hplain => Bool.false_ne_true (ha.2 hplain)) hway

end Chain
end Entry

namespace Session

/-! ## Following flows without a bound -/

/-- Following a flow from a node that is reached along `path` comes to an end, and this is written. -/
inductive Follows (s : Session) : (path : List NodeId) → NodeId → Flow NodeId → Prop where
  | missing {path : List NodeId} {id : NodeId} (hn : s.node? id = none) : Follows s path id []
  | node {path : List NodeId} {id : NodeId} {n : Node} (hn : s.node? id = some n)
      (behind : NodeId → Flow NodeId) (h : ∀ next, some next ∈ s.waysFrom n → next ∉ id :: path →
        Follows s (id :: path) next (behind next)) :
      Follows s path id (Entry.nodeFlow id (n.frame.identifier = NodeKind.condition.identifier)
        n.frame.forceBranch ((s.waysFrom n).map
          (Option.map fun next => if next ∈ id :: path then [] else behind next)))

/-- Meeting some nodes one after the other, each before what feeds it, comes to an end, and then these have
been met. -/
inductive Meets (s : Session) : (met : List NodeId) → List NodeId → (after : List NodeId) → Prop where
  | done {met : List NodeId} : Meets s met [] met
  | again {met rest after : List NodeId} {id : NodeId} (hid : id ∈ met) (hrest : Meets s met rest after) :
      Meets s met (id :: rest) after
  | missing {met rest after : List NodeId} {id : NodeId} (hid : id ∉ met) (hn : s.node? id = none)
      (hrest : Meets s (met ++ [id]) rest after) : Meets s met (id :: rest) after
  | node {met rest between after : List NodeId} {id : NodeId} {n : Node} (hid : id ∉ met)
      (hn : s.node? id = some n) (hsources : Meets s (met ++ [id]) (s.dataSources n) between)
      (hrest : Meets s between rest after) : Meets s met (id :: rest) after

section Unbounded
variable {s : Session}

theorem Follows.unique {path : List NodeId} {id : NodeId} {flow flow' : Flow NodeId}
    (h : s.Follows path id flow) (h' : s.Follows path id flow') : flow = flow' := by
  induction h generalizing flow' with
  | missing hn =>
    cases h' with
    | missing => rfl
    | node hn' => exact absurd (hn.symm.trans hn') nofun
  | @node path id n hn behind _ ih =>
    cases h' with
    | missing hn' => exact absurd (hn'.symm.trans hn) nofun
    | node hn' behind' h' =>
      obtain rfl := Option.some.inj (hn.symm.trans hn')
      refine congrArg _ (List.map_congr_left fun way hway => ?_)
      cases way with
      | none => rfl
      | some next =>
        rw [Option.map_some, Option.map_some]
        split
        · rfl
        · rename_i hnew
          exact congrArg some (ih next hway hnew (h' next hway hnew))

theorem Meets.unique {met ids after after' : List NodeId} (h : s.Meets met ids after)
    (h' : s.Meets met ids after') : after = after' := by
  induction h generalizing after' with
  | done =>
    cases h'
    rfl
  | again hid _ ih =>
    cases h' with
    | again _ hrest => exact ih hrest
    | missing hnew => exact absurd hid hnew
    | node hnew => exact absurd hid hnew
  | missing hid hn _ ih =>
    cases h' with
    | again hin => exact absurd hin hid
    | missing _ _ hrest => exact ih hrest
    | node _ hn' => exact absurd (hn.symm.trans hn') nofun
  | node hid hn _ _ ihs ih =>
    cases h' with
    | again hin => exact absurd hin hid
    | missing _ hn' => exact absurd (hn'.symm.trans hn) nofun
    | node _ hn' hsources hrest =>
      obtain rfl := Option.some.inj (hn.symm.trans hn')
      obtain rfl := ihs hsources
      exact ih hrest

/-! ## The room is enough -/

/-- A path holds each live node at most once, so a flow that has room for the others never runs out of it. -/
theorem follows_flowFrom {room : Nat} {path : List NodeId} {id : NodeId}
    (hlive : ∀ x ∈ path, (s.node? x).isSome) (hpath : path.Nodup) (hid : id ∉ path)
    (hroom : s.nodes.size ≤ room + path.length) : s.Follows path id (s.flowFrom room path id) := by
  induction room generalizing path id with
  | zero =>
    refine .missing (Option.not_isSome_iff_eq_none.1 fun hsome => ?_)
    have hle := length_le_size (List.nodup_cons.2 ⟨hid, hpath⟩) (List.forall_mem_cons.2 ⟨hsome, hlive⟩)
    rw [List.length_cons] at hle
    omega
  | succ room ih =>
    cases hn : s.node? id with
    | none =>
      rw [flowFrom_succ, hn]
      exact .missing hn
    | some n =>
      have hmore : ∀ x ∈ id :: path, (s.node? x).isSome :=
        List.forall_mem_cons.2 ⟨Option.isSome_of_eq_some hn, hlive⟩
      have hbehind (next : NodeId) : s.onward room (id :: path) next =
          if next ∈ id :: path then [] else s.flowFrom room (id :: path) next := by
        simp only [onward, List.contains_iff_mem]
      rw [s.flowFrom_of_node? room path hn, funext hbehind]
      refine .node hn (s.flowFrom room (id :: path)) fun next _ hnew => ?_
      refine ih hmore (List.nodup_cons.2 ⟨hid, hpath⟩) hnew ?_
      rw [List.length_cons]
      omega

/-- No node is met twice, so a search that has room for all of them never runs out of it. -/
theorem meets_foldl (h : s.Intact) {room : Nat} {met ids : List NodeId}
    (hids : ∀ x ∈ ids, (s.node? x).isSome) (hlive : ∀ x ∈ met, (s.node? x).isSome) (hmet : met.Nodup)
    (hroom : s.nodes.size < room + met.length) : s.Meets met ids (ids.foldl (s.meetSources room) met) := by
  induction room generalizing met ids with
  | zero =>
    have hle := length_le_size hmet hlive
    omega
  | succ room ih =>
    induction ids generalizing met with
    | nil => exact .done
    | cons id rest ihs =>
      have hid := hids id List.mem_cons_self
      have hrest : ∀ x ∈ rest, (s.node? x).isSome := fun x hx => hids x (List.mem_cons_of_mem _ hx)
      have hfirst := met_meetSources h hlive hmet hid hroom
      have hlonger := hfirst.grows.length_le
      have htail := ihs hrest hfirst.live hfirst.once (by omega)
      rw [List.foldl_cons]
      by_cases hin : id ∈ met
      · have hsame : s.meetSources (room + 1) met id = met := by
          rw [meetSources, if_pos (List.contains_iff_mem.2 hin)]
        rw [hsame] at htail ⊢
        exact .again hin htail
      · obtain ⟨n, hn⟩ := Option.isSome_iff_exists.1 hid
        have hstep : s.meetSources (room + 1) met id =
            (s.dataSources n).foldl (s.meetSources room) (met ++ [id]) := by
          rw [meetSources, if_neg fun hc => hin (List.contains_iff_mem.1 hc), hn]
        have hmore : ∀ x ∈ met ++ [id], (s.node? x).isSome := by
          simp only [List.forall_mem_append, List.forall_mem_singleton]
          exact ⟨hlive, hid⟩
        have hsources := ih (live_dataSources h n) hmore (List.concat_eq_append ▸ hmet.concat hin)
          (by rw [List.length_append, List.length_singleton]; omega)
        rw [← hstep] at hsources
        exact .node hin hn hsources htail

/-! ## Chains -/

theorem Follows.chain {plain : NodeId → Prop}
    (hplain : ∀ id n, s.node? id = some n → (n.frame.identifier = NodeKind.condition.identifier ↔ plain id))
    {path : List NodeId} {id : NodeId} {flow : Flow NodeId} (h : s.Follows path id flow) (hsome : flow ≠ []) :
    Entry.Chain plain flow := by
  induction h with
  | missing => exact absurd rfl hsome
  | @node path id n hn behind _ ih =>
    refine .nodeFlow (decide_eq_true_iff.trans (hplain id n hn)) _ fun flow hflow hne => ?_
    obtain ⟨way, hway, hmap⟩ := List.mem_map.1 hflow
    obtain ⟨next, rfl, rfl⟩ := Option.map_eq_some_iff.1 hmap
    split at hne
    · exact absurd rfl hne
    · rename_i hnew
      rw [if_neg hnew]
      exact ih next hway hnew hne

end Unbounded

/-! ## The flows of a session -/

/-- The nodes that feed those of the flows, as the search for sources starts from them. -/
def flowSources (s : Session) : List NodeId :=
  ((Entry.branchNodes s.flows).filterMap s.node?).flatMap s.dataSources

theorem follows_start (s : Session) (start : NodeId) : s.Follows [] start (s.flowFrom s.nodes.size [] start) :=
  follows_flowFrom nofun List.nodup_nil List.not_mem_nil (Nat.le_refl _)

section Flows
variable {s : Session}

theorem meets_flowSources (h : s.Intact) : s.Meets [] s.flowSources (s.sourcesOf (Entry.branchNodes s.flows)) := by
  refine meets_foldl h (fun x hx => ?_) nofun List.nodup_nil (Nat.lt_succ_self _)
  obtain ⟨n, -, hn⟩ := List.mem_flatMap.1 hx
  exact live_dataSources h n x hn

theorem mem_flows_toProgram {flow : Flow NodeRecord} (hflow : flow ∈ s.toProgram.flows) :
    ∃ start ∈ s.startNodes, flow = Entry.mapFlow s.recordAt (s.flowFrom s.nodes.size [] start) := by
  rw [flows_toProgram, List.mem_map] at hflow
  obtain ⟨written, hwritten, rfl⟩ := hflow
  obtain ⟨start, hstart, rfl⟩ := List.mem_map.1 hwritten
  exact ⟨start, hstart, rfl⟩

/-- A flow begins with its start node. -/
theorem flowFrom_ne_nil {start : NodeId} (hstart : (s.node? start).isSome) :
    s.flowFrom s.nodes.size [] start ≠ [] := by
  obtain ⟨m, hm⟩ := Option.isSome_iff_exists.1 hstart
  have hroom : 1 ≤ s.nodes.size := length_le_size (List.pairwise_singleton _ start) fun x hx => by
    rw [List.mem_singleton.1 hx]
    exact hstart
  obtain ⟨room, hroom⟩ := Nat.exists_eq_add_of_le' hroom
  obtain ⟨rest, hrest⟩ := Entry.nodeFlow_eq_cons start (m.frame.identifier = NodeKind.condition.identifier)
    m.frame.forceBranch ((s.waysFrom m).map (Option.map (s.onward room [start])))
  rw [hroom, s.flowFrom_of_node? room [] hm, hrest]
  exact List.cons_ne_nil _ _

theorem chain_of_mem_flows (h : s.Intact) {flow : Flow NodeRecord} (hflow : flow ∈ s.toProgram.flows) :
    Entry.Chain (·.identifier = NodeKind.condition.identifier) flow := by
  obtain ⟨start, hstart, rfl⟩ := mem_flows_toProgram hflow
  obtain ⟨m, hm, -⟩ := (mem_startNodes h).1 hstart
  refine Entry.Chain.mapFlow ((s.follows_start start).chain (fun id n hn => ?_) ?_)
  · rw [Function.comp_apply, recordAt_of_node? hn]
    rfl
  · exact flowFrom_ne_nil (Option.isSome_of_eq_some hm)

theorem uids_nodup_of_occurs (h : s.Reached) {flow rest : Flow NodeRecord} (hflow : flow ∈ s.toProgram.flows)
    {r : NodeRecord} {passed : List NodeRecord} (hocc : Entry.Occurs (.node r :: rest) passed flow) :
    ((r :: passed).map (·.uid)).Nodup := by
  have hi := h.intact
  obtain ⟨start, hstart, rfl⟩ := mem_flows_toProgram hflow
  have hfeeds : ∀ x ∈ [start], s.FeedsFlow x :=
    List.forall_mem_singleton.2 (feedsFlow_of_mem_startNodes hi hstart)
  obtain ⟨part, path, hfound, hpart, rfl⟩ := Entry.occurs_mapFlow hocc
  -- only a node entry is written for a node entry
  obtain _ | ⟨_ | _ | _, rest⟩ := part
  all_goals cases hpart
  rename_i b
  obtain ⟨room, -, -, hpath, hlive⟩ := occurs_flowFrom hi h.shaped hfeeds (List.pairwise_singleton _ start)
    (Nat.le_refl _) hfound
  rw [List.append_nil] at hpath hlive
  have huids : ((s.recordAt b :: path.map s.recordAt).map (·.uid)) = (b :: path).map NodeId.text := by
    rw [← List.map_cons, List.map_map]
    exact List.map_congr_left fun x hx => uid_recordAt ((hlive x hx).live hi)
  rw [huids]
  exact hpath.map fun _ _ hsame => NodeId.text_injective hsame

end Flows

/-- Saving comes to an end, and the flows that it writes are well formed. -/
structure Chained (s : Session) : Prop where
  /-- Following a flow from a start node has one outcome, and that is the flow of this node. -/
  followed : List.Forall₂ (fun flow start => ∀ outcome, s.Follows [] start outcome ↔ outcome = flow)
    s.flows s.startNodes
  /-- So has the search for what feeds the flows. -/
  met : ∀ outcome, s.Meets [] s.flowSources outcome ↔ outcome = s.sourcesOf (Entry.branchNodes s.flows)
  /-- No branches are announced behind a condition, and they are behind any other node. -/
  chain : ∀ flow ∈ s.toProgram.flows, Entry.Chain (·.identifier = NodeKind.condition.identifier) flow
  /-- On no way from the beginning of a flow to one of its records are there two records of one node. -/
  once : ∀ flow ∈ s.toProgram.flows, ∀ r rest passed, Entry.Occurs (.node r :: rest) passed flow →
    ((r :: passed).map (·.uid)).Nodup

/-- Every session that is reached is saved as chains, and saving it comes to an end. -/
theorem Reached.chained {s : Session} (h : s.Reached) : s.Chained := by
  refine ⟨?_, fun outcome => ?_, fun flow hflow => chain_of_mem_flows h.intact hflow,
    fun flow hflow r rest passed hocc => uids_nodup_of_occurs h hflow hocc⟩
  · rw [flows, List.forall₂_map_left_iff, List.forall₂_same]
    intro start _ outcome
    refine ⟨fun houtcome => houtcome.unique (s.follows_start start), ?_⟩
    rintro rfl
    exact s.follows_start start
  · have hmet := meets_flowSources h.intact
    refine ⟨fun houtcome => houtcome.unique hmet, ?_⟩
    rintro rfl
    exact hmet

/-- Both ways out of the condition meet in the logging, and the way back from there to the condition is cut. -/
theorem chained_round : ((new .standard).applyAll
    [.spawn .startEvent .origin 1.0, .spawn .condition .origin 1.0, .spawn .consoleLog .origin 1.0,
      .connect ⟨⟨0⟩, .flow, 0⟩ ⟨⟨1⟩, .flow, 0⟩, .connect ⟨⟨1⟩, .flow, 0⟩ ⟨⟨2⟩, .flow, 0⟩,
      .connect ⟨⟨1⟩, .flow, 1⟩ ⟨⟨2⟩, .flow, 0⟩, .connect ⟨⟨2⟩, .flow, 0⟩ ⟨⟨1⟩, .flow, 0⟩]).Chained :=
  Reached.chained ⟨.standard, _, by simp [Operation.Public], rfl⟩

end Session
end FlowGraph

import FlowGraph.Program.Snapshot

/-! # The shape of saved flows

`Session.flowFrom_succ` says what is written for one node. It follows that a saved flow is spaced: a
branch entry never directly follows another one, at any depth.
-/

namespace FlowGraph
set_option autoImplicit false

/-! ## Spaced flows -/

namespace Entry
variable {α β : Type}

def isBranch : Entry α → Bool
  | .branch _ => true
  | _ => false

mutual

def spacedWithin : Entry α → Bool
  | .branch branches => spacedFlows branches
  | _ => true

/-- Whether no branch entry directly follows another one, in the flow and within its branches. -/
def spacedFlow : Flow α → Bool
  | [] => true
  | entry :: rest =>
    !(entry.isBranch && rest.head?.any isBranch) && entry.spacedWithin && spacedFlow rest

def spacedFlows : List (Flow α) → Bool
  | [] => true
  | flow :: rest => spacedFlow flow && spacedFlows rest

end

theorem spacedFlows_iff (flows : List (Flow α)) :
    spacedFlows flows = true ↔ ∀ flow ∈ flows, spacedFlow flow = true := by
  induction flows with
  | nil => simp [spacedFlows]
  | cons flow rest ih => simp [spacedFlows, ih]

theorem isBranch_map (f : α → β) (entry : Entry α) : (entry.map f).isBranch = entry.isBranch := by
  cases entry <;> rfl

theorem head?_mapFlow (f : α → β) (flow : Flow α) :
    (mapFlow f flow).head? = flow.head?.map (map f) := by
  cases flow <;> rfl

mutual

theorem spacedWithin_map (f : α → β) : (entry : Entry α) →
    (entry.map f).spacedWithin = entry.spacedWithin
  | .node _ => rfl
  | .split _ => rfl
  | .branch branches => spacedFlows_mapFlows f branches

theorem spacedFlow_mapFlow (f : α → β) : (flow : Flow α) →
    spacedFlow (mapFlow f flow) = spacedFlow flow
  | [] => rfl
  | entry :: rest => by
    rw [mapFlow, spacedFlow, spacedFlow, isBranch_map, head?_mapFlow, spacedWithin_map f entry,
      spacedFlow_mapFlow f rest]
    simp [Option.any_map, isBranch_map]

theorem spacedFlows_mapFlows (f : α → β) : (flows : List (Flow α)) →
    spacedFlows (mapFlows f flows) = spacedFlows flows
  | [] => rfl
  | flow :: rest => by
    rw [mapFlows, spacedFlows, spacedFlows, spacedFlow_mapFlow f flow, spacedFlows_mapFlows f rest]

end

theorem mapFlows_eq_map (f : α → β) (flows : List (Flow α)) :
    mapFlows f flows = flows.map (mapFlow f) := by
  induction flows with
  | nil => rfl
  | cons flow rest ih => rw [mapFlows, List.map_cons, ih]

theorem mapFlow_append (f : α → β) (flow rest : Flow α) :
    mapFlow f (flow ++ rest) = mapFlow f flow ++ mapFlow f rest := by
  induction flow with
  | nil => rfl
  | cons entry flow ih => rw [List.cons_append, mapFlow, mapFlow, ih, List.cons_append]

theorem mapFlow_flatten (f : α → β) (flows : List (Flow α)) :
    mapFlow f flows.flatten = (flows.map (mapFlow f)).flatten := by
  induction flows with
  | nil => rfl
  | cons flow rest ih => rw [List.flatten_cons, mapFlow_append, ih, List.map_cons, List.flatten_cons]

mutual

theorem map_id : (entry : Entry α) → entry.map id = entry
  | .node _ => rfl
  | .split _ => rfl
  | .branch branches => by rw [map, mapFlows_id branches]

theorem mapFlow_id : (flow : Flow α) → mapFlow id flow = flow
  | [] => rfl
  | entry :: rest => by rw [mapFlow, map_id entry, mapFlow_id rest]

theorem mapFlows_id : (flows : List (Flow α)) → mapFlows id flows = flows
  | [] => rfl
  | flow :: rest => by rw [mapFlows, mapFlow_id flow, mapFlows_id rest]

end

mutual

theorem map_map {γ : Type} (g : β → γ) (f : α → β) : (entry : Entry α) →
    (entry.map f).map g = entry.map (g ∘ f)
  | .node _ => rfl
  | .split _ => rfl
  | .branch branches => by rw [map, map, map, mapFlows_mapFlows g f branches]

theorem mapFlow_mapFlow {γ : Type} (g : β → γ) (f : α → β) : (flow : Flow α) →
    mapFlow g (mapFlow f flow) = mapFlow (g ∘ f) flow
  | [] => rfl
  | entry :: rest => by rw [mapFlow, mapFlow, mapFlow, map_map g f entry, mapFlow_mapFlow g f rest]

theorem mapFlows_mapFlows {γ : Type} (g : β → γ) (f : α → β) : (flows : List (Flow α)) →
    mapFlows g (mapFlows f flows) = mapFlows (g ∘ f) flows
  | [] => rfl
  | flow :: rest => by
    rw [mapFlows, mapFlows, mapFlows, mapFlow_mapFlow g f flow, mapFlows_mapFlows g f rest]

end

/-! ## The nodes of a flow -/

theorem mem_branchNodes {a : α} {flows : List (Flow α)} :
    a ∈ branchNodes flows ↔ ∃ flow ∈ flows, a ∈ flowNodes flow := by
  induction flows with
  | nil => simp [branchNodes]
  | cons flow rest ih => simp [branchNodes, ih]

theorem mem_flowNodes {a : α} {flow : Flow α} : a ∈ flowNodes flow ↔ ∃ entry ∈ flow, a ∈ entry.nodes := by
  induction flow with
  | nil => simp [flowNodes]
  | cons entry rest ih => simp [flowNodes, ih]

mutual

theorem nodes_map (f : α → β) : (entry : Entry α) → (entry.map f).nodes = entry.nodes.map f
  | .node _ => rfl
  | .split _ => rfl
  | .branch branches => branchNodes_mapFlows f branches

theorem flowNodes_mapFlow (f : α → β) : (flow : Flow α) →
    flowNodes (mapFlow f flow) = (flowNodes flow).map f
  | [] => rfl
  | entry :: rest => by
    rw [mapFlow, flowNodes, flowNodes, nodes_map f entry, flowNodes_mapFlow f rest, List.map_append]

theorem branchNodes_mapFlows (f : α → β) : (flows : List (Flow α)) →
    branchNodes (mapFlows f flows) = (branchNodes flows).map f
  | [] => rfl
  | flow :: rest => by
    rw [mapFlows, branchNodes, branchNodes, flowNodes_mapFlow f flow, branchNodes_mapFlows f rest,
      List.map_append]

end

mutual

theorem map_congr {f g : α → β} : (entry : Entry α) → (∀ a ∈ entry.nodes, f a = g a) →
    entry.map f = entry.map g
  | .node a, h => congrArg Entry.node (h a (List.mem_singleton.2 rfl))
  | .split _, _ => rfl
  | .branch branches, h => congrArg Entry.branch (mapFlows_congr branches h)

theorem mapFlow_congr {f g : α → β} : (flow : Flow α) → (∀ a ∈ flowNodes flow, f a = g a) →
    mapFlow f flow = mapFlow g flow
  | [], _ => rfl
  | entry :: rest, h => by
    rw [mapFlow, mapFlow, map_congr entry fun a ha => h a (List.mem_append_left _ ha),
      mapFlow_congr rest fun a ha => h a (List.mem_append_right _ ha)]

theorem mapFlows_congr {f g : α → β} : (flows : List (Flow α)) → (∀ a ∈ branchNodes flows, f a = g a) →
    mapFlows f flows = mapFlows g flows
  | [], _ => rfl
  | flow :: rest, h => by
    rw [mapFlows, mapFlows, mapFlow_congr flow fun a ha => h a (List.mem_append_left _ ha),
      mapFlows_congr rest fun a ha => h a (List.mem_append_right _ ha)]

end

theorem flowNodes_append (flow rest : Flow α) :
    flowNodes (flow ++ rest) = flowNodes flow ++ flowNodes rest := by
  induction flow with
  | nil => rfl
  | cons entry flow ih => rw [List.cons_append, flowNodes, flowNodes, ih, List.append_assoc]

theorem flowNodes_flatten (flows : List (Flow α)) : flowNodes flows.flatten = branchNodes flows := by
  induction flows with
  | nil => rfl
  | cons flow rest ih => rw [List.flatten_cons, flowNodes_append, ih, branchNodes]

/-! ## What is written for a node -/

/-- What is written for a node, given what follows on each way out of it; an unconnected plug is a way on
which nothing follows. -/
def nodeFlow (a : α) (plain force : Bool) (ways : List (Option (Flow α))) : Flow α :=
  if ways.all Option.isNone then [.node a]
  else if ways.length = 1 ∧ force = false then .node a :: (ways.map (·.getD [])).flatten
  else .node a :: (if plain then [] else [.split ways.length]) ++ [.branch (ways.map (·.getD []))]

theorem nodeFlow_eq_cons (a : α) (plain force : Bool) (ways : List (Option (Flow α))) :
    ∃ rest, nodeFlow a plain force ways = .node a :: rest := by
  unfold nodeFlow
  split
  · exact ⟨_, rfl⟩
  · split <;> exact ⟨_, rfl⟩

theorem mapFlow_nodeFlow (f : α → β) (a : α) (plain force : Bool) (ways : List (Option (Flow α))) :
    mapFlow f (nodeFlow a plain force ways) =
      nodeFlow (f a) plain force (ways.map (Option.map (mapFlow f))) := by
  have hnone : (ways.map (Option.map (mapFlow f))).all Option.isNone = ways.all Option.isNone := by
    rw [List.all_map]
    exact congrArg ways.all (funext fun way => by cases way <;> rfl)
  have hfollow : (ways.map (Option.map (mapFlow f))).map (·.getD []) =
      (ways.map (·.getD [])).map (mapFlow f) := by
    rw [List.map_map, List.map_map]
    exact List.map_congr_left fun way _ => by cases way <;> rfl
  unfold nodeFlow
  rw [hnone, hfollow, List.length_map]
  split
  · rfl
  · split
    · rw [mapFlow, mapFlow_flatten]
      rfl
    · rw [← mapFlows_eq_map, mapFlow_append]
      cases plain <;> rfl

theorem flowNodes_nodeFlow (a : α) (plain force : Bool) (ways : List (Option (Flow α))) :
    flowNodes (nodeFlow a plain force ways) = a :: branchNodes (ways.map (·.getD [])) := by
  unfold nodeFlow
  split
  · rename_i hnone
    have hways : branchNodes (ways.map (·.getD [])) = [] := by
      rw [List.eq_nil_iff_forall_not_mem]
      intro b hb
      obtain ⟨flow, hflow, hb⟩ := mem_branchNodes.1 hb
      obtain ⟨way, hway, rfl⟩ := List.mem_map.1 hflow
      rw [Option.isNone_iff_eq_none.1 (List.all_eq_true.1 hnone way hway)] at hb
      cases hb
    rw [hways]
    rfl
  · split
    · rw [flowNodes, flowNodes_flatten]
      rfl
    · cases plain <;> exact congrArg (a :: ·) (List.append_nil _)

end Entry

namespace Session

/-! ## One node at a time -/

/-- What is written for a way out of the last node of `path`. -/
def wayFlow (s : Session) (room : Nat) (path : List NodeId) : Option NodeId → Flow NodeId
  | some next => if path.contains next then [] else s.flowFrom room path next
  | none => []

/-- The ways out of a node, over all its flow plugs. -/
def waysFrom (s : Session) (n : Node) : List (Option NodeId) := n.frame.flowPlugs.flatMap s.waysOut

/-- A flow starts with its node. It ends there, goes one way, or divides. -/
theorem flowFrom_succ (s : Session) (room : Nat) (path : List NodeId) (id : NodeId) :
    s.flowFrom (room + 1) path id =
      match s.node? id with
      | none => []
      | some n =>
        if (s.waysFrom n).all Option.isNone then [.node id]
        else
          match s.waysFrom n, n.frame.forceBranch with
          | [way], false => .node id :: s.wayFlow room (id :: path) way
          | ways, _ =>
            let branches := ways.map (s.wayFlow room (id :: path))
            let announced : Flow NodeId :=
              if n.frame.identifier = NodeKind.condition.identifier then []
              else [.split branches.length]
            .node id :: announced ++ [.branch branches] := rfl

/-- What follows when a flow goes on to a node from the last node of `path`. -/
def onward (s : Session) (room : Nat) (path : List NodeId) (next : NodeId) : Flow NodeId :=
  if path.contains next then [] else s.flowFrom room path next

theorem flowFrom_of_node? (s : Session) (room : Nat) (path : List NodeId) {id : NodeId} {n : Node}
    (hn : s.node? id = some n) : s.flowFrom (room + 1) path id =
      Entry.nodeFlow id (n.frame.identifier = NodeKind.condition.identifier) n.frame.forceBranch
        ((s.waysFrom n).map (Option.map (s.onward room (id :: path)))) := by
  have hnone : ((s.waysFrom n).map (Option.map (s.onward room (id :: path)))).all Option.isNone =
      (s.waysFrom n).all Option.isNone := by
    rw [List.all_map]
    exact congrArg (s.waysFrom n).all (funext fun way => by cases way <;> rfl)
  have hfollow : ((s.waysFrom n).map (Option.map (s.onward room (id :: path)))).map (·.getD []) =
      (s.waysFrom n).map (s.wayFlow room (id :: path)) := by
    rw [List.map_map]
    exact List.map_congr_left fun way _ => by cases way <;> rfl
  rw [flowFrom_succ, hn, Entry.nodeFlow, hnone, hfollow]
  dsimp only
  split
  · rfl
  · rw [List.length_map]
    split
    · rename_i way hways hforce
      rw [hways, if_pos ⟨rfl, hforce⟩]
      exact congrArg _ (List.append_nil _).symm
    · rename_i hone
      have hmany : ¬((s.waysFrom n).length = 1 ∧ n.frame.forceBranch = false) := by
        rintro ⟨hlength, hforce⟩
        obtain ⟨way, hway⟩ := List.length_eq_one_iff.1 hlength
        exact hone way hway hforce
      rw [if_neg hmany, List.length_map]
      simp only [decide_eq_true_eq]

/-- What holds in the flows of all nodes that follow one holds behind it. -/
theorem forall_behind {s : Session} {room : Nat} {path : List NodeId} {n : Node} {P : NodeId → Prop}
    (h : ∀ next, some next ∈ s.waysFrom n → ∀ m ∈ Entry.flowNodes (s.flowFrom room path next), P m) :
    ∀ m ∈ Entry.branchNodes (((s.waysFrom n).map (Option.map (s.onward room path))).map (·.getD [])),
      P m := by
  intro m hm
  obtain ⟨flow, hflow, hm⟩ := Entry.mem_branchNodes.1 hm
  rw [List.map_map] at hflow
  obtain ⟨way, hway, rfl⟩ := List.mem_map.1 hflow
  cases way with
  | none => cases hm
  | some next =>
    change m ∈ Entry.flowNodes (s.onward room path next) at hm
    rw [onward] at hm
    split at hm
    · cases hm
    · exact h next hway m hm

/-! ## Saved flows are spaced -/

/-- A branch entry is written only behind a node or its announcement, and ends its flow. -/
theorem spaced_flowFrom (s : Session) (room : Nat) (path : List NodeId) (id : NodeId) :
    Entry.spacedFlow (s.flowFrom room path id) = true := by
  induction room generalizing path id with
  | zero => rfl
  | succ room ih =>
    have hway : ∀ way, Entry.spacedFlow (s.wayFlow room (id :: path) way) = true := by
      intro way
      cases way with
      | none => rfl
      | some next =>
        rw [wayFlow]
        split
        · rfl
        · exact ih (id :: path) next
    rw [flowFrom_succ]
    cases s.node? id with
    | none => rfl
    | some n =>
      dsimp only
      split
      · rfl
      · split
        · simpa [Entry.spacedFlow, Entry.isBranch, Entry.spacedWithin] using hway _
        · have hbranches : Entry.spacedFlows ((s.waysFrom n).map (s.wayFlow room (id :: path))) = true := by
            rw [Entry.spacedFlows_iff]
            intro flow hflow
            obtain ⟨way, -, rfl⟩ := List.mem_map.1 hflow
            exact hway way
          split <;> simp [Entry.spacedFlow, Entry.isBranch, Entry.spacedWithin, hbranches]

theorem spaced_toProgram (s : Session) : Entry.spacedFlows s.toProgram.flows = true := by
  simp only [toProgram, Entry.spacedFlows_mapFlows, Entry.spacedFlows_iff, flows]
  intro flow hflow
  obtain ⟨id, -, rfl⟩ := List.mem_map.1 hflow
  exact s.spaced_flowFrom _ _ _

end Session

end FlowGraph

import FlowGraph.Proofs.Program.Copy
import FlowGraph.Proofs.Session.Reached

/-! # The branches of a node that always divides

Behind such a node, a condition, stands one sub-flow for each connector that leaves one of its flow plugs,
and an empty one for each plug that no connector leaves. The sub-flows are the plugs' own, one each, only
as long as no plug has several connectors: a connector more on one plug moves the sub-flows of all plugs
behind it.
-/

namespace FlowGraph
set_option autoImplicit false

namespace Entry
variable {α β : Type}

/-- The flow goes on with `part` somewhere, after the nodes `passed` on the way there, the last one first. -/
inductive Occurs (part : Flow α) : List α → Flow α → Prop where
  | here : Occurs part [] part
  | node {a : α} {passed : List α} {rest : Flow α} (h : Occurs part passed rest) :
      Occurs part (passed ++ [a]) (.node a :: rest)
  | split {count : Nat} {passed : List α} {rest : Flow α} (h : Occurs part passed rest) :
      Occurs part passed (.split count :: rest)
  | within {branches : List (Flow α)} {flow : Flow α} {passed : List α} {rest : Flow α}
      (hflow : flow ∈ branches) (h : Occurs part passed flow) :
      Occurs part passed (.branch branches :: rest)
  | behind {branches : List (Flow α)} {passed : List α} {rest : Flow α} (h : Occurs part passed rest) :
      Occurs part passed (.branch branches :: rest)

theorem occurs_mapFlow {f : α → β} {flow : Flow α} {part : Flow β} {passed : List β}
    (h : Occurs part passed (mapFlow f flow)) : ∃ part' passed', Occurs part' passed' flow ∧
      part = mapFlow f part' ∧ passed = passed'.map f := by
  generalize hmap : mapFlow f flow = image at h
  induction h generalizing flow with
  | here => exact ⟨flow, [], .here, hmap.symm, rfl⟩
  | node _ ih =>
    obtain _ | ⟨_ | _ | _, rest⟩ := flow
    all_goals cases hmap
    obtain ⟨part', passed', hocc, hpart, hpassed⟩ := ih rfl
    refine ⟨part', _, hocc.node, hpart, ?_⟩
    rw [hpassed, List.map_append, List.map_singleton]
  | split _ ih =>
    obtain _ | ⟨_ | _ | _, rest⟩ := flow
    all_goals cases hmap
    obtain ⟨part', passed', hocc, hpart, hpassed⟩ := ih rfl
    exact ⟨part', passed', hocc.split, hpart, hpassed⟩
  | within hflow _ ih =>
    obtain _ | ⟨_ | _ | branches, rest⟩ := flow
    all_goals cases hmap
    rw [mapFlows_eq_map] at hflow
    obtain ⟨branch, hbranch, rfl⟩ := List.mem_map.1 hflow
    obtain ⟨part', passed', hocc, hpart, hpassed⟩ := ih rfl
    exact ⟨part', passed', hocc.within hbranch, hpart, hpassed⟩
  | behind _ ih =>
    obtain _ | ⟨_ | _ | _, rest⟩ := flow
    all_goals cases hmap
    obtain ⟨part', passed', hocc, hpart, hpassed⟩ := ih rfl
    exact ⟨part', passed', hocc.behind, hpart, hpassed⟩

/-- A node stands at the head of what is written for it, or further on, on one of the ways out. -/
theorem occurs_nodeFlow {a b : α} {plain force : Bool} {ways : List (Option (Flow α))} {rest : Flow α}
    {passed : List α} (h : Occurs (.node b :: rest) passed (nodeFlow a plain force ways)) :
    (passed = [] ∧ .node b :: rest = nodeFlow a plain force ways) ∨
      ∃ flow passed', some flow ∈ ways ∧ Occurs (.node b :: rest) passed' flow ∧
        passed = passed' ++ [a] := by
  have hway {way : Option (Flow α)} {passed' : List α} (hmem : way ∈ ways)
      (hocc : Occurs (.node b :: rest) passed' (way.getD [])) :
      ∃ flow, some flow ∈ ways ∧ Occurs (.node b :: rest) passed' flow := by
    cases way with
    | none => cases hocc
    | some flow => exact ⟨flow, hmem, hocc⟩
  have hlater {passed' : List α} {tail : Flow α} (htail : nodeFlow a plain force ways = .node a :: tail)
      (hocc : Occurs (.node b :: rest) passed' tail) :
      ∃ flow, some flow ∈ ways ∧ Occurs (.node b :: rest) passed' flow := by
    unfold nodeFlow at htail
    split at htail
    · obtain rfl := (List.cons.inj htail).2
      cases hocc
    · split at htail
      · rename_i hone
        obtain ⟨way, rfl⟩ := List.length_eq_one_iff.1 hone.1
        obtain rfl := (List.cons.inj htail).2
        refine hway (List.mem_singleton.2 rfl) ?_
        rw [List.map_singleton, List.flatten_singleton] at hocc
        exact hocc
      · have hbranch : Occurs (.node b :: rest) passed' [.branch (ways.map (·.getD []))] := by
          obtain rfl := (List.cons.inj htail).2
          cases plain with
          | true => exact hocc
          | false =>
            cases hocc with
            | split hocc => exact hocc
        cases hbranch with
        | within hflow hocc =>
          obtain ⟨way, hmem, rfl⟩ := List.mem_map.1 hflow
          exact hway hmem hocc
        | behind hocc => cases hocc
  obtain ⟨tail, htail⟩ := nodeFlow_eq_cons a plain force ways
  generalize hflow : nodeFlow a plain force ways = flow at h
  cases h with
  | here => exact Or.inl ⟨rfl, rfl⟩
  | node hocc =>
    rw [htail] at hflow
    obtain ⟨hhead, rfl⟩ := List.cons.inj hflow
    cases hhead
    obtain ⟨flow, hmem, hocc⟩ := hlater htail hocc
    exact Or.inr ⟨flow, _, hmem, hocc, rfl⟩
  | split => rw [htail] at hflow; cases hflow
  | within => rw [htail] at hflow; cases hflow
  | behind => rw [htail] at hflow; cases hflow

end Entry

namespace Session

/-! ## Sub-flows -/

/-- What is written for a connector that leaves the last node of `path`. -/
def behind (s : Session) (path : List NodeId) (c : ConnectorId) : Flow NodeId :=
  match (s.connector? c).bind (·.connectedTo) with
  | some r => s.onward s.nodes.size path r.node
  | none => []

/-- The sub-flows that are written for a flow plug of the last node of `path`. -/
def plugFlows (s : Session) (path : List NodeId) (p : Plug) : List (Flow NodeId) :=
  if p.connected.isEmpty then [[]] else p.connected.map (s.behind path)

section Counting
variable {s : Session} {path : List NodeId}

theorem length_plugFlows (s : Session) (path : List NodeId) (p : Plug) :
    (s.plugFlows path p).length = max 1 p.connected.length := by
  unfold plugFlows
  split
  · rename_i hnone
    rw [List.isEmpty_iff.1 hnone]
    rfl
  · rename_i hsome
    have hpos : p.connected.length ≠ 0 := fun hlength => hsome (List.isEmpty_iff_length_eq_zero.2 hlength)
    rw [List.length_map]
    omega

theorem plugFlows_of_single {p : Plug} (h : p.connected.length ≤ 1) :
    s.plugFlows path p = [p.connected.flatMap (s.behind path)] := by
  unfold plugFlows
  obtain hnone | ⟨c, hc⟩ : p.connected = [] ∨ ∃ c, p.connected = [c] := by
    obtain hlength | hlength : p.connected.length = 0 ∨ p.connected.length = 1 := by omega
    · exact Or.inl (List.length_eq_zero_iff.1 hlength)
    · exact Or.inr (List.length_eq_one_iff.1 hlength)
  · rw [hnone]
    rfl
  · rw [hc, List.flatMap_singleton]
    rfl

/-- There are as many sub-flows as plugs only if no plug has several connectors. -/
theorem length_le_branches (s : Session) (path : List NodeId) (plugs : List Plug) :
    plugs.length ≤ (plugs.flatMap (s.plugFlows path)).length ∧
      ((plugs.flatMap (s.plugFlows path)).length = plugs.length → ∀ p ∈ plugs, p.connected.length ≤ 1) := by
  induction plugs with
  | nil => exact ⟨Nat.le_refl _, fun _ p hp => absurd hp List.not_mem_nil⟩
  | cons p rest ih =>
    have hlength := s.length_plugFlows path p
    rw [List.flatMap_cons, List.length_append, List.length_cons]
    refine ⟨by omega, fun hall q hq => ?_⟩
    obtain rfl | hq := List.mem_cons.1 hq
    · omega
    · exact ih.2 (by omega) q hq

/-- The sub-flows are the plugs' own, one each, exactly if no plug has several connectors. -/
theorem branches_eq_iff (s : Session) (path : List NodeId) (plugs : List Plug) :
    plugs.flatMap (s.plugFlows path) = plugs.map (fun p => p.connected.flatMap (s.behind path)) ↔
      ∀ p ∈ plugs, p.connected.length ≤ 1 := by
  constructor
  · intro hsame
    refine (s.length_le_branches path plugs).2 ?_
    rw [hsame, List.length_map]
  · intro hsingle
    rw [List.map_eq_flatMap]
    exact List.flatMap_congr fun p hp => plugFlows_of_single (hsingle p hp)

end Counting

/-! ## Forced branches -/

section Forced
variable {s : Session} {path : List NodeId} {a : NodeId} {n : Node}

theorem length_le_of_feeds (h : s.Intact) (l : List NodeId) (hl : l.Nodup)
    (hfeeds : ∀ x ∈ l, s.FeedsFlow x) : l.length ≤ s.nodes.size :=
  length_le_size hl fun x hx => (hfeeds x hx).live h

/-- How much room there is does not matter as long as it is enough. -/
theorem onward_room (h : s.Intact) (hs : s.Shaped) {room : Nat} {next : NodeId}
    (hfeeds : ∀ x ∈ path, s.FeedsFlow x) (hpath : path.Nodup) (hnext : s.FeedsFlow next)
    (hroom : s.nodes.size ≤ room + path.length) :
    s.onward room path next = s.onward s.nodes.size path next := by
  unfold onward
  split
  · rfl
  · rename_i hnew
    have hnew : next ∉ path := fun hin => hnew (List.contains_iff_mem.2 hin)
    have hfeeds' : ∀ x ∈ next :: path, s.FeedsFlow x := List.forall_mem_cons.2 ⟨hnext, hfeeds⟩
    have hsame : s.flowFrom room (path.map id) (id next) =
        Entry.mapFlow id (s.flowFrom s.nodes.size path next) :=
      (Copies.refl s).flowFrom h hs (length_le_of_feeds h) hfeeds' (List.nodup_cons.2 ⟨hnew, hpath⟩)
        (Nat.le_add_right _ _) hroom
    rw [List.map_id, Entry.mapFlow_id] at hsame
    exact hsame

/-- The ways out of a plug, and what is written for them. -/
theorem follow_waysOut (h : s.Intact) (hn : s.node? a = some n) (path : List NodeId) {p : Plug}
    (hp : p ∈ n.frame.flowPlugs) :
    (s.waysOut p).all Option.isNone = p.connected.isEmpty ∧
      (s.waysOut p).map (fun way => (way.map (s.onward s.nodes.size path)).getD []) =
        s.plugFlows path p := by
  have htarget (c : ConnectorId) (hc : c ∈ p.connected) :
      ∃ r, (s.connector? c).bind (·.connectedTo) = some r := by
    obtain ⟨k, r, hk, -, -, hr⟩ := edge_of_plug h hn .flow hp hc
    exact ⟨r, Option.bind_eq_some_iff.2 ⟨k, hk, hr⟩⟩
  unfold waysOut plugFlows
  split
  · rename_i hnone
    exact ⟨hnone.symm, rfl⟩
  · rename_i hsome
    constructor
    · rw [Bool.eq_false_iff.2 hsome, List.all_eq_false]
      obtain ⟨c, hc⟩ := List.exists_mem_of_ne_nil _ fun hnil => hsome (List.isEmpty_iff.2 hnil)
      obtain ⟨r, hr⟩ := htarget c hc
      refine ⟨some r.node, List.mem_filterMap.2 ⟨c, hc, ?_⟩, Bool.false_ne_true⟩
      rw [hr]
      rfl
    · rw [List.map_filterMap, ← List.filterMap_eq_map]
      refine List.filterMap_congr fun c hc => ?_
      obtain ⟨r, hr⟩ := htarget c hc
      rw [Function.comp_apply, behind, hr]
      rfl

theorem waysFrom_isNone (h : s.Intact) (hn : s.node? a = some n) :
    (s.waysFrom n).all Option.isNone = n.frame.flowPlugs.all (·.connected.isEmpty) := by
  rw [waysFrom, List.all_flatMap, Bool.eq_iff_iff, List.all_eq_true, List.all_eq_true]
  refine forall₂_congr fun p hp => ?_
  rw [(follow_waysOut h hn [] hp).1]

theorem follow_waysFrom (h : s.Intact) (hn : s.node? a = some n) :
    (s.waysFrom n).map (fun way => (way.map (s.onward s.nodes.size path)).getD []) =
      n.frame.flowPlugs.flatMap (s.plugFlows path) := by
  rw [waysFrom, List.map_flatMap]
  exact List.flatMap_congr fun p hp => (follow_waysOut h hn path hp).2

/-- What is written from a node on at some place is what is written for the node after the path there. -/
theorem occurs_flowFrom (h : s.Intact) (hs : s.Shaped) {room : Nat} {b : NodeId}
    {passed : List NodeId} {rest : Flow NodeId} (hfeeds : ∀ x ∈ a :: path, s.FeedsFlow x)
    (hpath : (a :: path).Nodup) (hroom : s.nodes.size ≤ room + path.length)
    (hocc : Entry.Occurs (.node b :: rest) passed (s.flowFrom room path a)) :
    ∃ room', .node b :: rest = s.flowFrom (room' + 1) (passed ++ path) b ∧
      s.nodes.size ≤ room' + (passed ++ path).length + 1 ∧ (b :: (passed ++ path)).Nodup ∧
        ∀ x ∈ b :: (passed ++ path), s.FeedsFlow x := by
  induction room generalizing path a passed with
  | zero => cases hocc
  | succ room ih =>
    have ha := hfeeds a List.mem_cons_self
    obtain ⟨n, hn⟩ := Option.isSome_iff_exists.1 (ha.live h)
    have hocc' := hocc
    rw [s.flowFrom_of_node? room path hn] at hocc'
    obtain ⟨rfl, hsame⟩ | ⟨flow, passed', hway, hlater, rfl⟩ := Entry.occurs_nodeFlow hocc'
    · obtain ⟨tail, htail⟩ := Entry.nodeFlow_eq_cons a (n.frame.identifier = NodeKind.condition.identifier)
        n.frame.forceBranch ((s.waysFrom n).map (Option.map (s.onward room (a :: path))))
      rw [htail] at hsame
      cases (List.cons.inj hsame).1
      refine ⟨room, ?_, ?_, hpath, hfeeds⟩
      · rw [List.nil_append, s.flowFrom_of_node? room path hn, htail]
        exact hsame
      · rw [List.nil_append]
        omega
    · obtain ⟨way, hmem, hflow⟩ := List.mem_map.1 hway
      obtain ⟨next, rfl, rfl⟩ := Option.map_eq_some_iff.1 hflow
      have hnext := ha.flow h hs ((mem_waysFrom h hn).1 hmem)
      rw [onward] at hlater
      split at hlater
      · cases hlater
      · rename_i hnew
        have hnew : next ∉ a :: path := fun hin => hnew (List.contains_iff_mem.2 hin)
        have hfeeds' : ∀ x ∈ next :: a :: path, s.FeedsFlow x := List.forall_mem_cons.2 ⟨hnext, hfeeds⟩
        rw [List.append_assoc, List.singleton_append]
        exact ih hfeeds' (List.nodup_cons.2 ⟨hnew, hpath⟩) (by rw [List.length_cons]; omega) hlater

/-- What is written behind a connector is what can be reached from its end without coming back to the path. -/
theorem mem_behind (h : s.Intact) (hlive : ∀ x ∈ path, (s.node? x).isSome) (hpath : path.Nodup)
    {c : ConnectorId} {k : Connector} {r : SocketRef} (hk : s.connector? c = some k)
    (hr : k.connectedTo = some r) {m : NodeId} : m ∈ Entry.flowNodes (s.behind path c) ↔
      r.node ∉ path ∧ Clear (s.Leads .flow) path r.node m := by
  have htarget : (s.connector? c).bind (·.connectedTo) = some r := Option.bind_eq_some_iff.2 ⟨k, hk, hr⟩
  rw [behind, htarget]
  dsimp only
  rw [onward]
  by_cases hin : r.node ∈ path
  · rw [if_pos (List.contains_iff_mem.2 hin)]
    exact ⟨fun hm => absurd hm List.not_mem_nil, fun hm => absurd hin hm.1⟩
  · rw [if_neg fun hc => hin (List.contains_iff_mem.1 hc)]
    have hlive' : ∀ x ∈ r.node :: path, (s.node? x).isSome :=
      List.forall_mem_cons.2 ⟨live_of_arrival h hk hr, hlive⟩
    rw [mem_flowFrom h hlive' (List.nodup_cons.2 ⟨hin, hpath⟩) (Nat.le_add_right _ _)]
    exact (and_iff_right hin).symm

/-- A node that always divides is followed by its branches, unless all its flow plugs are unconnected. -/
theorem flowFrom_forced (h : s.Intact) (hs : s.Shaped) {room : Nat} (hn : s.node? a = some n)
    (hforce : n.frame.forceBranch = true) (hfeeds : ∀ x ∈ a :: path, s.FeedsFlow x)
    (hpath : (a :: path).Nodup) (hroom : s.nodes.size ≤ room + path.length + 1) :
    s.flowFrom (room + 1) path a = .node a ::
      if n.frame.flowPlugs.all (·.connected.isEmpty) then []
      else [.branch (n.frame.flowPlugs.flatMap (s.plugFlows (a :: path)))] := by
  have hshape := hs a n hn
  have hkind : n.kind = .condition := eq_of_beq (hshape.forceBranch.symm.trans hforce)
  have hidentifier : n.frame.identifier = NodeKind.condition.identifier := by
    rw [hshape.identifier, hkind]
  have honward : (s.waysFrom n).map (Option.map (s.onward room (a :: path))) =
      (s.waysFrom n).map (Option.map (s.onward s.nodes.size (a :: path))) := by
    refine List.map_congr_left fun way hway => ?_
    cases way with
    | none => rfl
    | some next =>
      have hnext := (hfeeds a List.mem_cons_self).flow h hs ((mem_waysFrom h hn).1 hway)
      exact congrArg some (onward_room h hs hfeeds hpath hnext (by rw [List.length_cons]; omega))
  have hnone : ((s.waysFrom n).map (Option.map (s.onward s.nodes.size (a :: path)))).all Option.isNone =
      n.frame.flowPlugs.all (·.connected.isEmpty) := by
    rw [← waysFrom_isNone h hn, List.all_map]
    exact congrArg (s.waysFrom n).all (funext fun way => by cases way <;> rfl)
  rw [s.flowFrom_of_node? room path hn, hidentifier, hforce, honward, Entry.nodeFlow, hnone, List.map_map,
    ← follow_waysFrom h hn]
  split
  · rfl
  · rw [if_neg fun hone => Bool.false_ne_true hone.2.symm]
    rfl

end Forced

/-- Behind the record of a node that always divides stands one sub-flow for each connector on its flow plugs,
and an empty one for each unconnected plug; what a connector leads back into the path to is left out. The
sub-flows are those of the plugs, one each, exactly if no plug has several connectors. -/
theorem Reached.forced_branches {s : Session} (h : s.Reached) {flow : Flow NodeRecord}
    (hflow : flow ∈ s.toProgram.flows) {passed : List NodeRecord} {r : NodeRecord} {rest : Flow NodeRecord}
    (hocc : Entry.Occurs (.node r :: rest) passed flow) {id : NodeId} {n : Node}
    (hn : s.node? id = some n) (hr : r.uid = id.text) (hforce : n.frame.forceBranch = true) :
    ∃ path : List NodeId, passed = path.map s.recordAt ∧
      rest = (if n.frame.flowPlugs.all (·.connected.isEmpty) then []
        else [.branch ((n.frame.flowPlugs.flatMap (s.plugFlows (id :: path))).map
          (Entry.mapFlow s.recordAt))]) ∧
      (n.frame.flowPlugs.flatMap (s.plugFlows (id :: path)) =
          n.frame.flowPlugs.map (fun p => p.connected.flatMap (s.behind (id :: path))) ↔
        ∀ p ∈ n.frame.flowPlugs, p.connected.length ≤ 1) ∧
      ∀ p ∈ n.frame.flowPlugs, ∀ c ∈ p.connected, ∃ k target, s.connector? c = some k ∧
        k.connectedTo = some target ∧ ∀ m, m ∈ Entry.flowNodes (s.behind (id :: path) c) ↔
          target.node ∉ id :: path ∧ Clear (s.Leads .flow) (id :: path) target.node m := by
  have hintact := h.intact
  have hshaped := h.shaped
  rw [flows_toProgram, List.mem_map] at hflow
  obtain ⟨written, hwritten, rfl⟩ := hflow
  obtain ⟨start, hstart, rfl⟩ := List.mem_map.1 hwritten
  obtain ⟨m, hm, hk⟩ := (mem_startNodes hintact).1 hstart
  have hfeeds : ∀ x ∈ [start], s.FeedsFlow x := by
    intro x hx
    rw [List.mem_singleton.1 hx]
    exact ⟨start, ⟨start, m, hm, hk, .refl⟩, .refl⟩
  obtain ⟨part, path, hfound, hpart, rfl⟩ := Entry.occurs_mapFlow hocc
  obtain _ | ⟨_ | _ | _, rest⟩ := part
  all_goals cases hpart
  obtain ⟨room, hsame, hroom, hpath, hfeeds⟩ := occurs_flowFrom hintact hshaped hfeeds
    (List.pairwise_singleton _ start) (Nat.le_refl _) hfound
  rw [List.append_nil] at hsame hroom hpath hfeeds
  rename_i b
  have hb := hfeeds b List.mem_cons_self
  obtain rfl : b = id := by
    refine NodeId.text_injective ?_
    rw [← hr, uid_recordAt (hb.live hintact)]
  rw [flowFrom_forced hintact hshaped hn hforce hfeeds hpath hroom] at hsame
  refine ⟨path, rfl, ?_, s.branches_eq_iff _ _, fun p hp c hc => ?_⟩
  · rw [(List.cons.inj hsame).2]
    split
    · rfl
    · rw [Entry.mapFlow, Entry.map, Entry.mapFlows_eq_map]
      rfl
  · obtain ⟨k, target, hk, -, -, htarget⟩ := edge_of_plug hintact hn .flow hp hc
    refine ⟨k, target, hk, htarget, fun m => ?_⟩
    exact mem_behind hintact (fun x hx => (hfeeds x hx).live hintact) hpath hk htarget

/-! ## A plug with two connectors -/

/-- A condition leads back and to a logging when it is met, and to another logging when it is not. -/
def backAndOn : Session := (new .standard).applyAll
  [.spawn .startEvent .origin 1.0, .spawn .consoleLog .origin 1.0, .spawn .condition .origin 1.0,
    .spawn .consoleLog .origin 1.0, .spawn .consoleLog .origin 1.0,
    .connect ⟨⟨0⟩, .flow, 0⟩ ⟨⟨1⟩, .flow, 0⟩, .connect ⟨⟨1⟩, .flow, 0⟩ ⟨⟨2⟩, .flow, 0⟩,
    .connect ⟨⟨2⟩, .flow, 0⟩ ⟨⟨1⟩, .flow, 0⟩, .connect ⟨⟨2⟩, .flow, 0⟩ ⟨⟨3⟩, .flow, 0⟩,
    .connect ⟨⟨2⟩, .flow, 1⟩ ⟨⟨4⟩, .flow, 0⟩]

theorem reached_backAndOn : backAndOn.Reached := ⟨.standard, _, by simp [Operation.Public], rfl⟩

theorem flows_backAndOn : backAndOn.flows =
    [[.node ⟨0⟩, .node ⟨1⟩, .node ⟨2⟩, .branch [[], [.node ⟨3⟩], [.node ⟨4⟩]]]] := by
  have hstart : backAndOn.startNodes = List.mergeSort [⟨0⟩] fun a b => a.number ≤ b.number := rfl
  rw [List.mergeSort_singleton] at hstart
  rw [flows, hstart]
  rfl

/-- The condition has two plugs but three branches: the way back is cut and leaves its branch empty, so the
logging for a met condition stands in the second branch and the other one in a third. -/
theorem forced_branches_backAndOn :
    Entry.mapFlow backAndOn.recordAt
        [.node ⟨0⟩, .node ⟨1⟩, .node ⟨2⟩, .branch [[], [.node ⟨3⟩], [.node ⟨4⟩]]] ∈
      backAndOn.toProgram.flows ∧
    ∃ n path, backAndOn.node? ⟨2⟩ = some n ∧ n.frame.flowPlugs.map (·.connected.length) = [2, 1] ∧
      [⟨1⟩, ⟨0⟩].map backAndOn.recordAt = path.map backAndOn.recordAt ∧
      n.frame.flowPlugs.flatMap (backAndOn.plugFlows (⟨2⟩ :: path)) ≠
        n.frame.flowPlugs.map (fun p => p.connected.flatMap (backAndOn.behind (⟨2⟩ :: path))) := by
  have hflow : Entry.mapFlow backAndOn.recordAt
      [.node ⟨0⟩, .node ⟨1⟩, .node ⟨2⟩, .branch [[], [.node ⟨3⟩], [.node ⟨4⟩]]] ∈
        backAndOn.toProgram.flows := by
    rw [flows_toProgram, flows_backAndOn]
    exact List.mem_singleton.2 rfl
  have hplugs : (backAndOn.node? ⟨2⟩).map (fun n => n.frame.flowPlugs.map (·.connected.length)) =
      some [2, 1] := rfl
  have hforce : (backAndOn.node? ⟨2⟩).map (·.frame.forceBranch) = some true := rfl
  obtain ⟨n, hn, hlengths⟩ := Option.map_eq_some_iff.1 hplugs
  rw [hn] at hforce
  obtain ⟨path, hpassed, -, hiff, -⟩ := Reached.forced_branches reached_backAndOn hflow
    (.node (.node .here)) hn (uid_recordAt (Option.isSome_of_eq_some hn)) (Option.some.inj hforce)
  refine ⟨hflow, n, path, hn, hlengths, hpassed, fun hsame => ?_⟩
  have hmany : ∀ k ∈ n.frame.flowPlugs.map (·.connected.length), k ≤ 1 :=
    List.forall_mem_map.2 (hiff.1 hsame)
  rw [hlengths] at hmany
  exact absurd (hmany 2 List.mem_cons_self) (by decide)

end Session
end FlowGraph

import FlowGraph.Proofs.Program.Saved
import Mathlib.Data.List.Basic

/-! # The edges that a program asks for

The links of the records, read with the nodes that stand for the saved ones, are the saved edges in
their order.
-/

namespace FlowGraph
set_option autoImplicit false

/-- The edge between the nodes that stand for those at its ends. -/
def PendingEdge.carry (place : NodeId → NodeId) (e : PendingEdge) : PendingEdge :=
  ⟨{ e.plug with node := place e.plug.node }, { e.socket with node := place e.socket.node }⟩

section Moved
variable {place : NodeId → NodeId}

theorem SocketRef.eq_of_moved {a b : SocketRef} (hnode : place a.node = place b.node → a.node = b.node)
    (h : ({ a with node := place a.node } : SocketRef) = { b with node := place b.node }) : a = b := by
  obtain ⟨hplace, hkind, hindex⟩ := SocketRef.mk.inj h
  exact SocketRef.ext (hnode hplace) hkind hindex

theorem PlugRef.eq_of_moved {a b : PlugRef} (hnode : place a.node = place b.node → a.node = b.node)
    (h : ({ a with node := place a.node } : PlugRef) = { b with node := place b.node }) : a = b := by
  obtain ⟨hplace, hkind, hindex⟩ := PlugRef.mk.inj h
  exact PlugRef.ext (hnode hplace) hkind hindex

end Moved

/-- Indexed items, read one by one. -/
theorem flatMap_zipIdx {α β : Type} {l : List α} {F : α × Nat → List β} {G : Nat → List β}
    (h : ∀ i a, l[i]? = some a → F (a, i) = G i) :
    l.zipIdx.flatMap F = (List.range l.length).flatMap G := by
  have hmap : l.zipIdx.map F = (List.range l.length).map G := by
    refine List.ext_getElem ?_ fun i hi hi' => ?_
    · simp
    · have hin : i < l.length := by simpa using hi
      rw [List.getElem_map, List.getElem_map, List.getElem_zipIdx, List.getElem_range, Nat.zero_add]
      exact h i _ (List.getElem?_eq_getElem hin)
  rw [List.flatMap_def, List.flatMap_def, hmap]

/-- The edge as it is asked for when some nodes have been restored: none without a node to lead to. -/
def PendingEdge.carry? (nodes : OrderedMap String NodeId) (place : NodeId → NodeId) (e : PendingEdge) :
    Option PendingEdge :=
  (nodes.get? e.socket.node.text).map fun target =>
    ⟨{ e.plug with node := place e.plug.node }, { e.socket with node := target }⟩

namespace Session
variable {s : Session} {nodes : OrderedMap String NodeId} {place : NodeId → NodeId}

theorem plugEdges_saved (h : s.Intact) {p : PlugRef} {q : Plug} (hq : s.plug? p = some q) :
    Restore.plugEdges nodes { p with node := place p.node } (s.linksOf q) =
      (s.edgesOut p).map (·.carry? nodes place) := by
  have hleaving := leaving_of_plug? hq
  rw [Restore.plugEdges, linksOf, edgesOut, hleaving, List.map_filterMap, List.map_filterMap]
  refine List.filterMap_congr fun c hc => ?_
  rw [← hleaving] at hc
  obtain ⟨k, r, hk, hp, hr⟩ := (mem_leaving h).1 hc
  have hkind := (h.tied.sound.linked c _ r (edge_of_connector? hk) hr).2.1
  have hsocket (target : NodeId) :
      (⟨target, p.kind, r.index⟩ : SocketRef) = { r with node := target } := by
    rw [← hp]
    exact congrArg (SocketRef.mk _ · _) hkind
  rw [edge?, hk, Option.bind_some, Option.bind_some, hr, Option.map_some, Option.map_some,
    Option.map_some, Option.map_some, PendingEdge.carry?, hp]
  simp only [hsocket]

theorem edgesOf_saved (h : s.Intact) {id : NodeId} {n : Node} (hn : s.node? id = some n)
    (kind : PortKind) :
    Restore.edgesOf nodes (place id) kind ((n.frame.plugs kind).map s.linksOf) =
      (((List.range (n.frame.plugs kind).length).map (⟨id, kind, ·⟩)).flatMap s.edgesOut).map
        (·.carry? nodes place) := by
  rw [List.map_flatMap, List.flatMap_map, Restore.edgesOf]
  refine (flatMap_zipIdx fun i links hi => ?_).trans (by rw [List.length_map])
  rw [List.getElem?_map] at hi
  obtain ⟨q, hq, rfl⟩ := Option.map_eq_some_iff.1 hi
  have hplug : s.plug? ⟨id, kind, i⟩ = some q := by
    rw [plug?, hn]
    exact hq
  exact plugEdges_saved h hplug

/-- The edges that the records of the saved nodes ask for. -/
theorem edges_asked (h : s.Intact)
    (hplace : ∀ id ∈ s.savedNodes, nodes.get? id.text = some (place id)) :
    Restore.edges nodes (s.savedNodes.map s.recordAt) = s.savedEdges.map (·.carry? nodes place) := by
  rw [savedEdges, savedPlugs, List.flatMap_assoc, List.map_flatMap, Restore.edges, List.flatMap_map]
  refine List.flatMap_congr fun id hid => ?_
  obtain ⟨n, hn⟩ := Option.isSome_iff_exists.1 (live_saved h hid)
  have hget : nodes.get? (s.recordAt id).uid = some (place id) := by
    rw [uid_recordAt (live_saved h hid)]
    exact hplace id hid
  rw [hget, plugsOf, hn]
  dsimp only
  rw [List.flatMap_append, List.map_append, recordAt_of_node? hn]
  exact congrArg₂ (· ++ ·) (edgesOf_saved h hn .flow) (edgesOf_saved h hn .data)

/-- Edges that lead to saved nodes are asked for between the nodes that stand for their ends. -/
theorem carry?_saved (htarget : ∀ e ∈ s.savedEdges, e.socket.node ∈ s.savedNodes)
    (hplace : ∀ id ∈ s.savedNodes, nodes.get? id.text = some (place id)) :
    s.savedEdges.map (·.carry? nodes place) = s.savedEdges.map fun e => some (e.carry place) := by
  refine List.map_congr_left fun e he => ?_
  rw [PendingEdge.carry?, hplace _ (htarget e he)]
  rfl

end Session
end FlowGraph

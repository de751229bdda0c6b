import FlowGraph.Proofs.Program.Branches

/-! # Announced branches

Where a saved flow divides behind a node that is no condition, a number is written first. It is the number of
the sub-flows in the branch behind it, and with that branch the flow ends.
-/

namespace FlowGraph
set_option autoImplicit false

namespace Entry
variable {α β : Type} {n : Nat} {passed : List α} {rest : Flow α}

/-- What stands behind an announcement is the branch with as many sub-flows, and nothing else. -/
def Announced (n : Nat) (rest : Flow α) : Prop := ∃ branches, rest = [.branch branches] ∧ branches.length = n

theorem Announced.mapFlow (f : α → β) (h : Announced n rest) : Announced n (mapFlow f rest) := by
  obtain ⟨branches, rfl, hlength⟩ := h
  refine ⟨mapFlows f branches, rfl, ?_⟩
  rw [mapFlows_eq_map, List.length_map, hlength]

/-- An announcement is the one of the node, or it is written on one of the ways out. -/
theorem announced_or_later {a : α} {plain force : Bool} {ways : List (Option (Flow α))}
    (h : Occurs (.split n :: rest) passed (nodeFlow a plain force ways)) :
    Announced n rest ∨ ∃ flow passed', some flow ∈ ways ∧ Occurs (.split n :: rest) passed' flow := by
  have hway {way : Option (Flow α)} {passed' : List α} (hmem : way ∈ ways)
      (hocc : Occurs (.split n :: rest) passed' (way.getD [])) :
      ∃ flow passed', some flow ∈ ways ∧ Occurs (.split n :: rest) passed' flow := by
    cases way with
    | none => cases hocc
    | some flow => exact ⟨flow, passed', hmem, hocc⟩
  have hbranch {passed' : List α} (hocc : Occurs (.split n :: rest) passed' [.branch (ways.map (·.getD []))]) :
      ∃ flow passed', some flow ∈ ways ∧ Occurs (.split n :: rest) passed' flow := by
    cases hocc with
    | within hflow hocc =>
      obtain ⟨way, hmem, rfl⟩ := List.mem_map.1 hflow
      exact hway hmem hocc
    | behind hocc => cases hocc
  unfold nodeFlow at h
  split at h
  · cases h with
    | node hocc => cases hocc
  · split at h
    · rename_i hone
      obtain ⟨way, rfl⟩ := List.length_eq_one_iff.1 hone.1
      cases h with
      | node hocc =>
        rw [List.map_singleton, List.flatten_singleton] at hocc
        exact Or.inr (hway (List.mem_singleton.2 rfl) hocc)
    · cases plain with
      | true =>
        cases h with
        | node hocc => exact Or.inr (hbranch hocc)
      | false =>
        cases h with
        | node hocc =>
          cases hocc with
          | here => exact Or.inl ⟨_, rfl, List.length_map _⟩
          | split hocc => exact Or.inr (hbranch hocc)

end Entry

namespace Session

theorem announced_flowFrom {s : Session} {room n : Nat} {path : List NodeId} {id : NodeId} {passed : List NodeId}
    {rest : Flow NodeId} (h : Entry.Occurs (.split n :: rest) passed (s.flowFrom room path id)) :
    Entry.Announced n rest := by
  induction room generalizing path id passed with
  | zero => cases h
  | succ room ih =>
    cases hn : s.node? id with
    | none =>
      rw [flowFrom_succ, hn] at h
      cases h
    | some m =>
      rw [s.flowFrom_of_node? room path hn] at h
      obtain hnext | ⟨flow, passed', hway, hlater⟩ := Entry.announced_or_later h
      · exact hnext
      · obtain ⟨way, -, hflow⟩ := List.mem_map.1 hway
        obtain ⟨next, -, rfl⟩ := Option.map_eq_some_iff.1 hflow
        rw [onward] at hlater
        split at hlater
        · cases hlater
        · exact ih hlater

/-- A saved program announces its branches, and announces them rightly. -/
theorem announced_toProgram {s : Session} {flow : Flow NodeRecord} (hflow : flow ∈ s.toProgram.flows) {n : Nat}
    {passed : List NodeRecord} {rest : Flow NodeRecord} (h : Entry.Occurs (.split n :: rest) passed flow) :
    Entry.Announced n rest := by
  rw [flows_toProgram] at hflow
  obtain ⟨written, hwritten, rfl⟩ := List.mem_map.1 hflow
  obtain ⟨part, passed', hocc, hpart, -⟩ := Entry.occurs_mapFlow h
  obtain ⟨start, -, rfl⟩ := List.mem_map.1 hwritten
  obtain _ | ⟨_ | _ | _, behind⟩ := part
  all_goals cases hpart
  exact (announced_flowFrom hocc).mapFlow _

end Session

end FlowGraph

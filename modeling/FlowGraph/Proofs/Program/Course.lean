import FlowGraph.Proofs.Session.Retyped

/-! # The course of a run

A program is restored by changes that a host could ask for one by one: everything is removed, the variables are
registered, the nodes are made and get their variants and constants, and the edges are tried round by round. With
every restored program written out in this way, a run passes through all the states in which an edge was made or
a constant was stored.
-/

namespace FlowGraph
set_option autoImplicit false

/-- It makes a node or an edge, or changes a node. -/
def Operation.Builds : Operation → Prop
  | .spawn .. | .selectVariant .. | .setValue .. | .connect .. => True
  | _ => False

/-- It restores no program, so it is a change of its own. -/
def Operation.Elementary : Operation → Prop
  | .restore .. => False
  | _ => True

theorem Operation.Builds.elementary {o : Operation} (h : o.Builds) : o.Elementary := by
  cases o <;> trivial

theorem Operation.Builds.isPublic {o : Operation} (h : o.Builds) : o.Public := by
  cases o <;> trivial

namespace Restore

def constantSteps (id : NodeId) (r : NodeRecord) : List Operation :=
  r.inputs.zipIdx.filterMap fun (input, index) =>
    match input.constant, input.value with
    | true, some value => some (.setValue ⟨id, .data, index⟩ (some value))
    | _, _ => none

def recordSteps (id : NodeId) (kind : NodeKind) (r : NodeRecord) : List Operation :=
  .spawn kind ⟨r.x, r.y⟩ r.scale :: ((r.variant.map (Operation.selectVariant id)).toList ++ constantSteps id r)

def spawnSteps (palette : Palette) (s : Session) : List NodeRecord → List Operation
  | [] => []
  | r :: rest =>
    match palette.kind? r.identifier with
    | none => spawnSteps palette s rest
    | some kind => recordSteps s.ids.node.1 kind r ++ spawnSteps palette (spawnRecord s kind r).2 rest

/-- An edge is tried once in each round that it is left for. -/
def wiringSteps : (rounds : Nat) → Session → List PendingEdge → List Operation
  | 0, _, _ => []
  | rounds + 1, s, edges =>
    let r := connectEach s edges
    edges.map (fun e => .connect e.plug e.socket) ++
      if r.deferred.isEmpty || r.deferred.length == edges.length then []
      else wiringSteps rounds r.session r.deferred

end Restore

namespace Session

/-- The session is empty and knows the variables of the program. -/
def preparing (program : Program) : List Operation :=
  .removeAll :: program.variableTypes.entries.map fun e => .registerVariable e.1 e.2

/-- The nodes and edges of the program are made in a session that is prepared for it. -/
def building (s : Session) (palette : Palette) (program : Program) : List Operation :=
  let records := Restore.firstRecords program.records
  let spawned := Restore.spawnAll palette s ⟨.empty, [], 0⟩ records
  let pending := (Restore.edges spawned.2.nodes records).filterMap id
  Restore.spawnSteps palette s records ++ Restore.wiringSteps pending.length spawned.1 pending

/-- The changes that an operation comes to. -/
def steps (s : Session) : Operation → List Operation
  | .restore palette program =>
    preparing program ++ (s.applyAll (preparing program)).building palette program
  | o => [o]

/-- The changes that a run comes to. -/
def course : Session → List Operation → List Operation
  | _, [] => []
  | s, o :: os => s.steps o ++ (s.apply o).course os

/-! ## The changes lead to the same session -/

section Applying
variable (s : Session)

theorem applyAll_then (l l' : List Operation) : s.applyAll (l ++ l') = (s.applyAll l).applyAll l' :=
  List.foldl_append

theorem applyAll_preparing (program : Program) :
    s.applyAll (preparing program) = Restore.registerVariables s.removeAll program.variableTypes := by
  unfold preparing Restore.registerVariables applyAll
  rw [List.foldl_cons, List.foldl_map]
  rfl

theorem applyAll_constantSteps (id : NodeId) (r : NodeRecord) :
    s.applyAll (Restore.constantSteps id r) = Restore.setConstants s id r := by
  unfold Restore.constantSteps Restore.setConstants
  induction r.inputs.zipIdx generalizing s with
  | nil => rfl
  | cons e rest ih =>
    obtain ⟨input, index⟩ := e
    rw [List.foldl_cons, ← ih]
    cases hvalue : input.value <;> cases hconstant : input.constant <;>
      simp [hvalue, hconstant, applyAll, apply, perform]

theorem applyAll_recordSteps (kind : NodeKind) (r : NodeRecord) :
    s.applyAll (Restore.recordSteps s.ids.node.1 kind r) = (Restore.spawnRecord s kind r).2 := by
  unfold Restore.recordSteps Restore.spawnRecord
  cases r.variant with
  | none => exact applyAll_constantSteps (s.spawn kind ⟨r.x, r.y⟩ r.scale).2 s.ids.node.1 r
  | some variant =>
    exact applyAll_constantSteps
      ((s.spawn kind ⟨r.x, r.y⟩ r.scale).2.selectVariant s.ids.node.1 variant).2 s.ids.node.1 r

theorem applyAll_spawnSteps (palette : Palette) (report : RestoreReport) (records : List NodeRecord) :
    s.applyAll (Restore.spawnSteps palette s records) = (Restore.spawnAll palette s report records).1 := by
  induction records generalizing s report with
  | nil => rfl
  | cons r rest ih =>
    unfold Restore.spawnSteps Restore.spawnAll
    cases palette.kind? r.identifier with
    | none => exact ih s _
    | some kind =>
      dsimp only
      rw [applyAll_then, applyAll_recordSteps]
      exact ih _ _

/-- An edge that is refused leaves the session as it is. -/
theorem applyAll_connects (edges : List PendingEdge) :
    s.applyAll (edges.map fun e => .connect e.plug e.socket) = (Restore.connectEach s edges).session := by
  induction edges generalizing s with
  | nil => rfl
  | cons e rest ih =>
    rw [List.map_cons, applyAll, List.foldl_cons]
    unfold Restore.connectEach
    split
    · rename_i hok
      rw [apply_connect_ok hok]
      exact ih _
    · rename_i hrefused
      rw [apply_connect_error hrefused]
      exact ih s
    · rename_i hrefused
      rw [apply_connect_error hrefused]
      exact ih s

theorem applyAll_wiringSteps (rounds : Nat) (edges : List PendingEdge) :
    s.applyAll (Restore.wiringSteps rounds s edges) = (Restore.connectAll rounds s edges).2 := by
  induction rounds generalizing s edges with
  | zero => rfl
  | succ rounds ih =>
    unfold Restore.wiringSteps Restore.connectAll
    dsimp only
    rw [applyAll_then, applyAll_connects]
    split
    · rfl
    · exact ih _ _

theorem applyAll_steps (o : Operation) : s.applyAll (s.steps o) = s.apply o := by
  cases o with
  | restore palette program =>
    show s.applyAll (preparing program ++ (s.applyAll (preparing program)).building palette program) = _
    rw [applyAll_then, building, applyAll_then, applyAll_spawnSteps _ palette ⟨.empty, [], 0⟩,
      applyAll_wiringSteps, applyAll_preparing]
    rfl
  | _ => rfl

/-- A run and its course end in the same session. -/
theorem applyAll_course (os : List Operation) : s.applyAll (s.course os) = s.applyAll os := by
  induction os generalizing s with
  | nil => rfl
  | cons o os ih =>
    rw [course, applyAll_then, applyAll_steps, ih]
    rfl

theorem course_append (os os' : List Operation) :
    s.course (os ++ os') = s.course os ++ (s.applyAll os).course os' := by
  induction os generalizing s with
  | nil => rfl
  | cons o os ih =>
    rw [List.cons_append, course, course, ih, List.append_assoc]
    rfl

end Applying

/-! ## What the changes are -/

section Members
variable {s : Session} {o u : Operation} {os : List Operation}

theorem builds_of_mem_constantSteps {id : NodeId} {r : NodeRecord} (h : o ∈ Restore.constantSteps id r) :
    o.Builds := by
  obtain ⟨⟨input, index⟩, -, hstep⟩ := List.mem_filterMap.1 h
  dsimp only at hstep
  split at hstep
  · obtain rfl := Option.some.inj hstep
    trivial
  · cases hstep

theorem builds_of_mem_recordSteps {id : NodeId} {kind : NodeKind} {r : NodeRecord}
    (h : o ∈ Restore.recordSteps id kind r) : o.Builds := by
  obtain rfl | h := List.mem_cons.1 h
  · trivial
  obtain hvariant | hconstant := List.mem_append.1 h
  · obtain ⟨variant, -, rfl⟩ := Option.map_eq_some_iff.1 (Option.mem_toList.1 hvariant)
    trivial
  · exact builds_of_mem_constantSteps hconstant

theorem builds_of_mem_spawnSteps {palette : Palette} {records : List NodeRecord}
    (h : o ∈ Restore.spawnSteps palette s records) : o.Builds := by
  induction records generalizing s with
  | nil => exact (List.not_mem_nil h).elim
  | cons r rest ih =>
    unfold Restore.spawnSteps at h
    split at h
    · exact ih h
    · exact (List.mem_append.1 h).elim builds_of_mem_recordSteps ih

theorem builds_of_mem_wiringSteps {rounds : Nat} {edges : List PendingEdge}
    (h : o ∈ Restore.wiringSteps rounds s edges) : o.Builds := by
  induction rounds generalizing s edges with
  | zero => exact (List.not_mem_nil h).elim
  | succ rounds ih =>
    unfold Restore.wiringSteps at h
    obtain hnow | hlater := List.mem_append.1 h
    · obtain ⟨e, -, rfl⟩ := List.mem_map.1 hnow
      trivial
    · split at hlater
      · exact (List.not_mem_nil hlater).elim
      · exact ih hlater

theorem builds_of_mem_building {palette : Palette} {program : Program} (h : o ∈ s.building palette program) :
    o.Builds :=
  (List.mem_append.1 h).elim builds_of_mem_spawnSteps builds_of_mem_wiringSteps

/-- What an operation comes to is the operation itself, or part of a restored program. -/
theorem mem_steps (h : u ∈ s.steps o) : u = o ∧ o.Elementary ∨
    u = .removeAll ∨ (∃ name type, u = .registerVariable name type) ∨ u.Builds := by
  cases o with
  | restore palette program =>
    refine Or.inr ?_
    obtain hprepare | hbuild := List.mem_append.1 h
    · obtain rfl | hregister := List.mem_cons.1 hprepare
      · exact Or.inl rfl
      · obtain ⟨e, -, rfl⟩ := List.mem_map.1 hregister
        exact Or.inr (Or.inl ⟨e.1, e.2, rfl⟩)
    · exact Or.inr (Or.inr (builds_of_mem_building hbuild))
  | _ => exact Or.inl ⟨List.mem_singleton.1 h, trivial⟩

theorem mem_course (h : u ∈ s.course os) : u ∈ os ∧ u.Elementary ∨
    u = .removeAll ∨ (∃ name type, u = .registerVariable name type) ∨ u.Builds := by
  induction os generalizing s with
  | nil => exact (List.not_mem_nil h).elim
  | cons o os ih =>
    obtain hfirst | hrest := List.mem_append.1 h
    · obtain ⟨rfl, helementary⟩ | hpart := mem_steps hfirst
      · exact Or.inl ⟨List.mem_cons_self, helementary⟩
      · exact Or.inr hpart
    · exact (ih hrest).imp_left fun hin => ⟨List.mem_cons_of_mem o hin.1, hin.2⟩

theorem elementary_course : ∀ u ∈ s.course os, u.Elementary := by
  intro u hu
  obtain ⟨-, helementary⟩ | rfl | ⟨name, type, rfl⟩ | hbuilds := mem_course hu
  · exact helementary
  · trivial
  · trivial
  · exact hbuilds.elementary

theorem public_course (hos : ∀ o ∈ os, o.Public) : ∀ u ∈ s.course os, u.Public := by
  intro u hu
  obtain ⟨hin, -⟩ | rfl | ⟨name, type, rfl⟩ | hbuilds := mem_course hu
  · exact hos u hin
  · trivial
  · trivial
  · exact hbuilds.isPublic

end Members
end Session
end FlowGraph

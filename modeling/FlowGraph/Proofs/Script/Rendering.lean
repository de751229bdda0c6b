import FlowGraph.Proofs.Program.Flow
import FlowGraph.Script.Compiler

/-! # Rendering a chain from the front

`Step.tail` makes the text of a chain from the back. Here the same text is described from the front:

* `Template.place` fills the slots of a template without a running state: each segment is written on
  its own, and the place of the first `further` slot decides which of them takes what runs next.
* `Step.front` gives every branch step to the snippet that it follows.

`Step.tail_spaced` says what the back-to-front run has collected behind any step of a chain in which
branches never stand side by side; the equality of the two readings follows from it.
-/

namespace FlowGraph.Script
set_option autoImplicit false

/-! ## Slots without a running state -/

/-- Whether a segment is a place for what runs next. -/
def Segment.isFurther : Segment → Bool
  | .text _ => false
  | .placeholder name => Slot.ofName name = .further

/-- The text of one segment when `further` belongs there. -/
def Segment.filled (inputs : List (String × String)) (branches : List String) (further : String) :
    Segment → String
  | .text value => value
  | .placeholder name =>
    match Slot.ofName name with
    | .further => further
    | .branch i => branches.getD i ""
    | .named n => (inputText? inputs n).getD ("$" ++ name)

/-- The text of a template: its first `further` slot takes `further`, and every later one nothing. -/
def Template.place (t : Template) (inputs : List (String × String)) (branches : List String)
    (further : String) : String :=
  String.join (t.segments.zipIdx.map fun e =>
    e.1.filled inputs branches (if t.segments.findIdx Segment.isFurther = e.2 then further else ""))

/-- One segment at a time: what runs next is used up by the first `further` slot. -/
theorem fillSegments_cons (inputs : List (String × String)) (branches : List String)
    (further : String) (segment : Segment) (rest : List Segment) :
    fillSegments inputs branches further (segment :: rest) =
      segment.filled inputs branches further ++
        fillSegments inputs branches (if segment.isFurther then "" else further) rest := by
  cases segment with
  | text value => rfl
  | placeholder name =>
    cases h : Slot.ofName name <;> simp [fillSegments, Segment.filled, Segment.isFurther, h]

/-- Only a `further` slot asks for what runs next. -/
theorem filled_congr (inputs : List (String × String)) (branches : List String) (f g : String)
    {segment : Segment} (h : segment.isFurther = false) :
    segment.filled inputs branches f = segment.filled inputs branches g := by
  cases segment with
  | text value => rfl
  | placeholder name =>
    cases hs : Slot.ofName name with
    | further => simp [Segment.isFurther, hs] at h
    | branch i => simp [Segment.filled, hs]
    | named n => simp [Segment.filled, hs]

/-- With nothing to place, every segment is written alike. -/
theorem fillSegments_nothing (inputs : List (String × String)) (branches : List String)
    (segments : List Segment) :
    fillSegments inputs branches "" segments =
      String.join (segments.map (Segment.filled inputs branches "")) := by
  induction segments with
  | nil => rfl
  | cons segment rest ih => simp [fillSegments_cons, ih]

/-- The run over the segments against the place of the first `further` slot, counted from `k`. -/
theorem fillSegments_eq_join (inputs : List (String × String)) (branches : List String)
    (further : String) (segments : List Segment) (k : Nat) :
    fillSegments inputs branches further segments =
      String.join ((segments.zipIdx k).map fun e =>
        e.1.filled inputs branches
          (if segments.findIdx Segment.isFurther + k = e.2 then further else "")) := by
  induction segments generalizing k with
  | nil => rfl
  | cons segment rest ih =>
    rw [fillSegments_cons, List.zipIdx_cons, List.map_cons, String.join_cons, List.findIdx_cons]
    cases h : segment.isFurther with
    | true =>
      have hrest : ∀ e ∈ rest.zipIdx (k + 1), e.1.filled inputs branches "" =
          e.1.filled inputs branches (if k = e.2 then further else "") := by
        intro e he
        have := (List.mem_zipIdx he).1
        rw [if_neg (by omega)]
      simp only [cond_true, Nat.zero_add, if_true]
      have hfst : rest.map (Segment.filled inputs branches "") =
          (rest.zipIdx (k + 1)).map fun e => e.1.filled inputs branches "" := by
        rw [← Function.comp_def, ← List.map_map, List.zipIdx_map_fst]
      rw [fillSegments_nothing, hfst, List.map_congr_left hrest]
    | false =>
      rw [if_neg (by simp), ih (k + 1)]
      congr 1
      · exact filled_congr inputs branches _ _ h
      · simp only [cond_false, Nat.add_right_comm _ 1 k, Nat.add_assoc]

theorem fillSegments_eq_place (t : Template) (inputs : List (String × String))
    (branches : List String) (further : String) :
    fillSegments inputs branches further t.segments = t.place inputs branches further :=
  fillSegments_eq_join inputs branches further t.segments 0

/-- A segment that is no place for a branch does not look at the branches. -/
theorem filled_without_branches (inputs : List (String × String)) (branches : List String)
    (further : String) {segment : Segment} (h : ∀ name i, segment = .placeholder name →
      Slot.ofName name ≠ .branch i) :
    segment.filled inputs branches further = segment.filled inputs [] further := by
  cases segment with
  | text value => rfl
  | placeholder name =>
    cases hs : Slot.ofName name with
    | further => simp [Segment.filled, hs]
    | branch i => exact absurd hs (h name i rfl)
    | named n => simp [Segment.filled, hs]

theorem not_branch_of_hasBranchSlot_eq_false {t : Template} (h : t.hasBranchSlot = false)
    {name : String} (hmem : .placeholder name ∈ t.segments) (i : Nat) :
    Slot.ofName name ≠ .branch i := by
  intro hs
  have hname : name ∈ t.placeholders := List.mem_filterMap.2 ⟨_, hmem, rfl⟩
  have := List.any_eq_false.1 h name hname
  simp [hs] at this

theorem place_without_branches {t : Template} (inputs : List (String × String))
    (branches : List String) (further : String) (h : t.hasBranchSlot = false) :
    t.place inputs branches further = t.place inputs [] further := by
  unfold Template.place
  congr 1
  refine List.map_congr_left fun e he => ?_
  apply filled_without_branches
  rintro name i hname
  have hmem := List.fst_mem_of_mem_zipIdx he
  rw [hname] at hmem
  exact not_branch_of_hasBranchSlot_eq_false h hmem i

/-! ## Chains from the front -/

/-- The text of a snippet in front of `further`, when it is followed by some branches: a template
with places for branches puts them there, and any other one runs them ahead of `further`. -/
def Template.followedBy (t : Template) (inputs : List (String × String)) (branches : List String)
    (further : String) : String :=
  if t.hasBranchSlot then t.place inputs branches further
  else t.place inputs [] (String.join branches ++ further)

namespace Step

mutual

/-- The text of a chain, read from the front. -/
def front : List Step → String
  | [] => ""
  | .branch branches :: rest => String.join (frontEach branches) ++ front rest
  | .snippet t inputs :: .branch branches :: rest =>
    t.followedBy inputs (frontEach branches) (front rest)
  | .snippet t inputs :: rest => t.followedBy inputs [] (front rest)

/-- The texts of several chains, read from the front. -/
def frontEach : List (List Step) → List String
  | [] => []
  | chain :: rest => front chain :: frontEach rest

end

/-- Whether a step holds branches. -/
def isBranch : Step → Bool
  | .branch _ => true
  | .snippet _ _ => false

mutual

/-- Whether the branches of a step are spaced. -/
def spacedWithin : Step → Bool
  | .snippet _ _ => true
  | .branch branches => spacedEach branches

/-- Whether no branch step directly follows another one, in the chain and within its branches. -/
def spaced : List Step → Bool
  | [] => true
  | step :: rest =>
    !(step.isBranch && rest.head?.any isBranch) && step.spacedWithin && spaced rest

/-- Whether several chains are spaced. -/
def spacedEach : List (List Step) → Bool
  | [] => true
  | chain :: rest => spaced chain && spacedEach rest

end

theorem spacedEach_iff (chains : List (List Step)) :
    spacedEach chains = true ↔ ∀ chain ∈ chains, spaced chain = true := by
  induction chains with
  | nil => simp [spacedEach]
  | cons chain rest ih => simp [spacedEach, ih]

/-- What a chain leaves to the step before it, read from the front. -/
def behind : List Step → Tail
  | .branch branches :: rest => ⟨front rest, frontEach branches⟩
  | chain => ⟨front chain, []⟩

theorem flat_behind (chain : List Step) : (behind chain).flat = front chain := by
  match chain with
  | [] => simp [behind, Tail.flat]
  | .branch branches :: rest => simp [behind, Tail.flat, front]
  | .snippet t inputs :: rest => simp [behind, Tail.flat]

theorem fill_behind (t : Template) (inputs : List (String × String)) (rest : List Step) :
    fill t inputs (behind rest) = front (.snippet t inputs :: rest) := by
  have hfill : fill t inputs (behind rest) =
      t.followedBy inputs (behind rest).waiting (behind rest).further := by
    unfold fill Template.followedBy Tail.flat
    cases h : t.hasBranchSlot with
    | true => simp [fillSegments_eq_place]
    | false => simp [fillSegments_eq_place, place_without_branches inputs _ _ h]
  rw [hfill]
  match rest with
  | [] => simp [behind, front]
  | .branch branches :: rest => simp [behind, front]
  | .snippet t' inputs' :: rest => simp [behind, front]

/-- Behind a branch step of a spaced chain no other branches wait. -/
theorem spaced_branch {branches : List (List Step)} {rest : List Step}
    (h : spaced (.branch branches :: rest) = true) :
    spacedEach branches = true ∧ spaced rest = true ∧ behind rest = ⟨front rest, []⟩ := by
  simp only [spaced, isBranch, spacedWithin, Bool.and_eq_true] at h
  refine ⟨h.1.2, h.2, ?_⟩
  match rest with
  | [] => rw [behind]; simp
  | .branch _ :: _ => simp [isBranch] at h
  | .snippet t inputs :: rest => rw [behind]; simp

mutual

/-- In a chain without neighbouring branches, the back-to-front run has behind it what the chain
says from the front. -/
theorem tail_spaced : (chain : List Step) → spaced chain = true → tail chain = behind chain
  | [], _ => by rw [tail, behind, front, Tail.empty]; simp
  | .snippet t inputs :: rest, h => by
    have hrest : tail rest = behind rest := tail_spaced rest (Bool.and_eq_true_iff.1 h).2
    rw [tail, hrest, fill_behind, behind]
    simp
  | .branch branches :: rest, h => by
    obtain ⟨hbranches, hrest, hbehind⟩ := spaced_branch h
    rw [tail, renderEach_spaced branches hbranches, tail_spaced rest hrest, hbehind, behind]

theorem renderEach_spaced :
    (chains : List (List Step)) → spacedEach chains = true → renderEach chains = frontEach chains
  | [], _ => by rw [renderEach, frontEach]
  | chain :: rest, h => by
    obtain ⟨hchain, hrest⟩ : spaced chain = true ∧ spacedEach rest = true := by
      simpa [spacedEach] using h
    rw [renderEach, frontEach, tail_spaced chain hchain, flat_behind, renderEach_spaced rest hrest]

end

end Step
end Script

/-! ## Compiled flows -/

namespace Script.Compiler
variable {c : Compiler} {program : Program} {last : Option String} {fs gs : Functions}

/-- The node that an entry leaves behind as the last one. -/
def lastAfter (last : Option String) : Entry NodeRecord → Option String
  | .node record => some record.uid
  | _ => last

/-- A flow is compiled entry by entry. -/
theorem flowSteps_cons (c : Compiler) (program : Program) (last : Option String)
    (entry : Entry NodeRecord) (rest : Flow NodeRecord) :
    c.flowSteps program last (entry :: rest) = (do
      let step ← c.entryStep program last entry
      let steps ← c.flowSteps program (lastAfter last entry) rest
      return step :: steps) := by
  cases entry <;> simp [flowSteps, lastAfter]

/-- The step of a node carries a template. -/
theorem nodeStep_ok {record : NodeRecord} {step : Step}
    (h : (c.nodeStep program record).run fs = .ok (step, gs)) : ∃ t inputs, step = .snippet t inputs := by
  unfold nodeStep at h
  split at h
  · cases h
  · obtain ⟨inputs, hs, -, hr⟩ := Collect.run_bind_eq_ok.1 h
    cases hr
    exact ⟨_, _, rfl⟩

theorem splitStep_ok {count : Nat} {step : Step}
    (h : (c.splitStep last count).run fs = .ok (step, gs)) : ∃ t inputs, step = .snippet t inputs := by
  unfold splitStep at h
  split at h
  · cases h
  · cases h
    exact ⟨_, _, rfl⟩

theorem isBranch_entryStep {entry : Entry NodeRecord} {step : Step}
    (h : (c.entryStep program last entry).run fs = .ok (step, gs)) :
    step.isBranch = entry.isBranch := by
  cases entry with
  | node record =>
    rw [entryStep] at h
    obtain ⟨t, inputs, rfl⟩ := nodeStep_ok h
    rfl
  | split count =>
    rw [entryStep] at h
    obtain ⟨t, inputs, rfl⟩ := splitStep_ok h
    rfl
  | branch branches =>
    rw [entryStep] at h
    obtain ⟨chains, hs, -, hr⟩ := Collect.run_bind_eq_ok.1 h
    cases hr
    rfl

theorem head?_flowSteps {flow : Flow NodeRecord} {steps : List Step}
    (h : (c.flowSteps program last flow).run fs = .ok (steps, gs)) :
    steps.head?.any Step.isBranch = flow.head?.any Entry.isBranch := by
  cases flow with
  | nil =>
    rw [flowSteps] at h
    cases h
    rfl
  | cons entry rest =>
    rw [flowSteps_cons] at h
    obtain ⟨step, hs, hstep, h⟩ := Collect.run_bind_eq_ok.1 h
    obtain ⟨steps, hs', -, h⟩ := Collect.run_bind_eq_ok.1 h
    cases h
    exact isBranch_entryStep hstep

mutual

theorem spacedWithin_entryStep {last : Option String} {fs gs : Functions} {step : Step} :
    (entry : Entry NodeRecord) → (c.entryStep program last entry).run fs = .ok (step, gs) →
      entry.spacedWithin = true → step.spacedWithin = true
  | .node record, h, _ => by
    rw [entryStep] at h
    obtain ⟨t, inputs, rfl⟩ := nodeStep_ok h
    rfl
  | .split count, h, _ => by
    rw [entryStep] at h
    obtain ⟨t, inputs, rfl⟩ := splitStep_ok h
    rfl
  | .branch branches, h, hspaced => by
    rw [entryStep] at h
    obtain ⟨chains, hs, hchains, hr⟩ := Collect.run_bind_eq_ok.1 h
    cases hr
    exact spacedEach_flowsSteps branches hchains hspaced

/-- The steps of a spaced flow are spaced. -/
theorem spaced_flowSteps {last : Option String} {fs gs : Functions} {steps : List Step} :
    (flow : Flow NodeRecord) → (c.flowSteps program last flow).run fs = .ok (steps, gs) →
      Entry.spacedFlow flow = true → Step.spaced steps = true
  | [], h, _ => by
    rw [flowSteps] at h
    cases h
    rfl
  | entry :: rest, h, hspaced => by
    rw [flowSteps_cons] at h
    obtain ⟨step, hs, hstep, h⟩ := Collect.run_bind_eq_ok.1 h
    obtain ⟨steps, hs', hsteps, h⟩ := Collect.run_bind_eq_ok.1 h
    cases h
    simp only [Entry.spacedFlow, Bool.and_eq_true] at hspaced
    rw [Step.spaced, isBranch_entryStep hstep, head?_flowSteps hsteps, hspaced.1.1,
      spacedWithin_entryStep entry hstep hspaced.1.2, spaced_flowSteps rest hsteps hspaced.2]
    rfl

theorem spacedEach_flowsSteps {last : Option String} {fs gs : Functions} {chains : List (List Step)} :
    (flows : List (Flow NodeRecord)) →
      (c.flowsSteps program last flows).run fs = .ok (chains, gs) →
      Entry.spacedFlows flows = true → Step.spacedEach chains = true
  | [], h, _ => by
    rw [flowsSteps] at h
    cases h
    rfl
  | flow :: rest, h, hspaced => by
    rw [flowsSteps] at h
    obtain ⟨chain, hs, hchain, h⟩ := Collect.run_bind_eq_ok.1 h
    obtain ⟨chains, hs', hchains, h⟩ := Collect.run_bind_eq_ok.1 h
    cases h
    simp only [Entry.spacedFlows, Bool.and_eq_true] at hspaced
    rw [Step.spacedEach, spaced_flowSteps flow hchain hspaced.1,
      spacedEach_flowsSteps rest hchains hspaced.2]
    rfl

end

end Script.Compiler

/-! ## Both readings agree -/

namespace Script
open Step Compiler

/-- Rendering from the back and reading from the front agree on every chain in which no branch step
directly follows another one, and so on every chain that a saved session is compiled to. -/
theorem render_eq_front :
    (∀ chain, spaced chain = true → render chain = front chain) ∧
      ∀ (c : Compiler) (s : Session) (fs : Functions),
        ((c.flowsSteps s.toProgram none s.toProgram.flows).run fs).map (fun r => r.1.map render) =
          ((c.flowsSteps s.toProgram none s.toProgram.flows).run fs).map fun r => r.1.map front := by
  have hrender : ∀ chain, spaced chain = true → render chain = front chain := by
    intro chain h
    rw [render, tail_spaced chain h, flat_behind]
  refine ⟨hrender, fun c s fs => ?_⟩
  cases h : (c.flowsSteps s.toProgram none s.toProgram.flows).run fs with
  | error e => rfl
  | ok r =>
    have hspaced := spacedEach_flowsSteps s.toProgram.flows h s.spaced_toProgram
    have hchains : r.1.map render = r.1.map front :=
      List.map_congr_left fun chain hchain => hrender chain ((spacedEach_iff r.1).1 hspaced chain hchain)
    simp only [Except.map, hchains]

/-- A condition with two branches and a continuation, between two plain steps. -/
theorem render_eq_front_condition :
    let chain : List Step := [.snippet ⟨[.text "start;", .placeholder "further"]⟩ [],
      .snippet ⟨[.text "if(", .placeholder "in", .text ")\x7b", .placeholder "branch0",
        .text "\x7delse\x7b", .placeholder "branch1", .text "\x7d", .placeholder "further"]⟩ [("in", "a")],
      .branch [[.snippet ⟨[.text "x;", .placeholder "further"]⟩ []], []],
      .snippet ⟨[.text "y;", .placeholder "further"]⟩ []]
    spaced chain = true ∧ render chain = "start;if(a)\x7bx;\x7delse\x7b\x7dy;" :=
  ⟨by decide, (render_eq_front.1 _ (by decide)).trans (by simp only [front, frontEach]; decide)⟩

end Script
end FlowGraph

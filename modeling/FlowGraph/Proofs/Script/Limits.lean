import FlowGraph.Proofs.Script.Resolution
import Mathlib.Data.List.Dedup
import Mathlib.Data.List.Perm.Subperm

/-! # The limit on sources in a row

Two runs of the compiler under different limits go the same way step by step, until the lower limit stops the
first of them. The sources on the way from a flow to a constant are all different, since a source that is met
again is a cycle and not a step further. So a limit that no row of different records exceeds stops nothing.
-/

namespace FlowGraph.Script
set_option autoImplicit false

/-- Too many sources feed each other in a row. -/
def CompileError.IsLimit (e : CompileError) : Prop := ∃ node limit, e = .recursionLimit node limit

/-! ## Runs under two limits -/

/-- The first run is stopped by its limit, where it may be, or the second run goes just like it and neither is
stopped. -/
def Collect.Keeps {α : Type} (may : Prop) (x y : Collect α) : Prop :=
  ∀ fs, (may ∧ ∃ e : CompileError, e.IsLimit ∧ x.run fs = .error e) ∨
    y.run fs = x.run fs ∧ ∀ e, x.run fs = .error e → ¬e.IsLimit

namespace Collect.Keeps
variable {α β : Type} {may : Prop}

theorem pure (a : α) : Keeps may (Pure.pure a : Collect α) (Pure.pure a) :=
  fun _ => Or.inr ⟨rfl, fun _ h => by cases h⟩

theorem throw {e : CompileError} (h : ¬e.IsLimit) : Keeps may (throw e : Collect α) (throw e) := by
  refine fun fs => Or.inr ⟨rfl, fun d hd => ?_⟩
  cases hd
  exact h

theorem stopped (node : String) (limit : Nat) (hmay : may) (y : Collect α) :
    Keeps may (MonadExcept.throw (.recursionLimit node limit)) y :=
  fun _ => Or.inl ⟨hmay, _, ⟨node, limit, rfl⟩, rfl⟩

theorem bind {x y : Collect α} {f g : α → Collect β} (hx : Keeps may x y) (hf : ∀ a, Keeps may (f a) (g a)) :
    Keeps may (x >>= f) (y >>= g) := by
  intro fs
  have hrun (z : Collect α) (k : α → Collect β) : (z >>= k).run fs = (z.run fs >>= fun p => (k p.1).run p.2) := rfl
  obtain ⟨hmay, e, he, hstop⟩ | ⟨hsame, hnone⟩ := hx fs
  · exact Or.inl ⟨hmay, e, he, run_bind_eq_error.2 (Or.inl hstop)⟩
  rw [hrun, hrun, hsame]
  cases hfirst : x.run fs with
  | error e =>
    refine Or.inr ⟨rfl, fun d hd => hnone d (hfirst.trans ?_)⟩
    cases hd
    rfl
  | ok p => exact hf p.1 p.2

end Collect.Keeps

namespace Compiler

/-- The compiler with another limit. -/
def withLimit (c : Compiler) (limit : Nat) : Compiler := { c with maxDepth := limit }

@[simp] theorem snippets_withLimit (c : Compiler) (limit : Nat) : (c.withLimit limit).snippets = c.snippets := rfl

/-- The uids of the records, each once. -/
def uids (program : Program) : List String := (program.records.map (·.uid)).dedup

variable {c : Compiler} {program : Program} {limit : Nat} {may : Prop}

/-! ## Inputs -/

theorem keeps_inputExpression {fetch fetch' : Fetch} {record : NodeRecord} {index : Nat}
    (h : ∀ uid port, Collect.Keeps may (fetch index uid port) (fetch' index uid port)) :
    Collect.Keeps may (c.inputExpression fetch record index)
      ((c.withLimit limit).inputExpression fetch' record index) := by
  have hplain (node reason : String) : ¬(CompileError.invalidInput node index reason).IsLimit := by
    rintro ⟨_, _, h⟩
    cases h
  cases hin : record.inputs[index]? with
  | none =>
    rw [inputExpression_absent hin, inputExpression_absent hin]
    exact .pure _
  | some input =>
    cases hs : input.source with
    | none =>
      cases hv : input.value with
      | none =>
        rw [inputExpression_unset hin hs hv, inputExpression_unset hin hs hv]
        exact .pure _
      | some value =>
        cases hf : c.formatter.format value input.type with
        | ok text =>
          rw [inputExpression_constant hin hs hv hf, inputExpression_constant (c := c.withLimit limit) hin hs hv hf]
          exact .pure _
        | error reason =>
          rw [inputExpression_refused hin hs hv hf, inputExpression_refused (c := c.withLimit limit) hin hs hv hf]
          exact .throw (hplain _ _)
    | some uid =>
      cases hp : input.port with
      | none =>
        rw [inputExpression_portless hin hs hp, inputExpression_portless hin hs hp]
        exact .throw (hplain _ _)
      | some port =>
        rw [inputExpression_source hin hs hp, inputExpression_source hin hs hp]
        exact h uid port

theorem keeps_inputExpressions {fetch fetch' : Fetch} (record : NodeRecord)
    (h : ∀ index uid port, Collect.Keeps may (fetch index uid port) (fetch' index uid port)) (index : Nat)
    (names : List String) : Collect.Keeps may (c.inputExpressions fetch record index names)
      ((c.withLimit limit).inputExpressions fetch' record index names) := by
  induction names generalizing index with
  | nil => exact .pure []
  | cons name names ih =>
    rw [inputExpressions, inputExpressions]
    refine .bind (keeps_inputExpression (h index)) fun text => ?_
    exact .bind (ih (index + 1)) fun rest => .pure _

/-! ## Sources -/

/-- The sources on the way are different records, and there is room for all that are left. -/
structure Roomy (program : Program) (room : Nat) (chain : List String) : Prop where
  once : chain.Nodup
  known : ∀ uid ∈ chain, uid ∈ uids program
  enough : (uids program).length ≤ room + chain.length

theorem mem_uids {uid : String} {source : NodeRecord} (h : program.find? uid = some source) :
    uid ∈ uids program := by
  rw [uids, List.mem_dedup]
  have huid := List.find?_some (p := fun r : NodeRecord => r.uid == uid) h
  exact List.mem_map.2 ⟨source, List.mem_of_find?_eq_some h, eq_of_beq huid⟩

namespace Roomy
variable {room : Nat} {chain : List String} {uid : String}

/-- A source that is new on the way takes room. -/
theorem length_lt (h : Roomy program room chain) (hin : uid ∈ uids program) (hnew : uid ∉ chain) :
    chain.length < (uids program).length := by
  have hsub : uid :: chain ⊆ uids program := List.cons_subset.2 ⟨hin, h.known⟩
  have hnodup : (uid :: chain).Nodup := List.nodup_cons.2 ⟨hnew, h.once⟩
  exact (List.subperm_of_subset hnodup hsub).length_le

theorem not_full (hin : uid ∈ uids program) (hnew : uid ∉ chain) : ¬Roomy program 0 chain := by
  intro h
  have hlt := h.length_lt hin hnew
  have henough := h.enough
  omega

theorem cons (h : Roomy program (room + 1) chain) (hin : uid ∈ uids program) (hnew : uid ∉ chain) :
    Roomy program room (uid :: chain) where
  once := List.nodup_cons.2 ⟨hnew, h.once⟩
  known := List.forall_mem_cons.2 ⟨hin, h.known⟩
  enough := by
    have henough := h.enough
    rw [List.length_cons]
    omega

end Roomy

/-- With more room a source is fetched just the same, unless there is too little room for it. -/
theorem keeps_sourceExpression {room more : Nat} (hroom : room ≤ more) {chain : List String}
    (hmay : ¬Roomy program room chain → may) (consumer : NodeRecord) (index : Nat) (uid : String) (port : Nat) :
    Collect.Keeps may (c.sourceExpression program room chain consumer index uid port)
      ((c.withLimit limit).sourceExpression program more chain consumer index uid port) := by
  induction room generalizing more chain consumer index uid port with
  | zero =>
    cases hfind : program.find? uid with
    | none =>
      rw [sourceExpression_missing hfind, sourceExpression_missing hfind]
      exact .throw (by rintro ⟨_, _, h⟩; cases h)
    | some source =>
      by_cases hin : uid ∈ chain
      · rw [sourceExpression_cycle hfind hin, sourceExpression_cycle hfind hin]
        exact .throw (by rintro ⟨_, _, h⟩; cases h)
      · rw [sourceExpression_limit hfind hin]
        exact .stopped uid c.maxDepth (hmay (Roomy.not_full (mem_uids hfind) hin)) _
  | succ room ih =>
    obtain ⟨more, rfl⟩ := Nat.exists_eq_add_one_of_ne_zero (Nat.ne_zero_of_lt hroom)
    cases hfind : program.find? uid with
    | none =>
      rw [sourceExpression_missing hfind, sourceExpression_missing hfind]
      exact .throw (by rintro ⟨_, _, h⟩; cases h)
    | some source =>
      by_cases hin : uid ∈ chain
      · rw [sourceExpression_cycle hfind hin, sourceExpression_cycle hfind hin]
        exact .throw (by rintro ⟨_, _, h⟩; cases h)
      cases hlook : c.snippets.lookup? source with
      | none =>
        rw [sourceExpression_unknown hfind hin hlook,
          sourceExpression_unknown (c := c.withLimit limit) hfind hin hlook]
        exact .throw (by rintro ⟨_, _, h⟩; cases h)
      | some found =>
        obtain ⟨key, snippet⟩ := found
        cases hout : snippet.outputs[port]? with
        | none =>
          rw [sourceExpression_unlisted hfind hin hlook hout,
            sourceExpression_unlisted (c := c.withLimit limit) hfind hin hlook hout]
          exact .throw (by rintro ⟨_, _, h⟩; cases h)
        | some output =>
          rw [sourceExpression_found hfind hin hlook hout,
            sourceExpression_found (c := c.withLimit limit) hfind hin hlook hout]
          refine .bind (fun fs => Or.inr ⟨rfl, fun e he => by cases he⟩) fun _ => ?_
          refine .bind (keeps_inputExpressions source (fun i u p => ?_) 0 snippet.inputs) fun inputs => .pure _
          refine ih (Nat.le_of_succ_le_succ hroom) (fun hfull => hmay fun hold => hfull ?_) source i u p
          exact hold.cons (mem_uids hfind) hin

/-! ## Flows -/

theorem keeps_nodeStep (hlimit : c.maxDepth ≤ limit) (hmay : c.maxDepth < (uids program).length → may)
    (record : NodeRecord) :
    Collect.Keeps may (c.nodeStep program record) ((c.withLimit limit).nodeStep program record) := by
  have hfetch (index : Nat) (uid : String) (port : Nat) : Collect.Keeps may
      (c.sourceExpression program c.maxDepth [] record index uid port)
      ((c.withLimit limit).sourceExpression program limit [] record index uid port) := by
    refine keeps_sourceExpression hlimit (fun hfull => hmay (Nat.lt_of_not_le fun henough => hfull ?_)) _ _ _ _
    exact ⟨List.nodup_nil, fun _ h => (List.not_mem_nil h).elim, henough⟩
  unfold nodeStep
  rw [snippets_withLimit]
  cases c.snippets.lookup? record with
  | none => exact .throw (by rintro ⟨_, _, h⟩; cases h)
  | some found => exact .bind (keeps_inputExpressions record hfetch 0 found.2.inputs) fun inputs => .pure _

theorem keeps_splitStep (last : Option String) (count : Nat) :
    Collect.Keeps may (c.splitStep last count) ((c.withLimit limit).splitStep last count) := by
  unfold splitStep
  rw [snippets_withLimit]
  cases c.snippets.get? Program.splitIdentifier with
  | none => exact .throw (by rintro ⟨_, _, h⟩; cases h)
  | some snippet => exact .pure _

mutual

theorem keeps_entryStep
    (h : ∀ record, Collect.Keeps may (c.nodeStep program record) ((c.withLimit limit).nodeStep program record)) :
    (entry : Entry NodeRecord) → ∀ last : Option String,
      Collect.Keeps may (c.entryStep program last entry) ((c.withLimit limit).entryStep program last entry)
  | .node record, last => by
    rw [entryStep, entryStep]
    exact h record
  | .split count, last => by
    rw [entryStep, entryStep]
    exact keeps_splitStep last count
  | .branch branches, last => by
    rw [entryStep, entryStep]
    exact .bind (keeps_flowsSteps h branches last) fun chains => .pure _

theorem keeps_flowSteps
    (h : ∀ record, Collect.Keeps may (c.nodeStep program record) ((c.withLimit limit).nodeStep program record)) :
    (flow : Flow NodeRecord) → ∀ last : Option String,
      Collect.Keeps may (c.flowSteps program last flow) ((c.withLimit limit).flowSteps program last flow)
  | [], last => by
    rw [flowSteps, flowSteps]
    exact .pure _
  | entry :: rest, last => by
    rw [flowSteps_cons, flowSteps_cons]
    refine .bind (keeps_entryStep h entry last) fun step => ?_
    exact .bind (keeps_flowSteps h rest (lastAfter last entry)) fun steps => .pure _

theorem keeps_flowsSteps
    (h : ∀ record, Collect.Keeps may (c.nodeStep program record) ((c.withLimit limit).nodeStep program record)) :
    (flows : List (Flow NodeRecord)) → ∀ last : Option String,
      Collect.Keeps may (c.flowsSteps program last flows) ((c.withLimit limit).flowsSteps program last flows)
  | [], last => by
    rw [flowsSteps, flowsSteps]
    exact .pure _
  | flow :: rest, last => by
    rw [flowsSteps, flowsSteps]
    refine .bind (keeps_flowSteps h flow last) fun steps => ?_
    exact .bind (keeps_flowsSteps h rest last) fun others => .pure _

end

/-- A compilation is stopped by its limit only if there are more records than it allows, and goes the same way
under a higher limit otherwise. -/
theorem keeps_compile (may : Prop) (hlimit : c.maxDepth ≤ limit)
    (hmay : c.maxDepth < (uids program).length → may) :
    (may ∧ ∃ e : CompileError, e.IsLimit ∧ c.compile program = .error e) ∨
    (c.withLimit limit).compile program = c.compile program ∧
      ∀ e, c.compile program = .error e → ¬e.IsLimit := by
  unfold compile
  obtain ⟨hmay, e, he, hstop⟩ | ⟨hsame, hnone⟩ :=
      keeps_flowsSteps (keeps_nodeStep hlimit hmay) program.flows none []
  · rw [hstop]
    exact Or.inl ⟨hmay, e, he, rfl⟩
  · rw [hsame]
    refine Or.inr ⟨rfl, fun e he => hnone e ?_⟩
    cases hrun : (c.flowsSteps program none program.flows).run [] with
    | error d =>
      rw [hrun] at he
      exact congrArg Except.error (Except.error.inj he)
    | ok r =>
      rw [hrun] at he
      cases he

/-- Raising the limit changes nothing but that it stops less: what compiles still does, to the same script and
functions, and what fails for another reason fails for the same one. A limit as high as the number of
different uids stops nothing. -/
theorem compile_withLimit (c : Compiler) (program : Program) (limit : Nat) (hlimit : c.maxDepth ≤ limit) :
    (∀ r, c.compile program = .ok r → (c.withLimit limit).compile program = .ok r) ∧
      (∀ e, c.compile program = .error e → (∀ node depth, e ≠ .recursionLimit node depth) →
        (c.withLimit limit).compile program = .error e) ∧
      ((uids program).length ≤ c.maxDepth → ∀ node depth,
        c.compile program ≠ .error (.recursionLimit node depth)) := by
  refine ⟨fun r hr => ?_, fun e he hother => ?_, fun henough node depth hstop => ?_⟩
  · obtain ⟨-, e, -, hstop⟩ | ⟨hsame, -⟩ := keeps_compile True hlimit fun _ => trivial
    · rw [hr] at hstop
      cases hstop
    · exact hsame.trans hr
  · obtain ⟨-, d, ⟨node, depth, rfl⟩, hstop⟩ | ⟨hsame, -⟩ := keeps_compile True hlimit fun _ => trivial
    · rw [he] at hstop
      exact (hother node depth (Except.error.inj hstop)).elim
    · exact hsame.trans he
  · obtain ⟨hnone, -⟩ | ⟨-, hnone⟩ :=
      keeps_compile False hlimit fun hless => Nat.not_lt.2 henough hless
    · exact hnone
    · exact hnone _ hstop ⟨node, depth, rfl⟩

/-- Three sums in a row, the first of them logged; the last may be fed by one more node. -/
def sums (last : Option String) : Program where
  flows := [[.node ⟨"start", "OpenVS-Base-Event-Start", "StartEventNode", 0.0, 0.0, 1.0, none,
      [[⟨"c0", "log", 0⟩]], [], []⟩,
    .node ⟨"log", "OpenVS-Base-Console-Log", "ConsoleLogNode", 0.0, 0.0, 1.0, none, [[]], [],
      [⟨some "first", some 0, .any, false, none⟩]⟩]]
  additional := [sum "first" "second", sum "second" "third",
    { sum "third" "" with inputs := [⟨none, none, .num, true, some (.int 1)⟩, ⟨last, some 0, .num, true, none⟩] }]
  variableTypes := .empty
where
  sum (uid source : String) : NodeRecord :=
    ⟨uid, "OpenVS-Base-Basic-Add", "AdditionNode", 0.0, 0.0, 1.0, none, [], [],
      [⟨none, none, .num, true, some (.int 1)⟩, ⟨some source, some 0, .num, true, none⟩]⟩

theorem compile_withLimit_sums : 3 ≤ 64 ∧
    (∃ r, (standard.withLimit 3).compile (sums none) = .ok r ∧
      (standard.withLimit 64).compile (sums none) = .ok r) ∧
    (standard.withLimit 3).compile (sums (some "first")) = .error (.dataCycle "first") ∧
    (standard.withLimit 64).compile (sums (some "first")) = .error (.dataCycle "first") ∧
    (uids (sums (some "first"))).length ≤ 5 ∧
    ∀ node depth, (standard.withLimit 5).compile (sums (some "first")) ≠ .error (.recursionLimit node depth) := by
  have hrow := compile_withLimit (standard.withLimit 3) (sums none) 64 (by decide)
  have hring := compile_withLimit (standard.withLimit 3) (sums (some "first")) 64 (by decide)
  have hroomy := compile_withLimit (standard.withLimit 5) (sums (some "first")) 64 (by decide)
  have hok : (standard.withLimit 3).compile (sums none) =
      .ok ⟨"(function() \x7bconsole.log((1 + (1 + (1 + undefined))));\x7d)()", []⟩ := by decide +kernel
  have hcycle : (standard.withLimit 3).compile (sums (some "first")) = .error (.dataCycle "first") := by
    decide +kernel
  have huids : (uids (sums (some "first"))).length ≤ 5 := by decide
  exact ⟨by decide, ⟨_, hok, hrow.1 _ hok⟩, hcycle, hring.2.1 _ hcycle (by simp), huids, hroomy.2.2 huids⟩

/-- The same row is too long for a limit of two. -/
example : (standard.withLimit 2).compile (sums none) = .error (.recursionLimit "third" 2) := by decide +kernel

end FlowGraph.Script.Compiler

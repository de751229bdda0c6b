import FlowGraph.Proofs.Script.Resolution
import Mathlib.Logic.Relation

/-! # Programs that can be compiled

A program compiles when each of its entries, at whatever depth, finds its snippet, and each declared
input of its nodes can be resolved. When it does not compile, the error names a defect of an entry, or
of a source that feeds one.
-/

namespace FlowGraph.Script.Compiler
set_option autoImplicit false

/-! ## Entries at any depth -/

/-- The entry stands in the flow or in a branch of it, right after the node `last`; the flow itself
starts after the node `start`. -/
inductive Stands (entry : Entry NodeRecord) (last : Option String) :
    (start : Option String) → Flow NodeRecord → Prop
  | here {rest : Flow NodeRecord} : Stands entry last last (entry :: rest)
  | later {start : Option String} {first : Entry NodeRecord} {rest : Flow NodeRecord}
    (h : Stands entry last (lastAfter start first) rest) : Stands entry last start (first :: rest)
  | inside {start : Option String} {branches : List (Flow NodeRecord)} {branch rest : Flow NodeRecord}
    (hb : branch ∈ branches) (h : Stands entry last start branch) :
    Stands entry last start (.branch branches :: rest)

namespace Stands
variable {entry first : Entry NodeRecord} {last start : Option String} {rest : Flow NodeRecord}
  {branches : List (Flow NodeRecord)}

theorem not_nil : ¬Stands entry last start [] := by
  intro h
  cases h

theorem cons_iff : Stands entry last start (first :: rest) ↔
    Stands entry last start [first] ∨ Stands entry last (lastAfter start first) rest := by
  constructor
  · intro h
    cases h with
    | here => exact Or.inl .here
    | later h => exact Or.inr h
    | inside hb h => exact Or.inl (.inside hb h)
  · rintro (h | h)
    · cases h with
      | here => exact .here
      | later h => exact (not_nil h).elim
      | inside hb h => exact .inside hb h
    · exact .later h

theorem singleton_iff (hfirst : first.isBranch = false) :
    Stands entry last start [first] ↔ entry = first ∧ last = start := by
  constructor
  · intro h
    cases h with
    | here => exact ⟨rfl, rfl⟩
    | later h => exact (not_nil h).elim
    | inside hb h => cases hfirst
  · rintro ⟨rfl, rfl⟩
    exact .here

theorem branch_iff : Stands entry last start [.branch branches] ↔
    (entry = .branch branches ∧ last = start) ∨ ∃ branch ∈ branches, Stands entry last start branch := by
  constructor
  · intro h
    cases h with
    | here => exact Or.inl ⟨rfl, rfl⟩
    | later h => exact (not_nil h).elim
    | inside hb h => exact Or.inr ⟨_, hb, h⟩
  · rintro (⟨rfl, rfl⟩ | ⟨branch, hb, h⟩)
    · exact .here
    · exact .inside hb h

end Stands

/-- The entry is found somewhere in the flows of the program, right after the node `last`. -/
def Occurs (program : Program) (last : Option String) (entry : Entry NodeRecord) : Prop :=
  ∃ flow ∈ program.flows, Stands entry last none flow

/-! ## Well-formed programs -/

/-- The entry finds its snippet, and its inputs can be resolved. -/
def EntryOk (c : Compiler) (program : Program) : Entry NodeRecord → Prop
  | .node record => ∃ key snippet, c.snippets.lookup? record = some (key, snippet) ∧
      ∀ i, i < snippet.inputs.length → Resolvable c program [] record i
  | .split _ => (c.snippets.get? Program.splitIdentifier).isSome
  | .branch _ => True

/-- Every entry of the program can be compiled. -/
def WellFormed (c : Compiler) (program : Program) : Prop :=
  ∀ last entry, Occurs program last entry → EntryOk c program entry

section
variable {c : Compiler} {program : Program} {fs : Functions} {e : CompileError}

theorem nodeStep_ok_iff (record : NodeRecord) (fs : Functions) :
    (∃ r, (c.nodeStep program record).run fs = .ok r) ↔ EntryOk c program (.node record) := by
  have hinputs (snippet : Snippet) := inputExpressions_ok_iff (c := c) (Resolvable c program [] record)
    (inputExpression_ok_iff (fun index uid port fs => sourceExpression_ok_iff c.maxDepth []
      rfl record index uid port fs) record) snippet.inputs 0 fs
  simp only [Nat.zero_add] at hinputs
  unfold nodeStep
  cases hlook : c.snippets.lookup? record with
  | none =>
    refine throw_ok_iff ?_
    rintro ⟨key, snippet, hlook', -⟩
    rw [hlook] at hlook'
    cases hlook'
  | some found =>
    obtain ⟨key, snippet⟩ := found
    constructor
    · rintro ⟨r, hr⟩
      obtain ⟨inputs, gs, hrun, -⟩ := Collect.run_bind_eq_ok.1 hr
      exact ⟨key, snippet, hlook, (hinputs snippet).1 ⟨_, hrun⟩⟩
    · rintro ⟨key', snippet', hlook', hin⟩
      rw [hlook] at hlook'
      cases hlook'
      obtain ⟨⟨inputs, gs⟩, hrun⟩ := (hinputs snippet).2 hin
      exact ⟨_, Collect.run_bind_eq_ok.2 ⟨inputs, gs, hrun, rfl⟩⟩

theorem splitStep_ok_iff (program : Program) (last : Option String) (count : Nat) (fs : Functions) :
    (∃ r, (c.splitStep last count).run fs = .ok r) ↔ EntryOk c program (.split count) := by
  unfold splitStep EntryOk
  cases c.snippets.get? Program.splitIdentifier with
  | none => exact throw_ok_iff Bool.false_ne_true
  | some snippet => exact ⟨fun _ => rfl, fun _ => ⟨_, rfl⟩⟩

mutual

theorem entryStep_ok_iff : (entry : Entry NodeRecord) → ∀ (start : Option String) (fs : Functions),
    (∃ r, (c.entryStep program start entry).run fs = .ok r) ↔
      ∀ last entry', Stands entry' last start [entry] → EntryOk c program entry'
  | .node record, start, fs => by
    have honly (last : Option String) (entry : Entry NodeRecord) :
        Stands entry last start [.node record] ↔ entry = .node record ∧ last = start :=
      Stands.singleton_iff rfl
    rw [entryStep, nodeStep_ok_iff]
    simp [honly]
  | .split count, start, fs => by
    have honly (last : Option String) (entry : Entry NodeRecord) :
        Stands entry last start [.split count] ↔ entry = .split count ∧ last = start :=
      Stands.singleton_iff rfl
    rw [entryStep, splitStep_ok_iff program]
    simp [honly]
  | .branch branches, start, fs => by
    have hbranches := flowsSteps_ok_iff branches start fs
    have hrun : (∃ r, (c.entryStep program start (.branch branches)).run fs = .ok r) ↔
        ∃ r, (c.flowsSteps program start branches).run fs = .ok r := by
      rw [entryStep]
      constructor
      · rintro ⟨r, hr⟩
        obtain ⟨chains, gs, hchains, -⟩ := Collect.run_bind_eq_ok.1 hr
        exact ⟨_, hchains⟩
      · rintro ⟨⟨chains, gs⟩, hchains⟩
        exact ⟨_, Collect.run_bind_eq_ok.2 ⟨chains, gs, hchains, rfl⟩⟩
    rw [hrun, hbranches]
    constructor
    · intro h last entry' hs
      obtain ⟨rfl, -⟩ | ⟨branch, hb, hs⟩ := Stands.branch_iff.1 hs
      · trivial
      · exact h branch hb last entry' hs
    · intro h branch hb last entry' hs
      exact h last entry' (Stands.branch_iff.2 (Or.inr ⟨branch, hb, hs⟩))

theorem flowSteps_ok_iff : (flow : Flow NodeRecord) → ∀ (start : Option String) (fs : Functions),
    (∃ r, (c.flowSteps program start flow).run fs = .ok r) ↔
      ∀ last entry, Stands entry last start flow → EntryOk c program entry
  | [], start, fs => by
    refine iff_of_true ⟨([], fs), by rw [flowSteps]; rfl⟩ fun last entry hs => ?_
    exact (Stands.not_nil hs).elim
  | first :: rest, start, fs => by
    have hfirst := entryStep_ok_iff first start fs
    have hrest := flowSteps_ok_iff rest (lastAfter start first)
    rw [flowSteps_cons]
    constructor
    · rintro ⟨r, hr⟩ last entry hs
      obtain ⟨step, gs, hstep, hr⟩ := Collect.run_bind_eq_ok.1 hr
      obtain ⟨steps, hs', hsteps, -⟩ := Collect.run_bind_eq_ok.1 hr
      obtain hs | hs := Stands.cons_iff.1 hs
      · exact hfirst.1 ⟨_, hstep⟩ last entry hs
      · exact (hrest gs).1 ⟨_, hsteps⟩ last entry hs
    · intro h
      obtain ⟨⟨step, gs⟩, hstep⟩ := hfirst.2 fun last entry hs =>
        h last entry (Stands.cons_iff.2 (Or.inl hs))
      obtain ⟨⟨steps, hs⟩, hsteps⟩ := (hrest gs).2 fun last entry hs =>
        h last entry (Stands.cons_iff.2 (Or.inr hs))
      exact ⟨_, Collect.run_bind_eq_ok.2 ⟨step, gs, hstep,
        Collect.run_bind_eq_ok.2 ⟨steps, hs, hsteps, rfl⟩⟩⟩

theorem flowsSteps_ok_iff : (flows : List (Flow NodeRecord)) →
    ∀ (start : Option String) (fs : Functions),
      (∃ r, (c.flowsSteps program start flows).run fs = .ok r) ↔
        ∀ flow ∈ flows, ∀ last entry, Stands entry last start flow → EntryOk c program entry
  | [], start, fs => by
    refine iff_of_true ⟨([], fs), by rw [flowsSteps]; rfl⟩ fun flow hflow => ?_
    cases hflow
  | flow :: rest, start, fs => by
    have hfirst := flowSteps_ok_iff flow start fs
    have hrest := flowsSteps_ok_iff rest start
    rw [flowsSteps, List.forall_mem_cons]
    constructor
    · rintro ⟨r, hr⟩
      obtain ⟨chain, gs, hchain, hr⟩ := Collect.run_bind_eq_ok.1 hr
      obtain ⟨chains, hs, hchains, -⟩ := Collect.run_bind_eq_ok.1 hr
      exact ⟨hfirst.1 ⟨_, hchain⟩, (hrest gs).1 ⟨_, hchains⟩⟩
    · rintro ⟨hflow, hothers⟩
      obtain ⟨⟨chain, gs⟩, hchain⟩ := hfirst.2 hflow
      obtain ⟨⟨chains, hs⟩, hchains⟩ := (hrest gs).2 hothers
      exact ⟨_, Collect.run_bind_eq_ok.2 ⟨chain, gs, hchain,
        Collect.run_bind_eq_ok.2 ⟨chains, hs, hchains, rfl⟩⟩⟩

end

end

/-! ## Defects -/

section
variable (c : Compiler) (program : Program)

/-- The record has an input that its snippet declares. -/
def Declares (record : NodeRecord) (index : Nat) (input : InputRecord) : Prop :=
  ∃ key snippet, c.snippets.lookup? record = some (key, snippet) ∧ index < snippet.inputs.length ∧
    record.inputs[index]? = some input

/-- A declared input of the consumer is fed by the source. -/
def Feeds (source consumer : NodeRecord) : Prop :=
  ∃ index input uid port, Declares c consumer index input ∧ input.source = some uid ∧
    input.port = some port ∧ program.find? uid = some source

/-- The sources in `chain`, the last one first, feed each other in a row, from the record back to a
node of a flow, and none of them twice. -/
inductive Trail : (chain : List String) → NodeRecord → Prop
  | start {last : Option String} {record : NodeRecord} (h : Occurs program last (.node record)) :
    Trail [] record
  | source {chain : List String} {consumer source : NodeRecord} {index port : Nat} {input : InputRecord}
    {uid : String} (h : Trail chain consumer) (hd : Declares c consumer index input)
    (hs : input.source = some uid) (hp : input.port = some port)
    (hfind : program.find? uid = some source) (hnew : uid ∉ chain) : Trail (uid :: chain) source

/-- The record runs in a flow, or feeds one that does, directly or through others. -/
def Used (record : NodeRecord) : Prop := ∃ chain, Trail c program chain record

/-- What an error says of the program. -/
def Defect : CompileError → Prop
  | .unknownIdentifier node identifier =>
    (∃ record, Used c program record ∧ record.uid = node ∧ record.identifier = identifier ∧
        c.snippets.lookup? record = none) ∨
      ∃ last count, Occurs program last (.split count) ∧ node = last.getD "" ∧
        identifier = Program.splitIdentifier ∧ c.snippets.get? Program.splitIdentifier = none
  | .missingSource node index source => ∃ record input, Used c program record ∧ record.uid = node ∧
      Declares c record index input ∧ input.source = some source ∧ program.find? source = none
  | .missingOutput node port => ∃ consumer source index input key snippet, Used c program consumer ∧
      Declares c consumer index input ∧ input.source = some node ∧ input.port = some port ∧
        program.find? node = some source ∧ c.snippets.lookup? source = some (key, snippet) ∧
          snippet.outputs.length ≤ port
  | .dataCycle node => ∃ record, Used c program record ∧ program.find? node = some record ∧
      Relation.TransGen (Feeds c program) record record
  | .recursionLimit node limit => ∃ chain consumer source, limit = c.maxDepth ∧
      Trail c program chain consumer ∧ chain.length = c.maxDepth ∧ Feeds c program source consumer ∧
        program.find? node = some source ∧ node ∉ chain
  | .invalidInput node index reason => ∃ record input, Used c program record ∧ record.uid = node ∧
      Declares c record index input ∧
        ((∃ source, input.source = some source ∧ input.port = none ∧
            reason = "connected to '" ++ source ++ "' without a source port") ∨
          ∃ value, input.source = none ∧ input.value = some value ∧
            c.formatter.format value input.type = .error reason)
  | .invalidProgram => False

end

section
variable {c : Compiler} {program : Program} {fs : Functions} {e : CompileError}

theorem feeds_of_trail {chain : List String} {record : NodeRecord} (h : Trail c program chain record)
    {uid : String} (hin : uid ∈ chain) : ∃ source, program.find? uid = some source ∧
      Used c program source ∧ Relation.ReflTransGen (Feeds c program) record source := by
  induction h with
  | start h => cases hin
  | source h hd hs hp hfind hnew ih =>
    obtain rfl | hin := List.mem_cons.1 hin
    · exact ⟨_, hfind, ⟨_, .source h hd hs hp hfind hnew⟩, .refl⟩
    · obtain ⟨source, hsource, hused, hfeeds⟩ := ih hin
      exact ⟨source, hsource, hused, .head ⟨_, _, _, _, hd, hs, hp, hfind⟩ hfeeds⟩

theorem find?_uid {uid : String} {record : NodeRecord} (h : program.find? uid = some record) :
    record.uid = uid := by
  have hfound : program.records.find? (fun r => r.uid == uid) = some record := h
  have hsame := List.find?_some hfound
  exact eq_of_beq hsame

/-- What is wrong with an input is an error of its own, or comes from its source. -/
theorem inputExpression_error {fetch : Fetch} {record : NodeRecord} {index : Nat}
    (h : (c.inputExpression fetch record index).run fs = .error e) :
    ∃ input, record.inputs[index]? = some input ∧
      ((∃ uid, input.source = some uid ∧ input.port = none ∧ e = .invalidInput record.uid index
          ("connected to '" ++ uid ++ "' without a source port")) ∨
        (∃ value reason, input.source = none ∧ input.value = some value ∧
          c.formatter.format value input.type = .error reason ∧
            e = .invalidInput record.uid index reason) ∨
          ∃ uid port, input.source = some uid ∧ input.port = some port ∧
            (fetch index uid port).run fs = .error e) := by
  cases hin : record.inputs[index]? with
  | none =>
    rw [inputExpression_absent hin] at h
    cases h
  | some input =>
    refine ⟨input, rfl, ?_⟩
    cases hs : input.source with
    | none =>
      cases hv : input.value with
      | none =>
        rw [inputExpression_unset hin hs hv] at h
        cases h
      | some value =>
        cases hf : c.formatter.format value input.type with
        | ok text =>
          rw [inputExpression_constant hin hs hv hf] at h
          cases h
        | error reason =>
          rw [inputExpression_refused hin hs hv hf] at h
          cases h
          exact Or.inr (Or.inl ⟨value, reason, rfl, rfl, hf, rfl⟩)
    | some uid =>
      cases hp : input.port with
      | none =>
        rw [inputExpression_portless hin hs hp] at h
        cases h
        exact Or.inl ⟨uid, rfl, rfl, rfl⟩
      | some port =>
        rw [inputExpression_source hin hs hp] at h
        exact Or.inr (Or.inr ⟨uid, port, rfl, rfl, h⟩)

theorem defect_of_inputs {chain : List String} {record : NodeRecord} {fetch : Fetch} {key : String}
    {snippet : Snippet} (htrail : Trail c program chain record)
    (hlook : c.snippets.lookup? record = some (key, snippet))
    (hfetch : ∀ index input uid port fs, Declares c record index input → input.source = some uid →
      input.port = some port → (fetch index uid port).run fs = .error e → Defect c program e)
    (h : (c.inputExpressions fetch record 0 snippet.inputs).run fs = .error e) : Defect c program e := by
  obtain ⟨i, gs, hi, hrun⟩ := inputExpressions_error h
  rw [Nat.zero_add] at hrun
  obtain ⟨input, hin, hcase⟩ := inputExpression_error hrun
  have hdeclares : Declares c record i input := ⟨key, snippet, hlook, hi, hin⟩
  obtain ⟨uid, hs, hp, rfl⟩ | ⟨value, reason, hs, hv, hf, rfl⟩ | ⟨uid, port, hs, hp, hrun⟩ := hcase
  · exact ⟨record, input, ⟨chain, htrail⟩, rfl, hdeclares, Or.inl ⟨uid, hs, hp, rfl⟩⟩
  · exact ⟨record, input, ⟨chain, htrail⟩, rfl, hdeclares, Or.inr ⟨value, hs, hv, hf⟩⟩
  · exact hfetch i input uid port gs hdeclares hs hp hrun

/-- A source that is on the trail already depends on itself. -/
theorem defect_of_cycle {chain : List String} {consumer source : NodeRecord} {index port : Nat}
    {input : InputRecord} {uid : String} (htrail : Trail c program chain consumer)
    (hd : Declares c consumer index input) (hs : input.source = some uid) (hp : input.port = some port)
    (hfind : program.find? uid = some source) (hin : uid ∈ chain) :
    Defect c program (.dataCycle uid) := by
  obtain ⟨source', hsource, hused, hfeeds⟩ := feeds_of_trail htrail hin
  rw [hfind] at hsource
  cases hsource
  have hfeed : Feeds c program source consumer := ⟨index, input, uid, port, hd, hs, hp, hfind⟩
  exact ⟨source, hused, hfind, .head' hfeed hfeeds⟩

/-- A source of a used record is refused only for a defect. -/
theorem defect_of_source (room : Nat) {chain : List String} {consumer : NodeRecord} {index port : Nat}
    {input : InputRecord} {uid : String} (hroom : room + chain.length = c.maxDepth)
    (htrail : Trail c program chain consumer) (hd : Declares c consumer index input)
    (hs : input.source = some uid) (hp : input.port = some port)
    (h : (c.sourceExpression program room chain consumer index uid port).run fs = .error e) :
    Defect c program e := by
  induction room generalizing chain consumer index port input uid fs with
  | zero =>
    cases hfind : program.find? uid with
    | none =>
      rw [sourceExpression_missing hfind] at h
      cases h
      exact ⟨consumer, input, ⟨chain, htrail⟩, rfl, hd, hs, hfind⟩
    | some source =>
      by_cases hin : uid ∈ chain
      · rw [sourceExpression_cycle hfind hin] at h
        cases h
        exact defect_of_cycle htrail hd hs hp hfind hin
      · rw [sourceExpression_limit hfind hin] at h
        cases h
        have hlength : chain.length = c.maxDepth := by omega
        exact ⟨chain, consumer, source, rfl, htrail, hlength,
          ⟨index, input, uid, port, hd, hs, hp, hfind⟩, hfind, hin⟩
  | succ room ih =>
    cases hfind : program.find? uid with
    | none =>
      rw [sourceExpression_missing hfind] at h
      cases h
      exact ⟨consumer, input, ⟨chain, htrail⟩, rfl, hd, hs, hfind⟩
    | some source =>
      by_cases hin : uid ∈ chain
      · rw [sourceExpression_cycle hfind hin] at h
        cases h
        exact defect_of_cycle htrail hd hs hp hfind hin
      have hnext : Trail c program (uid :: chain) source := .source htrail hd hs hp hfind hin
      cases hlook : c.snippets.lookup? source with
      | none =>
        rw [sourceExpression_unknown hfind hin hlook] at h
        cases h
        exact Or.inl ⟨source, ⟨_, hnext⟩, rfl, rfl, hlook⟩
      | some found =>
        obtain ⟨key, snippet⟩ := found
        cases hout : snippet.outputs[port]? with
        | none =>
          rw [sourceExpression_unlisted hfind hin hlook hout] at h
          cases h
          rw [find?_uid hfind]
          exact ⟨consumer, source, index, input, key, snippet, ⟨chain, htrail⟩, hd, hs, hp, hfind, hlook,
            List.getElem?_eq_none_iff.1 hout⟩
        | some output =>
          rw [sourceExpression_found hfind hin hlook hout] at h
          obtain h | ⟨-, gs, -, h⟩ := Collect.run_bind_eq_error.1 h
          · cases h
          obtain h | ⟨inputs, hs', -, h⟩ := Collect.run_bind_eq_error.1 h
          · refine defect_of_inputs hnext hlook (fun index input uid' port fs hd hs hp h => ?_) h
            exact ih (by rw [List.length_cons]; omega) hnext hd hs hp h
          · cases h

theorem defect_of_node {last : Option String} {record : NodeRecord}
    (hoccurs : Occurs program last (.node record))
    (h : (c.nodeStep program record).run fs = .error e) : Defect c program e := by
  have htrail : Trail c program [] record := .start hoccurs
  unfold nodeStep at h
  cases hlook : c.snippets.lookup? record with
  | none =>
    rw [hlook] at h
    cases h
    exact Or.inl ⟨record, ⟨[], htrail⟩, rfl, rfl, hlook⟩
  | some found =>
    obtain ⟨key, snippet⟩ := found
    rw [hlook] at h
    obtain h | ⟨inputs, gs, -, h⟩ := Collect.run_bind_eq_error.1 h
    · refine defect_of_inputs htrail hlook (fun index input uid port fs hd hs hp h => ?_) h
      exact defect_of_source c.maxDepth rfl htrail hd hs hp h
    · cases h

theorem defect_of_split {last : Option String} {count : Nat}
    (hoccurs : Occurs program last (.split count))
    (h : (c.splitStep last count).run fs = .error e) : Defect c program e := by
  unfold splitStep at h
  cases hget : c.snippets.get? Program.splitIdentifier with
  | none =>
    rw [hget] at h
    cases h
    exact Or.inr ⟨last, count, hoccurs, rfl, rfl, hget⟩
  | some snippet =>
    rw [hget] at h
    cases h

mutual

/-- What is wrong with an entry is wrong with one that stands in it and is no branch. -/
theorem entryStep_error : (entry : Entry NodeRecord) → ∀ {start : Option String} {fs : Functions},
    (c.entryStep program start entry).run fs = .error e →
      ∃ last entry' gs, Stands entry' last start [entry] ∧ entry'.isBranch = false ∧
        (c.entryStep program last entry').run gs = .error e
  | .node record, start, fs, h => ⟨start, .node record, fs, .here, rfl, h⟩
  | .split count, start, fs, h => ⟨start, .split count, fs, .here, rfl, h⟩
  | .branch branches, start, fs, h => by
    rw [entryStep] at h
    obtain h | ⟨chains, gs, -, h⟩ := Collect.run_bind_eq_error.1 h
    · obtain ⟨flow, hflow, last, entry', gs, hs, hno, hrun⟩ := flowsSteps_error branches h
      exact ⟨last, entry', gs, .inside hflow hs, hno, hrun⟩
    · cases h

theorem flowSteps_error : (flow : Flow NodeRecord) → ∀ {start : Option String} {fs : Functions},
    (c.flowSteps program start flow).run fs = .error e →
      ∃ last entry gs, Stands entry last start flow ∧ entry.isBranch = false ∧
        (c.entryStep program last entry).run gs = .error e
  | [], start, fs, h => by
    rw [flowSteps] at h
    cases h
  | first :: rest, start, fs, h => by
    rw [flowSteps_cons] at h
    obtain h | ⟨step, gs, -, h⟩ := Collect.run_bind_eq_error.1 h
    · obtain ⟨last, entry, gs, hs, hno, hrun⟩ := entryStep_error first h
      exact ⟨last, entry, gs, Stands.cons_iff.2 (Or.inl hs), hno, hrun⟩
    obtain h | ⟨steps, gs, -, h⟩ := Collect.run_bind_eq_error.1 h
    · obtain ⟨last, entry, gs, hs, hno, hrun⟩ := flowSteps_error rest h
      exact ⟨last, entry, gs, .later hs, hno, hrun⟩
    · cases h

theorem flowsSteps_error : (flows : List (Flow NodeRecord)) →
    ∀ {start : Option String} {fs : Functions}, (c.flowsSteps program start flows).run fs = .error e →
      ∃ flow ∈ flows, ∃ last entry gs, Stands entry last start flow ∧ entry.isBranch = false ∧
        (c.entryStep program last entry).run gs = .error e
  | [], start, fs, h => by
    rw [flowsSteps] at h
    cases h
  | flow :: rest, start, fs, h => by
    rw [flowsSteps] at h
    obtain h | ⟨chain, gs, -, h⟩ := Collect.run_bind_eq_error.1 h
    · obtain ⟨last, entry, gs, hs, hno, hrun⟩ := flowSteps_error flow h
      exact ⟨flow, List.mem_cons_self, last, entry, gs, hs, hno, hrun⟩
    obtain h | ⟨chains, gs, -, h⟩ := Collect.run_bind_eq_error.1 h
    · obtain ⟨flow', hflow, hrest⟩ := flowsSteps_error rest h
      exact ⟨flow', List.mem_cons_of_mem _ hflow, hrest⟩
    · cases h

end

theorem compile_cases : (∃ r, c.compile program = .ok r) ↔
    ∃ r, (c.flowsSteps program none program.flows).run [] = .ok r := by
  unfold compile
  cases (c.flowsSteps program none program.flows).run [] with
  | ok r => exact ⟨fun _ => ⟨r, rfl⟩, fun _ => ⟨_, rfl⟩⟩
  | error e =>
    refine iff_of_false ?_ ?_ <;>
    · rintro ⟨r, hr⟩
      cases hr

end

/-- A program compiles exactly when it is well formed, and an error names a defect that it has. -/
theorem compile_ok_iff_wellFormed (c : Compiler) (program : Program) :
    ((∃ r, c.compile program = .ok r) ↔ WellFormed c program) ∧
      ∀ e, c.compile program = .error e → Defect c program e := by
  constructor
  · rw [compile_cases, flowsSteps_ok_iff]
    constructor
    · rintro h last entry ⟨flow, hflow, hs⟩
      exact h flow hflow last entry hs
    · intro h flow hflow last entry hs
      exact h last entry ⟨flow, hflow, hs⟩
  · intro e h
    unfold compile at h
    cases hrun : (c.flowsSteps program none program.flows).run [] with
    | ok r =>
      rw [hrun] at h
      cases h
    | error e' =>
      rw [hrun] at h
      cases h
      obtain ⟨flow, hflow, last, entry, gs, hs, hno, hstep⟩ := flowsSteps_error program.flows hrun
      have hoccurs : Occurs program last entry := ⟨flow, hflow, hs⟩
      cases entry with
      | node record => exact defect_of_node hoccurs (by rw [entryStep] at hstep; exact hstep)
      | split count => exact defect_of_split hoccurs (by rw [entryStep] at hstep; exact hstep)
      | branch branches => cases hno

end FlowGraph.Script.Compiler

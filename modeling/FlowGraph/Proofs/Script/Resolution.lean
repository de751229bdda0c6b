import FlowGraph.Proofs.Script.Rendering

/-! # Inputs that can be resolved

An input is resolved along the data edges, back to constants. `Resolvable` says when this comes to an
end, without a word about how it is done, and `Trail` says which records are met on the way. The
compiler resolves exactly the resolvable inputs, and what it finds wrong with another one is really
there.
-/

namespace FlowGraph.Script.Compiler
set_option autoImplicit false

/-! ## What can be resolved -/

section
variable (c : Compiler) (program : Program)

/-- Input `index` of a record can be resolved while the sources in `chain` are being resolved. -/
inductive Resolvable : (chain : List String) → (record : NodeRecord) → (index : Nat) → Prop
  | absent {chain : List String} {record : NodeRecord} {index : Nat}
    (h : record.inputs[index]? = none) : Resolvable chain record index
  | unset {chain : List String} {record : NodeRecord} {index : Nat} {input : InputRecord}
    (h : record.inputs[index]? = some input) (hs : input.source = none) (hv : input.value = none) :
    Resolvable chain record index
  | constant {chain : List String} {record : NodeRecord} {index : Nat} {input : InputRecord}
    {value : Literal} {text : String} (h : record.inputs[index]? = some input)
    (hs : input.source = none) (hv : input.value = some value)
    (hf : c.formatter.format value input.type = .ok text) : Resolvable chain record index
  | source {chain : List String} {record source : NodeRecord} {index port : Nat} {input : InputRecord}
    {uid key : String} {snippet : Snippet} (h : record.inputs[index]? = some input)
    (hs : input.source = some uid) (hp : input.port = some port)
    (hfind : program.find? uid = some source) (hnew : uid ∉ chain) (hroom : chain.length < c.maxDepth)
    (hlook : c.snippets.lookup? source = some (key, snippet)) (hout : port < snippet.outputs.length)
    (hin : ∀ i, i < snippet.inputs.length → Resolvable (uid :: chain) source i) :
    Resolvable chain record index

end

variable {c : Compiler} {program : Program} {fetch : Fetch} {record : NodeRecord} {index : Nat}
  {input : InputRecord} {fs gs : Functions} {e : CompileError}

/-! ## One input -/

theorem inputExpression_absent (h : record.inputs[index]? = none) :
    c.inputExpression fetch record index = pure c.formatter.missing := by
  rw [inputExpression, h]

theorem inputExpression_unset (h : record.inputs[index]? = some input) (hs : input.source = none)
    (hv : input.value = none) :
    c.inputExpression fetch record index = pure c.formatter.missing := by
  rw [inputExpression, h]
  simp only [hs, hv]

theorem inputExpression_constant {value : Literal} {text : String}
    (h : record.inputs[index]? = some input) (hs : input.source = none) (hv : input.value = some value)
    (hf : c.formatter.format value input.type = .ok text) :
    c.inputExpression fetch record index = pure text := by
  rw [inputExpression, h]
  simp only [hs, hv, hf]

theorem inputExpression_refused {value : Literal} {reason : String}
    (h : record.inputs[index]? = some input) (hs : input.source = none) (hv : input.value = some value)
    (hf : c.formatter.format value input.type = .error reason) :
    c.inputExpression fetch record index = throw (.invalidInput record.uid index reason) := by
  rw [inputExpression, h]
  simp only [hs, hv, hf]

theorem inputExpression_source {uid : String} {port : Nat} (h : record.inputs[index]? = some input)
    (hs : input.source = some uid) (hp : input.port = some port) :
    c.inputExpression fetch record index = fetch index uid port := by
  rw [inputExpression, h]
  simp only [hs, hp]

theorem inputExpression_portless {uid : String} (h : record.inputs[index]? = some input)
    (hs : input.source = some uid) (hp : input.port = none) :
    c.inputExpression fetch record index = throw (.invalidInput record.uid index
      ("connected to '" ++ uid ++ "' without a source port")) := by
  rw [inputExpression, h]
  simp only [hs, hp]

/-! ## All inputs of a record -/

theorem inputExpressions_ok_iff (P : Nat → Prop)
    (h : ∀ i fs, (∃ r, (c.inputExpression fetch record i).run fs = .ok r) ↔ P i)
    (names : List String) (index : Nat) (fs : Functions) :
    (∃ r, (c.inputExpressions fetch record index names).run fs = .ok r) ↔
      ∀ i, i < names.length → P (index + i) := by
  induction names generalizing index fs with
  | nil =>
    refine ⟨fun _ i hi => absurd hi (Nat.not_lt_zero i), fun _ => ⟨([], fs), rfl⟩⟩
  | cons name names ih =>
    rw [inputExpressions]
    constructor
    · rintro ⟨r, hr⟩ i hi
      obtain ⟨text, gs, htext, hr⟩ := Collect.run_bind_eq_ok.1 hr
      obtain ⟨rest, hs, hrest, -⟩ := Collect.run_bind_eq_ok.1 hr
      cases i with
      | zero => exact (h index fs).1 ⟨_, htext⟩
      | succ i =>
        have hnext := (ih (index + 1) gs).1 ⟨_, hrest⟩ i (Nat.lt_of_succ_lt_succ hi)
        rw [Nat.add_right_comm, Nat.add_assoc] at hnext
        exact hnext
    · intro hP
      obtain ⟨⟨text, gs⟩, htext⟩ := (h index fs).2 (hP 0 (Nat.succ_pos _))
      have hnext (i : Nat) (hi : i < names.length) : P (index + 1 + i) := by
        have hi' := hP (i + 1) (Nat.succ_lt_succ hi)
        rw [Nat.add_right_comm, Nat.add_assoc]
        exact hi'
      obtain ⟨⟨rest, hs⟩, hrest⟩ := (ih (index + 1) gs).2 hnext
      refine ⟨((name, text) :: rest, hs), ?_⟩
      exact Collect.run_bind_eq_ok.2 ⟨text, gs, htext, Collect.run_bind_eq_ok.2 ⟨rest, hs, hrest, rfl⟩⟩

/-- What is wrong with the inputs of a record is wrong with one of them. -/
theorem inputExpressions_error {names : List String}
    (h : (c.inputExpressions fetch record index names).run fs = .error e) :
    ∃ i gs, i < names.length ∧ (c.inputExpression fetch record (index + i)).run gs = .error e := by
  induction names generalizing index fs with
  | nil => cases h
  | cons name names ih =>
    rw [inputExpressions] at h
    obtain h | ⟨text, gs, -, h⟩ := Collect.run_bind_eq_error.1 h
    · exact ⟨0, fs, Nat.succ_pos _, h⟩
    · obtain h | ⟨rest, hs, -, h⟩ := Collect.run_bind_eq_error.1 h
      · obtain ⟨i, hs, hi, hrun⟩ := ih h
        rw [Nat.add_right_comm, Nat.add_assoc] at hrun
        exact ⟨i + 1, hs, Nat.succ_lt_succ hi, hrun⟩
      · cases h

/-! ## One source -/

section
variable {room : Nat} {chain : List String} {consumer source : NodeRecord} {uid key : String} {port : Nat}
  {snippet : Snippet} {output : String}

theorem sourceExpression_missing (hfind : program.find? uid = none) :
    c.sourceExpression program room chain consumer index uid port =
      throw (.missingSource consumer.uid index uid) := by
  rw [sourceExpression]
  simp only [hfind]

theorem sourceExpression_cycle (hfind : program.find? uid = some source) (hin : uid ∈ chain) :
    c.sourceExpression program room chain consumer index uid port = throw (.dataCycle uid) := by
  rw [sourceExpression]
  simp only [hfind, List.contains_iff_mem.2 hin, if_true]

theorem sourceExpression_limit (hfind : program.find? uid = some source) (hnew : uid ∉ chain) :
    c.sourceExpression program 0 chain consumer index uid port =
      throw (.recursionLimit uid c.maxDepth) := by
  rw [sourceExpression]
  simp only [hfind, List.contains_iff_mem, hnew, if_false]

theorem sourceExpression_unknown (hfind : program.find? uid = some source) (hnew : uid ∉ chain)
    (hlook : c.snippets.lookup? source = none) :
    c.sourceExpression program (room + 1) chain consumer index uid port =
      throw (.unknownIdentifier source.uid source.identifier) := by
  rw [sourceExpression]
  simp only [hfind, List.contains_iff_mem, hnew, if_false, hlook]

theorem sourceExpression_unlisted (hfind : program.find? uid = some source) (hnew : uid ∉ chain)
    (hlook : c.snippets.lookup? source = some (key, snippet)) (hout : snippet.outputs[port]? = none) :
    c.sourceExpression program (room + 1) chain consumer index uid port =
      throw (.missingOutput source.uid port) := by
  rw [sourceExpression]
  simp only [hfind, List.contains_iff_mem, hnew, if_false, hlook, hout]

theorem sourceExpression_found (hfind : program.find? uid = some source) (hnew : uid ∉ chain)
    (hlook : c.snippets.lookup? source = some (key, snippet))
    (hout : snippet.outputs[port]? = some output) :
    c.sourceExpression program (room + 1) chain consumer index uid port = (do
      hoist key snippet source
      let inputs ← c.inputExpressions (c.sourceExpression program room (uid :: chain) source) source 0
        snippet.inputs
      return (Template.parse output).render (inputText? inputs)) := by
  rw [sourceExpression]
  simp only [hfind, List.contains_iff_mem, hnew, if_false, hlook, hout]

end

/-! ## Success -/

/-- Plug `port` of the node `uid` can be asked for while the sources in `chain` are being resolved. -/
def Fetchable (c : Compiler) (program : Program) (chain : List String) (uid : String) (port : Nat) : Prop :=
  ∃ source key snippet, program.find? uid = some source ∧ uid ∉ chain ∧ chain.length < c.maxDepth ∧
    c.snippets.lookup? source = some (key, snippet) ∧ port < snippet.outputs.length ∧
      ∀ i, i < snippet.inputs.length → Resolvable c program (uid :: chain) source i

theorem resolvable_iff_fetchable {chain : List String} {uid : String} {port : Nat}
    (h : record.inputs[index]? = some input) (hs : input.source = some uid) (hp : input.port = some port) :
    Resolvable c program chain record index ↔ Fetchable c program chain uid port := by
  constructor
  · intro hr
    cases hr with
    | absent h' =>
      rw [h] at h'
      cases h'
    | unset h' hs' hv' =>
      rw [h] at h'
      cases h'
      rw [hs] at hs'
      cases hs'
    | constant h' hs' hv' hf' =>
      rw [h] at h'
      cases h'
      rw [hs] at hs'
      cases hs'
    | source h' hs' hp' hfind hnew hroom hlook hout hin =>
      rw [h] at h'
      cases h'
      rw [hs] at hs'
      cases hs'
      rw [hp] at hp'
      cases hp'
      exact ⟨_, _, _, hfind, hnew, hroom, hlook, hout, hin⟩
  · rintro ⟨source, key, snippet, hfind, hnew, hroom, hlook, hout, hin⟩
    exact .source h hs hp hfind hnew hroom hlook hout hin

theorem fetchable_iff {chain : List String} {uid key : String} {port : Nat} {source : NodeRecord}
    {snippet : Snippet} (hfind : program.find? uid = some source)
    (hlook : c.snippets.lookup? source = some (key, snippet)) :
    Fetchable c program chain uid port ↔ uid ∉ chain ∧ chain.length < c.maxDepth ∧
      port < snippet.outputs.length ∧
        ∀ i, i < snippet.inputs.length → Resolvable c program (uid :: chain) source i := by
  constructor
  · rintro ⟨source', key', snippet', hfind', hnew, hroom, hlook', hout, hin⟩
    rw [hfind] at hfind'
    cases hfind'
    rw [hlook] at hlook'
    cases hlook'
    exact ⟨hnew, hroom, hout, hin⟩
  · rintro ⟨hnew, hroom, hout, hin⟩
    exact ⟨source, key, snippet, hfind, hnew, hroom, hlook, hout, hin⟩

theorem throw_ok_iff {α : Type} {P : Prop} (hP : ¬P) :
    (∃ r, (throw e : Collect α).run fs = .ok r) ↔ P := by
  refine iff_of_false ?_ hP
  rintro ⟨r, hr⟩
  cases hr

theorem inputExpression_ok_iff {chain : List String}
    (hfetch : ∀ index uid port fs, (∃ r, (fetch index uid port).run fs = .ok r) ↔
      Fetchable c program chain uid port)
    (record : NodeRecord) (index : Nat) (fs : Functions) :
    (∃ r, (c.inputExpression fetch record index).run fs = .ok r) ↔
      Resolvable c program chain record index := by
  cases h : record.inputs[index]? with
  | none =>
    rw [inputExpression_absent h]
    exact ⟨fun _ => .absent h, fun _ => ⟨_, rfl⟩⟩
  | some input =>
    cases hs : input.source with
    | none =>
      cases hv : input.value with
      | none =>
        rw [inputExpression_unset h hs hv]
        exact ⟨fun _ => .unset h hs hv, fun _ => ⟨_, rfl⟩⟩
      | some value =>
        cases hf : c.formatter.format value input.type with
        | ok text =>
          rw [inputExpression_constant h hs hv hf]
          exact ⟨fun _ => .constant h hs hv hf, fun _ => ⟨_, rfl⟩⟩
        | error reason =>
          rw [inputExpression_refused h hs hv hf]
          refine throw_ok_iff fun hr => ?_
          cases hr <;> simp_all
    | some uid =>
      cases hp : input.port with
      | none =>
        rw [inputExpression_portless h hs hp]
        refine throw_ok_iff fun hr => ?_
        cases hr <;> simp_all
      | some port =>
        rw [inputExpression_source h hs hp, hfetch, resolvable_iff_fetchable h hs hp]

/-- A source is fetched exactly when it can be, whatever has been collected before. -/
theorem sourceExpression_ok_iff (room : Nat) (chain : List String)
    (hroom : room + chain.length = c.maxDepth) (consumer : NodeRecord) (index : Nat) (uid : String)
    (port : Nat) (fs : Functions) :
    (∃ r, (c.sourceExpression program room chain consumer index uid port).run fs = .ok r) ↔
      Fetchable c program chain uid port := by
  induction room generalizing chain consumer index uid port fs with
  | zero =>
    have hno : ¬Fetchable c program chain uid port := by
      rintro ⟨source, key, snippet, hfind, hnew, hlt, -⟩
      omega
    cases hfind : program.find? uid with
    | none =>
      rw [sourceExpression_missing hfind]
      exact throw_ok_iff hno
    | some source =>
      by_cases hin : uid ∈ chain
      · rw [sourceExpression_cycle hfind hin]
        exact throw_ok_iff hno
      · rw [sourceExpression_limit hfind hin]
        exact throw_ok_iff hno
  | succ room ih =>
    have hlt : chain.length < c.maxDepth := by omega
    cases hfind : program.find? uid with
    | none =>
      rw [sourceExpression_missing hfind]
      refine throw_ok_iff ?_
      rintro ⟨source, key, snippet, hfind', -⟩
      rw [hfind] at hfind'
      cases hfind'
    | some source =>
      by_cases hin : uid ∈ chain
      · rw [sourceExpression_cycle hfind hin]
        refine throw_ok_iff ?_
        rintro ⟨source, key, snippet, -, hnew, -⟩
        exact hnew hin
      cases hlook : c.snippets.lookup? source with
      | none =>
        rw [sourceExpression_unknown hfind hin hlook]
        refine throw_ok_iff ?_
        rintro ⟨source', key, snippet, hfind', -, -, hlook', -⟩
        rw [hfind] at hfind'
        cases hfind'
        rw [hlook] at hlook'
        cases hlook'
      | some found =>
        obtain ⟨key, snippet⟩ := found
        have hfetchable : Fetchable c program chain uid port ↔ _ := fetchable_iff hfind hlook
        cases hout : snippet.outputs[port]? with
        | none =>
          rw [sourceExpression_unlisted hfind hin hlook hout]
          refine throw_ok_iff fun hf => ?_
          obtain ⟨-, -, hlisted, -⟩ := hfetchable.1 hf
          exact absurd (List.getElem?_eq_none_iff.1 hout) (Nat.not_le.2 hlisted)
        | some output =>
          -- The inputs of the source are resolved with one more source on the way.
          have hinputs (fs : Functions) := inputExpressions_ok_iff (c := c)
            (Resolvable c program (uid :: chain) source)
            (inputExpression_ok_iff (fun index uid' port fs => ih (uid :: chain)
              (by rw [List.length_cons]; omega) source index uid' port fs) source) snippet.inputs 0 fs
          simp only [Nat.zero_add] at hinputs
          have hlisted := (List.getElem?_eq_some_iff.1 hout).1
          rw [sourceExpression_found hfind hin hlook hout, hfetchable]
          constructor
          · rintro ⟨r, hr⟩
            obtain ⟨-, gs, -, hr⟩ := Collect.run_bind_eq_ok.1 hr
            obtain ⟨inputs, hs, hrun, -⟩ := Collect.run_bind_eq_ok.1 hr
            exact ⟨hin, hlt, hlisted, (hinputs gs).1 ⟨_, hrun⟩⟩
          · rintro ⟨-, -, -, hresolved⟩
            obtain ⟨⟨inputs, hs⟩, hrun⟩ := (hinputs _).2 hresolved
            exact ⟨_, Collect.run_bind_eq_ok.2 ⟨(), _, rfl,
              Collect.run_bind_eq_ok.2 ⟨inputs, hs, hrun, rfl⟩⟩⟩

end FlowGraph.Script.Compiler

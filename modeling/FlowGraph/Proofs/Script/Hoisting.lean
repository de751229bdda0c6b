import FlowGraph.Proofs.Script.Resolution
import Mathlib.Data.List.Forall2
import Mathlib.Data.List.Induction

/-! # Functions are written once each

Resolving the inputs of a flow walks back along the data edges and meets a source before the sources that
feed it, again and again where several ways lead to it. `Meets` describes this walk without what is being
collected on the way. Of the functions that the met sources ask for the compiler keeps the first use of
each key, so a later use of a key leaves no mark.
-/

namespace FlowGraph.Script
set_option autoImplicit false

/-! ## First uses -/

/-- The first of the uses of each key, in the order of these first uses. -/
def firstUses (uses : Functions) : Functions :=
  (uses.map (·.1)).eraseDups.filterMap fun key => uses.find? (·.1 == key)

/-- Another use of a function: it counts if its key is new. -/
def addUse (functions : Functions) (use : String × String) : Functions :=
  if functions.any (·.1 == use.1) then functions else functions ++ [use]

section
variable {uses : Functions} {use : String × String} {key : String}

theorem find?_isSome_of_mem_keys (h : key ∈ uses.map (·.1)) : (uses.find? (·.1 == key)).isSome := by
  obtain ⟨use, huse, rfl⟩ := List.mem_map.1 h
  exact List.find?_isSome.2 ⟨use, huse, beq_self_eq_true _⟩

theorem keys_firstUses (uses : Functions) : (firstUses uses).map (·.1) = (uses.map (·.1)).eraseDups := by
  have hkeys (keys : List String) (h : ∀ key ∈ keys, key ∈ uses.map (·.1)) :
      (keys.filterMap fun key => uses.find? (·.1 == key)).map (·.1) = keys := by
    induction keys with
    | nil => rfl
    | cons key rest ih =>
      obtain ⟨hkey, hrest⟩ := List.forall_mem_cons.1 h
      obtain ⟨use, huse⟩ := Option.isSome_iff_exists.1 (find?_isSome_of_mem_keys hkey)
      have hsame : use.1 = key := by simpa using List.find?_some huse
      rw [List.filterMap_cons, huse]
      simp only [List.map_cons, hsame, ih hrest]
  exact hkeys _ fun key h => List.mem_eraseDups.1 h

theorem nodup_eraseDups (l : List String) : l.eraseDups.Nodup := by
  induction l using List.reverseRecOn with
  | nil => exact List.nodup_nil
  | append_singleton l a ih =>
    rw [List.eraseDups_append, List.removeAll]
    by_cases h : a ∈ l
    · simpa [h] using ih
    · have hnew : ∀ b ∈ l, b ≠ a := fun b hb heq => h (heq ▸ hb)
      simpa [h, List.nodup_append, List.eraseDups_cons, ih] using hnew

theorem any_firstUses : (firstUses uses).any (·.1 == key) = true ↔ key ∈ uses.map (·.1) := by
  rw [← List.mem_eraseDups, ← keys_firstUses, List.any_eq_true, List.mem_map]
  simp only [beq_iff_eq]

/-- One use more at the end. -/
theorem firstUses_concat (uses : Functions) (use : String × String) :
    firstUses (uses ++ [use]) = addUse (firstUses uses) use := by
  have hold (keys : List String) (h : ∀ key ∈ keys, key ∈ uses.map (·.1)) :
      (keys.filterMap fun key => (uses ++ [use]).find? (·.1 == key)) =
        keys.filterMap fun key => uses.find? (·.1 == key) := by
    refine List.filterMap_congr fun key hkey => ?_
    obtain ⟨first, hfirst⟩ := Option.isSome_iff_exists.1 (find?_isSome_of_mem_keys (h key hkey))
    rw [List.find?_append, hfirst, Option.some_or]
  have hkeys := hold (uses.map (·.1)).eraseDups fun key h => List.mem_eraseDups.1 h
  rw [addUse, firstUses, List.map_append, List.eraseDups_append, List.filterMap_append, hkeys]
  by_cases hin : use.1 ∈ uses.map (·.1)
  · rw [if_pos (any_firstUses.2 hin)]
    simp [List.removeAll, hin, firstUses]
  · have hnone : uses.find? (·.1 == use.1) = none := by
      refine List.find?_eq_none.2 fun u hu hsame => hin ?_
      exact List.mem_map.2 ⟨u, hu, eq_of_beq hsame⟩
    rw [if_neg fun h => hin (any_firstUses.1 h)]
    have hnew : ([use].map (·.1)).removeAll (uses.map (·.1)) = [use.1] := by
      simpa [List.removeAll] using hin
    rw [hnew, List.eraseDups_cons, List.filterMap_cons, List.find?_append, hnone]
    simp [firstUses]

theorem foldl_addUse (uses : Functions) : uses.foldl addUse [] = firstUses uses := by
  induction uses using List.reverseRecOn with
  | nil => rfl
  | append_singleton uses use ih => rw [List.foldl_append, ih, firstUses_concat, List.foldl_cons, List.foldl_nil]

/-- A use of a key that has been used before may as well not be there. -/
theorem firstUses_drop {before after : Functions} (h : use.1 ∈ before.map (·.1)) :
    firstUses (before ++ use :: after) = firstUses (before ++ after) := by
  have hskip : addUse (firstUses before) use = firstUses before := if_pos (any_firstUses.2 h)
  rw [← foldl_addUse, ← foldl_addUse, List.foldl_append, List.foldl_append, List.foldl_cons, foldl_addUse, hskip]

end

/-! ## The walk over the sources -/

namespace Compiler

section
variable (c : Compiler) (program : Program)

/-- The source of an input, if it has one. -/
def feeder? (input : InputRecord) : Option NodeRecord := input.source.bind program.find?

/-- The sources of the declared inputs of a record, input by input. -/
def feeders (record : NodeRecord) : List NodeRecord :=
  match c.snippets.lookup? record with
  | some (_, snippet) => (record.inputs.take snippet.inputs.length).filterMap (feeder? program)
  | none => []

/-- Resolving the first records one after the other meets the second ones in this order: each record before
those that feed it, and once for every way that leads to it. -/
inductive Meets : List NodeRecord → List NodeRecord → Prop
  | nil : Meets [] []
  | cons {record : NodeRecord} {rest inner later : List NodeRecord} (hinner : Meets (feeders c program record) inner)
    (hlater : Meets rest later) : Meets (record :: rest) (record :: inner ++ later)

/-- The function that a source asks for: the one of its snippet, when that is pure. -/
def use? (record : NodeRecord) : Option (String × String) :=
  match c.snippets.lookup? record with
  | some (key, snippet) => if snippet.pure then some (key, snippet.script.source ⟨some record, 0⟩) else none
  | none => none

end

variable {c : Compiler} {program : Program}

namespace Meets
variable {first second met more : List NodeRecord}

theorem append (h : Meets c program first met) (h' : Meets c program second more) :
    Meets c program (first ++ second) (met ++ more) := by
  induction h with
  | nil => exact h'
  | cons hinner _ _ ih =>
    rw [List.append_assoc]
    exact .cons hinner ih

theorem unique (h : Meets c program first met) (h' : Meets c program first more) : met = more := by
  induction h generalizing more with
  | nil =>
    cases h'
    rfl
  | cons _ _ ihinner ihlater =>
    cases h' with
    | cons hinner hlater => rw [ihinner hinner, ihlater hlater]

end Meets

/-! ## Runs that collect -/

/-- Whatever has been collected before, the run gives `a` and collects the functions that the met records
ask for. -/
def Gathers {α : Type} (c : Compiler) (x : Collect α) (a : α) (met : List NodeRecord) : Prop :=
  ∀ fs, x.run fs = .ok (a, (met.filterMap c.use?).foldl addUse fs)

namespace Gathers
variable {α β : Type} {x : Collect α} {f : α → Collect β} {a : α} {b : β} {met more : List NodeRecord}

theorem pure (a : α) : Gathers c (Pure.pure a) a [] := fun _ => rfl

theorem bind (hx : Gathers c x a met) (hf : Gathers c (f a) b more) : Gathers c (x >>= f) b (met ++ more) := by
  intro fs
  rw [List.filterMap_append, List.foldl_append]
  exact Collect.run_bind_eq_ok.2 ⟨a, _, hx fs, hf _⟩

/-- A run whose result is only wrapped up collects nothing more. -/
theorem map (hx : Gathers c x a met) (g : α → β) : Gathers c (x >>= fun a => Pure.pure (g a)) (g a) met := by
  have hend := hx.bind (f := fun a => Pure.pure (g a)) (.pure _)
  rw [List.append_nil] at hend
  exact hend

theorem hoist {key : String} {snippet : Snippet} {record : NodeRecord}
    (hlook : c.snippets.lookup? record = some (key, snippet)) :
    Gathers c (Compiler.hoist key snippet record) () [record] := by
  intro fs
  have hrun : (Compiler.hoist key snippet record).run fs = .ok ((),
      if snippet.pure && !fs.any (·.1 == key) then fs ++ [(key, snippet.script.source ⟨some record, 0⟩)]
      else fs) := rfl
  cases hpure : snippet.pure with
  | false => simp [hrun, use?, hlook, hpure]
  | true => cases hany : fs.any (·.1 == key) <;> simp [hrun, use?, hlook, hpure, addUse, hany]

end Gathers

/-! ## Inputs -/

section
variable {record : NodeRecord} {index : Nat} {fetch : Fetch} {fs : Functions}

/-- A source that is fetched is there, and the run has met it and all that it needs. -/
def Fetches (c : Compiler) (program : Program) (x : Collect String) (uid : String) (text : String) : Prop :=
  ∃ source inner, program.find? uid = some source ∧ Meets c program (feeders c program source) inner ∧
    Gathers c x text (source :: inner)

theorem gathers_inputExpression {r : String × Functions}
    (hfetch : ∀ uid port, (fetch index uid port).run fs = .ok r → Fetches c program (fetch index uid port) uid r.1)
    (h : (c.inputExpression fetch record index).run fs = .ok r) :
    ∃ met, Meets c program (record.inputs[index]?.bind (feeder? program)).toList met ∧
      Gathers c (c.inputExpression fetch record index) r.1 met := by
  cases hin : record.inputs[index]? with
  | none =>
    rw [inputExpression_absent hin] at h ⊢
    cases h
    exact ⟨[], .nil, .pure _⟩
  | some input =>
    rw [Option.bind_some, feeder?]
    cases hs : input.source with
    | none =>
      cases hv : input.value with
      | none =>
        rw [inputExpression_unset hin hs hv] at h ⊢
        cases h
        exact ⟨[], .nil, .pure _⟩
      | some value =>
        cases hf : c.formatter.format value input.type with
        | ok text =>
          rw [inputExpression_constant hin hs hv hf] at h ⊢
          cases h
          exact ⟨[], .nil, .pure _⟩
        | error reason =>
          rw [inputExpression_refused hin hs hv hf] at h
          cases h
    | some uid =>
      cases hp : input.port with
      | none =>
        rw [inputExpression_portless hin hs hp] at h
        cases h
      | some port =>
        rw [inputExpression_source hin hs hp] at h ⊢
        obtain ⟨source, inner, hfind, hinner, hgather⟩ := hfetch uid port h
        refine ⟨source :: inner, ?_, hgather⟩
        rw [Option.bind_some, hfind]
        have hone : Meets c program [source] (source :: inner ++ []) := .cons hinner .nil
        rw [List.append_nil] at hone
        exact hone

/-- The sources of the inputs from `index` on, one input at a time. -/
theorem feeders_from (program : Program) (inputs : List InputRecord) (index count : Nat) :
    ((inputs.drop index).take (count + 1)).filterMap (feeder? program) =
      (inputs[index]?.bind (feeder? program)).toList ++
        ((inputs.drop (index + 1)).take count).filterMap (feeder? program) := by
  by_cases hlt : index < inputs.length
  · rw [List.drop_eq_getElem_cons hlt, List.take_succ_cons, List.filterMap_cons, List.getElem?_eq_getElem hlt,
      Option.bind_some]
    cases feeder? program inputs[index] <;> rfl
  · have hnone : inputs[index]? = none := List.getElem?_eq_none (Nat.le_of_not_lt hlt)
    have hdrop : inputs.drop index = [] := List.drop_eq_nil_of_le (Nat.le_of_not_lt hlt)
    have hdrop' : inputs.drop (index + 1) = [] := List.drop_eq_nil_of_le (by omega)
    simp [hnone, hdrop, hdrop']

theorem gathers_inputExpressions
    (hfetch : ∀ index uid port fs r, (fetch index uid port).run fs = .ok r →
      Fetches c program (fetch index uid port) uid r.1)
    {names : List String} {r : List (String × String) × Functions}
    (h : (c.inputExpressions fetch record index names).run fs = .ok r) :
    ∃ met, Meets c program (((record.inputs.drop index).take names.length).filterMap (feeder? program)) met ∧
      Gathers c (c.inputExpressions fetch record index names) r.1 met := by
  induction names generalizing index fs r with
  | nil =>
    rw [inputExpressions] at h ⊢
    cases h
    rw [List.length_nil, List.take_zero]
    exact ⟨[], .nil, .pure _⟩
  | cons name names ih =>
    rw [inputExpressions] at h ⊢
    obtain ⟨text, gs, htext, h⟩ := Collect.run_bind_eq_ok.1 h
    obtain ⟨rest, gs', hrest, h⟩ := Collect.run_bind_eq_ok.1 h
    cases h
    obtain ⟨met, hmet, hfirst⟩ := gathers_inputExpression (hfetch index · · fs _) htext
    obtain ⟨more, hmore, hlater⟩ := ih hrest
    refine ⟨met ++ more, ?_, ?_⟩
    · rw [List.length_cons, feeders_from]
      exact hmet.append hmore
    · exact hfirst.bind (hlater.map fun rest => (name, text) :: rest)

/-- All inputs that a snippet declares. -/
theorem gathers_declared
    (hfetch : ∀ index uid port fs r, (fetch index uid port).run fs = .ok r →
      Fetches c program (fetch index uid port) uid r.1)
    {key : String} {snippet : Snippet} (hlook : c.snippets.lookup? record = some (key, snippet))
    {r : List (String × String) × Functions}
    (h : (c.inputExpressions fetch record 0 snippet.inputs).run fs = .ok r) :
    ∃ met, Meets c program (feeders c program record) met ∧
      Gathers c (c.inputExpressions fetch record 0 snippet.inputs) r.1 met := by
  obtain ⟨met, hmet, hgather⟩ := gathers_inputExpressions hfetch h
  refine ⟨met, ?_, hgather⟩
  rw [feeders, hlook]
  exact hmet

theorem fetches_sourceExpression (room : Nat) {chain : List String} {consumer : NodeRecord} {uid : String}
    {port : Nat} {r : String × Functions}
    (h : (c.sourceExpression program room chain consumer index uid port).run fs = .ok r) :
    Fetches c program (c.sourceExpression program room chain consumer index uid port) uid r.1 := by
  induction room generalizing chain consumer index uid port fs r with
  | zero =>
    cases hfind : program.find? uid with
    | none =>
      rw [sourceExpression_missing hfind] at h
      cases h
    | some source =>
      by_cases hin : uid ∈ chain
      · rw [sourceExpression_cycle hfind hin] at h
        cases h
      · rw [sourceExpression_limit hfind hin] at h
        cases h
  | succ room ih =>
    cases hfind : program.find? uid with
    | none =>
      rw [sourceExpression_missing hfind] at h
      cases h
    | some source =>
      by_cases hin : uid ∈ chain
      · rw [sourceExpression_cycle hfind hin] at h
        cases h
      cases hlook : c.snippets.lookup? source with
      | none =>
        rw [sourceExpression_unknown hfind hin hlook] at h
        cases h
      | some found =>
        obtain ⟨key, snippet⟩ := found
        cases hout : snippet.outputs[port]? with
        | none =>
          rw [sourceExpression_unlisted hfind hin hlook hout] at h
          cases h
        | some output =>
          rw [sourceExpression_found hfind hin hlook hout] at h ⊢
          obtain ⟨-, gs, -, h⟩ := Collect.run_bind_eq_ok.1 h
          obtain ⟨inputs, gs', hinputs, h⟩ := Collect.run_bind_eq_ok.1 h
          cases h
          obtain ⟨inner, hinner, hgather⟩ :=
            gathers_declared (fun index uid port fs r h => ih h) hlook hinputs
          refine ⟨source, inner, hfind, hinner, ?_⟩
          -- The source is met first, and its own sources behind it.
          exact (Gathers.hoist hlook).bind
            (hgather.map fun inputs => (Template.parse output).render (inputText? inputs))

end

/-! ## Flows -/

section
variable {fs gs : Functions}

theorem gathers_nodeStep {record : NodeRecord} {step : Step}
    (h : (c.nodeStep program record).run fs = .ok (step, gs)) :
    ∃ met, Meets c program (feeders c program record) met ∧ Gathers c (c.nodeStep program record) step met := by
  unfold nodeStep at h ⊢
  cases hlook : c.snippets.lookup? record with
  | none =>
    rw [hlook] at h
    cases h
  | some found =>
    obtain ⟨key, snippet⟩ := found
    rw [hlook] at h
    obtain ⟨inputs, gs', hinputs, h⟩ := Collect.run_bind_eq_ok.1 h
    cases h
    obtain ⟨met, hmet, hgather⟩ :=
      gathers_declared (fun index uid port fs r h => fetches_sourceExpression c.maxDepth h) hlook hinputs
    exact ⟨met, hmet, hgather.map _⟩

theorem gathers_splitStep {last : Option String} {count : Nat} {step : Step}
    (h : (c.splitStep last count).run fs = .ok (step, gs)) : Gathers c (c.splitStep last count) step [] := by
  unfold splitStep at h ⊢
  cases hget : c.snippets.get? Program.splitIdentifier with
  | none =>
    rw [hget] at h
    cases h
  | some snippet =>
    rw [hget] at h
    cases h
    exact .pure _

mutual

theorem gathers_entryStep {last : Option String} {fs gs : Functions} {step : Step} :
    (entry : Entry NodeRecord) → (c.entryStep program last entry).run fs = .ok (step, gs) →
      ∃ met, Meets c program (entry.nodes.flatMap (feeders c program)) met ∧
        Gathers c (c.entryStep program last entry) step met
  | .node record, h => by
    rw [entryStep] at h ⊢
    rw [Entry.nodes, List.flatMap_singleton]
    exact gathers_nodeStep h
  | .split count, h => by
    rw [entryStep] at h ⊢
    exact ⟨[], .nil, gathers_splitStep h⟩
  | .branch branches, h => by
    rw [entryStep] at h ⊢
    obtain ⟨chains, gs', hchains, h⟩ := Collect.run_bind_eq_ok.1 h
    cases h
    obtain ⟨met, hmet, hgather, -⟩ := gathers_flowsSteps branches hchains
    exact ⟨met, hmet, hgather.map Step.branch⟩

theorem gathers_flowSteps {last : Option String} {fs gs : Functions} {steps : List Step} :
    (flow : Flow NodeRecord) → (c.flowSteps program last flow).run fs = .ok (steps, gs) →
      ∃ met, Meets c program ((Entry.flowNodes flow).flatMap (feeders c program)) met ∧
        Gathers c (c.flowSteps program last flow) steps met
  | [], h => by
    rw [flowSteps] at h ⊢
    cases h
    exact ⟨[], .nil, .pure _⟩
  | entry :: rest, h => by
    rw [flowSteps_cons] at h ⊢
    obtain ⟨step, gs', hstep, h⟩ := Collect.run_bind_eq_ok.1 h
    obtain ⟨steps, gs'', hsteps, h⟩ := Collect.run_bind_eq_ok.1 h
    cases h
    obtain ⟨met, hmet, hfirst⟩ := gathers_entryStep entry hstep
    obtain ⟨more, hmore, hrest⟩ := gathers_flowSteps rest hsteps
    refine ⟨met ++ more, ?_, ?_⟩
    · rw [Entry.flowNodes, List.flatMap_append]
      exact hmet.append hmore
    · exact hfirst.bind (hrest.map fun steps => step :: steps)

/-- The chains of the flows are those that each flow has on its own. -/
theorem gathers_flowsSteps {last : Option String} {fs gs : Functions} {chains : List (List Step)} :
    (flows : List (Flow NodeRecord)) → (c.flowsSteps program last flows).run fs = .ok (chains, gs) →
      ∃ met, Meets c program ((Entry.branchNodes flows).flatMap (feeders c program)) met ∧
        Gathers c (c.flowsSteps program last flows) chains met ∧
        List.Forall₂ (fun flow chain => ∃ own, Gathers c (c.flowSteps program last flow) chain own) flows chains
  | [], h => by
    rw [flowsSteps] at h ⊢
    cases h
    exact ⟨[], .nil, .pure _, .nil⟩
  | flow :: rest, h => by
    rw [flowsSteps] at h ⊢
    obtain ⟨chain, gs', hchain, h⟩ := Collect.run_bind_eq_ok.1 h
    obtain ⟨chains, gs'', hchains, h⟩ := Collect.run_bind_eq_ok.1 h
    cases h
    obtain ⟨met, hmet, hfirst⟩ := gathers_flowSteps flow hchain
    obtain ⟨more, hmore, hrest, hown⟩ := gathers_flowsSteps rest hchains
    refine ⟨met ++ more, ?_, ?_, .cons ⟨met, hfirst⟩ hown⟩
    · rw [Entry.branchNodes, List.flatMap_append]
      exact hmet.append hmore
    · exact hfirst.bind (hrest.map fun chains => chain :: chains)

end

end

/-! ## The function block -/

/-- The functions that stand ahead of the flows when `met` are the sources that the flows lead to. -/
structure Block (c : Compiler) (met : List NodeRecord) (functions : Functions) : Prop where
  once : (functions.map (·.1)).Nodup
  /-- The keys stand in the order in which they are first asked for. -/
  order : functions.map (·.1) = ((met.filterMap c.use?).map (·.1)).eraseDups
  /-- A function is written for the first record that asks for its key. -/
  first : ∀ f ∈ functions, ∃ before record after, met = before ++ record :: after ∧ c.use? record = some f ∧
    ∀ r ∈ before, ∀ use, c.use? r = some use → use.1 ≠ f.1
  /-- A record that asks for nothing new may as well not be met. -/
  again : ∀ before record after, met = before ++ record :: after →
    (∀ use, c.use? record = some use → ∃ r ∈ before, ∃ earlier, c.use? r = some earlier ∧ earlier.1 = use.1) →
      functions = firstUses ((before ++ after).filterMap c.use?)

theorem block_firstUses (c : Compiler) (met : List NodeRecord) :
    Block c met (firstUses (met.filterMap c.use?)) where
  once := by
    rw [keys_firstUses]
    exact nodup_eraseDups _
  order := keys_firstUses _
  first := by
    intro f hf
    obtain ⟨key, -, hfind⟩ := List.mem_filterMap.1 hf
    obtain ⟨hkey, front, back, huses, hfront⟩ := List.find?_eq_some_iff_append.1 hfind
    obtain rfl : f.1 = key := eq_of_beq hkey
    obtain ⟨before, rest, rfl, hbefore, hrest⟩ := List.filterMap_eq_append_iff.1 huses
    obtain ⟨idle, record, after, rfl, hidle, hrecord, -⟩ := List.filterMap_eq_cons_iff.1 hrest
    refine ⟨before ++ idle, record, after, by rw [List.append_assoc], hrecord, fun r hr use huse => ?_⟩
    obtain hr | hr := List.mem_append.1 hr
    · have hin : use ∈ front := hbefore ▸ List.mem_filterMap.2 ⟨r, hr, huse⟩
      simpa using hfront use hin
    · rw [hidle r hr] at huse
      cases huse
  again := by
    rintro before record after rfl hknown
    rw [List.filterMap_append, List.filterMap_append, List.filterMap_cons]
    cases huse : c.use? record with
    | none => rfl
    | some use =>
      obtain ⟨r, hr, earlier, hearlier, hsame⟩ := hknown use huse
      refine firstUses_drop (List.mem_map.2 ⟨earlier, ?_, hsame⟩)
      exact List.mem_filterMap.2 ⟨r, hr, hearlier⟩

/-- A script starts with the functions that the flows lead to, once each, and goes on with the flows, each as it
is on its own. -/
theorem compile_hoists (c : Compiler) (program : Program) (r : Compiled) (h : c.compile program = .ok r) :
    ∃ met functions chains,
      (∀ l, Meets c program ((Entry.branchNodes program.flows).flatMap (feeders c program)) l ↔ l = met) ∧
      Block c met functions ∧ r.functions = functions.map (·.1) ∧
      List.Forall₂ (fun flow chain => ∀ fs, ∃ gs, (c.flowSteps program none flow).run fs = .ok (chain, gs))
        program.flows chains ∧
      r.script = String.join (functions.map fun f => f.2 ++ "\n") ++ "\n".intercalate (chains.map Step.render) := by
  unfold compile at h
  cases hrun : (c.flowsSteps program none program.flows).run [] with
  | error e =>
    rw [hrun] at h
    cases h
  | ok out =>
    obtain ⟨chains, collected⟩ := out
    rw [hrun] at h
    cases h
    obtain ⟨met, hmet, hgather, hown⟩ := gathers_flowsSteps program.flows hrun
    have hcollected : collected = firstUses (met.filterMap c.use?) := by
      rw [hgather [], foldl_addUse] at hrun
      cases hrun
      rfl
    rw [hcollected]
    refine ⟨met, firstUses (met.filterMap c.use?), chains, fun l => ⟨fun hl => hl.unique hmet, ?_⟩,
      block_firstUses c met, rfl, hown.imp fun flow chain hgathers fs => ?_, rfl⟩
    · rintro rfl
      exact hmet
    · obtain ⟨own, hflow⟩ := hgathers
      exact ⟨_, hflow fs⟩

/-- Three logs in a row: of a sum of a width and a truth value, of the truth value of another node, which has a
variant that no snippet knows, and of a height that comes from the node of the width. -/
def sharedSources : Program where
  flows := [[.node ⟨"start", "OpenVS-Base-Event-Start", "StartEventNode", 0.0, 0.0, 1.0, none,
      [[⟨"c0", "first", 0⟩]], [], []⟩, log "first" "sum" 0, log "second" "other" 0, log "third" "size" 1]]
  additional := [
    ⟨"sum", "OpenVS-Base-Basic-Add", "AdditionNode", 0.0, 0.0, 1.0, none, [], [],
      [⟨some "size", some 0, .num, false, none⟩, ⟨some "mobile", some 0, .num, false, none⟩]⟩,
    ⟨"size", "OpenVS-Base-DInfo-SSize", "ScreenSizeNode", 0.0, 0.0, 1.0, none, [], [], []⟩,
    ⟨"mobile", "OpenVS-Base-DInfo-Mobile", "IsMobileNode", 0.0, 0.0, 1.0, none, [], [], []⟩,
    ⟨"other", "OpenVS-Base-DInfo-Mobile", "IsMobileNode", 0.0, 0.0, 1.0, some .add, [], [], []⟩]
  variableTypes := .empty
where
  log (uid source : String) (port : Nat) : Entry NodeRecord :=
    .node ⟨uid, "OpenVS-Base-Console-Log", "ConsoleLogNode", 0.0, 0.0, 1.0, none, [[]], [],
      [⟨some source, some port, .any, false, none⟩]⟩

theorem compile_hoists_sharedSources : ∃ r, standard.compile sharedSources = .ok r ∧
    r.functions = ["OpenVS-Base-DInfo-SSize", "OpenVS-Base-DInfo-Mobile"] ∧
    ∃ met functions, met.map (·.uid) = ["sum", "size", "mobile", "other", "size"] ∧
      Block standard met functions ∧ r.functions = functions.map (·.1) := by
  have hok : (standard.compile sharedSources).toOption.isSome = true := by decide +kernel
  have hkeys : (standard.compile sharedSources).toOption.map (·.functions) =
      some ["OpenVS-Base-DInfo-SSize", "OpenVS-Base-DInfo-Mobile"] := by decide +kernel
  cases hcompile : standard.compile sharedSources with
  | error e =>
    rw [hcompile] at hok
    cases hok
  | ok r =>
    rw [hcompile] at hkeys
    obtain ⟨met, functions, chains, hmet, hblock, hfunctions, -⟩ := compile_hoists standard sharedSources r hcompile
    have hwalk := (hmet _).1 (.cons (.cons .nil (.cons .nil .nil)) (.cons .nil (.cons .nil .nil)))
    refine ⟨r, rfl, Option.some.inj hkeys, met, functions, ?_, hblock, hfunctions⟩
    rw [← hwalk]
    rfl

end Compiler
end FlowGraph.Script

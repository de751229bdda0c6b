import FlowGraph.Proofs.Script.Resolution

/-! # Compilations side by side

Several programs are compiled at once, one for each `q : Q`. `Collect.Together` says that the runs go the
same way: all of them fail, or all of them give a result and collect the same functions. What is
compiled, and what comes out, are families over `Q`; the predicates `U`, `R` and `V` say how the uids,
the records and the texts of a family may differ. When the programs match (`Matching`), whole compilations
go the same way.
-/

namespace FlowGraph.Script
set_option autoImplicit false

variable {Q : Type}

/-! ## Runs -/

/-- The runs fail together, with errors in `E`, or give results in `V` and the same functions. -/
def Collect.Together {α : Type} (E : (Q → CompileError) → Prop) (V : (Q → α) → Prop)
    (x : Q → Collect α) : Prop :=
  ∀ fs, (∃ e, E e ∧ ∀ q, (x q).run fs = .error (e q)) ∨
    ∃ a gs, V a ∧ ∀ q, (x q).run fs = .ok (a q, gs)

namespace Collect.Together
variable {α β : Type} {E : (Q → CompileError) → Prop} {V : (Q → α) → Prop} {W : (Q → β) → Prop}

theorem pure {a : Q → α} (h : V a) : Together E V fun q => Pure.pure (a q) :=
  fun fs => Or.inr ⟨a, fs, h, fun _ => rfl⟩

theorem throw {e : Q → CompileError} (h : E e) :
    Together E V fun q => (MonadExcept.throw (e q) : Collect α) :=
  fun _ => Or.inl ⟨e, h, fun _ => rfl⟩

theorem bind {x : Q → Collect α} {f : Q → α → Collect β} (hx : Together E V x)
    (hf : ∀ a, V a → Together E W fun q => f q (a q)) : Together E W fun q => x q >>= f q := by
  intro fs
  obtain ⟨e, he, hrun⟩ | ⟨a, gs, ha, hrun⟩ := hx fs
  · exact Or.inl ⟨e, he, fun q => run_bind_eq_error.2 (Or.inl (hrun q))⟩
  · obtain ⟨e, he, hnext⟩ | ⟨b, hs, hb, hnext⟩ := hf a ha gs
    · exact Or.inl ⟨e, he, fun q => run_bind_eq_error.2 (Or.inr ⟨a q, gs, hrun q, hnext q⟩)⟩
    · exact Or.inr ⟨b, hs, hb, fun q => run_bind_eq_ok.2 ⟨a q, gs, hrun q, hnext q⟩⟩

/-- The same step ahead of each run. -/
theorem after {x : Collect α} {f : Q → α → Collect β} (hx : ∀ fs, ∃ a gs, x.run fs = .ok (a, gs))
    (hf : ∀ a, Together E W fun q => f q a) : Together E W fun q => x >>= f q := by
  intro fs
  obtain ⟨a, gs, hrun⟩ := hx fs
  obtain ⟨e, he, hnext⟩ | ⟨b, hs, hb, hnext⟩ := hf a gs
  · exact Or.inl ⟨e, he, fun q => run_bind_eq_error.2 (Or.inr ⟨a, gs, hrun, hnext q⟩)⟩
  · exact Or.inr ⟨b, hs, hb, fun q => run_bind_eq_ok.2 ⟨a, gs, hrun, hnext q⟩⟩

end Collect.Together

/-! ## Texts -/

/-- The families of texts that are admitted hold every fixed text and are closed under joining. -/
structure Textual (V : (Q → String) → Prop) : Prop where
  fixed : ∀ t, V fun _ => t
  append : ∀ {s t}, V s → V t → V fun q => s q ++ t q

/-- Lists of as many texts. -/
inductive Texts (V : (Q → String) → Prop) : (Q → List String) → Prop
  | nil : Texts V fun _ => []
  | cons {t : Q → String} {a : Q → List String} (ht : V t) (ha : Texts V a) : Texts V fun q => t q :: a q

/-- Lists of texts under the same names. -/
inductive NamedTexts (V : (Q → String) → Prop) : (Q → List (String × String)) → Prop
  | nil : NamedTexts V fun _ => []
  | cons (name : String) {t : Q → String} {a : Q → List (String × String)} (ht : V t)
    (ha : NamedTexts V a) : NamedTexts V fun q => (name, t q) :: a q

section
variable {V : (Q → String) → Prop} {a : Q → List String} {named : Q → List (String × String)}

theorem Texts.getD (hv : Textual V) (ha : Texts V a) (i : Nat) : V fun q => (a q).getD i "" := by
  induction ha generalizing i with
  | nil => exact hv.fixed ""
  | cons ht _ ih =>
    cases i with
    | zero => exact ht
    | succ i => exact ih i

theorem Texts.join (hv : Textual V) (ha : Texts V a) : V fun q => String.join (a q) := by
  induction ha with
  | nil => exact hv.fixed ""
  | cons ht _ ih =>
    simp only [String.join_cons]
    exact hv.append ht ih

theorem Texts.intercalate (hv : Textual V) (ha : Texts V a) (mark : String) :
    V fun q => mark.intercalate (a q) := by
  induction ha with
  | nil => exact hv.fixed ""
  | cons ht ha ih =>
    cases ha with
    | nil =>
      simp only [String.intercalate_singleton]
      exact ht
    | cons hu ha =>
      simp only [String.intercalate_cons_cons]
      exact hv.append (hv.append ht (hv.fixed mark)) ih

theorem inputText?_cons (name text key : String) (rest : List (String × String)) :
    inputText? ((name, text) :: rest) key =
      (inputText? rest key).or (if name == key then some text else none) := by
  rw [inputText?, List.reverse_cons, List.find?_append, inputText?]
  cases (rest.reverse.find? (·.1 == key)) with
  | some e => rfl
  | none => by_cases h : name = key <;> simp [h]

/-- A name that is known on one side is known on all. -/
theorem NamedTexts.inputText? (h : NamedTexts V named) (key : String) :
    (∀ q, Script.inputText? (named q) key = none) ∨
      ∃ t, V t ∧ ∀ q, Script.inputText? (named q) key = some (t q) := by
  induction h with
  | nil => exact Or.inl fun _ => rfl
  | @cons name t a ht _ ih =>
    simp only [inputText?_cons]
    obtain hnone | ⟨u, hu, hsome⟩ := ih
    · simp only [hnone, Option.none_or]
      by_cases hname : (name == key) = true
      · exact Or.inr ⟨t, ht, fun q => if_pos hname⟩
      · exact Or.inl fun q => if_neg hname
    · exact Or.inr ⟨u, hu, fun q => by rw [hsome q, Option.some_or]⟩

theorem NamedTexts.getD (hv : Textual V) (h : NamedTexts V named) (key default : String) :
    V fun q => (Script.inputText? (named q) key).getD default := by
  obtain hnone | ⟨t, ht, hsome⟩ := h.inputText? key
  · simp only [hnone]
    exact hv.fixed default
  · simp only [hsome]
    exact ht

theorem textual_render (hv : Textual V) (t : Template) (h : NamedTexts V named) :
    V fun q => t.render (Script.inputText? (named q)) := by
  unfold Template.render
  induction t.segments with
  | nil => exact hv.fixed ""
  | cons segment rest ih =>
    simp only [List.map_cons, String.join_cons]
    refine hv.append ?_ ih
    cases segment with
    | text value => exact hv.fixed value
    | placeholder name => exact h.getD hv name ("$" ++ name)

end

/-! ## Chains -/

section
variable {V : (Q → String) → Prop} {tail : Q → Tail} {chain : Q → List Step} {step : Q → Step}

/-- What is left to the step before. -/
structure Tails (V : (Q → String) → Prop) (tail : Q → Tail) : Prop where
  further : V fun q => (tail q).further
  waiting : Texts V fun q => (tail q).waiting

/-- The texts of the chains are admitted. -/
def Chains (V : (Q → String) → Prop) (chain : Q → List Step) : Prop := Tails V fun q => Step.tail (chain q)

/-- The steps may stand in front of such chains. -/
def Steps (V : (Q → String) → Prop) (step : Q → Step) : Prop :=
  ∀ chain, Chains V chain → Chains V fun q => step q :: chain q

def ChainLists (V : (Q → String) → Prop) (chains : Q → List (List Step)) : Prop :=
  Texts V fun q => Step.renderEach (chains q)

theorem Tails.flat (hv : Textual V) (h : Tails V tail) : V fun q => (tail q).flat :=
  hv.append (h.waiting.join hv) h.further

theorem textual_fillSegments (hv : Textual V) {named : Q → List (String × String)}
    {branches : Q → List String} (hn : NamedTexts V named) (hb : Texts V branches)
    (segments : List Segment) {further : Q → String} (hf : V further) :
    V fun q => fillSegments (named q) (branches q) (further q) segments := by
  induction segments generalizing further with
  | nil => exact hv.fixed ""
  | cons segment rest ih =>
    simp only [fillSegments_cons]
    refine hv.append ?_ (ih ?_)
    · cases segment with
      | text value => exact hv.fixed value
      | placeholder name =>
        simp only [Segment.filled]
        cases Slot.ofName name with
        | further => exact hf
        | branch i => exact hb.getD hv i
        | named n => exact hn.getD hv n ("$" ++ name)
    · by_cases h : segment.isFurther = true
      · simp only [h, if_true]
        exact hv.fixed ""
      · simp only [h]
        exact hf

theorem textual_fill (hv : Textual V) (t : Template) {named : Q → List (String × String)}
    (hn : NamedTexts V named) (h : Tails V tail) : V fun q => fill t (named q) (tail q) := by
  have hfurther : V fun q => if t.hasBranchSlot then (tail q).further else (tail q).flat := by
    by_cases hslot : t.hasBranchSlot = true
    · simp only [hslot, if_true]
      exact h.further
    · simp only [hslot]
      exact h.flat hv
  exact textual_fillSegments hv hn h.waiting t.segments hfurther

theorem Chains.nil (hv : Textual V) : Chains V fun _ : Q => [] := by
  unfold Chains
  simp only [Step.tail, Tail.empty]
  exact ⟨hv.fixed "", .nil⟩

theorem Steps.snippet (hv : Textual V) (t : Template) {named : Q → List (String × String)}
    (hn : NamedTexts V named) : Steps V fun q => .snippet t (named q) := by
  intro chain hchain
  unfold Chains
  simp only [Step.tail]
  exact ⟨textual_fill hv t hn hchain, .nil⟩

theorem Steps.branch {chains : Q → List (List Step)} (h : ChainLists V chains) :
    Steps V fun q => .branch (chains q) := by
  intro chain hchain
  unfold Chains
  simp only [Step.tail]
  exact ⟨hchain.further, h⟩

theorem ChainLists.nil : ChainLists V fun _ : Q => [] := by
  unfold ChainLists
  simp only [Step.renderEach]
  exact .nil

theorem ChainLists.cons (hv : Textual V) {chains : Q → List (List Step)} (hchain : Chains V chain)
    (h : ChainLists V chains) : ChainLists V fun q => chain q :: chains q := by
  unfold ChainLists
  simp only [Step.renderEach]
  exact .cons (hchain.flat hv) h

theorem renderEach_eq_map (chains : List (List Step)) : Step.renderEach chains = chains.map Step.render := by
  induction chains with
  | nil => rw [Step.renderEach, List.map_nil]
  | cons chain rest ih => rw [Step.renderEach, ih, List.map_cons, Step.render]

end

/-! ## Plain scripts -/

/-- The script is a plain text, or runs its branches in order. -/
def Snippet.Plain (s : Snippet) : Prop := (∃ t, s.script = .text t) ∨ s.script = branchSplit.script

def SnippetTable.Plain (t : SnippetTable) : Prop := ∀ key s, t.get? key = some s → s.Plain

theorem Snippet.Plain.source {s : Snippet} (h : s.Plain) (r r' : Option NodeRecord) (count : Nat) :
    s.script.source ⟨r, count⟩ = s.script.source ⟨r', count⟩ := by
  obtain ⟨t, ht⟩ | hsplit := h
  · rw [ht]
    rfl
  · rw [hsplit]
    rfl

theorem SnippetTable.Plain.lookup? {t : SnippetTable} (h : t.Plain) {record : NodeRecord} {key : String}
    {s : Snippet} (hlook : t.lookup? record = some (key, s)) : s.Plain := by
  unfold SnippetTable.lookup? at hlook
  split at hlook
  · rename_i s' hs'
    cases hlook
    exact h _ _ hs'
  · obtain ⟨s', hs', heq⟩ := Option.map_eq_some_iff.1 hlook
    cases heq
    exact h _ _ hs'

theorem SnippetTable.plain_empty : empty.Plain := by
  intro key s h
  cases h

theorem SnippetTable.Plain.register {t : SnippetTable} (h : t.Plain) {s : Snippet} (hs : s.Plain)
    (key : String) : (t.register key s).Plain := by
  intro l s' hl
  rw [get?, SnippetTable.register, OrderedMap.get?_insert] at hl
  split at hl
  · cases hl
    exact hs
  · exact h l s' hl

theorem SnippetTable.plain_browser : browser.Plain := by
  have haddition : addition.Plain := Or.inl ⟨_, rfl⟩
  have hmultiplication : multiplication.Plain := Or.inl ⟨_, rfl⟩
  have hkind (kind : NodeKind) : (browserSnippet kind).Plain := by cases kind <;> exact Or.inl ⟨_, rfl⟩
  have hkinds (kinds : List NodeKind) (t : SnippetTable) (ht : t.Plain) :
      (kinds.foldl (fun t kind => t.register kind.identifier (browserSnippet kind)) t).Plain := by
    induction kinds generalizing t with
    | nil => exact ht
    | cons kind kinds ih => exact ih _ (ht.register (hkind kind) _)
  have hsplit : Snippet.branchSplit.Plain := Or.inr rfl
  have hall := hkinds NodeKind.all empty plain_empty
  exact ((hall.register haddition (variantKey .add)).register hmultiplication
    (variantKey .multiply)).register hsplit Program.splitIdentifier

/-! ## Programs that match -/

namespace Compiler

/-- Errors that name the same place on all sides. -/
inductive Blames (c : Compiler) (U : (Q → String) → Prop) (R : (Q → NodeRecord) → Prop) :
    (Q → CompileError) → Prop
  | unknownIdentifier {u : Q → String} (hu : U u) (identifier : String) :
    Blames c U R fun q => .unknownIdentifier (u q) identifier
  | unplaced : Blames c U R fun _ => .unknownIdentifier "" Program.splitIdentifier
  | missingSource {u v : Q → String} (hu : U u) (hv : U v) (input : Nat) :
    Blames c U R fun q => .missingSource (u q) input (v q)
  | missingOutput {u : Q → String} (hu : U u) (port : Nat) : Blames c U R fun q => .missingOutput (u q) port
  | dataCycle {u : Q → String} (hu : U u) : Blames c U R fun q => .dataCycle (u q)
  | recursionLimit {u : Q → String} (hu : U u) : Blames c U R fun q => .recursionLimit (u q) c.maxDepth
  | portless {r : Q → NodeRecord} {u : Q → String} (hr : R r) (hu : U u) {i : Nat}
    {input : Q → InputRecord} (h : ∀ q, (r q).inputs[i]? = some (input q))
    (hs : ∀ q, (input q).source = some (u q)) (hp : ∀ q, (input q).port = none) :
    Blames c U R fun q => .invalidInput (r q).uid i ("connected to '" ++ u q ++ "' without a source port")
  | refused {r : Q → NodeRecord} (hr : R r) {i : Nat} {input : Q → InputRecord} {value : Literal}
    {type : PortType} {reason : String} (h : ∀ q, (r q).inputs[i]? = some (input q))
    (hs : ∀ q, (input q).source = none) (hv : ∀ q, (input q).value = some value)
    (ht : ∀ q, (input q).type = type) (hf : c.formatter.format value type = .error reason) :
    Blames c U R fun q => .invalidInput (r q).uid i reason

/-- Input `i` is of the same kind in all records. -/
inductive InputsMatch (c : Compiler) (U V : (Q → String) → Prop) (r : Q → NodeRecord) (i : Nat) : Prop
  | absent (h : ∀ q, (r q).inputs[i]? = none)
  | unset {input : Q → InputRecord} (h : ∀ q, (r q).inputs[i]? = some (input q))
    (hs : ∀ q, (input q).source = none) (hv : ∀ q, (input q).value = none)
  | constant {input : Q → InputRecord} {value : Q → Literal} {t : Q → String}
    (h : ∀ q, (r q).inputs[i]? = some (input q)) (hs : ∀ q, (input q).source = none)
    (hv : ∀ q, (input q).value = some (value q)) (ht : V t)
    (hf : ∀ q, c.formatter.format (value q) (input q).type = .ok (t q))
  | refused {input : Q → InputRecord} {value : Literal} {type : PortType} {reason : String}
    (h : ∀ q, (r q).inputs[i]? = some (input q)) (hs : ∀ q, (input q).source = none)
    (hv : ∀ q, (input q).value = some value) (ht : ∀ q, (input q).type = type)
    (hf : c.formatter.format value type = .error reason)
  | source {input : Q → InputRecord} {u : Q → String} {port : Nat}
    (h : ∀ q, (r q).inputs[i]? = some (input q)) (hu : U u) (hs : ∀ q, (input q).source = some (u q))
    (hp : ∀ q, (input q).port = some port)
  | portless {input : Q → InputRecord} {u : Q → String} (h : ∀ q, (r q).inputs[i]? = some (input q))
    (hu : U u) (hs : ∀ q, (input q).source = some (u q)) (hp : ∀ q, (input q).port = none)

/-- Records in `R` have the same snippet and inputs that match, and uids in `U` are told apart in the same
way on all sides and find records in `R`. -/
structure Matching (c : Compiler) (program : Q → Program) (U : (Q → String) → Prop)
    (R : (Q → NodeRecord) → Prop) (V : (Q → String) → Prop) : Prop extends Textual V where
  uid : ∀ {r}, R r → U fun q => (r q).uid
  identifier : ∀ {r}, R r → ∃ name, ∀ q, (r q).identifier = name
  snippet : ∀ {r}, R r → ∃ found, ∀ q, c.snippets.lookup? (r q) = found
  input : ∀ {r}, R r → ∀ i, InputsMatch c U V r i
  apart : ∀ {u v}, U u → U v → (∀ q, u q = v q) ∨ ∀ q, u q ≠ v q
  find : ∀ {u}, U u → (∀ q, (program q).find? (u q) = none) ∨
    ∃ r, R r ∧ ∀ q, (program q).find? (u q) = some (r q)

section
variable {c : Compiler} {program : Q → Program} {U V : (Q → String) → Prop} {R : (Q → NodeRecord) → Prop}
  {E : (Q → CompileError) → Prop}

/-! ## Inputs and sources -/

theorem together_inputExpression (hm : Matching c program U R V) {r : Q → NodeRecord} (hr : R r) (i : Nat)
    {fetch : Q → Fetch} (hfetch : ∀ {u}, U u → ∀ port,
      Collect.Together (Blames c U R) V fun q => fetch q i (u q) port) :
    Collect.Together (Blames c U R) V fun q => c.inputExpression (fetch q) (r q) i := by
  cases hm.input hr i with
  | absent h =>
    simp only [inputExpression_absent (h _)]
    exact .pure (hm.fixed _)
  | unset h hs hv =>
    simp only [inputExpression_unset (h _) (hs _) (hv _)]
    exact .pure (hm.fixed _)
  | constant h hs hv ht hf =>
    simp only [inputExpression_constant (h _) (hs _) (hv _) (hf _)]
    exact .pure ht
  | @refused input value type reason h hs hv ht hf =>
    have hf' (q : Q) : c.formatter.format value (input q).type = .error reason := by rw [ht q, hf]
    simp only [inputExpression_refused (h _) (hs _) (hv _) (hf' _)]
    exact .throw (.refused hr h hs hv ht hf)
  | source h hu hs hp =>
    simp only [inputExpression_source (h _) (hs _) (hp _)]
    exact hfetch hu _
  | portless h hu hs hp =>
    simp only [inputExpression_portless (h _) (hs _) (hp _)]
    exact .throw (.portless hr hu h hs hp)

theorem together_inputExpressions {r : Q → NodeRecord} {fetch : Q → Fetch}
    (h : ∀ i, Collect.Together E V fun q => c.inputExpression (fetch q) (r q) i) (index : Nat)
    (names : List String) :
    Collect.Together E (NamedTexts V) fun q => c.inputExpressions (fetch q) (r q) index names := by
  induction names generalizing index with
  | nil => exact .pure .nil
  | cons name names ih =>
    simp only [inputExpressions]
    refine .bind (h index) fun text htext => ?_
    exact .bind (ih (index + 1)) fun rest hrest => .pure (.cons name htext hrest)

theorem run_hoist (key : String) (snippet : Snippet) (record : NodeRecord) (fs : Functions) :
    ∃ gs, (hoist key snippet record).run fs = .ok ((), gs) := ⟨_, rfl⟩

/-- A plain script is hoisted alike for all records. -/
theorem hoist_plain {snippet : Snippet} (h : snippet.Plain) (key : String) (r r' : NodeRecord) :
    hoist key snippet r = hoist key snippet r' := by
  unfold hoist
  rw [h.source (some r) (some r')]

/-- A uid is among those on the way on all sides, or on none. -/
theorem mem_visiting (hm : Matching c program U R V) {visiting : List (Q → String)}
    (hvisiting : ∀ v ∈ visiting, U v) {u : Q → String} (hu : U u) :
    (∀ q, u q ∈ visiting.map (· q)) ∨ ∀ q, u q ∉ visiting.map (· q) := by
  by_cases h : ∃ v ∈ visiting, ∀ q, u q = v q
  · obtain ⟨v, hv, hsame⟩ := h
    exact Or.inl fun q => List.mem_map.2 ⟨v, hv, (hsame q).symm⟩
  · refine Or.inr fun q hq => ?_
    obtain ⟨v, hv, hsame⟩ := List.mem_map.1 hq
    obtain hall | hnone := hm.apart hu (hvisiting v hv)
    · exact h ⟨v, hv, hall⟩
    · exact hnone q hsame.symm

theorem together_sourceExpression [Nonempty Q] (hm : Matching c program U R V) (hplain : c.snippets.Plain)
    (room : Nat) {visiting : List (Q → String)} (hvisiting : ∀ v ∈ visiting, U v) {consumer : Q → NodeRecord}
    (hc : R consumer) (i : Nat) {u : Q → String} (hu : U u) (port : Nat) :
    Collect.Together (Blames c U R) V fun q =>
      c.sourceExpression (program q) room (visiting.map (· q)) (consumer q) i (u q) port := by
  induction room generalizing visiting consumer i u port with
  | zero =>
    obtain hnone | ⟨r, hr, hfind⟩ := hm.find hu
    · simp only [sourceExpression_missing (hnone _)]
      exact .throw (.missingSource (hm.uid hc) hu i)
    obtain hin | hnew := mem_visiting hm hvisiting hu
    · simp only [sourceExpression_cycle (hfind _) (hin _)]
      exact .throw (.dataCycle hu)
    · simp only [sourceExpression_limit (hfind _) (hnew _)]
      exact .throw (.recursionLimit hu)
  | succ room ih =>
    obtain hnone | ⟨r, hr, hfind⟩ := hm.find hu
    · simp only [sourceExpression_missing (hnone _)]
      exact .throw (.missingSource (hm.uid hc) hu i)
    obtain hin | hnew := mem_visiting hm hvisiting hu
    · simp only [sourceExpression_cycle (hfind _) (hin _)]
      exact .throw (.dataCycle hu)
    obtain ⟨found, hfound⟩ := hm.snippet hr
    cases found with
    | none =>
      obtain ⟨name, hname⟩ := hm.identifier hr
      simp only [sourceExpression_unknown (hfind _) (hnew _) (hfound _), hname]
      exact .throw (.unknownIdentifier (hm.uid hr) name)
    | some found =>
      obtain ⟨key, snippet⟩ := found
      cases hout : snippet.outputs[port]? with
      | none =>
        simp only [sourceExpression_unlisted (hfind _) (hnew _) (hfound _) hout]
        exact .throw (.missingOutput (hm.uid hr) port)
      | some output =>
        simp only [sourceExpression_found (hfind _) (hnew _) (hfound _) hout]
        obtain ⟨q₀⟩ := ‹Nonempty Q›
        have hhoist (q : Q) : hoist key snippet (r q) = hoist key snippet (r q₀) :=
          hoist_plain (hplain.lookup? (hfound q)) key _ _
        have hon (v : Q → String) (hv : v ∈ u :: visiting) : U v := by
          obtain rfl | hv := List.mem_cons.1 hv
          · exact hu
          · exact hvisiting v hv
        have hinputs := together_inputExpressions (fun i => together_inputExpression hm hr i
          fun hv port => ih hon hr i hv port) 0 snippet.inputs
        simp only [hhoist]
        refine .after (fun fs => ⟨(), run_hoist key snippet _ fs⟩) fun _ => ?_
        exact .bind hinputs fun _ hnamed => .pure (textual_render hm.toTextual _ hnamed)

/-! ## Flows -/

theorem together_nodeStep [Nonempty Q] (hm : Matching c program U R V) (hplain : c.snippets.Plain)
    {r : Q → NodeRecord} (hr : R r) :
    Collect.Together (Blames c U R) (Steps V) fun q => c.nodeStep (program q) (r q) := by
  obtain ⟨found, hfound⟩ := hm.snippet hr
  unfold nodeStep
  simp only [hfound]
  cases found with
  | none =>
    obtain ⟨name, hname⟩ := hm.identifier hr
    simp only [hname]
    exact .throw (.unknownIdentifier (hm.uid hr) name)
  | some found =>
    obtain ⟨key, snippet⟩ := found
    obtain ⟨q₀⟩ := ‹Nonempty Q›
    have hsource (q : Q) : snippet.script.source ⟨some (r q), snippet.branchCount⟩ =
        snippet.script.source ⟨some (r q₀), snippet.branchCount⟩ :=
      (hplain.lookup? (hfound q)).source _ _ _
    have hnone : ∀ v ∈ ([] : List (Q → String)), U v := fun v hv => absurd hv List.not_mem_nil
    have hinputs := together_inputExpressions (fun i => together_inputExpression hm hr i
      fun hu port => together_sourceExpression hm hplain c.maxDepth hnone hr i hu port) 0 snippet.inputs
    simp only [hsource]
    exact .bind hinputs fun _ hnamed => .pure (Steps.snippet hm.toTextual _ hnamed)

/-- The nodes before an entry are all there, or none of them is. -/
inductive Lasts (U : (Q → String) → Prop) : (Q → Option String) → Prop
  | none : Lasts U fun _ => none
  | some {u : Q → String} (hu : U u) : Lasts U fun q => some (u q)

theorem together_splitStep (hv : Textual V) {last : Q → Option String} (hlast : Lasts U last) (count : Nat) :
    Collect.Together (Blames c U R) (Steps V) fun q => c.splitStep (last q) count := by
  unfold splitStep
  cases c.snippets.get? Program.splitIdentifier with
  | some snippet => exact .pure (Steps.snippet hv _ .nil)
  | none =>
    cases hlast with
    | none => exact .throw .unplaced
    | some hu => exact .throw (.unknownIdentifier hu Program.splitIdentifier)

section
variable {α : Type} {rec : Q → α → NodeRecord} {last : Q → Option String}

theorem Lasts.after (hm : Matching c program U R V) (hlast : Lasts U last) (entry : Entry α)
    (h : ∀ a ∈ entry.nodes, R fun q => rec q a) :
    Lasts U fun q => lastAfter (last q) (entry.map (rec q)) := by
  cases entry with
  | node a => exact .some (hm.uid (h a (List.mem_singleton.2 rfl)))
  | split count => exact hlast
  | branch branches => exact hlast

mutual

theorem together_entryStep [Nonempty Q] (hm : Matching c program U R V) (hplain : c.snippets.Plain) :
    (entry : Entry α) → (∀ a ∈ entry.nodes, R fun q => rec q a) →
      ∀ {last : Q → Option String}, Lasts U last →
      Collect.Together (Blames c U R) (Steps V) fun q =>
        c.entryStep (program q) (last q) (entry.map (rec q))
  | .node a, h, _, hlast => by
    simp only [Entry.map, entryStep]
    exact together_nodeStep hm hplain (h a (List.mem_singleton.2 rfl))
  | .split count, h, _, hlast => by
    simp only [Entry.map, entryStep]
    exact together_splitStep hm.toTextual hlast count
  | .branch branches, h, _, hlast => by
    simp only [Entry.map, entryStep]
    exact .bind (together_flowsSteps hm hplain branches h hlast) fun _ hchains =>
      .pure (Steps.branch hchains)

theorem together_flowSteps [Nonempty Q] (hm : Matching c program U R V) (hplain : c.snippets.Plain) :
    (flow : Flow α) → (∀ a ∈ Entry.flowNodes flow, R fun q => rec q a) →
      ∀ {last : Q → Option String}, Lasts U last →
      Collect.Together (Blames c U R) (Chains V) fun q =>
        c.flowSteps (program q) (last q) (Entry.mapFlow (rec q) flow)
  | [], h, _, hlast => by
    simp only [Entry.mapFlow, flowSteps]
    exact .pure (Chains.nil hm.toTextual)
  | entry :: rest, h, _, hlast => by
    have hentry (a : α) (ha : a ∈ entry.nodes) := h a (List.mem_append_left _ ha)
    have hrest (a : α) (ha : a ∈ Entry.flowNodes rest) := h a (List.mem_append_right _ ha)
    simp only [Entry.mapFlow, flowSteps_cons]
    refine .bind (together_entryStep hm hplain entry hentry hlast) fun step hstep => ?_
    have hlater := hlast.after hm entry hentry
    refine .bind (together_flowSteps hm hplain rest hrest hlater) fun steps hsteps => ?_
    exact .pure (hstep steps hsteps)

theorem together_flowsSteps [Nonempty Q] (hm : Matching c program U R V) (hplain : c.snippets.Plain) :
    (flows : List (Flow α)) → (∀ a ∈ Entry.branchNodes flows, R fun q => rec q a) →
      ∀ {last : Q → Option String}, Lasts U last →
      Collect.Together (Blames c U R) (ChainLists V) fun q =>
        c.flowsSteps (program q) (last q) (Entry.mapFlows (rec q) flows)
  | [], h, _, hlast => by
    simp only [Entry.mapFlows, flowsSteps]
    exact .pure ChainLists.nil
  | flow :: rest, h, _, hlast => by
    have hflow (a : α) (ha : a ∈ Entry.flowNodes flow) := h a (List.mem_append_left _ ha)
    have hrest (a : α) (ha : a ∈ Entry.branchNodes rest) := h a (List.mem_append_right _ ha)
    simp only [Entry.mapFlows, flowsSteps]
    refine .bind (together_flowSteps hm hplain flow hflow hlast) fun chain hchain => ?_
    refine .bind (together_flowsSteps hm hplain rest hrest hlast) fun chains hchains => ?_
    exact .pure (ChainLists.cons hm.toTextual hchain hchains)

end

/-- Programs that match fail together, or give scripts in `V` with the same functions. -/
theorem compile_together [Nonempty Q] (hm : Matching c program U R V) (hplain : c.snippets.Plain)
    {flows : List (Flow α)} (hflows : ∀ q, (program q).flows = Entry.mapFlows (rec q) flows)
    (h : ∀ a ∈ Entry.branchNodes flows, R fun q => rec q a) :
    (∃ e, Blames c U R e ∧ ∀ q, c.compile (program q) = .error (e q)) ∨
      ∃ script functions, V script ∧ ∀ q, c.compile (program q) = .ok ⟨script q, functions⟩ := by
  have hall := together_flowsSteps hm hplain flows h Lasts.none
  simp only [← hflows] at hall
  obtain ⟨e, he, hrun⟩ | ⟨chains, gs, hchains, hrun⟩ := hall []
  · refine Or.inl ⟨e, he, fun q => ?_⟩
    unfold compile
    rw [hrun q]
    rfl
  · have hscript := hm.append (hm.fixed (String.join (gs.map fun f => f.2 ++ "\n")))
      (hchains.intercalate hm.toTextual "\n")
    refine Or.inr ⟨_, gs.map (·.1), hscript, fun q => ?_⟩
    unfold compile
    rw [hrun q, renderEach_eq_map]
    rfl

end

end

end Compiler
end FlowGraph.Script

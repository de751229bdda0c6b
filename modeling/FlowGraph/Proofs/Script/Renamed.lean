import FlowGraph.Proofs.Program.Alike
import FlowGraph.Proofs.Script.SideBySide
import Mathlib.Data.List.Find

/-! # Compiling under other names

The uids of a program only tell its records apart. When they are replaced without making two of them
the same, the program compiles to the same script, and otherwise fails at the same place, under its new
name. Sources that name no record, uids that occur twice and cycles are no exception.
-/

namespace FlowGraph
set_option autoImplicit false

/-! ## Names of a program -/

/-- The uid is the one of a record, or feeds an input. -/
def Program.Mentions (p : Program) (uid : String) : Prop :=
  ∃ r ∈ p.records, r.uid = uid ∨ ∃ i ∈ r.inputs, i.source = some uid

/-- The new names tell the nodes of the program apart, and the empty name stays empty. -/
structure Renaming.Keeps (f : Renaming) (p : Program) : Prop where
  apart : ∀ {a b}, p.Mentions a → p.Mentions b → f.node a = f.node b → a = b
  empty : f.node "" = ""

theorem Renaming.keeps_of_injective {f : Renaming} (h : Function.Injective f.node) (hempty : f.node "" = "")
    (p : Program) : f.Keeps p := ⟨fun _ _ hsame => h hsame, hempty⟩

theorem Renaming.keeps_identity (p : Program) : identity.Keeps p :=
  keeps_of_injective Function.injective_id rfl p

theorem Program.records_rename (f : Renaming) (p : Program) :
    (p.rename f).records = p.records.map (NodeRecord.rename f) := by
  rw [records, records, List.map_append, rename, Entry.branchNodes_mapFlows]

/-- Looking up a new name finds what the old name did. -/
theorem Program.find?_rename {f : Renaming} {p : Program} (hf : f.Keeps p) {uid : String}
    (h : p.Mentions uid) : (p.rename f).find? (f.node uid) = (p.find? uid).map (NodeRecord.rename f) := by
  rw [find?, find?, records_rename, List.find?_map]
  refine congrArg _ (List.find?_congr fun r hr => ?_)
  have hmentions : p.Mentions r.uid := ⟨r, hr, Or.inl rfl⟩
  have hsame : f.node r.uid = f.node uid ↔ r.uid = uid :=
    ⟨hf.apart hmentions h, fun heq => congrArg f.node heq⟩
  rw [Bool.eq_iff_iff]
  simp only [Function.comp_apply, NodeRecord.rename, beq_iff_eq]
  exact hsame

namespace Script

theorem SnippetTable.lookup?_rename (t : SnippetTable) (f : Renaming) (r : NodeRecord) :
    t.lookup? (r.rename f) = t.lookup? r := rfl

namespace Compiler

/-! ## Errors under other names -/

/-- The same error, about the node under its new name. The message about an input without a source port
quotes the new name of the source; the formatter's own messages stay. -/
inductive Renamed (c : Compiler) (p : Program) (f : Renaming) : CompileError → CompileError → Prop
  | unknownIdentifier (node identifier : String) :
    Renamed c p f (.unknownIdentifier node identifier) (.unknownIdentifier (f.node node) identifier)
  | missingSource (node : String) (input : Nat) (source : String) :
    Renamed c p f (.missingSource node input source) (.missingSource (f.node node) input (f.node source))
  | missingOutput (node : String) (port : Nat) :
    Renamed c p f (.missingOutput node port) (.missingOutput (f.node node) port)
  | dataCycle (node : String) : Renamed c p f (.dataCycle node) (.dataCycle (f.node node))
  | recursionLimit (node : String) (limit : Nat) :
    Renamed c p f (.recursionLimit node limit) (.recursionLimit (f.node node) limit)
  | portless {r : NodeRecord} {i : Nat} {input : InputRecord} {source : String} (hr : r ∈ p.records)
    (h : r.inputs[i]? = some input) (hs : input.source = some source) (hp : input.port = none) :
    Renamed c p f
      (.invalidInput r.uid i ("connected to '" ++ source ++ "' without a source port"))
      (.invalidInput (f.node r.uid) i ("connected to '" ++ f.node source ++ "' without a source port"))
  | refused {r : NodeRecord} {i : Nat} {input : InputRecord} {value : Literal} {reason : String}
    (hr : r ∈ p.records) (h : r.inputs[i]? = some input) (hs : input.source = none)
    (hv : input.value = some value) (hf : c.formatter.format value input.type = .error reason) :
    Renamed c p f (.invalidInput r.uid i reason) (.invalidInput (f.node r.uid) i reason)

section
variable {c : Compiler} {p : Program}

/-! ## All renamings side by side -/

/-- The renamings that a program stands. -/
abbrev Renamings (p : Program) : Type := { f : Renaming // f.Keeps p }

/-- One uid of the program under all its names. -/
def UidOf (p : Program) (u : Renamings p → String) : Prop := ∃ uid, p.Mentions uid ∧ ∀ f, u f = f.1.node uid

/-- One record of the program under all names. -/
def RecordOf (p : Program) (r : Renamings p → NodeRecord) : Prop := ∃ r₀ ∈ p.records, ∀ f, r f = r₀.rename f.1

/-- A text in which no name shows. -/
def Nameless (p : Program) (t : Renamings p → String) : Prop := ∃ text, ∀ f, t f = text

theorem textual_nameless (p : Program) : Textual (Nameless p) where
  fixed t := ⟨t, fun _ => rfl⟩
  append := by
    rintro s t ⟨s₀, hs⟩ ⟨t₀, ht⟩
    exact ⟨s₀ ++ t₀, fun f => congrArg₂ _ (hs f) (ht f)⟩

theorem inputsMatch_rename {r : Renamings p → NodeRecord} (hr : RecordOf p r) (i : Nat) :
    InputsMatch c (UidOf p) (Nameless p) r i := by
  obtain ⟨r₀, hmem, hr⟩ := hr
  have hinputs (f : Renamings p) : (r f).inputs[i]? = r₀.inputs[i]?.map (InputRecord.rename f.1) := by
    rw [hr f, NodeRecord.rename, List.getElem?_map]
  cases h : r₀.inputs[i]? with
  | none =>
    simp only [h, Option.map_none] at hinputs
    exact .absent hinputs
  | some input =>
    simp only [h, Option.map_some] at hinputs
    cases hs : input.source with
    | none =>
      have hs' (f : Renamings p) : (input.rename f.1).source = none := by
        rw [InputRecord.rename, hs, Option.map_none]
      cases hv : input.value with
      | none => exact .unset hinputs hs' fun _ => hv
      | some value =>
        cases hformat : c.formatter.format value input.type with
        | ok text =>
          have htext : Nameless p fun _ => text := ⟨text, fun _ => rfl⟩
          exact .constant hinputs hs' (fun _ => hv) htext fun _ => hformat
        | error reason => exact .refused hinputs hs' (fun _ => hv) (fun _ => rfl) hformat
    | some source =>
      have hmentions : p.Mentions source := ⟨r₀, hmem, Or.inr ⟨input, List.mem_of_getElem? h, hs⟩⟩
      have hu : UidOf p fun f => f.1.node source := ⟨source, hmentions, fun _ => rfl⟩
      have hs' (f : Renamings p) : (input.rename f.1).source = some (f.1.node source) := by
        rw [InputRecord.rename, hs, Option.map_some]
      cases hp : input.port with
      | none => exact .portless hinputs hu hs' fun _ => hp
      | some port => exact .source hinputs hu hs' fun _ => hp

theorem matching_rename (c : Compiler) (p : Program) :
    Matching c (fun f : Renamings p => p.rename f.1) (UidOf p) (RecordOf p) (Nameless p) where
  toTextual := textual_nameless p
  uid := by
    rintro r ⟨r₀, hmem, hr⟩
    refine ⟨r₀.uid, ⟨r₀, hmem, Or.inl rfl⟩, fun f => ?_⟩
    exact congrArg NodeRecord.uid (hr f)
  identifier := by
    rintro r ⟨r₀, -, hr⟩
    refine ⟨r₀.identifier, fun f => ?_⟩
    rw [hr f]
    rfl
  snippet := by
    rintro r ⟨r₀, -, hr⟩
    refine ⟨c.snippets.lookup? r₀, fun f => ?_⟩
    rw [hr f, SnippetTable.lookup?_rename]
  input := inputsMatch_rename
  apart := by
    rintro u v ⟨a, ha, hu⟩ ⟨b, hb, hv⟩
    by_cases hab : a = b
    · exact Or.inl fun f => by rw [hu, hv, hab]
    · refine Or.inr fun f hsame => hab (f.2.apart ha hb ?_)
      rw [← hu, ← hv, hsame]
  find := by
    rintro u ⟨uid, huid, hu⟩
    have hfind (f : Renamings p) :
        (p.rename f.1).find? (u f) = (p.find? uid).map (NodeRecord.rename f.1) := by
      rw [hu f, Program.find?_rename f.2 huid]
    cases hfound : p.find? uid with
    | none => exact Or.inl fun f => by rw [hfind f, hfound, Option.map_none]
    | some r₀ =>
      have hr₀ : RecordOf p fun f => r₀.rename f.1 :=
        ⟨r₀, List.mem_of_find?_eq_some hfound, fun _ => rfl⟩
      exact Or.inr ⟨_, hr₀, fun f => by rw [hfind f, hfound, Option.map_some]⟩

/-- What is blamed on all sides is one error under all names. -/
theorem renamed_of_blames {e : Renamings p → CompileError} (h : Blames c (UidOf p) (RecordOf p) e)
    (f : Renamings p) : Renamed c p f.1 (e ⟨.identity, Renaming.keeps_identity p⟩) (e f) := by
  cases h with
  | unknownIdentifier hu identifier =>
    obtain ⟨uid, -, hu⟩ := hu
    simp only [hu]
    exact .unknownIdentifier uid identifier
  | unplaced =>
    have hunplaced := Renamed.unknownIdentifier (c := c) (p := p) (f := f.1) "" Program.splitIdentifier
    rw [f.2.empty] at hunplaced
    exact hunplaced
  | missingSource hu hv input =>
    obtain ⟨uid, -, hu⟩ := hu
    obtain ⟨source, -, hv⟩ := hv
    simp only [hu, hv]
    exact .missingSource uid input source
  | missingOutput hu port =>
    obtain ⟨uid, -, hu⟩ := hu
    simp only [hu]
    exact .missingOutput uid port
  | dataCycle hu =>
    obtain ⟨uid, -, hu⟩ := hu
    simp only [hu]
    exact .dataCycle uid
  | recursionLimit hu =>
    obtain ⟨uid, -, hu⟩ := hu
    simp only [hu]
    exact .recursionLimit uid _
  | portless hr hu h hs hp =>
    obtain ⟨r, hmem, hr⟩ := hr
    obtain ⟨source, -, hu⟩ := hu
    have hin := h ⟨.identity, Renaming.keeps_identity p⟩
    rw [hr, NodeRecord.rename_identity] at hin
    have hsource := hs ⟨.identity, Renaming.keeps_identity p⟩
    rw [hu] at hsource
    simp only [hr, hu]
    exact Renamed.portless (r := r) hmem hin hsource (hp _)
  | refused hr h hs hv ht hf =>
    obtain ⟨r, hmem, hr⟩ := hr
    have hin := h ⟨.identity, Renaming.keeps_identity p⟩
    rw [hr, NodeRecord.rename_identity] at hin
    rw [← ht ⟨.identity, Renaming.keeps_identity p⟩] at hf
    simp only [hr]
    exact Renamed.refused (r := r) hmem hin (hs _) (hv _) hf

end

/-! ## Compilations under other names -/

/-- Under other names a program compiles to the same script, or fails with the same error about the
node under its new name. -/
theorem compile_rename (c : Compiler) (hplain : c.snippets.Plain) (p : Program) (f : Renaming)
    (hf : f.Keeps p) :
    (∀ r, c.compile p = .ok r → c.compile (p.rename f) = .ok r) ∧
      ∀ e, c.compile p = .error e → ∃ e', Renamed c p f e e' ∧ c.compile (p.rename f) = .error e' := by
  have : Nonempty (Renamings p) := ⟨⟨.identity, Renaming.keeps_identity p⟩⟩
  have hmem (r : NodeRecord) (hr : r ∈ Entry.branchNodes p.flows) :
      RecordOf p fun f => r.rename f.1 := ⟨r, List.mem_append_left _ hr, fun _ => rfl⟩
  obtain ⟨e, he, hrun⟩ | ⟨script, functions, ⟨text, hscript⟩, hrun⟩ :=
    compile_together (matching_rename c p) hplain (fun _ => rfl) hmem
  · have hold := hrun ⟨.identity, Renaming.keeps_identity p⟩
    rw [Program.rename_identity] at hold
    rw [hold]
    constructor
    · intro r hr
      cases hr
    · rintro _ ⟨⟩
      exact ⟨_, renamed_of_blames he ⟨f, hf⟩, hrun ⟨f, hf⟩⟩
  · have hold := hrun ⟨.identity, Renaming.keeps_identity p⟩
    have hnew := hrun ⟨f, hf⟩
    rw [Program.rename_identity, hscript] at hold
    rw [hscript] at hnew
    rw [hold, hnew]
    constructor
    · rintro r ⟨⟩
      rfl
    · intro e he
      cases he

/-- A sum that feeds itself is logged. -/
def selfFed : Program where
  flows := [[.node ⟨"start", "OpenVS-Base-Event-Start", "StartEventNode", 0.0, 0.0, 1.0, none,
      [[⟨"c0", "log", 0⟩]], [], []⟩,
    .node ⟨"log", "OpenVS-Base-Console-Log", "ConsoleLogNode", 0.0, 0.0, 1.0, none, [[]], [],
      [⟨some "sum", some 0, .any, false, none⟩]⟩]]
  additional := [⟨"sum", "OpenVS-Base-Basic-Add", "AdditionNode", 0.0, 0.0, 1.0, none, [],
    [[⟨"c1", "log", 0⟩, ⟨"c2", "sum", 1⟩]],
    [⟨none, none, .num, true, some (.int 1)⟩, ⟨some "sum", some 0, .num, false, none⟩]⟩]
  variableTypes := .empty

def anew : Renaming := ⟨fun uid => if uid = "" then "" else "new-" ++ uid, id⟩

theorem keeps_anew (p : Program) : anew.Keeps p := by
  have hnew (uid : String) : "new-" ++ uid ≠ "" := by simp
  refine Renaming.keeps_of_injective (fun a b hab => ?_) rfl p
  simp only [anew] at hab
  split at hab <;> split at hab
  · simp_all
  · exact absurd hab.symm (hnew b)
  · exact absurd hab (hnew a)
  · exact (String.append_right_inj "new-").1 hab

theorem compile_rename_selfFed :
    standard.snippets.Plain ∧ anew.Keeps selfFed ∧ ∃ e', Renamed standard selfFed anew (.dataCycle "sum") e' ∧
      standard.compile (selfFed.rename anew) = .error e' := by
  have hrename := compile_rename standard SnippetTable.plain_browser selfFed anew (keeps_anew selfFed)
  exact ⟨SnippetTable.plain_browser, keeps_anew selfFed, hrename.2 _ (by decide +kernel)⟩

end Compiler
end Script
end FlowGraph

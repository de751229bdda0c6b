import FlowGraph.Program.Document
import FlowGraph.Proofs.Document.Nesting
import FlowGraph.Proofs.Program.Flow

/-! # What a program is written with

The leaves of the document of a program are names, marks of absence and of truth, the doubles and
constants of its records, and counts: the places of plugs and sockets, and how many ways divide. What
holds of these holds of every leaf.
-/

namespace FlowGraph
set_option autoImplicit false

/-! ## Doubles, constants and counts -/

namespace Literal

mutual

def floats : Literal → List Float
  | .float x => [x]
  | .list items => floatsIn items
  | _ => []

def floatsIn : List Literal → List Float
  | [] => []
  | l :: rest => l.floats ++ floatsIn rest

end

end Literal

namespace NodeRecord

def scalars (r : NodeRecord) : List Scalar := [r.x, r.y, r.scale]

def constants (r : NodeRecord) : List Literal := r.inputs.filterMap (·.value)

/-- The places of sockets and plugs that a record names. -/
def counts (r : NodeRecord) : List Nat :=
  (r.flowPlugs.flatten ++ r.dataPlugs.flatten).map (·.socket) ++ r.inputs.filterMap (·.port)

end NodeRecord

namespace Entry
variable {α β : Type}

mutual

/-- The numbers of ways that are announced. -/
def splits : Entry α → List Nat
  | .node _ => []
  | .split n => [n]
  | .branch bs => branchSplits bs

def flowSplits : Flow α → List Nat
  | [] => []
  | e :: rest => e.splits ++ flowSplits rest

def branchSplits : List (Flow α) → List Nat
  | [] => []
  | flow :: rest => flowSplits flow ++ branchSplits rest

end

end Entry

def Program.counts (p : Program) : List Nat :=
  Entry.branchSplits p.flows ++ p.records.flatMap NodeRecord.counts

/-! ## Leaves -/

/-- The predicate holds of everything but doubles and counts. -/
structure Document.Common (P : Document → Prop) : Prop where
  null : P .null
  bool : ∀ b, P (.bool b)
  text : ∀ s, P (.text s)
  int : ∀ n : Int64, P (.int n.toInt)

/-- The predicate holds of the doubles and counts of the record. -/
structure NodeRecord.Written (P : Document → Prop) (r : NodeRecord) : Prop where
  scalar : ∀ x ∈ r.scalars, P x.toDocument
  constant : ∀ l ∈ r.constants, ∀ x ∈ l.floats, P (.float x)
  count : ∀ n ∈ r.counts, P (.int n)

section
variable {P : Document → Prop}

namespace Literal

mutual

theorem leaves_toDocument (hP : Document.Common P) : (l : Literal) → (∀ x ∈ l.floats, P (.float x)) →
    ∀ leaf ∈ l.toDocument.leaves, P leaf
  | .bool b, _, leaf, hleaf => by
    rw [List.mem_singleton.1 hleaf]
    exact hP.bool b
  | .int n, _, leaf, hleaf => by
    rw [List.mem_singleton.1 hleaf]
    exact hP.int n
  | .float x, h, leaf, hleaf => by
    rw [List.mem_singleton.1 hleaf]
    exact h x (List.mem_singleton.2 rfl)
  | .text s, _, leaf, hleaf => by
    rw [List.mem_singleton.1 hleaf]
    exact hP.text s
  | .list items, h, leaf, hleaf => leaves_toDocuments hP items h leaf hleaf

theorem leaves_toDocuments (hP : Document.Common P) : (ls : List Literal) →
    (∀ x ∈ floatsIn ls, P (.float x)) → ∀ leaf ∈ Document.leavesOf (toDocuments ls), P leaf
  | [], _, _, hleaf => by cases hleaf
  | l :: rest, h, leaf, hleaf => by
    obtain hleaf | hleaf := List.mem_append.1 hleaf
    · exact leaves_toDocument hP l (fun x hx => h x (List.mem_append_left _ hx)) leaf hleaf
    · exact leaves_toDocuments hP rest (fun x hx => h x (List.mem_append_right _ hx)) leaf hleaf

end

end Literal

theorem Document.leaves_ofOption {α : Type} {write : α → Document} (hP : Common P) {o : Option α}
    (h : ∀ a ∈ o, ∀ leaf ∈ (write a).leaves, P leaf) : ∀ leaf ∈ (ofOption write o).leaves, P leaf := by
  cases o with
  | none =>
    intro leaf hleaf
    rw [List.mem_singleton.1 hleaf]
    exact hP.null
  | some a => exact h a rfl

/-- What holds of all fields of an object holds of the object. -/
theorem Document.leaves_object {fields : List (String × Document)}
    (h : ∀ f ∈ fields, ∀ leaf ∈ f.2.leaves, P leaf) : ∀ leaf ∈ (Document.object fields).leaves, P leaf := by
  intro leaf hleaf
  obtain ⟨f, hf, hleaf⟩ := mem_leavesIn.1 hleaf
  exact h f hf leaf hleaf

theorem Document.leaves_list {items : List Document} (h : ∀ d ∈ items, ∀ leaf ∈ d.leaves, P leaf) :
    ∀ leaf ∈ (Document.list items).leaves, P leaf := by
  intro leaf hleaf
  obtain ⟨d, hd, hleaf⟩ := mem_leavesOf.1 hleaf
  exact h d hd leaf hleaf

/-- A leaf is its own only leaf. -/
theorem Document.leaves_single {d : Document} (hd : d.leaves = [d]) (h : P d) :
    ∀ leaf ∈ d.leaves, P leaf := by
  intro leaf hleaf
  rw [hd, List.mem_singleton] at hleaf
  rw [hleaf]
  exact h

theorem PortLink.leaves_toDocument (hP : Document.Common P) {l : PortLink} (h : P (.int l.socket)) :
    ∀ leaf ∈ l.toDocument.leaves, P leaf := by
  refine Document.leaves_object fun f hf => ?_
  simp only [List.mem_cons, List.not_mem_nil, or_false] at hf
  obtain rfl | rfl | rfl := hf
  · exact Document.leaves_single rfl (hP.text _)
  · exact Document.leaves_single rfl (hP.text _)
  · exact Document.leaves_single rfl h

theorem InputRecord.leaves_toDocument (hP : Document.Common P) {i : InputRecord}
    (hvalue : ∀ l ∈ i.value, ∀ x ∈ l.floats, P (.float x)) (hport : ∀ n ∈ i.port, P (.int n)) :
    ∀ leaf ∈ i.toDocument.leaves, P leaf := by
  refine Document.leaves_object fun f hf => ?_
  simp only [List.mem_cons, List.not_mem_nil, or_false] at hf
  obtain rfl | rfl | rfl | rfl | rfl := hf
  · exact Document.leaves_ofOption hP fun s _ => Document.leaves_single rfl (hP.text s)
  · exact Document.leaves_ofOption hP fun n hn => Document.leaves_single rfl (hport n hn)
  · exact Document.leaves_single rfl (hP.text _)
  · exact Document.leaves_single rfl (hP.bool _)
  · exact Document.leaves_ofOption hP fun l hl => l.leaves_toDocument hP (hvalue l hl)

namespace NodeRecord

theorem leaves_linksDocument (hP : Document.Common P) {plugs : List (List PortLink)}
    (h : ∀ n : Nat, n ∈ plugs.flatten.map (·.socket) → P (.int n)) :
    ∀ leaf ∈ (linksDocument plugs).leaves, P leaf := by
  refine Document.leaves_list fun d hd => ?_
  obtain ⟨links, hlinks, rfl⟩ := List.mem_map.1 hd
  refine Document.leaves_list fun d hd => ?_
  obtain ⟨l, hl, rfl⟩ := List.mem_map.1 hd
  exact l.leaves_toDocument hP
    (h l.socket (List.mem_map.2 ⟨l, List.mem_flatten.2 ⟨links, hlinks, hl⟩, rfl⟩))

theorem leaves_fields (hP : Document.Common P) {r : NodeRecord} (hr : r.Written P) :
    ∀ f ∈ r.fields, ∀ leaf ∈ f.2.leaves, P leaf := by
  have hcount (n : Nat) (hn : n ∈ r.counts) := hr.count n hn
  simp only [counts, List.map_append, List.mem_append] at hcount
  intro f hf
  simp only [fields, List.mem_append, List.mem_cons, List.not_mem_nil, or_false] at hf
  obtain ((rfl | rfl | rfl | rfl | rfl | rfl) | hf) | rfl | rfl | rfl := hf
  · exact Document.leaves_single rfl (hP.text _)
  · exact Document.leaves_single rfl (hP.text _)
  · exact Document.leaves_single rfl (hP.text _)
  · exact Document.leaves_single rfl (hr.scalar r.x (by simp [scalars]))
  · exact Document.leaves_single rfl (hr.scalar r.y (by simp [scalars]))
  · exact Document.leaves_single rfl (hr.scalar r.scale (by simp [scalars]))
  · obtain ⟨v, -, rfl⟩ := Option.map_eq_some_iff.1 (Option.mem_toList.1 hf)
    exact Document.leaves_single rfl (hP.text _)
  · exact leaves_linksDocument hP fun n hn => hcount n (Or.inl (Or.inl hn))
  · exact leaves_linksDocument hP fun n hn => hcount n (Or.inl (Or.inr hn))
  · refine Document.leaves_list fun d hd => ?_
    obtain ⟨i, hi, rfl⟩ := List.mem_map.1 hd
    refine i.leaves_toDocument hP (fun l hl => ?_) fun n hn => ?_
    · exact hr.constant l (List.mem_filterMap.2 ⟨i, hi, hl⟩)
    · exact hcount n (Or.inr (List.mem_filterMap.2 ⟨i, hi, hn⟩))

theorem leaves_toDocument (hP : Document.Common P) {r : NodeRecord} (hr : r.Written P) :
    ∀ leaf ∈ r.toDocument.leaves, P leaf := Document.leaves_object (leaves_fields hP hr)

end NodeRecord

namespace Entry

mutual

theorem leaves_toDocument (hP : Document.Common P) : (e : Entry NodeRecord) →
    (∀ r ∈ e.nodes, r.Written P) → (∀ n ∈ e.splits, P (.int n)) → ∀ leaf ∈ e.toDocument.leaves, P leaf
  | .node r, hr, _ => by
    refine Document.leaves_object fun f hf => ?_
    obtain rfl | hf := List.mem_cons.1 hf
    · exact Document.leaves_single rfl (hP.text _)
    · exact NodeRecord.leaves_fields hP (hr r (List.mem_singleton.2 rfl)) f hf
  | .split n, _, hn => by
    refine Document.leaves_object fun f hf => ?_
    simp only [List.mem_cons, List.not_mem_nil, or_false] at hf
    obtain rfl | rfl := hf
    · exact Document.leaves_single rfl (hP.text _)
    · exact Document.leaves_single rfl (hn n (List.mem_singleton.2 rfl))
  | .branch bs, hr, hn => by
    have hbranches := leaves_flowDocuments hP bs hr hn
    refine Document.leaves_object fun f hf => ?_
    simp only [List.mem_cons, List.not_mem_nil, or_false] at hf
    obtain rfl | rfl := hf
    · exact Document.leaves_single rfl (hP.text _)
    · exact hbranches

theorem leaves_entryDocuments (hP : Document.Common P) : (flow : Flow NodeRecord) →
    (∀ r ∈ flowNodes flow, r.Written P) → (∀ n ∈ flowSplits flow, P (.int n)) →
      ∀ leaf ∈ Document.leavesOf (entryDocuments flow), P leaf
  | [], _, _, _, hleaf => by cases hleaf
  | e :: rest, hr, hn, leaf, hleaf => by
    obtain hleaf | hleaf := List.mem_append.1 hleaf
    · exact leaves_toDocument hP e (fun r h => hr r (List.mem_append_left _ h))
        (fun n h => hn n (List.mem_append_left _ h)) leaf hleaf
    · exact leaves_entryDocuments hP rest (fun r h => hr r (List.mem_append_right _ h))
        (fun n h => hn n (List.mem_append_right _ h)) leaf hleaf

theorem leaves_flowDocuments (hP : Document.Common P) : (flows : List (Flow NodeRecord)) →
    (∀ r ∈ branchNodes flows, r.Written P) → (∀ n ∈ branchSplits flows, P (.int n)) →
      ∀ leaf ∈ Document.leavesOf (flowDocuments flows), P leaf
  | [], _, _, _, hleaf => by cases hleaf
  | flow :: rest, hr, hn, leaf, hleaf => by
    obtain hleaf | hleaf := List.mem_append.1 hleaf
    · exact leaves_entryDocuments hP flow (fun r h => hr r (List.mem_append_left _ h))
        (fun n h => hn n (List.mem_append_left _ h)) leaf hleaf
    · exact leaves_flowDocuments hP rest (fun r h => hr r (List.mem_append_right _ h))
        (fun n h => hn n (List.mem_append_right _ h)) leaf hleaf

end

end Entry

namespace Program

theorem leaves_variablesDocument (hP : Document.Common P) (m : SortedMap PortType) :
    ∀ leaf ∈ (variablesDocument m).leaves, P leaf := by
  refine Document.leaves_object fun f hf => ?_
  obtain ⟨e, -, rfl⟩ := List.mem_map.1 hf
  exact Document.leaves_single rfl (hP.text _)

theorem leaves_toDocument (hP : Document.Common P) {p : Program} (hr : ∀ r ∈ p.records, r.Written P)
    (hn : ∀ n ∈ Entry.branchSplits p.flows, P (.int n)) : ∀ leaf ∈ p.toDocument.leaves, P leaf := by
  have hflows := Entry.leaves_flowDocuments hP p.flows (fun r h => hr r (List.mem_append_left _ h)) hn
  have hadditional : ∀ leaf ∈ (Document.list (p.additional.map NodeRecord.toDocument)).leaves, P leaf := by
    refine Document.leaves_list fun d hd => ?_
    obtain ⟨r, h, rfl⟩ := List.mem_map.1 hd
    exact NodeRecord.leaves_toDocument hP (hr r (List.mem_append_right _ h))
  refine Document.leaves_object fun f hf => ?_
  obtain hf | hf := List.mem_append.1 hf
  · simp only [List.mem_cons, List.not_mem_nil, or_false] at hf
    obtain rfl | rfl := hf
    · exact hflows
    · exact hadditional
  · split at hf
    · cases hf
    · rw [List.mem_singleton.1 hf]
      exact leaves_variablesDocument hP p.variableTypes

end Program

end

end FlowGraph

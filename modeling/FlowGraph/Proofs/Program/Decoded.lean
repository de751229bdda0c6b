import FlowGraph.Proofs.Program.Written

/-! # Programs read back from their documents

Each part of a program is read back from the document that it is written as. What is needed of the
program is that its doubles are numbers: then the document holds values everywhere, and the reader gives
the program that it came from.
-/

namespace FlowGraph
set_option autoImplicit false

/-! ## Doubles that are numbers -/

def Scalar.isFinite : Scalar → Bool
  | .ofFloat x => x.isFinite
  | .negativeNan => false

namespace NodeRecord

/-- The record holds no double that is infinite or undefined. -/
structure Finite (r : NodeRecord) : Prop where
  scalar : ∀ x ∈ r.scalars, x.isFinite
  constant : ∀ l ∈ r.constants, ∀ x ∈ l.floats, x.isFinite

end NodeRecord

instance NodeRecord.decidableFinite (r : NodeRecord) : Decidable r.Finite :=
  decidable_of_iff ((∀ x ∈ r.scalars, x.isFinite) ∧ ∀ l ∈ r.constants, ∀ x ∈ l.floats, x.isFinite)
    ⟨fun h => ⟨h.1, h.2⟩, fun h => ⟨h.scalar, h.constant⟩⟩

def Program.Finite (p : Program) : Prop := ∀ r ∈ p.records, r.Finite

instance Program.decidableFinite (p : Program) : Decidable p.Finite :=
  inferInstanceAs (Decidable (∀ r ∈ p.records, r.Finite))

/-! ## Documents that hold a value everywhere -/

namespace Document

mutual

/-- The document is a value in the usual sense: its doubles are numbers, and it can be read throughout. -/
def proper : Document → Bool
  | .float x => x.isFinite
  | .list items => properItems items
  | .object fields => properFields fields
  | .unreadable => false
  | _ => true

def properItems : List Document → Bool
  | [] => true
  | d :: rest => d.proper && properItems rest

def properFields : List (String × Document) → Bool
  | [] => true
  | (_, d) :: rest => d.proper && properFields rest

end

mutual

theorem proper_of_leaves : (d : Document) → (∀ leaf ∈ d.leaves, leaf.proper) → d.proper
  | .null, _ => rfl
  | .bool _, _ => rfl
  | .int _, _ => rfl
  | .float x, h => h (.float x) (List.mem_singleton.2 rfl)
  | .text _, _ => rfl
  | .list items, h => properItems_of_leaves items h
  | .object fields, h => properFields_of_leaves fields h
  | .unreadable, h => h .unreadable (List.mem_singleton.2 rfl)

theorem properItems_of_leaves : (items : List Document) → (∀ leaf ∈ leavesOf items, leaf.proper) →
    properItems items
  | [], _ => rfl
  | d :: rest, h => by
    rw [properItems, proper_of_leaves d fun leaf hleaf => h leaf (List.mem_append_left _ hleaf),
      properItems_of_leaves rest fun leaf hleaf => h leaf (List.mem_append_right _ hleaf)]
    rfl

theorem properFields_of_leaves : (fields : List (String × Document)) →
    (∀ leaf ∈ leavesIn fields, leaf.proper) → properFields fields
  | [], _ => rfl
  | (_, d) :: rest, h => by
    rw [properFields, proper_of_leaves d fun leaf hleaf => h leaf (List.mem_append_left _ hleaf),
      properFields_of_leaves rest fun leaf hleaf => h leaf (List.mem_append_right _ hleaf)]
    rfl

end

theorem common_proper : Common (fun d => d.proper) where
  null := rfl
  bool _ := rfl
  text _ := rfl
  int _ := rfl

mutual

theorem readable_of_proper : (d : Document) → d.proper → d.readable
  | .null, _ => rfl
  | .bool _, _ => rfl
  | .int _, _ => rfl
  | .float _, _ => rfl
  | .text _, _ => rfl
  | .list items, h => readableItems_of_proper items h
  | .object fields, h => readableFields_of_proper fields h
  | .unreadable, h => h

theorem readableItems_of_proper : (items : List Document) → properItems items → readableItems items
  | [], _ => rfl
  | d :: rest, h => by
    obtain ⟨hd, hrest⟩ := Bool.and_eq_true_iff.1 h
    rw [readableItems, readable_of_proper d hd, readableItems_of_proper rest hrest]
    rfl

theorem readableFields_of_proper : (fields : List (String × Document)) → properFields fields →
    readableFields fields
  | [], _ => rfl
  | (_, d) :: rest, h => by
    obtain ⟨hd, hrest⟩ := Bool.and_eq_true_iff.1 h
    rw [readableFields, readable_of_proper d hd, readableFields_of_proper rest hrest]
    rfl

end

/-! ## Lists and absent values -/

theorem list?_map {α : Type} {item? : Document → Option α} {write : α → Document} {as : List α}
    (h : ∀ a ∈ as, item? (write a) = some a) : list? item? (.list (as.map write)) = some as := by
  show (as.map write).mapM item? = some as
  induction as with
  | nil => rfl
  | cons a rest ih =>
    rw [List.map_cons, List.mapM_cons, h a List.mem_cons_self,
      ih fun b hb => h b (List.mem_cons_of_mem _ hb)]
    rfl

theorem optional?_ofOption {α : Type} {value? : Document → Option α} {write : α → Document}
    (hnull : ∀ a, write a ≠ .null) {o : Option α} (h : ∀ a ∈ o, value? (write a) = some a) :
    optional? value? (ofOption write o) = some o := by
  cases o with
  | none => rfl
  | some a =>
    show optional? value? (write a) = some (some a)
    rw [optional?, h a rfl]
    · rfl
    · exact hnull a

end Document

/-! ## Records -/

theorem PortType.ofDocument?_name (held : Bool) (t : PortType) :
    PortType.ofDocument? held (.text t.name) = some t := by
  show ofName? t.name = some t
  cases t <;> decide

theorem Variant.ofDocument?_key (held : Bool) (v : Variant) :
    Variant.ofDocument? held (.text v.key) = some v := by
  show ofKey? v.key = some v
  cases v <;> decide

theorem Scalar.ofDocument?_toDocument {x : Scalar} (h : x.isFinite) :
    Scalar.ofDocument? x.toDocument = some x := by
  cases x with
  | ofFloat x => rfl
  | negativeNan => cases h

theorem Scalar.proper_toDocument {x : Scalar} (h : x.isFinite) : x.toDocument.proper := by
  cases x with
  | ofFloat x => exact h
  | negativeNan => cases h

namespace Literal

/-- A number of 64 bits stays a whole number. -/
theorem ofInt_toInt (n : Int64) : ofInt n.toInt = .int n := by
  have hword : Decimal.inSignedWord n.toInt = true := by
    have hlow := Int64.le_toInt n
    have hhigh := Int64.toInt_lt n
    simp only [Decimal.inSignedWord, Bool.and_eq_true, decide_eq_true_eq]
    omega
  rw [ofInt, if_pos hword, Int64.ofInt_toInt]

mutual

theorem ofDocument?_toDocument : (l : Literal) → ofDocument? l.toDocument = some l
  | .bool _ => rfl
  | .int n => congrArg some (ofInt_toInt n)
  | .float _ => rfl
  | .text _ => rfl
  | .list items => by rw [toDocument, ofDocument?, ofDocuments?_toDocuments items]; rfl

theorem ofDocuments?_toDocuments : (ls : List Literal) → ofDocuments? (toDocuments ls) = some ls
  | [] => rfl
  | l :: rest => by
    rw [toDocuments, ofDocuments?, ofDocument?_toDocument l, ofDocuments?_toDocuments rest]

end

theorem toDocument_ne_null (l : Literal) : l.toDocument ≠ .null := by
  cases l <;> simp [toDocument]

end Literal

theorem PortLink.ofDocument?_toDocument (l : PortLink) : PortLink.ofDocument? l.toDocument = some l := rfl

theorem InputRecord.ofDocument?_toDocument (held : Bool) (i : InputRecord) :
    InputRecord.ofDocument? held i.toDocument = some i := by
  have hsource : Document.optional? Document.text? (.ofOption .text i.source) = some i.source :=
    Document.optional?_ofOption (fun _ h => by cases h) fun _ _ => rfl
  have hport : Document.optional? Document.nat? (.ofOption (fun n => .int (Int.ofNat n)) i.port) =
      some i.port := Document.optional?_ofOption (fun _ h => by cases h) fun _ _ => rfl
  have hvalue : Document.optional? Literal.ofDocument? (.ofOption Literal.toDocument i.value) =
      some i.value :=
    Document.optional?_ofOption Literal.toDocument_ne_null fun l _ => l.ofDocument?_toDocument
  have htype := PortType.ofDocument?_name held i.type
  show (do
    return InputRecord.mk (← Document.optional? Document.text? (.ofOption .text i.source))
      (← Document.optional? Document.nat? (.ofOption (fun n => .int (Int.ofNat n)) i.port))
      (← PortType.ofDocument? held (.text i.type.name)) (← some i.constant)
      (← Document.optional? Literal.ofDocument? (.ofOption Literal.toDocument i.value))) = some i
  rw [hsource, hport, htype, hvalue]
  rfl

namespace NodeRecord

theorem linksOfDocument?_linksDocument (plugs : List (List PortLink)) :
    linksOfDocument? (linksDocument plugs) = some plugs :=
  Document.list?_map fun _ _ => Document.list?_map fun l _ => l.ofDocument?_toDocument

/-- The fields of a record are read back, whatever other fields stand among them. -/
theorem ofDocument?_fields (held : Bool) {r : NodeRecord} (hr : r.Finite)
    {fields : List (String × Document)}
    (hfields : (fields.filter fun f => ["uid", "identifier", "node", "x", "y", "scale", "variant",
      "flowPlugs", "dataPlugs", "inputs"].contains f.1) = r.fields) :
    ofDocument? held (.object fields) = some r := by
  obtain ⟨uid, identifier, node, x, y, scale, variant, flowPlugs, dataPlugs, inputs⟩ := r
  have hscalar (z : Scalar) (hz : z ∈ [x, y, scale]) : Scalar.ofDocument? z.toDocument = some z :=
    Scalar.ofDocument?_toDocument (hr.scalar z hz)
  have hx := hscalar x (by simp)
  have hy := hscalar y (by simp)
  have hscale := hscalar scale (by simp)
  have hinputs : Document.list? (InputRecord.ofDocument? held) (.list (inputs.map InputRecord.toDocument)) =
      some inputs := Document.list?_map fun i _ => i.ofDocument?_toDocument held
  have hflow := linksOfDocument?_linksDocument flowPlugs
  have hdata := linksOfDocument?_linksDocument dataPlugs
  unfold ofDocument? Document.fields?
  simp only [hfields]
  cases variant with
  | none =>
    simp [NodeRecord.fields, Document.Fields.need, Document.Fields.orElse, List.lookup_cons, Document.text?, hx,
      hy, hscale, hflow, hdata, hinputs]
  | some v =>
    have hvariant := Variant.ofDocument?_key held v
    simp [NodeRecord.fields, Document.Fields.need, Document.Fields.orElse, List.lookup_cons, Document.text?, hx,
      hy, hscale, hflow, hdata, hinputs, Document.optional?, hvariant]

theorem fields_known (r : NodeRecord) : (r.fields.filter fun f => ["uid", "identifier", "node", "x", "y",
    "scale", "variant", "flowPlugs", "dataPlugs", "inputs"].contains f.1) = r.fields := by
  obtain ⟨uid, identifier, node, x, y, scale, variant, flowPlugs, dataPlugs, inputs⟩ := r
  cases variant <;> simp [fields]

theorem fields_without_kind (r : NodeRecord) : r.fields.filter (·.1 == "kind") = [] := by
  obtain ⟨uid, identifier, node, x, y, scale, variant, flowPlugs, dataPlugs, inputs⟩ := r
  cases variant <;> simp [fields]

theorem ofDocument?_toDocument (held : Bool) {r : NodeRecord} (hr : r.Finite) :
    ofDocument? held r.toDocument = some r := ofDocument?_fields held hr r.fields_known

theorem Finite.written {r : NodeRecord} (hr : r.Finite) : r.Written (fun d => d.proper) where
  scalar x hx := Scalar.proper_toDocument (hr.scalar x hx)
  constant := hr.constant
  count _ _ := rfl

end NodeRecord

/-! ## Flows -/

namespace Entry

mutual

theorem ofReadable?_toDocument (held : Bool) : (e : Entry NodeRecord) → (∀ r ∈ e.nodes, r.Finite) →
    ofReadable? held e.toDocument = some e
  | .node r, h => by
    have hr : r.Finite := h r (List.mem_singleton.2 rfl)
    have hkind : (("kind", Document.text "node") :: r.fields).filter (·.1 == "kind") =
        [("kind", .text "node")] := by
      rw [List.filter_cons_of_pos (by decide), r.fields_without_kind]
    have hread : NodeRecord.ofDocument? true (.object (("kind", .text "node") :: r.fields)) = some r := by
      refine NodeRecord.ofDocument?_fields true hr ?_
      rw [List.filter_cons_of_neg (by simp), r.fields_known]
    rw [toDocument, ofReadable?, hkind, hread]
    rfl
  | .split n, _ => rfl
  | .branch bs, h => by
    have hbranches := flowItems?_flowDocuments bs h
    rw [toDocument, ofReadable?]
    simp [kind?, branchesIn?, flowsOf?, hbranches]

theorem entryItems?_entryDocuments : (flow : Flow NodeRecord) → (∀ r ∈ flowNodes flow, r.Finite) →
    entryItems? (entryDocuments flow) = some flow
  | [], _ => rfl
  | e :: rest, h => by
    rw [entryDocuments, entryItems?, ofReadable?_toDocument true e fun r hr => h r (List.mem_append_left _ hr),
      entryItems?_entryDocuments rest fun r hr => h r (List.mem_append_right _ hr)]

theorem flowItems?_flowDocuments : (flows : List (Flow NodeRecord)) →
    (∀ r ∈ branchNodes flows, r.Finite) → flowItems? (flowDocuments flows) = some flows
  | [], _ => rfl
  | flow :: rest, h => by
    rw [flowDocuments, flowItems?, flowOf?,
      entryItems?_entryDocuments flow fun r hr => h r (List.mem_append_left _ hr),
      flowItems?_flowDocuments rest fun r hr => h r (List.mem_append_right _ hr)]

end

theorem entryDocuments_eq (flow : Flow NodeRecord) : entryDocuments flow = flow.map toDocument := by
  induction flow with
  | nil => rfl
  | cons e rest ih => rw [entryDocuments, ih, List.map_cons]

theorem flowDocuments_eq (flows : List (Flow NodeRecord)) :
    flowDocuments flows = flows.map fun flow => .list (flow.map toDocument) := by
  induction flows with
  | nil => rfl
  | cons flow rest ih => rw [flowDocuments, ih, List.map_cons, entryDocuments_eq]

theorem proper_toDocument {e : Entry NodeRecord} (h : ∀ r ∈ e.nodes, r.Finite) : e.toDocument.proper :=
  Document.proper_of_leaves _
    (leaves_toDocument Document.common_proper e (fun r hr => (h r hr).written) fun _ _ => rfl)

theorem ofDocument?_toDocument {e : Entry NodeRecord} (h : ∀ r ∈ e.nodes, r.Finite) :
    ofDocument? e.toDocument = some e := by
  rw [ofDocument?, if_pos (Document.readable_of_proper _ (proper_toDocument h)),
    ofReadable?_toDocument false e h]

end Entry

/-! ## Programs -/

namespace Program

theorem variablesOf?_variablesDocument (m : SortedMap PortType) :
    variablesOf? (variablesDocument m) = some m := by
  have hall (es : List (String × PortType)) :
      (es.map fun e => (e.1, Document.text e.2.name)).mapM
        (fun f => (PortType.ofDocument? false f.2).map (f.1, ·)) = some es := by
    induction es with
    | nil => rfl
    | cons e rest ih =>
      rw [List.map_cons, List.mapM_cons, ih, PortType.ofDocument?_name]
      rfl
  rw [variablesDocument, variablesOf?, hall, Option.map_some, SortedMap.ofList_entries]

theorem proper_toDocument {p : Program} (h : p.Finite) : p.toDocument.proper :=
  Document.proper_of_leaves _
    (leaves_toDocument Document.common_proper (fun r hr => (h r hr).written) fun _ _ => rfl)

theorem ofDocument?_toDocument {p : Program} (h : p.Finite) : ofDocument? p.toDocument = some p := by
  have hflows : Document.list? (Document.list? Entry.ofDocument?) (.list (Entry.flowDocuments p.flows)) =
      some p.flows := by
    rw [Entry.flowDocuments_eq]
    refine Document.list?_map fun flow hflow => Document.list?_map fun e he => ?_
    have hnodes (r : NodeRecord) (hr : r ∈ e.nodes) : r ∈ Entry.branchNodes p.flows :=
      Entry.mem_branchNodes.2 ⟨flow, hflow, Entry.mem_flowNodes.2 ⟨e, he, hr⟩⟩
    exact Entry.ofDocument?_toDocument fun r hr => h r (List.mem_append_left _ (hnodes r hr))
  have hadditional : Document.list? (NodeRecord.ofDocument? false)
      (.list (p.additional.map NodeRecord.toDocument)) = some p.additional :=
    Document.list?_map fun r hr => NodeRecord.ofDocument?_toDocument false
      (h r (List.mem_append_right _ hr))
  have hvariables := variablesOf?_variablesDocument p.variableTypes
  obtain ⟨flows, additional, variableTypes⟩ := p
  unfold ofDocument? toDocument
  cases hempty : variableTypes.isEmpty with
  | true =>
    have hnone : variableTypes = .empty := SortedMap.ext (List.isEmpty_iff.1 hempty)
    simp [Document.fields?, Document.Fields.need, Document.Fields.orElse, List.lookup_cons, hflows, hadditional,
      hnone]
  | false =>
    simp [Document.fields?, Document.Fields.need, Document.Fields.orElse, List.lookup_cons, hflows, hadditional,
      hvariables]

/-- A program whose doubles are numbers is written as a value, and read back from it. -/
theorem faithful_document {p : Program} (h : p.Finite) :
    p.toDocument.proper ∧ ofDocument? p.toDocument = some p :=
  ⟨proper_toDocument h, ofDocument?_toDocument h⟩

/-- A division within a division. Its constants are of every kind: whole numbers as doubles stand beside
integers, and lists in lists. -/
def mixed : Program where
  flows := [[.node ⟨"n0", "start", "Start", 0.0, (-0.0 : Float), 1.0, none, [[⟨"c0", "n1", 0⟩]], [], []⟩, .split 2,
    .branch [[], [.node ⟨"n1", "sum", "", 3.0, 0.1, 2.5, some .multiply, [[], []], [[⟨"c1", "n0", 1⟩]],
      [⟨none, none, .any, true, some (.list [.float 1.0, .int 1, .list [], .list [.text "1", .bool true]])⟩,
        ⟨some "n2", some 0, .num, false, none⟩, ⟨none, none, .float, true, some (.float (-0.0))⟩]⟩,
      .branch [[.split 0], []]]]], []]
  additional := [⟨"n2", "size", "Size", 1e300, 5e-324, 1.0, none, [], [[]], []⟩]
  variableTypes := .ofList [("speed", .num), ("name", .str)]

theorem finite_mixed : mixed.Finite := by decide +kernel

theorem faithful_document_mixed :
    mixed.Finite ∧ mixed.toDocument.proper ∧ ofDocument? mixed.toDocument = some mixed :=
  ⟨finite_mixed, faithful_document finite_mixed⟩

end Program
end FlowGraph

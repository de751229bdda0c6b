import FlowGraph.Document.Printer
import FlowGraph.Document.Reader
import FlowGraph.Program.Basic

/-! # Programs as documents

Every part of a program has a document form. An entry of a flow is told apart by its field `kind`;
its other fields are held until that field is known, wherever it stands, so that a held document
has to be readable throughout. A variant is left out when there is none, and the variables when
there are none.
-/

namespace FlowGraph
set_option autoImplicit false

/-! ## Names -/

def PortType.ofDocument? (held : Bool) : Document → Option PortType :=
  Document.name? PortType.ofName? held

def PortKind.ofDocument? (held : Bool) : Document → Option PortKind :=
  Document.name? PortKind.ofName? held

def ConnectorStyle.ofDocument? (held : Bool) : Document → Option ConnectorStyle :=
  Document.name? ConnectorStyle.ofName? held

def NodeClass.ofDocument? (held : Bool) : Document → Option NodeClass :=
  Document.name? NodeClass.ofName? held

def Variant.ofDocument? (held : Bool) : Document → Option Variant :=
  Document.name? Variant.ofKey? held

/-! ## Points -/

def Scalar.toDocument (x : Scalar) : Document := .float x.value

def Scalar.ofDocument? (d : Document) : Option Scalar := d.float?.map .ofFloat

def Point.toDocument (p : Point) : Document := .object [("x", p.x.toDocument), ("y", p.y.toDocument)]

def Point.ofDocument? (d : Document) : Option Point := do
  let fs ← d.fields? ["x", "y"]
  return ⟨← fs.need "x" Scalar.ofDocument?, ← fs.need "y" Scalar.ofDocument?⟩

/-! ## Records -/

/-- An optional value as a document: absence is `null`. -/
def Document.ofOption {α : Type} (f : α → Document) : Option α → Document
  | some a => f a
  | none => .null

namespace PortLink

def toDocument (l : PortLink) : Document :=
  .object [("connectorId", .text l.connector), ("conTo", .text l.target),
    ("targetPort", .int l.socket)]

def ofDocument? (d : Document) : Option PortLink := do
  let fs ← d.fields? ["connectorId", "conTo", "targetPort"]
  return ⟨← fs.need "connectorId" Document.text?, ← fs.need "conTo" Document.text?,
    ← fs.need "targetPort" Document.nat?⟩

end PortLink

namespace InputRecord

def toDocument (i : InputRecord) : Document :=
  .object [("source", .ofOption .text i.source), ("port", .ofOption (fun n => .int (Int.ofNat n)) i.port),
    ("type", .text i.type.name), ("constant", .bool i.constant),
    ("value", .ofOption Literal.toDocument i.value)]

def ofDocument? (held : Bool) (d : Document) : Option InputRecord := do
  let fs ← d.fields? ["source", "port", "type", "constant", "value"]
  return ⟨← fs.orElse "source" none (Document.optional? Document.text?),
    ← fs.orElse "port" none (Document.optional? Document.nat?),
    ← fs.need "type" (PortType.ofDocument? held), ← fs.need "constant" Document.bool?,
    ← fs.orElse "value" none (Document.optional? Literal.ofDocument?)⟩

end InputRecord

namespace NodeRecord

def linksDocument (plugs : List (List PortLink)) : Document :=
  .list (plugs.map fun links => .list (links.map PortLink.toDocument))

def linksOfDocument? : Document → Option (List (List PortLink)) :=
  Document.list? (Document.list? PortLink.ofDocument?)

def fields (r : NodeRecord) : List (String × Document) :=
  [("uid", .text r.uid), ("identifier", .text r.identifier), ("node", .text r.node),
    ("x", r.x.toDocument), ("y", r.y.toDocument), ("scale", r.scale.toDocument)] ++
  (r.variant.map fun v => ("variant", Document.text v.key)).toList ++
  [("flowPlugs", linksDocument r.flowPlugs), ("dataPlugs", linksDocument r.dataPlugs),
    ("inputs", .list (r.inputs.map InputRecord.toDocument))]

def toDocument (r : NodeRecord) : Document := .object r.fields

def ofDocument? (held : Bool) (d : Document) : Option NodeRecord := do
  let fs ← d.fields? ["uid", "identifier", "node", "x", "y", "scale", "variant", "flowPlugs",
    "dataPlugs", "inputs"]
  return {
    uid := ← fs.need "uid" Document.text?
    identifier := ← fs.need "identifier" Document.text?
    node := ← fs.orElse "node" "" Document.text?
    x := ← fs.need "x" Scalar.ofDocument?
    y := ← fs.need "y" Scalar.ofDocument?
    scale := ← fs.orElse "scale" 1.0 Scalar.ofDocument?
    variant := ← fs.orElse "variant" none (Document.optional? (Variant.ofDocument? held))
    flowPlugs := ← fs.orElse "flowPlugs" [] linksOfDocument?
    dataPlugs := ← fs.orElse "dataPlugs" [] linksOfDocument?
    inputs := ← fs.orElse "inputs" [] (Document.list? (InputRecord.ofDocument? held)) }

end NodeRecord

/-! ## Flows -/

namespace Entry

mutual

def toDocument : Entry NodeRecord → Document
  | .node r => .object (("kind", .text "node") :: r.fields)
  | .split n => .object [("kind", .text "split"), ("branchCount", .int n)]
  | .branch bs => .object [("kind", .text "branch"), ("branches", .list (flowDocuments bs))]

def entryDocuments : Flow NodeRecord → List Document
  | [] => []
  | e :: rest => e.toDocument :: entryDocuments rest

def flowDocuments : List (Flow NodeRecord) → List Document
  | [] => []
  | flow :: rest => .list (entryDocuments flow) :: flowDocuments rest

end

inductive Kind where
  | node
  | split
  | branch
  deriving DecidableEq, Repr

/-- Reads the kind of an entry. Inside a held document it may also be given by its number. -/
def kind? (held : Bool) : Document → Option Kind
  | .text "node" => some .node
  | .text "split" => some .split
  | .text "branch" => some .branch
  | .int 0 => if held then some .node else none
  | .int 1 => if held then some .split else none
  | .int 2 => if held then some .branch else none
  | _ => none

def split? (d : Document) : Option Nat := do
  let fs ← d.fields? ["branchCount"]
  fs.need "branchCount" Document.nat?

mutual

/-- The entry that a readable document holds. An object says its kind in the field `kind`, which
may stand only once; a list says it in its first item. -/
def ofReadable? (held : Bool) : Document → Option (Entry NodeRecord)
  | .object fields =>
    match (fields.filter (·.1 == "kind")).map fun f => kind? held f.2 with
    | [some .node] => (NodeRecord.ofDocument? true (.object fields)).map .node
    | [some .split] => (split? (.object fields)).map .split
    | [some .branch] =>
      if (fields.filter (·.1 == "branches")).length = 1 then (branchesIn? fields).map .branch
      else none
    | _ => none
  | .list (tag :: rest) =>
    match kind? held tag with
    | some .node => (NodeRecord.ofDocument? true (.list rest)).map .node
    | some .split => (split? (.list rest)).map .split
    | some .branch =>
      match rest with
      | [branches] => (flowsOf? branches).map .branch
      | _ => none
    | none => none
  | _ => none

def branchesIn? : List (String × Document) → Option (List (Flow NodeRecord))
  | [] => none
  | (name, d) :: rest => if name == "branches" then flowsOf? d else branchesIn? rest

/-- The flows of entries that are held already. -/
def flowsOf? : Document → Option (List (Flow NodeRecord))
  | .list items => flowItems? items
  | _ => none

def flowItems? : List Document → Option (List (Flow NodeRecord))
  | [] => some []
  | d :: rest =>
    match flowOf? d, flowItems? rest with
    | some flow, some flows => some (flow :: flows)
    | _, _ => none

def flowOf? : Document → Option (Flow NodeRecord)
  | .list items => entryItems? items
  | _ => none

def entryItems? : List Document → Option (Flow NodeRecord)
  | [] => some []
  | d :: rest =>
    match ofReadable? true d, entryItems? rest with
    | some e, some es => some (e :: es)
    | _, _ => none

end

def ofDocument? (d : Document) : Option (Entry NodeRecord) :=
  if d.readable then ofReadable? false d else none

end Entry

/-! ## Whole programs -/

namespace Program

def variablesDocument (m : SortedMap PortType) : Document :=
  .object (m.entries.map fun e => (e.1, .text e.2.name))

/-- The variables that a document holds; of two with one name the later one counts. -/
def variablesOf? : Document → Option (SortedMap PortType)
  | .object fields =>
    (fields.mapM fun f => (PortType.ofDocument? false f.2).map (f.1, ·)).map SortedMap.ofList
  | _ => none

def toDocument (p : Program) : Document :=
  .object <|
    [("flows", .list (Entry.flowDocuments p.flows)),
      ("additional", .list (p.additional.map NodeRecord.toDocument))] ++
    if p.variableTypes.isEmpty then [] else [("variables", variablesDocument p.variableTypes)]

def ofDocument? (d : Document) : Option Program := do
  let fs ← d.fields? ["flows", "additional", "variables"]
  return {
    flows := ← fs.need "flows" (Document.list? (Document.list? Entry.ofDocument?))
    additional := ← fs.orElse "additional" [] (Document.list? (NodeRecord.ofDocument? false))
    variableTypes := ← fs.orElse "variables" .empty variablesOf? }

def read? (text : String) : Option Program := (Document.read? text).bind ofDocument?

def write (p : Program) : String := p.toDocument.pretty

end Program
end FlowGraph

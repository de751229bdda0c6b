import FlowGraph.Connector
import FlowGraph.Program.Document

/-! # Settings of a session

What a host may tune. In a settings document every field may be left out.
-/

namespace FlowGraph
set_option autoImplicit false

structure Settings where
  /-- How far from the pointer, at scale 1, a socket may be to be snapped to. -/
  snapDistance : Float
  /-- Whether a drag may start at a plug of type `any`. -/
  allowAnyPlugDrag : Bool
  connectorStyle : ConnectorStyle

namespace Settings

def standard : Settings := ⟨50.0, false, .bezier⟩

def toDocument (s : Settings) : Document :=
  .object [("snapDistance", .float s.snapDistance), ("allowAnyPlugDrag", .bool s.allowAnyPlugDrag),
    ("connectorStyle", .text s.connectorStyle.name)]

def ofDocument? (d : Document) : Option Settings := do
  let fs ← d.fields? ["snapDistance", "allowAnyPlugDrag", "connectorStyle"]
  return ⟨← fs.orElse "snapDistance" standard.snapDistance Document.float?,
    ← fs.orElse "allowAnyPlugDrag" standard.allowAnyPlugDrag Document.bool?,
    ← fs.orElse "connectorStyle" standard.connectorStyle (ConnectorStyle.ofDocument? false)⟩

def read? (text : String) : Option Settings := (Document.read? text).bind ofDocument?

end Settings
end FlowGraph

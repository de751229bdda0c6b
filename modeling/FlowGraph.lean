import FlowGraph.Command
import FlowGraph.Main
import FlowGraph.Palette
import FlowGraph.Program.Document
import FlowGraph.Program.Outline
import FlowGraph.Program.Restore
import FlowGraph.Program.Snapshot
import FlowGraph.Script.Compiler
import FlowGraph.Session.Operation
import FlowGraph.Proofs.Program.Flow
import FlowGraph.Proofs.Script.Rendering
import FlowGraph.Proofs.Node.Ports
import FlowGraph.Proofs.Session.Wiring
import FlowGraph.Proofs.Session.Sound
import FlowGraph.Proofs.Session.Quiet
import FlowGraph.Proofs.Session.Intact
import FlowGraph.Proofs.Session.Move
import FlowGraph.Proofs.Session.Clearing
import FlowGraph.Proofs.Session.Reached
import FlowGraph.Proofs.Session.Integrity
import FlowGraph.Proofs.Script.Resolution
import FlowGraph.Proofs.Script.Wellformed
import FlowGraph.Proofs.Node.Shape
import FlowGraph.Proofs.Session.Shape
import FlowGraph.Proofs.Program.Settling
import FlowGraph.Proofs.Program.Saved
import FlowGraph.Proofs.Program.Carried
import FlowGraph.Proofs.Program.Respawn
import FlowGraph.Proofs.Program.Reconnect
import FlowGraph.Proofs.Program.RoundTrip
import FlowGraph.Proofs.Program.Graph
import FlowGraph.Proofs.Program.Coverage
import FlowGraph.Proofs.Program.Links
import FlowGraph.Proofs.Program.Copy
import FlowGraph.Proofs.Program.Branches
import FlowGraph.Proofs.Session.Fitting
import FlowGraph.Proofs.Program.Rebuilt
import FlowGraph.Proofs.Program.Alike
import FlowGraph.Proofs.Program.Renamed
import FlowGraph.Proofs.Program.Chains
import FlowGraph.Proofs.Program.Looking
import FlowGraph.Proofs.Node.Renumbered
import FlowGraph.Proofs.Program.Renumbered
import FlowGraph.Proofs.Program.Forgotten
import FlowGraph.Proofs.Program.Accounted
import FlowGraph.Proofs.Session.Rules
import FlowGraph.Proofs.Program.Views
import FlowGraph.Proofs.Program.Compiled
import FlowGraph.Proofs.Node.Typing
import FlowGraph.Proofs.Session.Typing
import FlowGraph.Proofs.Session.Accepted
import FlowGraph.Proofs.Session.Retyped
import FlowGraph.Proofs.Document.Nesting
import FlowGraph.Proofs.Document.Tokens
import FlowGraph.Proofs.Document.Scanning
import FlowGraph.Proofs.Program.Written
import FlowGraph.Proofs.Program.Decoded
import FlowGraph.Proofs.Program.Loaded
import FlowGraph.Proofs.Program.Reloaded
import FlowGraph.Proofs.Script.SideBySide
import FlowGraph.Proofs.Script.Renamed
import FlowGraph.Proofs.Script.Sealed
import FlowGraph.Proofs.Session.Candidates
import FlowGraph.Proofs.Node.Rest
import FlowGraph.Proofs.Session.Dragging
import FlowGraph.Proofs.Session.Anchors
import FlowGraph.Proofs.Session.Picture
import FlowGraph.Proofs.Session.Drawn
import FlowGraph.Proofs.Node.Ends
import FlowGraph.Proofs.Node.Change
import FlowGraph.Proofs.Node.Preview
import FlowGraph.Proofs.Node.Settled
import FlowGraph.Proofs.Node.Undone
import FlowGraph.Proofs.Session.Evolving
import FlowGraph.Proofs.Session.Undone
import FlowGraph.Proofs.Node.Shed
import FlowGraph.Proofs.Session.Removed
import FlowGraph.Proofs.Session.Previews
import FlowGraph.Proofs.Script.Limits
import FlowGraph.Proofs.Program.Course
import FlowGraph.Proofs.Session.Numbering
import FlowGraph.Proofs.Session.Sums
import FlowGraph.Proofs.Session.Readers
import FlowGraph.Proofs.Script.Hoisting
import FlowGraph.Proofs.Session.Ranking
import FlowGraph.Proofs.Script.Templates
import FlowGraph.Proofs.Document.Numerals
import FlowGraph.Proofs.Document.Quotations
import FlowGraph.Proofs.Document.Grammar
import FlowGraph.Proofs.Document.Printed
import FlowGraph.Proofs.Script.ReadBack
import FlowGraph.Proofs.Palette
import FlowGraph.Proofs.Program.Uids
import FlowGraph.Proofs.Program.Announced
import FlowGraph.Proofs.Script.Branching
import FlowGraph.Proofs.Node.Style
import FlowGraph.Proofs.Session.Styled
import FlowGraph.Proofs.Listing
import FlowGraph.Proofs.Session.Tables

import SelectionRecall.Command.Arguments
import SelectionRecall.Command.Run
import SelectionRecall.Document.Basic
import SelectionRecall.Document.Parser
import SelectionRecall.Document.Printer
import SelectionRecall.Document.Token
import SelectionRecall.Document.Value
import SelectionRecall.Expansion.Marker
import SelectionRecall.Expansion.Supply
import SelectionRecall.Files.Discovery
import SelectionRecall.Files.Path
import SelectionRecall.Files.Reading
import SelectionRecall.Files.Tree
import SelectionRecall.Json
import SelectionRecall.Json.Number
import SelectionRecall.Json.Parser
import SelectionRecall.Json.Printer
import SelectionRecall.Json.Token
import SelectionRecall.Keyed
import SelectionRecall.Main
import SelectionRecall.Number.Binary64
import SelectionRecall.Number.Digits
import SelectionRecall.Number.Shortest
import SelectionRecall.Proofs.Command.Populate
import SelectionRecall.Proofs.Document.Canonical
import SelectionRecall.Proofs.Document.Inlining
import SelectionRecall.Proofs.Document.Nodes
import SelectionRecall.Proofs.Document.Unfolding
import SelectionRecall.Proofs.Document.Variables
import SelectionRecall.Proofs.Expansion.Closed
import SelectionRecall.Proofs.Expansion.Congruence
import SelectionRecall.Proofs.Expansion.Cycles
import SelectionRecall.Proofs.Expansion.Filled
import SelectionRecall.Proofs.Expansion.Kept
import SelectionRecall.Proofs.Expansion.Lent
import SelectionRecall.Proofs.Expansion.Naming
import SelectionRecall.Proofs.Expansion.Orderly
import SelectionRecall.Proofs.Expansion.Outcome
import SelectionRecall.Proofs.Expansion.Requests
import SelectionRecall.Proofs.Expansion.Sparing
import SelectionRecall.Proofs.Expansion.Supply
import SelectionRecall.Proofs.Expansion.Unmarked
import SelectionRecall.Proofs.Expansion.Variables
import SelectionRecall.Proofs.Files.Discovery
import SelectionRecall.Proofs.Files.Listing
import SelectionRecall.Proofs.Schema.Closed
import SelectionRecall.Proofs.Schema.Encoding
import SelectionRecall.Proofs.Schema.Faults
import SelectionRecall.Proofs.Schema.Implementers
import SelectionRecall.Proofs.Schema.Possible
import SelectionRecall.Proofs.Schema.Reordered
import SelectionRecall.Proofs.Schema.Restated
import SelectionRecall.Proofs.Schema.Stored
import SelectionRecall.Proofs.Session.Delivery
import SelectionRecall.Proofs.Session.Filled
import SelectionRecall.Proofs.Session.Growth
import SelectionRecall.Proofs.Session.History
import SelectionRecall.Proofs.Session.Nesting
import SelectionRecall.Proofs.Session.Order
import SelectionRecall.Proofs.Session.Parts
import SelectionRecall.Proofs.Session.Pasted
import SelectionRecall.Proofs.Session.Splitting
import SelectionRecall.Proofs.Session.Streaming
import SelectionRecall.Proofs.Session.Variables
import SelectionRecall.Proofs.Session.WellTyped
import SelectionRecall.Proofs.Usage.Absorption
import SelectionRecall.Proofs.Usage.Alike
import SelectionRecall.Proofs.Usage.Built
import SelectionRecall.Proofs.Usage.Congruence
import SelectionRecall.Proofs.Usage.Covering
import SelectionRecall.Proofs.Usage.Everywhere
import SelectionRecall.Proofs.Usage.Faithful
import SelectionRecall.Proofs.Usage.Filled
import SelectionRecall.Proofs.Usage.Growth
import SelectionRecall.Proofs.Usage.Lowering
import SelectionRecall.Proofs.Usage.Meaning
import SelectionRecall.Proofs.Usage.Merge
import SelectionRecall.Proofs.Usage.Monoid
import SelectionRecall.Proofs.Usage.Nesting
import SelectionRecall.Proofs.Usage.Newest
import SelectionRecall.Proofs.Usage.Normal
import SelectionRecall.Proofs.Usage.Parts
import SelectionRecall.Proofs.Usage.Reading
import SelectionRecall.Proofs.Usage.Recognised
import SelectionRecall.Proofs.Usage.Restated
import SelectionRecall.Proofs.Usage.Stored
import SelectionRecall.Proofs.Usage.Trails
import SelectionRecall.Proofs.Usage.Union
import SelectionRecall.Proofs.Usage.Ways
import SelectionRecall.Proofs.Usage.WellTyped
import SelectionRecall.Schema.Basic
import SelectionRecall.Schema.Building
import SelectionRecall.Schema.Decoding
import SelectionRecall.Schema.Introspection
import SelectionRecall.Session.Basic
import SelectionRecall.Session.Operation
import SelectionRecall.Text.Blank
import SelectionRecall.Text.Graphic
import SelectionRecall.Text.Quoted
import SelectionRecall.Usage.Basic
import SelectionRecall.Usage.Fragment
import SelectionRecall.Usage.Observation
import SelectionRecall.Usage.Table

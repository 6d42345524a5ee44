import CodeFirst.Build.Arguments
import CodeFirst.Build.Builder
import CodeFirst.Build.Composite
import CodeFirst.Build.Exposure
import CodeFirst.Build.Orphans
import CodeFirst.Build.Realization
import CodeFirst.Build.Realize
import CodeFirst.Build.Setting
import CodeFirst.Build.Wiring
import CodeFirst.Catalog
import CodeFirst.Command.Arguments
import CodeFirst.Command.Directory
import CodeFirst.Command.Run
import CodeFirst.Declaration
import CodeFirst.Directive.Definition
import CodeFirst.Directive.Federation
import CodeFirst.Directive.Standard
import CodeFirst.Directive.Usage
import CodeFirst.Document.Build
import CodeFirst.Document.Declared
import CodeFirst.Document.Entry
import CodeFirst.Document.Error
import CodeFirst.Document.Lineage
import CodeFirst.Document.TypeText
import CodeFirst.Entity
import CodeFirst.Json.Double
import CodeFirst.Json.Numeral
import CodeFirst.Json.Shape
import CodeFirst.Json.Tree
import CodeFirst.Json.Value
import CodeFirst.Kind
import CodeFirst.Main
import CodeFirst.Newcomers
import CodeFirst.Options
import CodeFirst.OrderedMap
import CodeFirst.Proofs.Abridged
import CodeFirst.Proofs.Additions
import CodeFirst.Proofs.Alike
import CodeFirst.Proofs.Ancestry
import CodeFirst.Proofs.Appearance
import CodeFirst.Proofs.Attached
import CodeFirst.Proofs.Below
import CodeFirst.Proofs.Blame
import CodeFirst.Proofs.BlockStrings
import CodeFirst.Proofs.Causes
import CodeFirst.Proofs.Checked
import CodeFirst.Proofs.Composed
import CodeFirst.Proofs.Conflicts
import CodeFirst.Proofs.Content
import CodeFirst.Proofs.Counterpart
import CodeFirst.Proofs.Course
import CodeFirst.Proofs.Defaults
import CodeFirst.Proofs.Defects
import CodeFirst.Proofs.Deferrals
import CodeFirst.Proofs.Demand
import CodeFirst.Proofs.Denotation
import CodeFirst.Proofs.Drains
import CodeFirst.Proofs.Equality
import CodeFirst.Proofs.Evaluation
import CodeFirst.Proofs.Exposed
import CodeFirst.Proofs.Failures
import CodeFirst.Proofs.Federated
import CodeFirst.Proofs.Handlers
import CodeFirst.Proofs.Index
import CodeFirst.Proofs.Inheritance
import CodeFirst.Proofs.Instances
import CodeFirst.Proofs.JsonForms
import CodeFirst.Proofs.Layers
import CodeFirst.Proofs.Layout
import CodeFirst.Proofs.Leftovers
import CodeFirst.Proofs.Lineage
import CodeFirst.Proofs.Literals
import CodeFirst.Proofs.Merging
import CodeFirst.Proofs.Moves
import CodeFirst.Proofs.Origin
import CodeFirst.Proofs.Overrides
import CodeFirst.Proofs.Parameters
import CodeFirst.Proofs.Permutation
import CodeFirst.Proofs.Progress
import CodeFirst.Proofs.PropertyNames
import CodeFirst.Proofs.Reached
import CodeFirst.Proofs.Rearrangement
import CodeFirst.Proofs.Replaced
import CodeFirst.Proofs.Rounds
import CodeFirst.Proofs.Shadowing
import CodeFirst.Proofs.Sharing
import CodeFirst.Proofs.Slots
import CodeFirst.Proofs.Soundness
import CodeFirst.Proofs.Surroundings
import CodeFirst.Proofs.Termination
import CodeFirst.Proofs.TypeNotation
import CodeFirst.Proofs.TypeTexts
import CodeFirst.Proofs.Upsert
import CodeFirst.Proofs.Visits
import CodeFirst.Proofs.Wired
import CodeFirst.Reference
import CodeFirst.Registry.Basic
import CodeFirst.Registry.Queue
import CodeFirst.Registry.Record
import CodeFirst.Report.BuildError
import CodeFirst.Report.Event
import CodeFirst.Report.Finding
import CodeFirst.Report.Location
import CodeFirst.Scalar
import CodeFirst.Schema.Basic
import CodeFirst.Schema.Name
import CodeFirst.Schema.TypeNode
import CodeFirst.Schema.Validation
import CodeFirst.Sdl.Description
import CodeFirst.Sdl.Literal
import CodeFirst.Sdl.Printer
import CodeFirst.Text.Blank
import CodeFirst.Text.Printable
import CodeFirst.Wrapping

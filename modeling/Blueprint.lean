import Blueprint.Arguments
import Blueprint.Command.Basic
import Blueprint.Command.Options
import Blueprint.Command.Run
import Blueprint.Compile.Basic
import Blueprint.Compile.Load
import Blueprint.Decimal.Binary64
import Blueprint.Decimal.Layout
import Blueprint.Decimal.Scaling
import Blueprint.Decimal.Shortest
import Blueprint.Diagnostic.Basic
import Blueprint.Diagnostic.Exchange
import Blueprint.Dict.Basic
import Blueprint.Dict.Entries
import Blueprint.Document.Basic
import Blueprint.Document.Manual
import Blueprint.Document.Order
import Blueprint.Document.Schema
import Blueprint.Expr.Evaluation
import Blueprint.Expr.Reading
import Blueprint.Expr.Token
import Blueprint.Failure
import Blueprint.Json.Basic
import Blueprint.Json.Fields
import Blueprint.Json.Literal
import Blueprint.Json.Printer
import Blueprint.Json.Source
import Blueprint.Key
import Blueprint.Loader.Basic
import Blueprint.Loader.Reader
import Blueprint.Main
import Blueprint.Object.Basic
import Blueprint.Plugin.Basic
import Blueprint.Plugin.Builder
import Blueprint.Plugin.Parameter
import Blueprint.Proofs.Compile.Chronicle
import Blueprint.Proofs.Compile.Correspondence
import Blueprint.Proofs.Compile.Failing
import Blueprint.Proofs.Compile.FirstFailure
import Blueprint.Proofs.Compile.Frames
import Blueprint.Proofs.Compile.Inline
import Blueprint.Proofs.Compile.Locating
import Blueprint.Proofs.Compile.Naming
import Blueprint.Proofs.Compile.Postorder
import Blueprint.Proofs.Compile.Recording
import Blueprint.Proofs.Compile.Recursion
import Blueprint.Proofs.Compile.Registering
import Blueprint.Proofs.Compile.RegistrationOrder
import Blueprint.Proofs.Compile.Relating
import Blueprint.Proofs.Compile.Renaming
import Blueprint.Proofs.Compile.Required
import Blueprint.Proofs.Compile.Run
import Blueprint.Proofs.Compile.Undeclared
import Blueprint.Proofs.Decimal.Exact
import Blueprint.Proofs.Decimal.Rounding
import Blueprint.Proofs.Diagnostic.Exchange
import Blueprint.Proofs.Document.KeyOrder
import Blueprint.Proofs.Document.ManualLabels
import Blueprint.Proofs.Document.ManualRows
import Blueprint.Proofs.Document.Ranking
import Blueprint.Proofs.Document.SchemaDefinitions
import Blueprint.Proofs.Document.SchemaReferences
import Blueprint.Proofs.Document.Sections
import Blueprint.Proofs.Document.Tasks
import Blueprint.Proofs.Expr.Climbing
import Blueprint.Proofs.Expr.Digits
import Blueprint.Proofs.Expr.Evaluation
import Blueprint.Proofs.Expr.Grammar
import Blueprint.Proofs.Expr.Literal
import Blueprint.Proofs.Expr.Tree
import Blueprint.Proofs.Json.Parts
import Blueprint.Proofs.Json.Position
import Blueprint.Proofs.Json.Printing
import Blueprint.Proofs.Json.Reading
import Blueprint.Proofs.Key.Joining
import Blueprint.Proofs.Key.Lowercasing
import Blueprint.Proofs.Key.Normal
import Blueprint.Proofs.Key.Spelling
import Blueprint.Proofs.Loader.Integer
import Blueprint.Proofs.Object.Handles
import Blueprint.Proofs.Object.Renaming
import Blueprint.Proofs.Plugin.Arguments
import Blueprint.Proofs.Plugin.Conservative
import Blueprint.Proofs.Plugin.Opaque
import Blueprint.Proofs.Registry.Growth
import Blueprint.Proofs.Registry.LoadOrder
import Blueprint.Proofs.Registry.Plugins
import Blueprint.Proofs.Registry.Registration
import Blueprint.Proofs.Registry.Tables
import Blueprint.Proofs.Sampling.Conservative
import Blueprint.Proofs.Sampling.Contract
import Blueprint.Proofs.Sampling.Opaque
import Blueprint.Proofs.Sampling.Undeclared
import Blueprint.Proofs.Session.Chronicle
import Blueprint.Proofs.Session.Dispatch
import Blueprint.Proofs.Session.Isolation
import Blueprint.Proofs.Session.Listing
import Blueprint.Proofs.Session.Names
import Blueprint.Proofs.Session.Objects
import Blueprint.Proofs.Session.Operation
import Blueprint.Proofs.Session.References
import Blueprint.Proofs.Session.Standard
import Blueprint.Proofs.Value.Conversion
import Blueprint.Registry.Action
import Blueprint.Registry.Basic
import Blueprint.Registry.Registration
import Blueprint.Sampling.Basic
import Blueprint.Sampling.Constructors
import Blueprint.Sampling.Plugins
import Blueprint.Text.Blank
import Blueprint.Text.CaseTable
import Blueprint.Text.Digits
import Blueprint.Text.Lowercase
import Blueprint.Text.Parts
import Blueprint.Value
import Blueprint.Yaml.Cursor
import Blueprint.Yaml.Document
import Blueprint.Yaml.Scalar
import Blueprint.Yaml.Token
import Blueprint.Yaml.Typing

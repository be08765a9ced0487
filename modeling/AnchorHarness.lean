import AnchorHarness.Account.Classify
import AnchorHarness.Account.Constraint
import AnchorHarness.Account.Field
import AnchorHarness.CommandLine.Argument
import AnchorHarness.CommandLine.Command
import AnchorHarness.CommandLine.Run
import AnchorHarness.CommandLine.Sources
import AnchorHarness.Config
import AnchorHarness.Console.Event
import AnchorHarness.Console.Markup
import AnchorHarness.Harness.Module
import AnchorHarness.Harness.Roles
import AnchorHarness.Harness.Storage
import AnchorHarness.Json
import AnchorHarness.Main
import AnchorHarness.Program.Address
import AnchorHarness.Program.Analysis
import AnchorHarness.Program.DeclaredAddress
import AnchorHarness.Program.Error
import AnchorHarness.Program.Idl
import AnchorHarness.Rust.Attribute
import AnchorHarness.Rust.Item
import AnchorHarness.Rust.Item.Reader
import AnchorHarness.Rust.MacroCall
import AnchorHarness.Rust.SourceFile
import AnchorHarness.Rust.SyntaxNode
import AnchorHarness.Rust.StructIndex
import AnchorHarness.Rust.Token
import AnchorHarness.Rust.Tree
import AnchorHarness.Rust.TypeRef
import AnchorHarness.Rust.TypeText
import AnchorHarness.Session
import AnchorHarness.Snapshot.Module
import AnchorHarness.Snapshot.Plan
import AnchorHarness.Snapshot.Statement
import AnchorHarness.Snapshot.Step
import AnchorHarness.Table
import AnchorHarness.Text.Blank
import AnchorHarness.Text.Cut
import AnchorHarness.Text.Lines
import AnchorHarness.Text.Newline
import AnchorHarness.Text.Printable
import AnchorHarness.Text.Quoted
import AnchorHarness.Text.Radix
import AnchorHarness.Text.Words
import AnchorHarness.Workspace.FileTree
import AnchorHarness.Workspace.Path
import AnchorHarness.Workspace.Settings
import AnchorHarness.Workspace.Storing
import AnchorHarness.Proofs.Snapshot.Code
import AnchorHarness.Proofs.Snapshot.Evaluation
import AnchorHarness.Proofs.Fallible
import AnchorHarness.Proofs.Snapshot.Slots
import AnchorHarness.Proofs.Snapshot.Sharing
import AnchorHarness.Proofs.Program.DeclarationSearch
import AnchorHarness.Proofs.Program.Acceptance
import AnchorHarness.Proofs.FieldOrder
import AnchorHarness.Proofs.Rust.StructOrder
import AnchorHarness.Proofs.GeneratedTypes.Distinct
import AnchorHarness.Proofs.GeneratedTypes.Fit
import AnchorHarness.Proofs.Harness.AccountIds
import AnchorHarness.Proofs.CommandLine.Outcome
import AnchorHarness.Proofs.Rust.Denoted
import AnchorHarness.Proofs.Generation
import AnchorHarness.Proofs.Rust.SourceText
import AnchorHarness.Proofs.Rust.Bare
import AnchorHarness.Proofs.Rust.RespelledTypes
import AnchorHarness.Proofs.Account.Wrapped
import AnchorHarness.Proofs.Rust.SpacedAlike
import AnchorHarness.Proofs.Rust.ParsedTypes
import AnchorHarness.Proofs.Account.Lifecycle
import AnchorHarness.Proofs.Numerals
import AnchorHarness.Proofs.Program.AddressText
import AnchorHarness.Proofs.Rust.Lifetimes
import AnchorHarness.Proofs.Snapshot.Lifetimes
import AnchorHarness.Proofs.Text.CaseVariants
import AnchorHarness.Proofs.Account.Rearranged
import AnchorHarness.Proofs.Harness.Calls
import AnchorHarness.Proofs.Program.InstructionLookup
import AnchorHarness.Proofs.CommandLine.Configuration
import AnchorHarness.Proofs.CommandLine.InstructionTable
import AnchorHarness.Proofs.Workspace.CreationRuns
import AnchorHarness.Proofs.Rust.Attachment

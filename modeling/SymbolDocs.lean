import SymbolDocs.AccessLevel
import SymbolDocs.Act
import SymbolDocs.ArchiveLayout
import SymbolDocs.Batch
import SymbolDocs.Command
import SymbolDocs.Command.Basic
import SymbolDocs.CommandLine
import SymbolDocs.CommandLine.Arguments
import SymbolDocs.CommandLine.Form
import SymbolDocs.CommandLine.Transcript
import SymbolDocs.Config
import SymbolDocs.Config.Load
import SymbolDocs.Config.Reader
import SymbolDocs.Coordinator
import SymbolDocs.Diagnostic
import SymbolDocs.Digest.Sha256
import SymbolDocs.Digest.ShortId
import SymbolDocs.Extractor
import SymbolDocs.Failure
import SymbolDocs.FileTree.Basic
import SymbolDocs.FileTree.Change
import SymbolDocs.FileTree.Edit
import SymbolDocs.FileTree.Error
import SymbolDocs.FileTree.Lookup
import SymbolDocs.Generator
import SymbolDocs.Generator.Rehearsal
import SymbolDocs.GraphOptions
import SymbolDocs.GraphResult
import SymbolDocs.GraphSettings
import SymbolDocs.Json
import SymbolDocs.Main
import SymbolDocs.Manifest
import SymbolDocs.Manifest.Reader
import SymbolDocs.Number.Binary64
import SymbolDocs.Number.Shortest
import SymbolDocs.Package
import SymbolDocs.Path
import SymbolDocs.Plan
import SymbolDocs.Scratch
import SymbolDocs.Selection
import SymbolDocs.Selection.Error
import SymbolDocs.Session
import SymbolDocs.Shell.Builtin
import SymbolDocs.Shell.Machine
import SymbolDocs.Shell.Reader
import SymbolDocs.Shell.Runner
import SymbolDocs.Shell.Syntax
import SymbolDocs.Target
import SymbolDocs.Text.Hexadecimal
import SymbolDocs.Text.Printable
import SymbolDocs.Text.Quoted
import SymbolDocs.Text.Utf8
import SymbolDocs.Toml.Document
import SymbolDocs.Toml.Lexeme
import SymbolDocs.Toml.Node
import SymbolDocs.Toml.Report
import SymbolDocs.Toml.Shape
import SymbolDocs.Toml.Value
import SymbolDocs.Unifier
import SymbolDocs.Version
import SymbolDocs.Workspace
import SymbolDocs.Proofs.Performance
import SymbolDocs.Proofs.FileTree.Walk
import SymbolDocs.Proofs.FileTree.Written
import SymbolDocs.Proofs.Batch.Occurrences
import SymbolDocs.Proofs.Batch.Pipeline
import SymbolDocs.Proofs.Batch.Pass
import SymbolDocs.Proofs.FileTree.Applied
import SymbolDocs.Proofs.Batch.Success
import SymbolDocs.Proofs.Scratch.Directories
import SymbolDocs.Proofs.Emissions
import SymbolDocs.Proofs.Workspace.Arguments
import SymbolDocs.Proofs.FileTree.Below
import SymbolDocs.Proofs.FileTree.Within
import SymbolDocs.Proofs.FileTree.Confined
import SymbolDocs.Proofs.Unifier.Confined
import SymbolDocs.Proofs.Batch.Shelter
import SymbolDocs.Proofs.Batch.Telling
import SymbolDocs.Proofs.Batch.Failure
import SymbolDocs.Proofs.Selection.Resolved
import SymbolDocs.Proofs.FileTree.Contents
import SymbolDocs.Proofs.FileTree.Copied
import SymbolDocs.Proofs.Scratch.Regions
import SymbolDocs.Proofs.Batch.History
import SymbolDocs.Proofs.Batch.Workers
import SymbolDocs.Proofs.FileTree.Alike
import SymbolDocs.Proofs.Unifier.Steps
import SymbolDocs.Proofs.Manifest.Valid
import SymbolDocs.Proofs.Extractor.Answers
import SymbolDocs.Proofs.Turns
import SymbolDocs.Proofs.Extractor.Workers
import SymbolDocs.Proofs.ArchiveLayout.Distinct
import SymbolDocs.Proofs.Path.Lexical
import SymbolDocs.Proofs.Scratch.Inside
import SymbolDocs.Proofs.Batch.Outside
import SymbolDocs.Proofs.Batch.Interleaving
import SymbolDocs.Proofs.Batch.Unheard
import SymbolDocs.Proofs.CommandLine.Listing
import SymbolDocs.Proofs.Coordinator.Exclusion
import SymbolDocs.Proofs.Batch.Repetition
import SymbolDocs.Proofs.Generator.Instruction
import SymbolDocs.Proofs.Batch.Instructions
import SymbolDocs.Proofs.Selection.Alternatives
import SymbolDocs.Proofs.CommandLine.Refused
import SymbolDocs.Proofs.FileTree.Grown
import SymbolDocs.Proofs.FileTree.Mirrored
import SymbolDocs.Proofs.Unifier.Renewed
import SymbolDocs.Proofs.Package.Lookup
import SymbolDocs.Proofs.Selection.Names
import SymbolDocs.Proofs.Selection.Shared
import SymbolDocs.Proofs.Batch.Layers
import SymbolDocs.Proofs.Config.Precedence
import SymbolDocs.Proofs.Batch.Causes
import SymbolDocs.Proofs.CommandLine.MissingGenerator
import SymbolDocs.Proofs.Path.Moves
import SymbolDocs.Proofs.FileTree.Moves
import SymbolDocs.Proofs.FileTree.Fresh
import SymbolDocs.Proofs.FileTree.Listed
import SymbolDocs.Proofs.Generator.Renewed
import SymbolDocs.Proofs.Extractor.Outcome
import SymbolDocs.Proofs.Json.Unambiguous
import SymbolDocs.Proofs.Plan.Text
import SymbolDocs.Proofs.Path.Ancestors
import SymbolDocs.Proofs.Workspace.Nearest
import SymbolDocs.Proofs.Path.Order
import SymbolDocs.Proofs.FileTree.Traversal
import SymbolDocs.Proofs.Batch.Sturdy
import SymbolDocs.Proofs.Batch.Draft
import SymbolDocs.Proofs.CommandLine.Messages
import SymbolDocs.Proofs.CommandLine.Ending
import SymbolDocs.Proofs.Diagnostic.Colours
import SymbolDocs.Proofs.Digest.Identified
import SymbolDocs.Proofs.FileTree.Enumerated
import SymbolDocs.Proofs.FileTree.AnyOrder

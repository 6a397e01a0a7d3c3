import EntityGen.Text.Basic
import EntityGen.Text.Quoted
import EntityGen.Path
import EntityGen.Decimal
import EntityGen.Json.Reader
import EntityGen.Json.Number
import EntityGen.Json.Text
import EntityGen.Json.Value
import EntityGen.Schema
import EntityGen.Config.Table
import EntityGen.Config.Basic
import EntityGen.Disk
import EntityGen.FileSystem
import EntityGen.Failure
import EntityGen.Struct
import EntityGen.Listing
import EntityGen.Binding
import EntityGen.Source
import EntityGen.Emitter
import EntityGen.Run
import EntityGen.CommandLine
import EntityGen.Main
import EntityGen.Proofs.Disk.Lookup
import EntityGen.Proofs.Disk.Growth
import EntityGen.Proofs.Disk.Making
import EntityGen.Proofs.Emission
import EntityGen.Proofs.FileSystem
import EntityGen.Proofs.Run.Course
import EntityGen.Proofs.Disk.Plain
import EntityGen.Proofs.Run.Handwritten
import EntityGen.Proofs.Text.Lines
import EntityGen.Proofs.Spelling
import EntityGen.Proofs.Listing.Keyed
import EntityGen.Proofs.Listing.Grouping
import EntityGen.Proofs.Extension
import EntityGen.Proofs.Run.Outputs
import EntityGen.Proofs.Run.Level
import EntityGen.Proofs.Run.SamePlace
import EntityGen.Proofs.Run.Contents
import EntityGen.Proofs.Disk.Ensuring
import EntityGen.Proofs.Reemission
import EntityGen.Proofs.EmissionHistory
import EntityGen.Proofs.Run.Again
import EntityGen.Proofs.Run.Rerun
import EntityGen.Proofs.Run.Unlinked
import EntityGen.Proofs.Binding.Registering
import EntityGen.Proofs.Binding.FirstWins
import EntityGen.Proofs.Binding.Naming
import EntityGen.Proofs.Text.Octets
import EntityGen.Proofs.Text.Splicing
import EntityGen.Proofs.Manifest
import EntityGen.Proofs.Run.Inert
import EntityGen.Proofs.Run.Touched
import EntityGen.Proofs.Run.Ledger
import EntityGen.Proofs.Run.References
import EntityGen.Proofs.Binding.Lines
import EntityGen.Proofs.Run.Reordering
import EntityGen.Proofs.Listing.Lines
import EntityGen.Proofs.Listing.Directives
import EntityGen.Proofs.Mirroring
import EntityGen.Proofs.Run.IncludeLines
import EntityGen.Proofs.Disk.Walk
import EntityGen.Proofs.Disk.Traversal
import EntityGen.Proofs.Enumeration
import EntityGen.Proofs.Enumeration.Exact
import EntityGen.Proofs.Run.Crash
import EntityGen.Proofs.Run.Enumerated
import EntityGen.Proofs.Run.Mirrored
import EntityGen.Proofs.Text.Blank
import EntityGen.Proofs.Run.Commented
import EntityGen.Proofs.Struct.Fields
import EntityGen.Proofs.Schema.Validation
import EntityGen.Proofs.Schema.Normal
import EntityGen.Proofs.Json.Grammar
import EntityGen.Proofs.Json.Reading
import EntityGen.Proofs.Json.Rows
import EntityGen.Proofs.Json.Passing
import EntityGen.Proofs.Json.Values
import EntityGen.Proofs.Json.Spelling
import EntityGen.Proofs.Json.Strict
import EntityGen.Proofs.Json.Shuffling
import EntityGen.Proofs.Schema.Members

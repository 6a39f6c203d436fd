import LoadHook.Command
import LoadHook.Compile.Emission
import LoadHook.Compile.Error
import LoadHook.Compile.Freshness
import LoadHook.Compile.OutputCache
import LoadHook.Compile.Program
import LoadHook.Compile.Source
import LoadHook.Compile.StandIn
import LoadHook.Compile.Toolchain
import LoadHook.Config.Options
import LoadHook.Config.Search
import LoadHook.Decimal.Notation
import LoadHook.Decimal.Rounding
import LoadHook.Dialogue
import LoadHook.Files.Access
import LoadHook.Files.Cause
import LoadHook.Files.Tree
import LoadHook.Hook.Basic
import LoadHook.Hook.Handler
import LoadHook.Json.Cursor
import LoadHook.Json.Number
import LoadHook.Json.Printer
import LoadHook.Json.Reader
import LoadHook.Json.Relaxed.Meaning
import LoadHook.Json.Relaxed.Term
import LoadHook.Json.Skip
import LoadHook.Json.Value
import LoadHook.Main
import LoadHook.Module.Entry
import LoadHook.Module.Error
import LoadHook.Module.Host
import LoadHook.Module.Load
import LoadHook.Module.Registry
import LoadHook.Module.Resolution
import LoadHook.Module.Sandbox
import LoadHook.Module.Steps
import LoadHook.Path.Basic
import LoadHook.Path.Map
import LoadHook.Path.Normal
import LoadHook.Proofs.Command.Entries
import LoadHook.Proofs.Compile.LetterCase
import LoadHook.Proofs.Compile.Listing
import LoadHook.Proofs.Compile.OutputCache
import LoadHook.Proofs.Compile.Project
import LoadHook.Proofs.Compile.Selection
import LoadHook.Proofs.Compile.Unit
import LoadHook.Proofs.Config.Conversion
import LoadHook.Proofs.Config.Delivery
import LoadHook.Proofs.Config.Resolution
import LoadHook.Proofs.Decimal.Whole
import LoadHook.Proofs.Fence.Basic
import LoadHook.Proofs.Fence.BuiltIn.Array
import LoadHook.Proofs.Fence.BuiltIn.Json
import LoadHook.Proofs.Fence.BuiltIn.Maker
import LoadHook.Proofs.Fence.BuiltIn.Object
import LoadHook.Proofs.Fence.BuiltIn.Text
import LoadHook.Proofs.Fence.Convert
import LoadHook.Proofs.Fence.Evaluation
import LoadHook.Proofs.Fence.Expression
import LoadHook.Proofs.Fence.Function
import LoadHook.Proofs.Fence.Heap
import LoadHook.Proofs.Fence.Host
import LoadHook.Proofs.Fence.Load
import LoadHook.Proofs.Fence.Realm
import LoadHook.Proofs.Fence.Reference
import LoadHook.Proofs.Fence.Run
import LoadHook.Proofs.Fence.Shelter
import LoadHook.Proofs.Fence.Statement
import LoadHook.Proofs.Files.Places
import LoadHook.Proofs.Files.Removal
import LoadHook.Proofs.Files.Walk
import LoadHook.Proofs.Files.Ways
import LoadHook.Proofs.Files.Writing
import LoadHook.Proofs.Hook.Account
import LoadHook.Proofs.Hook.Alarm
import LoadHook.Proofs.Hook.Asking
import LoadHook.Proofs.Hook.Balance
import LoadHook.Proofs.Hook.Containment
import LoadHook.Proofs.Hook.Decision
import LoadHook.Proofs.Hook.Dispatch
import LoadHook.Proofs.Hook.Fate
import LoadHook.Proofs.Hook.Provenance
import LoadHook.Proofs.Hook.Reuse
import LoadHook.Proofs.Hook.Sessions
import LoadHook.Proofs.Hook.Toggle
import LoadHook.Proofs.Hook.Twins
import LoadHook.Proofs.Hook.Work
import LoadHook.Proofs.Journal.Basic
import LoadHook.Proofs.Journal.Beginning
import LoadHook.Proofs.Journal.History
import LoadHook.Proofs.Journal.Law
import LoadHook.Proofs.Journal.Played
import LoadHook.Proofs.Journal.Refusal
import LoadHook.Proofs.Journal.Session
import LoadHook.Proofs.Journal.Unfolding
import LoadHook.Proofs.Json.Entries
import LoadHook.Proofs.Json.Grammar
import LoadHook.Proofs.Json.Members
import LoadHook.Proofs.Json.Quoting
import LoadHook.Proofs.Json.Reading
import LoadHook.Proofs.Json.Skipping
import LoadHook.Proofs.Json.Spelling
import LoadHook.Proofs.Json.Texts
import LoadHook.Proofs.Lookup
import LoadHook.Proofs.Module.Asking
import LoadHook.Proofs.Module.Bindings
import LoadHook.Proofs.Module.Composed
import LoadHook.Proofs.Module.Data
import LoadHook.Proofs.Module.Failure
import LoadHook.Proofs.Module.Globals
import LoadHook.Proofs.Module.Making
import LoadHook.Proofs.Module.Neutral
import LoadHook.Proofs.Module.Object
import LoadHook.Proofs.Module.Onward
import LoadHook.Proofs.Module.Orderly
import LoadHook.Proofs.Module.Resolution
import LoadHook.Proofs.Module.Search
import LoadHook.Proofs.Module.Spelling
import LoadHook.Proofs.Module.Stretch
import LoadHook.Proofs.Module.Widening
import LoadHook.Proofs.Path.Canonical
import LoadHook.Proofs.Path.Map
import LoadHook.Proofs.Path.Normal
import LoadHook.Proofs.Path.Parent
import LoadHook.Proofs.Path.Pieces
import LoadHook.Proofs.Path.Spelling
import LoadHook.Proofs.Registry.Descent
import LoadHook.Proofs.Registry.Dispatching
import LoadHook.Proofs.Registry.Drafting
import LoadHook.Proofs.Registry.Failure
import LoadHook.Proofs.Registry.Filling
import LoadHook.Proofs.Registry.Keys
import LoadHook.Proofs.Registry.Memo
import LoadHook.Proofs.Registry.Quiescence
import LoadHook.Proofs.Registry.Registration
import LoadHook.Proofs.Registry.Standing
import LoadHook.Proofs.Registry.Transparency
import LoadHook.Proofs.Registry.Unwinding
import LoadHook.Proofs.Registry.Visits
import LoadHook.Proofs.Script.Assigning
import LoadHook.Proofs.Script.Bearing
import LoadHook.Proofs.Script.Datum
import LoadHook.Proofs.Script.Ground
import LoadHook.Proofs.Script.Likeness
import LoadHook.Proofs.Script.Lookup
import LoadHook.Proofs.Script.Numeral
import LoadHook.Proofs.Script.Parsing
import LoadHook.Proofs.Script.Printing
import LoadHook.Proofs.Script.Property
import LoadHook.Proofs.Script.Realm
import LoadHook.Proofs.Script.Reviving
import LoadHook.Proofs.Script.Showing
import LoadHook.Proofs.Script.Snapshot
import LoadHook.Proofs.Script.Storing
import LoadHook.Proofs.Script.Units
import LoadHook.Proofs.Settings.Reading
import LoadHook.Proofs.Text.Lines
import LoadHook.Proofs.Text.Utf16
import LoadHook.Script.BuiltIn.Array
import LoadHook.Script.BuiltIn.Basic
import LoadHook.Script.BuiltIn.Function
import LoadHook.Script.BuiltIn.Json
import LoadHook.Script.BuiltIn.Maker
import LoadHook.Script.BuiltIn.Number
import LoadHook.Script.BuiltIn.Object
import LoadHook.Script.BuiltIn.Text
import LoadHook.Script.Convert
import LoadHook.Script.Document.Basic
import LoadHook.Script.Document.Reader
import LoadHook.Script.Evaluation
import LoadHook.Script.Expression
import LoadHook.Script.Function
import LoadHook.Script.Grammar.Basic
import LoadHook.Script.Grammar.Expression
import LoadHook.Script.Grammar.Statement
import LoadHook.Script.Heap
import LoadHook.Script.Machine
import LoadHook.Script.Numeric
import LoadHook.Script.Property
import LoadHook.Script.Reader
import LoadHook.Script.Realm
import LoadHook.Script.Reference
import LoadHook.Script.Run
import LoadHook.Script.Scope
import LoadHook.Script.Statement
import LoadHook.Script.Token
import LoadHook.Script.Tree
import LoadHook.Settings.Basic
import LoadHook.Settings.Reader
import LoadHook.Shell.Command
import LoadHook.Shell.Pattern
import LoadHook.Shell.Run
import LoadHook.Shell.Tool
import LoadHook.Text.Blank
import LoadHook.Text.Letter
import LoadHook.Text.Quoted
import LoadHook.Text.Utf16
import LoadHook.Text.Utf8
import LoadHook.World

import Scaffold.CommandLine.Command
import Scaffold.CommandLine.Completion
import Scaffold.CommandLine.Grammar
import Scaffold.CommandLine.Options
import Scaffold.CommandLine.Run
import Scaffold.Decimal.Basic
import Scaffold.Decimal.Shortest
import Scaffold.Disk.Local
import Scaffold.Disk.Model
import Scaffold.Disk.System
import Scaffold.EntryText
import Scaffold.Execution
import Scaffold.Expansion
import Scaffold.FrontMatter.Basic
import Scaffold.FrontMatter.Reader
import Scaffold.Line.Basic
import Scaffold.Line.Indent
import Scaffold.Line.Kind
import Scaffold.Main
import Scaffold.Path.Basic
import Scaffold.Plan.Basic
import Scaffold.Plan.Planner
import Scaffold.Proofs.Disk.Agreement
import Scaffold.Proofs.Disk.Asking
import Scaffold.Proofs.Disk.Contents
import Scaffold.Proofs.Disk.Entries
import Scaffold.Proofs.Disk.Making
import Scaffold.Proofs.Disk.Mirror
import Scaffold.Proofs.Disk.Removing
import Scaffold.Proofs.Disk.Walking
import Scaffold.Proofs.EntryText
import Scaffold.Proofs.Execution.Account
import Scaffold.Proofs.Execution.Building
import Scaffold.Proofs.Execution.Completion
import Scaffold.Proofs.Execution.Effects
import Scaffold.Proofs.Execution.Extent
import Scaffold.Proofs.Execution.Fallback
import Scaffold.Proofs.Execution.Kinds
import Scaffold.Proofs.Execution.Repeating
import Scaffold.Proofs.Execution.Run
import Scaffold.Proofs.Execution.Simulation
import Scaffold.Proofs.Execution.Skipping
import Scaffold.Proofs.Execution.Termination
import Scaffold.Proofs.Execution.Trace
import Scaffold.Proofs.Expansion.Budget
import Scaffold.Proofs.Expansion.Counts
import Scaffold.Proofs.Expansion.Detabbing
import Scaffold.Proofs.Expansion.Idempotence
import Scaffold.Proofs.Expansion.Joining
import Scaffold.Proofs.Expansion.Tokens
import Scaffold.Proofs.FrontMatter
import Scaffold.Proofs.Line.Grammar
import Scaffold.Proofs.Line.Indent
import Scaffold.Proofs.Line.Kind
import Scaffold.Proofs.Listings
import Scaffold.Proofs.Lists
import Scaffold.Proofs.Lockstep
import Scaffold.Proofs.Paths
import Scaffold.Proofs.Plan.Described
import Scaffold.Proofs.Plan.Detabbing
import Scaffold.Proofs.Plan.Enumeration
import Scaffold.Proofs.Plan.Forest
import Scaffold.Proofs.Plan.Indentation
import Scaffold.Proofs.Plan.Joining
import Scaffold.Proofs.Plan.Links
import Scaffold.Proofs.Plan.Listing
import Scaffold.Proofs.Plan.Naming
import Scaffold.Proofs.Plan.OneLine
import Scaffold.Proofs.Plan.Steady
import Scaffold.Proofs.Plan.Subtree
import Scaffold.Proofs.Plan.Termination
import Scaffold.Proofs.Recursion
import Scaffold.Proofs.Render.Color
import Scaffold.Proofs.Render.Tree
import Scaffold.Proofs.Stateful
import Scaffold.Proofs.Store.Calls
import Scaffold.Proofs.Store.Closed
import Scaffold.Proofs.Store.Directories
import Scaffold.Proofs.Store.Emptying
import Scaffold.Proofs.Store.Frame
import Scaffold.Proofs.Store.Lookup
import Scaffold.Proofs.Store.Relocation
import Scaffold.Proofs.Store.Session
import Scaffold.Proofs.Store.Settling
import Scaffold.Proofs.Store.Told
import Scaffold.Proofs.Store.Tree
import Scaffold.Proofs.Store.Upkeep
import Scaffold.Proofs.Transfer.Agreement
import Scaffold.Proofs.Transfer.Carry
import Scaffold.Proofs.Transfer.Cleanup
import Scaffold.Proofs.Transfer.Complete
import Scaffold.Proofs.Transfer.Directory
import Scaffold.Proofs.Transfer.Entries
import Scaffold.Proofs.Transfer.File
import Scaffold.Proofs.Transfer.Included
import Scaffold.Proofs.Transfer.Moving
import Scaffold.Proofs.Transfer.Overlay
import Scaffold.Proofs.Transfer.Renaming
import Scaffold.Proofs.Transfer.Survival
import Scaffold.Proofs.Transfer.Termination
import Scaffold.Proofs.Transfer.Whole
import Scaffold.Proofs.Walks
import Scaffold.Recursion
import Scaffold.Rename
import Scaffold.Render.Color
import Scaffold.Render.Format
import Scaffold.Render.Json
import Scaffold.Render.Plan
import Scaffold.Render.Table
import Scaffold.Render.Tree
import Scaffold.Setting.Basic
import Scaffold.Setting.Environment
import Scaffold.Setting.Json
import Scaffold.Setting.KeyPath
import Scaffold.Setting.Yaml
import Scaffold.Settings
import Scaffold.Storage.Backend
import Scaffold.Storage.Errno
import Scaffold.Storage.Error
import Scaffold.Storage.Faults
import Scaffold.Storage.Memory
import Scaffold.Text.Blank
import Scaffold.Text.Digit
import Scaffold.Text.Lossy
import Scaffold.Text.Replace
import Scaffold.Text.Scan
import Scaffold.Text.Split
import Scaffold.Text.Width
import Scaffold.Toml.Document
import Scaffold.Toml.Scalar
import Scaffold.Toml.Table
import Scaffold.Yaml.Cursor
import Scaffold.Yaml.Node
import Scaffold.Yaml.Scalar
import Scaffold.Yaml.Token

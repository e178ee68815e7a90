import VaultKernel.Arena
import VaultKernel.Aspect
import VaultKernel.Class.Basic
import VaultKernel.Class.Completion
import VaultKernel.Class.Distribution
import VaultKernel.Class.Hierarchy
import VaultKernel.Class.Layout
import VaultKernel.Class.Predefined
import VaultKernel.Class.Resolution
import VaultKernel.Command.Arguments
import VaultKernel.Command.Check
import VaultKernel.Command.Execution
import VaultKernel.Command.Inspect
import VaultKernel.Command.Invocation
import VaultKernel.Command.Opening
import VaultKernel.Command.Session
import VaultKernel.Constant
import VaultKernel.Decimal.Binary
import VaultKernel.Decimal.Reading
import VaultKernel.Decimal.Shortest
import VaultKernel.Decimal.Style
import VaultKernel.Failure.Basic
import VaultKernel.Failure.Code
import VaultKernel.Failure.Fatal
import VaultKernel.Failure.Fault
import VaultKernel.Failure.Unresolved
import VaultKernel.File.Error
import VaultKernel.File.Path
import VaultKernel.File.Tree
import VaultKernel.Flag
import VaultKernel.Frame
import VaultKernel.Handle
import VaultKernel.Heap.Basic
import VaultKernel.Heap.Collect
import VaultKernel.Image.Class
import VaultKernel.Image.Method
import VaultKernel.Image.Module
import VaultKernel.Main
import VaultKernel.Module
import VaultKernel.Name.FieldName
import VaultKernel.Name.Pool
import VaultKernel.Name.TypeName
import VaultKernel.Native.Builtin
import VaultKernel.Native.LinkError
import VaultKernel.Native.Linking
import VaultKernel.Native.Registry
import VaultKernel.Native.SharedFile
import VaultKernel.Object
import VaultKernel.Proofs.Agreement
import VaultKernel.Proofs.Arena.Bookkeeping
import VaultKernel.Proofs.Arena.Handles
import VaultKernel.Proofs.Arena.Overrun
import VaultKernel.Proofs.Arena.Recycling
import VaultKernel.Proofs.Arena.Slots
import VaultKernel.Proofs.Arena.Upcoming
import VaultKernel.Proofs.Aspect.Constants
import VaultKernel.Proofs.Aspect.Distribution
import VaultKernel.Proofs.Aspect.Keys
import VaultKernel.Proofs.Aspect.Rebuilding
import VaultKernel.Proofs.Class.Ancestry
import VaultKernel.Proofs.Class.Formed
import VaultKernel.Proofs.Class.Hierarchy
import VaultKernel.Proofs.Class.Layouts
import VaultKernel.Proofs.Class.ModuleRenaming
import VaultKernel.Proofs.Class.Predefined
import VaultKernel.Proofs.Class.References
import VaultKernel.Proofs.Class.Renaming
import VaultKernel.Proofs.Class.Resolution
import VaultKernel.Proofs.Class.Stored
import VaultKernel.Proofs.Class.Succession
import VaultKernel.Proofs.Handle.Denotation
import VaultKernel.Proofs.Handle.Log
import VaultKernel.Proofs.Heap.Collection
import VaultKernel.Proofs.Heap.Consistency
import VaultKernel.Proofs.Heap.Handles
import VaultKernel.Proofs.Heap.History
import VaultKernel.Proofs.Heap.LivingBytes
import VaultKernel.Proofs.Heap.Marking
import VaultKernel.Proofs.Heap.Removal
import VaultKernel.Proofs.Heap.Requests
import VaultKernel.Proofs.Heap.Slots
import VaultKernel.Proofs.Heap.Threads
import VaultKernel.Proofs.Image.Bodies
import VaultKernel.Proofs.Image.Extents
import VaultKernel.Proofs.Image.Rewriting
import VaultKernel.Proofs.Image.RoundTrip
import VaultKernel.Proofs.Native.Builtins
import VaultKernel.Proofs.Native.Caching
import VaultKernel.Proofs.Native.Linking
import VaultKernel.Proofs.Native.Registry
import VaultKernel.Proofs.Outcome
import VaultKernel.Proofs.Text.Numeral
import VaultKernel.Proofs.Text.Split
import VaultKernel.Proofs.Vault.AddedModules
import VaultKernel.Proofs.Vault.AllocatingCalls
import VaultKernel.Proofs.Vault.Allocation
import VaultKernel.Proofs.Vault.ArrayCharges
import VaultKernel.Proofs.Vault.ArrayHistories
import VaultKernel.Proofs.Vault.Arrays
import VaultKernel.Proofs.Vault.Assignability
import VaultKernel.Proofs.Vault.Bootstrapper
import VaultKernel.Proofs.Vault.CallChains
import VaultKernel.Proofs.Vault.CallLevels
import VaultKernel.Proofs.Vault.Changes
import VaultKernel.Proofs.Vault.Chronicle
import VaultKernel.Proofs.Vault.CoreClasses
import VaultKernel.Proofs.Vault.Corruption
import VaultKernel.Proofs.Vault.Cycles
import VaultKernel.Proofs.Vault.Depth
import VaultKernel.Proofs.Vault.Disposal
import VaultKernel.Proofs.Vault.DisposedAgain
import VaultKernel.Proofs.Vault.Failures
import VaultKernel.Proofs.Vault.Finishing
import VaultKernel.Proofs.Vault.Handlers
import VaultKernel.Proofs.Vault.HeapInvariant
import VaultKernel.Proofs.Vault.Isolation
import VaultKernel.Proofs.Vault.Layering
import VaultKernel.Proofs.Vault.Layouts
import VaultKernel.Proofs.Vault.Lifetime
import VaultKernel.Proofs.Vault.LoadInvariant
import VaultKernel.Proofs.Vault.LoadOutline
import VaultKernel.Proofs.Vault.LoadRenaming
import VaultKernel.Proofs.Vault.Loaded
import VaultKernel.Proofs.Vault.Needed
import VaultKernel.Proofs.Vault.Nesting
import VaultKernel.Proofs.Vault.ObjectOperations
import VaultKernel.Proofs.Vault.Objects
import VaultKernel.Proofs.Vault.OwnNames
import VaultKernel.Proofs.Vault.Reachable
import VaultKernel.Proofs.Vault.Requests
import VaultKernel.Proofs.Vault.Rollback
import VaultKernel.Proofs.Vault.Sound
import VaultKernel.Proofs.Vault.SparedObjects
import VaultKernel.Proofs.Vault.Stages
import VaultKernel.Proofs.Vault.Steps
import VaultKernel.Proofs.Vault.Tokens
import VaultKernel.Proofs.Vault.Unhandled
import VaultKernel.Proofs.Vault.WholeLoads
import VaultKernel.Proofs.Vault.ZoneOrder
import VaultKernel.Proofs.Version.Grammar
import VaultKernel.Proofs.Version.Parts
import VaultKernel.Proofs.Version.Reading
import VaultKernel.Proofs.Wire.Advances
import VaultKernel.Proofs.Wire.Extents
import VaultKernel.Proofs.Wire.Reads
import VaultKernel.Proofs.Wire.Rewriting
import VaultKernel.Proofs.Wire.Sequences
import VaultKernel.Settings
import VaultKernel.Table
import VaultKernel.Text.Hidden
import VaultKernel.Text.Numeral
import VaultKernel.Text.Quoted
import VaultKernel.Text.Split
import VaultKernel.Token
import VaultKernel.Toml.Blank
import VaultKernel.Toml.DateTime
import VaultKernel.Toml.Document
import VaultKernel.Toml.Number
import VaultKernel.Toml.Quoted
import VaultKernel.Toml.Scalar
import VaultKernel.Toml.Table
import VaultKernel.Toml.Value
import VaultKernel.TypeCode
import VaultKernel.Value
import VaultKernel.Value.Conversion
import VaultKernel.Vault.Array
import VaultKernel.Vault.Basic
import VaultKernel.Vault.Boxing
import VaultKernel.Vault.Dispose
import VaultKernel.Vault.Frames
import VaultKernel.Vault.Invoke
import VaultKernel.Vault.Load
import VaultKernel.Vault.Object
import VaultKernel.Vault.Search
import VaultKernel.Version.Basic
import VaultKernel.Version.Parse
import VaultKernel.Wire.Error
import VaultKernel.Wire.Item
import VaultKernel.Wire.Reader
import VaultKernel.Wire.TypeIndex
import VaultKernel.Wire.Word
import VaultKernel.Wire.Writer

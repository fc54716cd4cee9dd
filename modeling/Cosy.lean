import Cosy.Lib.SortedMap
import Cosy.Lib.Effect
import Cosy.Lib.ByteMemory
import Cosy.Lib.Bracketed
import Cosy.Lib.Census
import Cosy.Lib.Layers
import Cosy.Lib.BitFields
import Cosy.Lib.Notices
import Cosy.Lib.Changes
import Cosy.Lib.Handles
import Cosy.Lib.Parallel
import Cosy.Lib.FirstMatch
import Cosy.Lib.SortedUnique
import Cosy.Lib.FirstGreatest
import Cosy.Lib.Refinement
import Cosy.Common
import Cosy.Architecture
import Cosy.Modules
import Cosy.State
import Cosy.Kernel
import Cosy.Breakpoints
import Cosy.Watchpoints
import Cosy.Execution
import Cosy.Locals
import Cosy.Commands
import Cosy.Machine
import Cosy.Access
import Cosy.Patch
import Cosy.Looking
import Cosy.Moves
import Cosy.Traps
import Cosy.Functions
import Cosy.Managing
import Cosy.Sessions
import Cosy.Invariant
import Cosy.Reliable
import Cosy.Restoration
import Cosy.Schedule
import Cosy.Exec
import Cosy.Detach
import Cosy.Frames
import Cosy.Rearming
import Cosy.Consumers
import Cosy.Selection
import Cosy.Reports
import Cosy.Fixups
import Cosy.Edits
import Cosy.Tables
import Cosy.Numbers
import Cosy.Pausing
import Cosy.Signals
import Cosy.Announcements
import Cosy.Whole
import Cosy.Operations
import Cosy.Layering
import Cosy.UserWrites
import Cosy.DebugSlots
import Cosy.Disarming
import Cosy.Programming
import Cosy.Notified
import Cosy.Coverage
import Cosy.Arguments
import Cosy.Recording
import Cosy.Atomicity
import Cosy.Firing
import Cosy.DebugFile
import Cosy.Refreshing
import Cosy.Descriptors
import Cosy.LoadBias
import Cosy.Attribution
import Cosy.Hexadecimal
import Cosy.Inspection
import Cosy.Statics
import Cosy.SoleThread
import Cosy.SingleStep
import Cosy.Continuing
import Cosy.SourceLines
import Cosy.Expressions
import Cosy.Keeping
import Cosy.Setting
import Cosy.Reselecting
import Cosy.SelectedFrame
import Cosy.SourceStep
import Cosy.Activations
import Cosy.Finishing
import Cosy.SteppingOver
import Cosy.NearestSymbol
import Cosy.AddressSyntax
import Cosy.CommandLine
import Cosy.DebugControl
import Cosy.ByteAccess
import Cosy.FrameBase
import Cosy.Shadowing
import Cosy.Isolation
import Cosy.MemoryMaps
import Cosy.Locations
import Cosy.Backtraces
import Cosy.Registers
import Cosy.Attending
import Cosy.Displaying
import Cosy.Controller
import Cosy.Following
import Cosy.Responding
import Cosy.Obeying
import Cosy.Transparent
import Cosy.Glancing
import Cosy.Resolving
import Cosy.Rewinding
import Cosy.Output
import Cosy.Dumps
import Cosy.Naming
import Cosy.Confining
import Cosy.Upholding
import Cosy.Guarding
import Cosy.Waiting

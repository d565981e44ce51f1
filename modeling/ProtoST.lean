import ProtoST.Lib.Transition
import ProtoST.Lib.Linked
import ProtoST.Lib.Linearizable
import ProtoST.Runtime.ReadyStack
import ProtoST.Runtime.ReadyStackSafety
import ProtoST.Runtime.ReadyStackHistory
import ProtoST.Primitives.FutureSettle
import ProtoST.Primitives.FutureSettleSafety
import ProtoST.Primitives.MainWait
import ProtoST.Primitives.WaitCycle
import ProtoST.Primitives.WaitCycleSound
import ProtoST.Primitives.WaitCycleComplete
import ProtoST.Runtime.ActorTurn
import ProtoST.Runtime.ActorTurnFlag
import ProtoST.Runtime.ActorTurnMailbox
import ProtoST.Runtime.ActorTurnOrder
import ProtoST.Runtime.ActorTurnSuspend
import ProtoST.Runtime.ActorTurnNoticed
import ProtoST.Runtime.ActorTurnWakeup
import ProtoST.Lib.Follow
import ProtoST.Lib.Recursion
import ProtoST.Lib.Trail
import ProtoST.Lib.FixedArray
import ProtoST.Runtime.ModuleImport
import ProtoST.Runtime.ModuleImportTables
import ProtoST.Runtime.ModuleImportSafety
import ProtoST.Runtime.Dispatch
import ProtoST.Runtime.DispatchClassSide
import ProtoST.Runtime.DispatchActor
import ProtoST.Runtime.EngineStack
import ProtoST.Runtime.EngineStackSound
import ProtoST.Runtime.NonLocalReturn
import ProtoST.Lib.Structured
import ProtoST.Lib.StackDepth
import ProtoST.Runtime.Bytecode
import ProtoST.Runtime.OperandDepth
import ProtoST.Frontend.Ast
import ProtoST.Frontend.Analysis
import ProtoST.Frontend.Compiler
import ProtoST.Frontend.ClassTable
import ProtoST.Frontend.InheritedVars
import ProtoST.Frontend.SeparateCompilation
import ProtoST.Runtime.ModuleObject
import ProtoST.Frontend.Sites
import ProtoST.Frontend.OpenScopes
import ProtoST.Frontend.OperandBound
import ProtoST.Frontend.SiteWalks
import ProtoST.Frontend.SelfVariables
import ProtoST.Runtime.CallBinding
import ProtoST.Runtime.FrameSlots
import ProtoST.Runtime.FrameMachine
import ProtoST.Runtime.DispatchPerform
import ProtoST.Runtime.ClassGraph
import ProtoST.Runtime.ClassGraphSound
import ProtoST.Runtime.SuperDispatch
import ProtoST.Runtime.WorkerPool
import ProtoST.Json.Acceptance
import ProtoST.Json.RoundTrip
import ProtoST.Collections.Equality
import ProtoST.Collections.FiniteMaps
import ProtoST.Collections.HashedContent
import ProtoST.Collections.HashedRefinement
import ProtoST.Collections.Membership
import ProtoST.Collections.Iteration
import ProtoST.Lib.EffectfulSort
import ProtoST.Collections.Sorting
import ProtoST.Lib.Lookahead
import ProtoST.Frontend.Lexer
import ProtoST.Frontend.Numerals
import ProtoST.Frontend.Tokens
import ProtoST.Runtime.BlockingIO
import ProtoST.Runtime.Shutdown
import ProtoST.Primitives.UnobservedErrors
import ProtoST.Lib.Journal
import ProtoST.Primitives.Cleanup
import ProtoST.Collections.SortedCollection
import ProtoST.Lib.Uri
import ProtoST.Http.Urls
import ProtoST.Http.Redirects
import ProtoST.Kernel.Calendar
import ProtoST.Primitives.IntegerDivision
import ProtoST.Lib.TwosComplement
import ProtoST.Primitives.WideBits
import ProtoST.Kernel.Fractions
import ProtoST.Primitives.NumberParsing
import ProtoST.Runtime.ValueFormat
import ProtoST.Json.PrintedNumbers
import ProtoST.Json.Rendering
import ProtoST.Kernel.NumberText
import ProtoST.Lib.Occurrences
import ProtoST.Primitives.Strings
import ProtoST.Kernel.Strings
import ProtoST.Lib.Progression
import ProtoST.Primitives.NativeIntervals
import ProtoST.Kernel.Intervals
import ProtoST.Kernel.Rationals
import ProtoST.Lib.WhileLoop
import ProtoST.Kernel.Roots
import ProtoST.Kernel.ReadStreams
import ProtoST.Kernel.Sequences
import ProtoST.Collections.OrderedCollections
import ProtoST.Runtime.Metaclasses
import ProtoST.Runtime.ModuleFiles
import ProtoST.Frontend.ReplScopes
import ProtoST.Runtime.ReplSession
import ProtoST.Frontend.Literals
import ProtoST.Kernel.PrintedLiterals
import ProtoST.Runtime.NodePool
import ProtoST.Runtime.Semaphore
import ProtoST.Lib.Scopes
import ProtoST.Lib.Course
import ProtoST.Primitives.Callbacks
import ProtoST.Primitives.CallbacksRestored
import ProtoST.Primitives.CallbacksIsolated
import ProtoST.Primitives.CallbacksRecords
import ProtoST.Primitives.CallbacksAwake
import ProtoST.Primitives.CallbacksSuspensions
import ProtoST.Debugger.Evaluation
import ProtoST.Lib.HttpResponse
import ProtoST.Http.Connection
import ProtoST.Http.ConnectionRuns
import ProtoST.Http.ConnectionAnswers
import ProtoST.Frontend.Layout
import ProtoST.Frontend.LayoutScopes
import ProtoST.Debugger.FrameVariables
import ProtoST.Runtime.Assembler
import ProtoST.Lib.Lockstep
import ProtoST.Runtime.FrameRestore
import ProtoST.Primitives.Atoms

import YellowTree.Lib.ListSplit
import YellowTree.Lib.DepthFirst
import YellowTree.Lib.Regex
import YellowTree.Lib.Monitor
import YellowTree.Lib.WaitMonitor
import YellowTree.Lib.ModifiedUtf8
import YellowTree.Lib.SharedStack
import YellowTree.Lib.Transition
import YellowTree.Lib.Refinement
import YellowTree.Lib.Nesting
import YellowTree.Lib.CollectLoop
import YellowTree.Lib.ApiStack
import YellowTree.Lib.FuelLoop
import YellowTree.Lib.BitFlags
import YellowTree.Lua.Value
import YellowTree.Bridge.Descriptor
import YellowTree.Bridge.MethodId
import YellowTree.Bridge.CallableMethod
import YellowTree.Bridge.Strings
import YellowTree.Bridge.ArrayElements
import YellowTree.Bridge.ArrayBounds
import YellowTree.Bridge.Lookup
import YellowTree.Bridge.MemberSearch
import YellowTree.Bridge.Visibility
import YellowTree.Bridge.MethodIdentity
import YellowTree.Bridge.Constructors
import YellowTree.Bridge.ClassFind
import YellowTree.Bridge.Arguments
import YellowTree.Bridge.WellTyped
import YellowTree.Bridge.Numbers
import YellowTree.Bridge.ReturnValues
import YellowTree.Bridge.MethodSignature
import YellowTree.Bridge.Instances
import YellowTree.Bridge.Modifiers
import YellowTree.Bridge.References
import YellowTree.Bridge.FieldValues
import YellowTree.Bridge.JavaPrograms
import YellowTree.Bridge.MethodCalls
import YellowTree.Bridge.NativeInterface
import YellowTree.Bridge.NativeFunctions
import YellowTree.Bridge.NativeSafety
import YellowTree.Bridge.NativeAgreement
import YellowTree.Jvmti.Events
import YellowTree.Jvmti.Registration
import YellowTree.Debugger.Breakpoints
import YellowTree.Debugger.CallableBreakpoints
import YellowTree.Debugger.Options
import YellowTree.Debugger.StartUp
import YellowTree.Debugger.ThreadTable
import YellowTree.Debugger.EventQueue
import YellowTree.Debugger.QueueProgress
import YellowTree.Debugger.Session
import YellowTree.Debugger.SessionLock
import YellowTree.Debugger.SessionProgress
import YellowTree.Debugger.QueueRefinement
import YellowTree.Debugger.SessionGlobals
import YellowTree.Debugger.SessionResume
import YellowTree.Debugger.SessionQueue
import YellowTree.Debugger.SelectedFrame
import YellowTree.Debugger.Stepping
import YellowTree.Debugger.StopPoints
import YellowTree.Debugger.NestedReturn
import YellowTree.Debugger.StepThrough
import YellowTree.Debugger.StepRequests
import YellowTree.Debugger.CommandLoop
import YellowTree.Debugger.Dump
import YellowTree.Debugger.NextLine
import YellowTree.Debugger.Frame
import YellowTree.Debugger.LocalVariables
import YellowTree.Debugger.ClassSearch
import YellowTree.Emacs.JavaNames
import YellowTree.Emacs.MarkerFilter
import YellowTree.Lua.Lexer
import YellowTree.Emacs.BreakAtLine
import YellowTree.Telescope.Run
import YellowTree.Telescope.Environments

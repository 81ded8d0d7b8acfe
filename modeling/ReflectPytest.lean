import ReflectPytest.Library.SyncBus
import ReflectPytest.Library.Sections
import ReflectPytest.Library.Threads
import ReflectPytest.Library.Undisturbed
import ReflectPytest.Library.Monitors
import ReflectPytest.Library.LockedBus
import ReflectPytest.Library.LockOrder
import ReflectPytest.Library.Cascades
import ReflectPytest.Library.Accounts
import ReflectPytest.Library.Progress
import ReflectPytest.Library.Retirement
import ReflectPytest.Library.Guarantees
import ReflectPytest.Library.FirstOccurrences
import ReflectPytest.Library.OrderedMap
import ReflectPytest.Library.Throttle
import ReflectPytest.Library.Mailbox
import ReflectPytest.Library.LittleEndian
import ReflectPytest.Library.PyStruct
import ReflectPytest.Library.PyOperators
import ReflectPytest.FloatOps
import ReflectPytest.FloatLaws
import ReflectPytest.Messages
import ReflectPytest.Services.Motor
import ReflectPytest.Services.MotorBounds
import ReflectPytest.Services.State
import ReflectPytest.Services.Physics
import ReflectPytest.Services.Environment
import ReflectPytest.Services.Autonomous
import ReflectPytest.Environment.RegionMap
import ReflectPytest.Services.Log
import ReflectPytest.App
import ReflectPytest.MotorCore
import ReflectPytest.Autonomous.ArrayAccess
import ReflectPytest.Autonomous.Energy
import ReflectPytest.Autonomous.MotorCommands
import ReflectPytest.Autonomous.StopInForce
import ReflectPytest.Autonomous.Heading
import ReflectPytest.Autonomous.Waypoints
import ReflectPytest.Autonomous.SpeedRange
import ReflectPytest.Autonomous.Bookkeeping
import ReflectPytest.Autonomous.FreshRoute
import ReflectPytest.Autonomous.Coverage
import ReflectPytest.Concurrency.AppThreads
import ReflectPytest.Concurrency.EventRuns
import ReflectPytest.Concurrency.MotorPhase
import ReflectPytest.Concurrency.Agreement
import ReflectPytest.Concurrency.AtRest
import ReflectPytest.Concurrency.TickCharging
import ReflectPytest.Concurrency.LogQueue
import ReflectPytest.Concurrency.Visits
import ReflectPytest.Concurrency.SpeedInForce
import ReflectPytest.Sequential.Events
import ReflectPytest.Sequential.Schedule
import ReflectPytest.Sequential.Queries
import ReflectPytest.Sequential.StepTiming
import ReflectPytest.Sequential.ElapsedTime
import ReflectPytest.Sil.Handlers
import ReflectPytest.Sil.Threads
import ReflectPytest.Sil.Refines
import ReflectPytest.Sil.Locks
import ReflectPytest.Sil.Cascades
import ReflectPytest.Sil.Replies
import ReflectPytest.Sil.Shutdown
import ReflectPytest.Wire.CType
import ReflectPytest.Wire.PyModule
import ReflectPytest.Wire.Generator
import ReflectPytest.Wire.Pending
import ReflectPytest.Wire.Memberwise
import ReflectPytest.Wire.Loading
import ReflectPytest.Wire.Codec
import ReflectPytest.Wire.Necessity
import ReflectPytest.Wire.Scopes
import ReflectPytest.Wire.Statements
import ReflectPytest.Wire.Hygiene
import ReflectPytest.Wire.Chunks
import ReflectPytest.Wire.Clashes
import ReflectPytest.Wire.Overwrites
import ReflectPytest.Wire.Variety
import ReflectPytest.Wire.Recovery
import ReflectPytest.Wire.Renaming
import ReflectPytest.Wire.Objects
import ReflectPytest.Wire.Exact
import ReflectPytest.Wire.Payloads
import ReflectPytest.Wire.Generated
import ReflectPytest.Wire.Lengths
import ReflectPytest.Wire.Surplus
import ReflectPytest.Bridge.Admission
import ReflectPytest.Client.UdpClient
import ReflectPytest.Library.LineFilling
import ReflectPytest.Docs.WrapWords
import ReflectPytest.Services.ThermalBounds
import ReflectPytest.Services.Battery
import ReflectPytest.Wire.Order
import ReflectPytest.Docs.Topology
import ReflectPytest.Wire.TypeNames
import ReflectPytest.Library.CallStacks
import ReflectPytest.MessageBus
import ReflectPytest.Concurrency.Envelope
import ReflectPytest.Library.Races
import ReflectPytest.Sil.Races
import ReflectPytest.Library.Frames
import ReflectPytest.Client.Fixtures
import ReflectPytest.Concurrency.CommandIds
import ReflectPytest.Concurrency.StateRequests
import ReflectPytest.Concurrency.CommandStages
import ReflectPytest.Concurrency.CommandTicks
import ReflectPytest.Client.Dispatch
import ReflectPytest.Library.Pursuit
import ReflectPytest.Sequential.Mission
import ReflectPytest.Library.Transducers
import ReflectPytest.Library.Dot
import ReflectPytest.Docs.FlowDot

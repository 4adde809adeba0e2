import Cortos.Hooks.Basic
import Cortos.Hooks.Pairing
import Cortos.Hooks.Snapshot
import Cortos.Inbox.Delivery
import Cortos.Inbox.RingBuffer
import Cortos.Inbox.RingInvariant
import Cortos.Inbox.Sequential
import Cortos.Inbox.WrapAround
import Cortos.Kernel.Basic
import Cortos.Kernel.ReadyMatrix
import Cortos.Kernel.Scheduling
import Cortos.Kernel.WaitNodes
import Cortos.Kernel.WaitRep
import Cortos.Kernel.Waitable
import Cortos.Lib.Alignment
import Cortos.Lib.BitScan
import Cortos.Lib.IntrusiveList
import Cortos.Lib.Lifetime
import Cortos.Lib.Lists
import Cortos.Lib.Resources
import Cortos.Lib.RoundRobin
import Cortos.Lib.Rounding
import Cortos.Lib.Transition
import Cortos.Locks.PreemptionDepth
import Cortos.Locks.WaitLocks
import Cortos.Machine.Basic
import Cortos.Machine.CoreSteps
import Cortos.Machine.Effects
import Cortos.Machine.Lifecycle
import Cortos.Machine.Observation
import Cortos.Machine.ThreadSteps
import Cortos.Machine.Transitions
import Cortos.Machine.WaitCycle
import Cortos.Memory.Function
import Cortos.Memory.FunctionOwnership
import Cortos.Memory.FunctionStore
import Cortos.Memory.StackLayout
import Cortos.Port.ContextLeak
import Cortos.Port.Contexts
import Cortos.Port.Fibers
import Cortos.Port.LinuxBoost
import Cortos.Port.Quiescence
import Cortos.Port.Restart
import Cortos.Port.Shutdown
import Cortos.Port.Sleep
import Cortos.Properties.Assertions
import Cortos.Properties.DoubleEnqueue
import Cortos.Properties.FixedPriority
import Cortos.Properties.InboxBound
import Cortos.Properties.Join
import Cortos.Properties.JoinReturn
import Cortos.Properties.LostSignal
import Cortos.Properties.NoOvertaking
import Cortos.Properties.NodePool
import Cortos.Properties.Ownership
import Cortos.Properties.Pinning
import Cortos.Properties.Preemption
import Cortos.Properties.ReadyFifo
import Cortos.Properties.RemoteWake
import Cortos.Properties.SignalOrder
import Cortos.Properties.SingleCore
import Cortos.Properties.StaleWake
import Cortos.Properties.Termination
import Cortos.Properties.ThreadHandles
import Cortos.Properties.ThreadStates
import Cortos.Properties.WaitForAny
import Cortos.Properties.WaitUntil
import Cortos.Properties.YieldTrace
import Cortos.Properties.YieldTurns
import Cortos.Time.AfterCancel
import Cortos.Time.Conversion
import Cortos.Time.Equivalence
import Cortos.Time.ExactCeiling
import Cortos.Time.ExactlyOnce
import Cortos.Time.FiringOrder
import Cortos.Time.HandleIds
import Cortos.Time.Lifecycle
import Cortos.Time.RealtimeClock
import Cortos.Time.Rearm
import Cortos.Time.Service
import Cortos.Time.Simulation
import Cortos.Time.SlotDriver
import Cortos.Time.Threads.Control
import Cortos.Time.Threads.Driver
import Cortos.Time.Threads.Handles
import Cortos.Time.Threads.Requests
import Cortos.Time.TicklessAgreement

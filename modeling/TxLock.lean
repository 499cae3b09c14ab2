import TxLock.ForStd.System
import TxLock.Native.Lll
import TxLock.Spec.LllExclusion
import TxLock.Native.Ticket
import TxLock.ForStd.Numbered
import TxLock.ForStd.Fifo
import TxLock.Spec.TicketInvariant
import TxLock.Native.TasHle
import TxLock.Spec.HlePairing
import TxLock.Spec.TicketCorrect
import TxLock.ForStd.Linked
import TxLock.Native.Txcond
import TxLock.Spec.TxcondMutex
import TxLock.Spec.TxcondNodes
import TxLock.Spec.TxcondQueue
import TxLock.Spec.TxcondSignal
import TxLock.ForStd.Prog
import TxLock.ForStd.Refine
import TxLock.Native.Txlock
import TxLock.Native.CondDispatch
import TxLock.Spec.CondValues
import TxLock.Native.HtmThread
import TxLock.Spec.WaitRecord
import TxLock.Spec.WaitUndone
import TxLock.Native.McsPool
import TxLock.Spec.McsPool
import TxLock.Native.Mcs
import TxLock.Spec.McsView
import TxLock.Spec.McsQueue
import TxLock.Spec.McsThread
import TxLock.Spec.McsFifo
import TxLock.Spec.McsCorrect
import TxLock.ForStd.Lcg
import TxLock.Native.PosixMutex
import TxLock.Spec.PthreadFaithful
import TxLock.Native.Futex
import TxLock.Spec.SignalOnce
import TxLock.Spec.TxcondOnce
import TxLock.Spec.TxcondFifo
import TxLock.Spec.TxcondOwner
import TxLock.Native.TasPriority
import TxLock.Spec.TasPriority
import TxLock.ForStd.Access
import TxLock.Native.HleData
import TxLock.Spec.HleIsolation
import TxLock.Native.HtmTrace
import TxLock.Spec.SpecFlag
import TxLock.Spec.SpecEntry
import TxLock.Native.CondCounters
import TxLock.Spec.CondCounters
import TxLock.Native.CondFutex
import TxLock.Spec.CondWakeup
import TxLock.Native.TmStats
import TxLock.Spec.TmStats
import TxLock.Spec.McsNodes
import TxLock.ForStd.Counter
import TxLock.Native.Profile
import TxLock.Spec.Profile
import TxLock.Spec.TmConserved
import TxLock.Spec.LockConserved
import TxLock.Native.McsHtm
import TxLock.Spec.McsMove
import TxLock.Spec.McsRelative
import TxLock.Spec.McsHalt
import TxLock.ForStd.TryLock
import TxLock.Native.PthreadLock
import TxLock.Native.Tas
import TxLock.Spec.TasTrylock
import TxLock.Spec.HleTrylock
import TxLock.Spec.PriorityTrylock
import TxLock.Spec.PthreadTrylock
import TxLock.Spec.TicketTrylock
import TxLock.Spec.McsTrylock
import TxLock.Spec.Trylock
import TxLock.Spec.TasElision
import TxLock.Spec.PthreadElision
import TxLock.Spec.TicketElision
import TxLock.Spec.McsElision
import TxLock.Spec.TlGraph
import TxLock.Spec.LockFields
import TxLock.Spec.TasCode
import TxLock.Spec.PthreadCode
import TxLock.Spec.TicketCode
import TxLock.Spec.PriorityCode
import TxLock.Spec.TlExclusive

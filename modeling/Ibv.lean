import Ibv.Blocking
import Ibv.Burst
import Ibv.ByteMemory
import Ibv.Calls
import Ibv.CompletionQueue
import Ibv.Counters
import Ibv.Credits
import Ibv.Delivery
import Ibv.Direction
import Ibv.DirectionInvariant
import Ibv.Dispatch
import Ibv.Duplex
import Ibv.EmptyRing
import Ibv.Endpoint
import Ibv.EndpointSteps
import Ibv.FailedPost
import Ibv.Flags
import Ibv.Gather
import Ibv.Gathering
import Ibv.Lifetime
import Ibv.Listening
import Ibv.ListeningOrder
import Ibv.ListeningProgress
import Ibv.LocalRing
import Ibv.Lockstep
import Ibv.MachineWords
import Ibv.Mr
import Ibv.Notices
import Ibv.Opening
import Ibv.OpeningReady
import Ibv.OpeningSystem
import Ibv.Oversized
import Ibv.Ownership
import Ibv.Programs
import Ibv.ProgramsFinish
import Ibv.Progress
import Ibv.Quiescence
import Ibv.Race
import Ibv.RaceExclusive
import Ibv.ReceiveQueue
import Ibv.Refinement
import Ibv.Regular
import Ibv.RemoteRing
import Ibv.RingWords
import Ibv.Runs
import Ibv.SendRing
import Ibv.SendRingOrder
import Ibv.SendingCounters
import Ibv.Server
import Ibv.SetupAgreement
import Ibv.SetupProgress
import Ibv.SetupStream
import Ibv.SmallMessages
import Ibv.System
import Ibv.Withholding
import Ibv.WordMemory
import Ibv.Work
import Ibv.Protection

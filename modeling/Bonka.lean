import Bonka.Lib.Run
import Bonka.Lib.Linearization
import Bonka.Lib.Unwinding
import Bonka.Lib.ShardScan
import Bonka.Lib.Locking
import Bonka.Lib.Guarding
import Bonka.Lib.Erasure
import Bonka.Lib.DashMap
import Bonka.Lib.Wire
import Bonka.Lib.Simulation
import Bonka.Proto
import Bonka.ProtoWire
import Bonka.Kv
import Bonka.Session
import Bonka.SessionIndex
import Bonka.SessionRuns
import Bonka.SessionIds
import Bonka.SessionCleanup
import Bonka.SessionThreads
import Bonka.SessionEviction
import Bonka.SessionSweep
import Bonka.SessionLeaks
import Bonka.SessionPrompt
import Bonka.SessionLocks
import Bonka.SessionGuards
import Bonka.SessionAtomicity
import Bonka.Server
import Bonka.StartUp
import Bonka.AcceptLoop
import Bonka.ServerRun
import Bonka.SessionErasure
import Bonka.ConnectionRuns
import Bonka.ConnectionProgress
import Bonka.ServerProcess
import Bonka.ConnectionProtocol
import Bonka.ServerLinear
import Bonka.DisjointClients
import Bonka.ListScan
import Bonka.ResponseSize
import Bonka.SessionLifetime
import Bonka.Client
import Bonka.ClientState
import Bonka.ClientFraming
import Bonka.ClientValues
import Bonka.ClientPairing
import Bonka.ClientServer
import Bonka.ClientHistories
import Bonka.ClientProgress
import Bonka.ClientListing
import Bonka.ThreadedServer
import Bonka.ThreadedSessions
import Bonka.ThreadedLifetimes

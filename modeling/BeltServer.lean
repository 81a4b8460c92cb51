import BeltServer.Lib.Runs
import BeltServer.Lib.SwapList
import BeltServer.Lib.Tally
import BeltServer.Threads
import BeltServer.LedgerSim
import BeltServer.RefSteps
import BeltServer.Consistent
import BeltServer.SerialSim
import BeltServer.Reservation
import BeltServer.SeatLedger
import BeltServer.SessionLedger
import BeltServer.Lib.DropQueue
import BeltServer.Stage
import BeltServer.Sections
import BeltServer.Inputs
import BeltServer.Entries
import BeltServer.Stale
import BeltServer.Snapshots
import BeltServer.Clock
import BeltServer.Placement
import BeltServer.Isolation
import BeltServer.Lib.LengthPrefix
import BeltServer.Framing
import BeltServer.Flow
import BeltServer.Lib.LittleEndian
import BeltServer.RoundTrip
import BeltServer.Life
import BeltServer.Assault
import BeltServer.Sweep
import BeltServer.Target
import BeltServer.Lib.Cooldown
import BeltServer.Cadence
import BeltServer.Mirror
import BeltServer.Pacing
import BeltServer.Lib.Holding
import BeltServer.Held
import BeltServer.TickOnce
import BeltServer.Position
import BeltServer.Transfer
import BeltServer.Speed
import BeltServer.Vacancy
import BeltServer.Transcript
import BeltServer.Greeting
import BeltServer.Lib.Separation
import BeltServer.Apart
import BeltServer.Pool
import BeltServer.Lib.Histogram
import BeltServer.Quantile
import BeltServer.Lib.History
import BeltServer.DirtyWords
import BeltServer.Deframers
import BeltServer.Writable
import BeltServer.Echo
import BeltServer.Leaving
import BeltServer.Whereabouts
import BeltServer.Handlers
import BeltServer.Ownership
import BeltServer.Outflow
import BeltServer.OutflowSim
import BeltServer.Deserted
import BeltServer.Completion
import BeltServer.Live
import BeltServer.Draw
import BeltServer.Follow
import BeltServer.Upstream
import BeltServer.Lane
import BeltServer.Circuit
import BeltServer.Returns
import BeltServer.Window
import BeltServer.Solo
import BeltServer.Effects

import NonceSearch.Bytes
import NonceSearch.Bytes.Lemmas
import NonceSearch.Config
import NonceSearch.Core.Basic
import NonceSearch.Core.Search
import NonceSearch.Core.Window
import NonceSearch.Daemon
import NonceSearch.Decimal.Binary64
import NonceSearch.Decimal.Fixed
import NonceSearch.Decimal.Read
import NonceSearch.Decimal.Shortest
import NonceSearch.Device.Basic
import NonceSearch.Device.Board
import NonceSearch.Device.Bound
import NonceSearch.Device.Node
import NonceSearch.Device.Script
import NonceSearch.Dispatch
import NonceSearch.Driver.Basic
import NonceSearch.Driver.Program
import NonceSearch.HashRate
import NonceSearch.InterruptLine
import NonceSearch.Log.Event
import NonceSearch.Log.Line
import NonceSearch.Main
import NonceSearch.Mask
import NonceSearch.Path
import NonceSearch.Proofs.Backlog
import NonceSearch.Proofs.Banks
import NonceSearch.Proofs.BoardScans
import NonceSearch.Proofs.Boards
import NonceSearch.Proofs.Calls
import NonceSearch.Proofs.Campaigns
import NonceSearch.Proofs.Comparators
import NonceSearch.Proofs.Completions
import NonceSearch.Proofs.Configuration
import NonceSearch.Proofs.CoreSteps
import NonceSearch.Proofs.Course
import NonceSearch.Proofs.Custody
import NonceSearch.Proofs.DataPort
import NonceSearch.Proofs.Deliveries
import NonceSearch.Proofs.DemoWork
import NonceSearch.Proofs.DisplacedWork
import NonceSearch.Proofs.DumpEffects
import NonceSearch.Proofs.Endings
import NonceSearch.Proofs.FeedingLoop
import NonceSearch.Proofs.GenuineShares
import NonceSearch.Proofs.HeldCores
import NonceSearch.Proofs.HonestScan
import NonceSearch.Proofs.Hunting
import NonceSearch.Proofs.Layouts
import NonceSearch.Proofs.Likeness
import NonceSearch.Proofs.Liveness
import NonceSearch.Proofs.Loading
import NonceSearch.Proofs.MessageStream
import NonceSearch.Proofs.Midstates
import NonceSearch.Proofs.Monitoring
import NonceSearch.Proofs.OngoingSearches
import NonceSearch.Proofs.Onlookers
import NonceSearch.Proofs.PackedWords
import NonceSearch.Proofs.ParameterPrograms
import NonceSearch.Proofs.Parameters
import NonceSearch.Proofs.Plays
import NonceSearch.Proofs.Promptness
import NonceSearch.Proofs.Pushes
import NonceSearch.Proofs.ReadyWait
import NonceSearch.Proofs.RecordStream
import NonceSearch.Proofs.RegisterDumps
import NonceSearch.Proofs.RegisterPrograms
import NonceSearch.Proofs.Remainders
import NonceSearch.Proofs.Renewal
import NonceSearch.Proofs.Retirement
import NonceSearch.Proofs.Rig
import NonceSearch.Proofs.RigSteps
import NonceSearch.Proofs.ScanProtocol
import NonceSearch.Proofs.ScanSteps
import NonceSearch.Proofs.ScanTimes
import NonceSearch.Proofs.SearchHistory
import NonceSearch.Proofs.SearchVerdict
import NonceSearch.Proofs.Searchers
import NonceSearch.Proofs.SessionOrder
import NonceSearch.Proofs.SessionStates
import NonceSearch.Proofs.Settings
import NonceSearch.Proofs.Shifts
import NonceSearch.Proofs.Shutdown
import NonceSearch.Proofs.Sketches
import NonceSearch.Proofs.Snapshots
import NonceSearch.Proofs.Stalls
import NonceSearch.Proofs.Station
import NonceSearch.Proofs.SteppedSearch
import NonceSearch.Proofs.SuppliedWork
import NonceSearch.Proofs.Tallies
import NonceSearch.Proofs.TargetMasks
import NonceSearch.Proofs.Tenures
import NonceSearch.Proofs.Trial
import NonceSearch.Proofs.Turns
import NonceSearch.Proofs.Unbinding
import NonceSearch.Proofs.Verdicts
import NonceSearch.Proofs.Wakeups
import NonceSearch.Proofs.Watching
import NonceSearch.Proofs.WordStores
import NonceSearch.Proofs.WorkAccounts
import NonceSearch.Proofs.WorkerHistory
import NonceSearch.Proofs.WorkerLedger
import NonceSearch.Proofs.WorkerSteps
import NonceSearch.Protocol.Completion
import NonceSearch.Protocol.Error
import NonceSearch.Protocol.Layout
import NonceSearch.Protocol.Request
import NonceSearch.Protocol.Status
import NonceSearch.Queue.Basic
import NonceSearch.Queue.Waiting
import NonceSearch.Registers.Bus
import NonceSearch.Registers.Memory
import NonceSearch.Registers.Window
import NonceSearch.Scan.Basic
import NonceSearch.Scan.Machine
import NonceSearch.Scan.Run
import NonceSearch.Session.Basic
import NonceSearch.Session.Run
import NonceSearch.Sha256
import NonceSearch.Text.Blank
import NonceSearch.Text.Quoted
import NonceSearch.Text.Unprintable
import NonceSearch.Text.Utf8
import NonceSearch.Thermal
import NonceSearch.Uint256
import NonceSearch.Uint256.Lemmas
import NonceSearch.Words
import NonceSearch.Work
import NonceSearch.Worker.Basic
import NonceSearch.Worker.Machine
import NonceSearch.Worker.Run

import PeripheralBench.Stream.Net
import PeripheralBench.Stream.Talk
import PeripheralBench.Stream.Io
import PeripheralBench.Text
import PeripheralBench.Mqtt.Wire
import PeripheralBench.Mqtt.Payload
import PeripheralBench.Mqtt.Firmware
import PeripheralBench.Mqtt.Agreement
import PeripheralBench.Mqtt.Server
import PeripheralBench.Mqtt.Controller
import PeripheralBench.Mqtt.Format
import PeripheralBench.Transfer.Device
import PeripheralBench.Transfer.Server
import PeripheralBench.Transfer.Texts
import PeripheralBench.Transfer.DeviceSpec
import PeripheralBench.Transfer.ServerSpec
import PeripheralBench.Transfer.Session
import PeripheralBench.Ble.Channel
import PeripheralBench.Ble.Send
import PeripheralBench.Ble.Bridge
import PeripheralBench.Ble.Transparency
import PeripheralBench.Ble.Control
import PeripheralBench.Ble.Framing
import PeripheralBench.Ble.Receive
import PeripheralBench.Durable.Rewrite
import PeripheralBench.Runner.Resume
import PeripheralBench.Runner.Durability
import PeripheralBench.Runner.Rows
import PeripheralBench.Runner.Coverage
import PeripheralBench.Runner.Replan
import PeripheralBench.Signal.Pulse
import PeripheralBench.Power.Markers
import PeripheralBench.Power.Profiler
import PeripheralBench.Power.Decoding
import PeripheralBench.Power.Attribution
import PeripheralBench.Pki.Header
import PeripheralBench.Pki.Profiles
import PeripheralBench.Fold.Overwrite
import PeripheralBench.Pki.Selection
import PeripheralBench.Packing.FirstFit
import PeripheralBench.Pki.Packing
import PeripheralBench.Signal.Enclosed
import PeripheralBench.Power.KemPartition
import PeripheralBench.Mqtt.Inbox
import PeripheralBench.Mqtt.Delivery
import PeripheralBench.Runner.BenchLine
import PeripheralBench.Runner.BleResult
import PeripheralBench.Runner.SerialSession
import PeripheralBench.Text.Utf8
import PeripheralBench.Runner.SerialReads
import PeripheralBench.Codec.Delimited
import PeripheralBench.Codec.Json
import PeripheralBench.Runner.CacheKey
import PeripheralBench.Transfer.Plan
import PeripheralBench.Transfer.Codecs
import PeripheralBench.Runner.CaseFile
import PeripheralBench.Transfer.PlanLength
import PeripheralBench.Transfer.PacketIds
import PeripheralBench.Runner.Values
import PeripheralBench.Runner.BoardCommands
import PeripheralBench.Runner.BoardResults
import PeripheralBench.Runner.SessionLogs
import PeripheralBench.Runner.TransferRows
import PeripheralBench.Runner.RunJob
import PeripheralBench.Runner.RoundAgreement
import PeripheralBench.Runner.CheckResults
import PeripheralBench.Runner.LogIsolation
import PeripheralBench.Runner.RoundRows
import PeripheralBench.Power.Windows
import PeripheralBench.Runner.Deferral
import PeripheralBench.Layers.Ranking
import PeripheralBench.Analysis.Pareto
import PeripheralBench.Runner.AttemptLoop
import PeripheralBench.Runner.AttemptRuns
import PeripheralBench.Runner.AttemptCounts
import PeripheralBench.Mqtt.Connack
import PeripheralBench.Fold.Sieve
import PeripheralBench.Analysis.AttemptData
import PeripheralBench.Statistics.Correlation
import PeripheralBench.Analysis.Correlation
import PeripheralBench.Statistics.Pseudoinverse
import PeripheralBench.Statistics.Partial
import PeripheralBench.Analysis.PartialCorrelation
import PeripheralBench.Durable.Programs
import PeripheralBench.Durable.OneTime
import PeripheralBench.Pki.HashBased
import PeripheralBench.Pki.KeyState
import PeripheralBench.Pki.HashBasedRuns
import PeripheralBench.Trace.Nested
import PeripheralBench.Power.Metrics
import PeripheralBench.Power.MeasuredSession
import PeripheralBench.Power.SessionRuns
import PeripheralBench.Power.SessionReports
import PeripheralBench.Signal.Stretches
import PeripheralBench.Power.SessionWindows
import PeripheralBench.Pki.Arming
import PeripheralBench.Pki.ArmingRuns
import PeripheralBench.Trace.Rounds
import PeripheralBench.Pki.Answering
import PeripheralBench.Memory.Cells
import PeripheralBench.Memory.Blocks
import PeripheralBench.Kem.Backend
import PeripheralBench.Kem.BackendRuns
import PeripheralBench.Kem.Agreement
import PeripheralBench.Stream.Refinement
import PeripheralBench.Mqtt.ServerMemory
import PeripheralBench.Mqtt.ServerMemorySpec
import PeripheralBench.Transfer.ServerMemory
import PeripheralBench.Transfer.ServerMemorySpec

import PeripheralBench.Mqtt.Controller
import PeripheralBench.Runner.Schedule
import PeripheralBench.Runner.SessionLogs

/-!
# The rows of a transfer round

`transfer_rows_for_round` makes a row for each operation of a round from what the board has said
about it, in the observations and in the lines of the device in `broker.log`, and from the lines of
the server there.
-/

open PeripheralBench.Fold

namespace PeripheralBench.Runner

namespace RunJob

/-- A row of `transmissions.csv`, without what `run_job` adds. -/
structure TransferRow where
  caseId : String
  roundIndex : ℕ
  attemptIndex : ℕ
  scheduleIndex : ℕ
  transferOrder : ℕ
  iteration : ℕ
  direction : String
  payloadBytes : ℕ
  status : Str
  packetId : Str
  reconnectCount : ℕ
  expectedSha256 : Str
  receivedSha256 : Str
  integrityMatch : Str
  clientTransferMs : Str
  serverTransferMs : Str
  ackLatencyMs : Str
  endToEndMs : Str
  goodputKibS : Str
  clientCpuCycles : Str
  clientCycleHz : Str
  clientCpuMs : Str
  clientCpuUsagePercent : Str
  systemCpuUsagePercent : Str
  clientHeapCurrentBytes : Str
  clientHeapPeakBytes : Str
  threadStackUsedBytes : Str
  threadStackCapacityBytes : Str
  /-- The fields that keep their names and values. -/
  counters : List Str
  l2capTxWaitMs : Str
  mqttWireBytes : ℕ
  mqttProtocolOverheadBytes : ℕ
  powerStatus : Str
  /-- The columns of the power window. -/
  power : List Str
  message : Str
deriving DecidableEq

section

variable (b : Builtins)

/-- `number`. -/
def number (values : Values) (key : String) : Option b.Number :=
  (values.get? key.toList).bind b.float

/-- `f"{x / scale:.{digits}f}"`. -/
def scaled (digits scale : ℕ) (x : b.Number) : Str := b.fixed digits (b.div x (b.literal scale))

/-- `microseconds_as_milliseconds`. -/
def microsecondsAsMilliseconds (values : Values) (key : String) : Str :=
  match number b values key with
  | some value => scaled b 3 1000 value
  | none => []

/-- `f"{float(values[key]) / 100.0:.2f}" if values.get(key) else ""`, which may raise. -/
def percent (values : Values) (key : String) : Option Str :=
  match values.get key.toList [] with
  | [] => some []
  | text => (b.float text).map (scaled b 2 100)

/-- `values.get(key, "")`. -/
def field (values : Values) (key : String) : Str := values.get key.toList []

/-- The fields of a row that keep their names. -/
def counterFields : List String :=
  ["l2cap_tx_packets", "l2cap_tx_bytes", "l2cap_rx_packets", "l2cap_rx_bytes", "l2cap_tx_retries",
    "l2cap_rx_overflows", "dwt_cyccnt", "dwt_cpicnt", "dwt_exccnt", "dwt_sleepcnt", "dwt_lsucnt",
    "dwt_foldcnt"]

/-- The fields of a power window. -/
def powerFields : List String :=
  ["duration_ms", "charge_uc", "energy_uj", "avg_current_ua", "peak_current_ua"]

/-- The length of the header of the data packet, unless the packet id is not one. -/
def mqttHeaderBytes (operation : TransferOperation) (packetId : Str) : Option ℕ := do
  let id ← if packetId = [] then some 1 else b.int packetId
  if id < 0 then none
  else
    let topic := if operation.direction = "server_to_device" then "bench/down" else "bench/up"
    match Mqtt.Controller.mqttPublishHeader topic id.toNat operation.payloadBytes with
    | .ok header => some header.length
    | .error _ => none

/-- The kinds of the observations that say something about a transfer. -/
def transferKinds : List String := ["TRANSFER_RESULT", "TRANSFER_RESOURCE", "TRANSFER_TRANSPORT"]

/-- What the first loop does with an observation: `board.setdefault(sequence, {}).update(values)`.
-/
def takeBoard (board : ℤ → Option Values) (observation : Str × Values) : ℤ → Option Values :=
  if observation.1 ∈ transferKinds.map String.toList then
    match b.int (field observation.2 "sequence") with
    | some n => Function.update board n (some (((board n).getD []).update observation.2))
    | none => board
  else board

/-- `board`, by its lookups, with what the device has said in `broker.log`. -/
def boardValues (observations : List (Str × Values)) (broker : Str) (n : ℤ) : Option Values :=
  let board := observations.foldl (takeBoard b) fun _ ↦ none
  match parseTransferDeviceMetrics b broker n with
  | some values => some (((board n).getD []).update values)
  | none => board n

/-- `values` of an operation. -/
def operationValues (board server : Values) (roundStatus : Str) : Values :=
  if board = [] ∧ roundStatus = "success".toList ∧
      server.get? "status".toList = some "success".toList then
    [("status".toList, "success".toList),
      ("integrity_match".toList, server.get "integrity_match".toList "1".toList),
      ("sha256".toList, field server "sha256")]
  else board

/-- `status` of an operation. -/
def operationStatus (values : Values) (roundStatus : Str) : Str :=
  let status := if values = [] then "not_run".toList
    else values.get "status".toList "not_run".toList
  if status = "not_run".toList ∧ roundStatus = "timeout".toList then "timeout".toList else status

/-- The power window of an operation. -/
def powerWindow (powerWindows : Option (List Values)) (operation : TransferOperation) :
    Option Values :=
  powerWindows.bind fun windows ↦ windows[operation.order - 1]?

/-- The row of an operation, of which the board and the server have said this. -/
def transferRow (job : TransferRound) (attemptIndex reconnectCount : ℕ) (roundStatus : Str)
    (powerWindows : Option (List Values)) (operation : TransferOperation) (board server : Values) :
    Option TransferRow := do
  let values := operationValues board server roundStatus
  let status := operationStatus values roundStatus
  let power := powerWindow powerWindows operation
  let packetId := field values "packet_id"
  let headerBytes ← mqttHeaderBytes b operation packetId
  let endMs := (number b values "end_to_end_us").map fun us ↦ b.div us (b.literal 1000)
  let clientCpuUsage ← percent b values "client_cpu_usage_bp"
  let systemCpuUsage ← percent b values "system_cpu_usage_bp"
  some
    { caseId := job.caseId
      roundIndex := job.roundIndex
      attemptIndex := attemptIndex
      scheduleIndex := job.sequence
      transferOrder := operation.order
      iteration := operation.iteration
      direction := operation.direction
      payloadBytes := operation.payloadBytes
      status := status
      packetId := packetId
      reconnectCount := reconnectCount
      expectedSha256 := b.payloadSha256 operation.payloadSeed operation.payloadBytes
      receivedSha256 := values.get "sha256".toList (field server "sha256")
      integrityMatch := values.get "integrity_match".toList "0".toList
      clientTransferMs := microsecondsAsMilliseconds b values "transfer_us"
      serverTransferMs := microsecondsAsMilliseconds b server "server_end_to_end_us"
      ackLatencyMs := microsecondsAsMilliseconds b values "ack_us"
      endToEndMs := (endMs.map (b.fixed 3)).getD []
      goodputKibS := match endMs with
        | some ms =>
            if b.truth ms ∧ status = "success".toList then
              b.fixed 3 (b.div (b.literal operation.payloadBytes) ms)
            else []
        | none => []
      clientCpuCycles := field values "client_cpu_cycles"
      clientCycleHz := field values "client_cycle_hz"
      clientCpuMs :=
        match number b values "client_cpu_cycles", number b values "client_cycle_hz" with
        | some cycles, some hz =>
            if b.truth hz then b.fixed 3 (b.div (b.mul cycles (b.literal 1000)) hz) else []
        | _, _ => []
      clientCpuUsagePercent := clientCpuUsage
      systemCpuUsagePercent := systemCpuUsage
      clientHeapCurrentBytes := field values "client_heap_current_bytes"
      clientHeapPeakBytes := field values "client_heap_peak_bytes"
      threadStackUsedBytes := field values "thread_stack_used_bytes"
      threadStackCapacityBytes := field values "thread_stack_capacity_bytes"
      counters := counterFields.map (field values)
      l2capTxWaitMs := microsecondsAsMilliseconds b values "l2cap_tx_wait_us"
      mqttWireBytes := operation.payloadBytes + headerBytes
      mqttProtocolOverheadBytes := headerBytes
      powerStatus := match power, powerWindows with
        | some (_ :: _), _ => "success".toList
        | _, some _ => "incomplete".toList
        | _, none => "unsupported".toList
      power := powerFields.map fun key ↦ (power.map (field · key)).getD []
      message := if values = [] then roundStatus else field values "error" }

/-- `transfer_rows_for_round`, which raises if the server numbers its lines with what is no number,
or if a row cannot be made. -/
def transferRowsForRound (job : TransferRound) (observations : List (Str × Values)) (broker : Str)
    (attemptIndex reconnectCount : ℕ) (roundStatus : Str) (powerWindows : Option (List Values)) :
    Option (List TransferRow) := do
  let server ← parseTransferServerMetrics b broker
  job.operations.mapM fun operation ↦
    transferRow b job attemptIndex reconnectCount roundStatus powerWindows operation
      ((boardValues b observations broker operation.order).getD [])
      ((server operation.order).getD [])

end

/-! ## The operations and their rows -/

variable {b : Builtins} {job : TransferRound} {attemptIndex reconnectCount : ℕ} {roundStatus : Str}
  {powerWindows : Option (List Values)} {operation : TransferOperation} {board server : Values}

/-- The row says which operation it is of, and how that has ended. -/
theorem order_status_transferRow {row : TransferRow}
    (h : transferRow b job attemptIndex reconnectCount roundStatus
      powerWindows operation board server = some row) :
    row.transferOrder = operation.order ∧
      row.status = operationStatus (operationValues board server roundStatus) roundStatus := by
  unfold transferRow at h
  obtain ⟨headerBytes, -, h⟩ := Option.bind_eq_some_iff.mp h
  obtain ⟨clientCpuUsage, -, h⟩ := Option.bind_eq_some_iff.mp h
  obtain ⟨systemCpuUsage, -, h⟩ := Option.bind_eq_some_iff.mp h
  cases h
  exact ⟨rfl, rfl⟩

/-- In a round that is a success the operation is one if the board says so, or the server where the
board has said nothing. -/
theorem operationStatus_eq_success_iff :
    operationStatus (operationValues board server "success".toList) "success".toList =
        "success".toList ↔
      board.get? "status".toList = some "success".toList ∨
        board = [] ∧ server.get? "status".toList = some "success".toList := by
  have hstatus : ∀ values : Values, operationStatus values "success".toList = "success".toList ↔
      values.get? "status".toList = some "success".toList := by
    intro values
    rw [operationStatus]
    cases values with
    | nil => decide
    | cons entry values =>
        rw [if_neg (fun h ↦ absurd h.2 (by decide)), if_neg (List.cons_ne_nil _ _), Values.get]
        cases hget : Values.get? (entry :: values) "status".toList with
        | none => decide
        | some status => exact (Option.some_inj).symm
  rw [hstatus, operationValues]
  cases board with
  | nil =>
      by_cases hserver : server.get? "status".toList = some "success".toList
      · rw [if_pos ⟨rfl, rfl, hserver⟩]
        exact iff_of_true rfl (.inr ⟨rfl, hserver⟩)
      · rw [if_neg fun h ↦ hserver h.2.2, or_iff_left fun h ↦ hserver h.2]
  | cons entry board =>
      rw [if_neg fun h ↦ absurd h.1 (List.cons_ne_nil _ _),
        or_iff_left fun h ↦ absurd h.1 (List.cons_ne_nil _ _)]

/-- The rows are those of the operations, one by one. -/
theorem map_order_transferRowsForRound {observations : List (Str × Values)} {broker : Str}
    {rows : List TransferRow} (h : transferRowsForRound b job observations broker attemptIndex
      reconnectCount roundStatus powerWindows = some rows) :
    rows.map TransferRow.transferOrder = job.operations.map TransferOperation.order := by
  obtain ⟨server, -, h⟩ := Option.bind_eq_some_iff.mp h
  exact map_eq_map_of_mapM h fun operation row hrow ↦ (order_status_transferRow hrow).1

theorem map_status_transferRowsForRound {observations : List (Str × Values)} {broker : Str}
    {rows : List TransferRow} (h : transferRowsForRound b job observations broker attemptIndex
      reconnectCount roundStatus powerWindows = some rows) :
    rows.map TransferRow.status = job.operations.map fun operation ↦
      operationStatus (operationValues
        ((boardValues b observations broker operation.order).getD [])
        ((latest (serverAt b operation.order) (benchLines broker)).getD []) roundStatus)
        roundStatus := by
  obtain ⟨server, hserver, h⟩ := Option.bind_eq_some_iff.mp h
  refine map_eq_map_of_mapM h fun operation row hrow ↦ ?_
  rw [parseTransferServerMetrics_apply hserver] at hrow
  exact (order_status_transferRow hrow).2

end RunJob

end PeripheralBench.Runner

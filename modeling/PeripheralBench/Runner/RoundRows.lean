import PeripheralBench.Runner.Resume
import PeripheralBench.Runner.RoundAgreement

/-!
# The rows that the attempt loop writes

The attempt loop takes what `run_job` finds out as it comes (`JobResult`), and makes its rows from
that.  `run_job` itself is modelled in every detail of a row, from the observations and the logs.
Here the two are brought together: whatever `run_job` returns is, written into the files, what the
attempt loop makes of some result (`runJob_written`).  So all that holds of the attempt loop on
every bench holds with the rows of `run_job`.
-/

open PeripheralBench.Fold

namespace PeripheralBench.Runner

namespace RunJob

/-! ## What is written -/

/-- The columns of a row of `transmissions.csv` that the attempt loop does not look at. -/
def TransferRow.columns (row : TransferRow) : Columns :=
  [("qos", "1"), ("packet_id", String.ofList row.packetId),
    ("reconnect_count", toString row.reconnectCount),
    ("expected_sha256", String.ofList row.expectedSha256),
    ("received_sha256", String.ofList row.receivedSha256),
    ("integrity_match", String.ofList row.integrityMatch),
    ("client_transfer_ms", String.ofList row.clientTransferMs),
    ("server_transfer_ms", String.ofList row.serverTransferMs),
    ("ack_latency_ms", String.ofList row.ackLatencyMs),
    ("end_to_end_ms", String.ofList row.endToEndMs),
    ("goodput_kib_s", String.ofList row.goodputKibS),
    ("client_cpu_cycles", String.ofList row.clientCpuCycles),
    ("client_cycle_hz", String.ofList row.clientCycleHz),
    ("client_cpu_ms", String.ofList row.clientCpuMs),
    ("client_cpu_usage_percent", String.ofList row.clientCpuUsagePercent),
    ("system_cpu_usage_percent", String.ofList row.systemCpuUsagePercent),
    ("client_heap_current_bytes", String.ofList row.clientHeapCurrentBytes),
    ("client_heap_peak_bytes", String.ofList row.clientHeapPeakBytes),
    ("thread_stack_used_bytes", String.ofList row.threadStackUsedBytes),
    ("thread_stack_capacity_bytes", String.ofList row.threadStackCapacityBytes)] ++
  counterFields.zip (row.counters.map String.ofList) ++
  [("l2cap_tx_wait_ms", String.ofList row.l2capTxWaitMs),
    ("mqtt_wire_bytes", toString row.mqttWireBytes),
    ("mqtt_protocol_overhead_bytes", toString row.mqttProtocolOverheadBytes),
    ("power_status", String.ofList row.powerStatus)] ++
  (powerFields.map ("transfer_" ++ ·)).zip (row.power.map String.ofList) ++
  [("message", String.ofList row.message)]

/-- The row as the attempt loop writes it. -/
def TransferRow.written (row : TransferRow) (roundTry : ℕ) (complete : Bool) : Runner.TransferRow :=
  { caseId := row.caseId
    roundIndex := row.roundIndex
    attemptIndex := row.attemptIndex
    scheduleIndex := row.scheduleIndex
    transferOrder := row.transferOrder
    iteration := row.iteration
    direction := row.direction
    payloadBytes := row.payloadBytes
    status := String.ofList row.status
    roundTry := roundTry
    roundComplete := if complete then 1 else 0
    columns := row.columns }

/-- A marked row as the attempt loop writes it. -/
def RoundRow.written (r : RoundRow) : Runner.TransferRow :=
  r.row.written r.roundTry r.roundComplete

/-- The columns of a row of `attempts.csv` that the attempt loop does not look at. -/
def AttemptRow.restColumns (row : AttemptRow) : Columns :=
  [("reconnect_count", toString row.reconnectCount),
    ("certificate_verify_alg", String.ofList row.certificateVerifyAlg),
    ("certificate_verify_match", if row.certificateVerifyMatch then "1" else "0"),
    ("ble_l2cap_connect_ms", String.ofList row.bleL2capConnectMs),
    ("gateway_tcp_connect_ms", String.ofList row.gatewayTcpConnectMs),
    ("server_kem_encapsulation_ms", String.ofList row.serverKemEncapsulationMs),
    ("server_certificate_verify_sign_ms", String.ofList row.serverCertificateVerifySignMs),
    ("error_code", String.ofList row.errorCode), ("message", String.ofList row.message)]

/-- The row of the attempt as the attempt loop writes it. -/
def AttemptRow.written (row : AttemptRow) : Runner.AttemptRow :=
  { attemptIndex := row.attemptIndex
    scheduleIndex := row.scheduleIndex
    session := row.session
    attemptInSession := row.attemptInSession
    warmup := row.warmup
    status := String.ofList row.status
    columns := row.restColumns }

/-! ## A try -/

/-- What a session finds out about the transfers of a round. -/
def tryOf (roundStatus : Str) (row : TransferOperation → Option TransferRow) : Try where
  roundStatus := String.ofList roundStatus
  status operation := ((row operation).map fun row ↦ String.ofList row.status).getD ""
  columns operation := ((row operation).map TransferRow.columns).getD []

section

variable {b : Builtins} {round : TransferRound} {attemptIndex reconnectCount : ℕ}
  {roundStatus : Str} {powerWindows : Option (List Values)} {operation : TransferOperation}
  {board server : Values}

/-- A row is written under the names of its operation. -/
theorem written_transferRow {row : TransferRow}
    (h : transferRow b round attemptIndex reconnectCount roundStatus powerWindows operation board
      server = some row) (roundTry : ℕ) (complete : Bool) :
    row.written roundTry complete =
      { caseId := round.caseId
        roundIndex := round.roundIndex
        attemptIndex := attemptIndex
        scheduleIndex := round.sequence
        transferOrder := operation.order
        iteration := operation.iteration
        direction := operation.direction
        payloadBytes := operation.payloadBytes
        status := String.ofList row.status
        roundTry := roundTry
        roundComplete := if complete then 1 else 0
        columns := row.columns } := by
  unfold transferRow at h
  obtain ⟨headerBytes, -, h⟩ := Option.bind_eq_some_iff.mp h
  obtain ⟨clientCpuUsage, -, h⟩ := Option.bind_eq_some_iff.mp h
  obtain ⟨systemCpuUsage, -, h⟩ := Option.bind_eq_some_iff.mp h
  cases h
  rfl

theorem ofList_eq_iff {text : Str} {word : String} :
    String.ofList text = word ↔ text = word.toList := by
  constructor
  · rintro rfl
    exact String.toList_ofList.symm
  · rintro rfl
    exact String.ofList_toList

theorem succeeded_iff_get {final : Values} :
    final.get "status".toList "fail".toList = "success".toList ↔ SerialSession.succeeded final := by
  rw [Values.get, SerialSession.succeeded]
  cases final.get? "status".toList with
  | none => decide
  | some status => exact Option.some_inj.symm

/-- The rows of a session are those of a try. -/
theorem written_rows {x : Session} {added : List RoundRow}
    (h : x.rows b (.round round) attemptIndex = some added) :
    ∃ t : Try, added.map RoundRow.written =
      Runner.transferRowsForRound round attemptIndex (x.retryIndex + 1) (t.complete round) t := by
  obtain ⟨made, hmade, h⟩ := Option.bind_eq_some_iff.mp h
  cases h
  obtain ⟨server, -, hmade⟩ := Option.bind_eq_some_iff.mp hmade
  generalize hstatus : (x.retry.final x.logs).get "status".toList "fail".toList = roundStatus
    at hmade
  generalize hrow : (fun operation ↦ transferRow b round attemptIndex x.retryIndex roundStatus
    x.retry.powerWindows operation
    ((boardValues b x.retry.observations x.logs.broker operation.order).getD [])
    ((server operation.order).getD [])) = row at hmade
  have hcomplete : decide (SerialSession.succeeded (x.retry.final x.logs) ∧
      ∀ row ∈ made, row.status = "success".toList) = (tryOf roundStatus row).complete round := by
    have hstatuses : made.map (fun row ↦ String.ofList row.status) =
        round.operations.map (tryOf roundStatus row).status :=
      map_eq_map_of_mapM hmade fun operation row hoperation ↦ by
        simp only [tryOf, hoperation, Option.map_some, Option.getD_some]
    have hall : (∀ row ∈ made, row.status = "success".toList) ↔
        ∀ operation ∈ round.operations, (tryOf roundStatus row).status operation = "success" := by
      rw [← List.forall_mem_map (f := (tryOf roundStatus row).status) (P := (· = "success")),
        ← hstatuses, List.forall_mem_map]
      exact forall₂_congr fun _ _ ↦ ofList_eq_iff.symm
    rw [Bool.eq_iff_iff, decide_eq_true_iff, Try.complete, Bool.and_eq_true, decide_eq_true_iff,
      List.all_eq_true, hall]
    refine and_congr ?_ (forall₂_congr fun _ _ ↦ decide_eq_true_iff.symm)
    rw [← succeeded_iff_get, hstatus]
    exact ofList_eq_iff.symm
  refine ⟨tryOf roundStatus row, ?_⟩
  rw [roundRows, List.map_map, hcomplete]
  refine map_eq_map_of_mapM hmade fun operation made hoperation ↦ ?_
  have hmade' := hoperation
  rw [← hrow] at hmade'
  refine (written_transferRow hmade' _ _).trans ?_
  simp only [tryOf, hoperation, Option.map_some, Option.getD_some]

/-- The rows of the sessions are those of the tries, in order. -/
theorem written_sessions {retry : ℕ} {logs : LocalLogs} {retries : List Retry}
    {made : List (List RoundRow)} (h : (sessions retry logs retries).mapM
      (Session.rows b (.round round) attemptIndex) = some made) :
    ∃ tries : List Try, made.flatten.map RoundRow.written =
      (tries.zipIdx (retry + 1)).flatMap fun (t, i) ↦
        Runner.transferRowsForRound round attemptIndex i (t.complete round) t := by
  induction retries generalizing retry logs made with
  | nil =>
      cases h
      exact ⟨[], rfl⟩
  | cons r rest ih =>
      rw [sessions] at h
      split at h
      case isTrue =>
        cases h
        exact ⟨[], rfl⟩
      case isFalse =>
        dsimp only at h
        rw [List.mapM_cons] at h
        obtain ⟨added, hadded, h⟩ := Option.bind_eq_some_iff.mp h
        obtain ⟨later, hlater, h⟩ := Option.bind_eq_some_iff.mp h
        cases h
        obtain ⟨t, ht⟩ := written_rows hadded
        have hrest : ∃ tries : List Try, later.flatten.map RoundRow.written =
            (tries.zipIdx (retry + 1 + 1)).flatMap fun (t, i) ↦
              Runner.transferRowsForRound round attemptIndex i (t.complete round) t := by
          split at hlater
          case isTrue =>
            cases hlater
            exact ⟨[], rfl⟩
          case isFalse => exact ih hlater
        obtain ⟨tries, htries⟩ := hrest
        refine ⟨t :: tries, ?_⟩
        rw [List.flatten_cons, List.map_append, ht, htries]
        rfl

/-- What `run_job` returns is written as the rows that the attempt loop makes of some result. -/
theorem runJob_written {expectedScheme : Str} {job : Job} {logs : LocalLogs}
    {retries : List Retry} {row : AttemptRow}
    (h : runJob b expectedScheme job attemptIndex logs retries = some row) :
    ∃ result : JobResult,
      row.written = attemptRow job attemptIndex result.status result.columns ∧
      row.transmissions.map RoundRow.written = allTransferRows job attemptIndex result.tries := by
  obtain ⟨s, hs, rfl⟩ := Option.map_eq_some_iff.mp h
  obtain ⟨⟨made, hmade, htransfers⟩, -⟩ := runRetries_spec hs
  have hrows : ∃ tries : List Try, s.transferRows.map RoundRow.written =
      allTransferRows job attemptIndex tries := by
    rw [htransfers, List.nil_append]
    cases job with
    | session job =>
        have hmade : made.map id =
            (sessions 0 logs retries).map fun _ ↦ ([] : List RoundRow) :=
          map_eq_map_of_mapM hmade fun _ _ hadded ↦ (Option.some_inj.mp hadded).symm
        refine ⟨[], ?_⟩
        rw [← List.map_id made, hmade, List.map_const', List.flatten_replicate_nil]
        rfl
    | round round => exact written_sessions hmade
  obtain ⟨tries, htries⟩ := hrows
  exact ⟨⟨_, _, tries⟩, rfl, htries⟩

end

end RunJob

end PeripheralBench.Runner

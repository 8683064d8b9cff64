import PeripheralBench.Runner.TransferRows

/-!
# The retries of an attempt

`run_job` makes up to `reconnect_retries + 1` sessions, until one is a success, or there is no use
in another one, or the time is up.  After each it collects the logs and, for a transfer round, makes
the rows of its operations; these are marked complete if the result and all of them are a success.
In the end it makes the row of the attempt from the last session.  There a success becomes a failure
if the handshake has not used the signature scheme of the case.

What the sessions bring is a list, one entry for each retry that is allowed.
-/

namespace PeripheralBench.Runner

namespace RunJob

/-! ## The sessions -/

/-- What a retry brings. -/
structure Retry where
  /-- `remaining_timeout <= 0`. -/
  expired : Bool
  /-- `observations`. -/
  observations : List (Str × Values)
  /-- What `wait_for_result` or `wait_for_ble_result` returns, or the exception that `start_session`
  or one of them has raised. -/
  result : Except Str Values
  /-- The logs of the session. -/
  remote : RemoteLogs
  /-- `wait_for_board_ready` has returned, or there is no serial port. -/
  rearmed : Bool
  /-- `power_values.get("transfer_power_windows", [])`, with a power profiler. -/
  powerWindows : Option (List Values)
  /-- `time.monotonic() >= case_deadline`, at the end. -/
  late : Bool

/-- `final` at the end of a retry, when the logs have been collected. -/
def Retry.final (r : Retry) (logs : LocalLogs) : Values :=
  let final := match r.result with
    | .ok values => values
    | .error error => SerialSession.startFailure error
  let final := SerialSession.classifyGatewayStartFailure final
    (startFailureStage logs.gateway final)
  if r.rearmed then final else SerialSession.System.rearmFailed final

/-- A transfer row with what `run_job` adds. -/
structure RoundRow where
  row : TransferRow
  roundTry : ℕ
  roundComplete : Bool
deriving DecidableEq

/-- The row enters `summarize_transfers` as a success. -/
def RoundRow.IsAggregated (r : RoundRow) : Prop :=
  r.row.status = "success".toList ∧ r.roundComplete = true

instance (r : RoundRow) : Decidable r.IsAggregated := inferInstanceAs (Decidable (_ ∧ _))

/-- What the loop keeps. -/
structure Attempt where
  final : Values
  reconnectCount : ℕ
  observations : List (Str × Values)
  logs : LocalLogs
  transferRows : List RoundRow

section

variable (b : Builtins)

/-- The rows of the operations, marked. -/
def roundRows (retry : ℕ) (final : Values) (rows : List TransferRow) : List RoundRow :=
  let complete :=
    decide (SerialSession.succeeded final ∧ ∀ row ∈ rows, row.status = "success".toList)
  rows.map fun row ↦ ⟨row, retry + 1, complete⟩

/-- The rows that a retry adds. -/
def retryRows (job : Job) (attemptIndex retry : ℕ) (r : Retry) (logs : LocalLogs) :
    Option (List RoundRow) :=
  match job with
  | .session _ => some []
  | .round job => do
      let rows ← transferRowsForRound b job r.observations logs.broker attemptIndex retry
        ((r.final logs).get "status".toList "fail".toList) r.powerWindows
      some (roundRows retry (r.final logs) rows)

/-- There is no further retry. -/
def Retry.Stops (r : Retry) (logs : LocalLogs) (rest : List Retry) : Prop :=
  SerialSession.succeeded (r.final logs) ∨ SerialSession.isFatal (r.final logs) ∨ rest = [] ∨
    r.late = true

instance (r : Retry) (logs : LocalLogs) (rest : List Retry) : Decidable (r.Stops logs rest) :=
  inferInstanceAs (Decidable (_ ∨ _ ∨ _ ∨ _))

/-- The loop of `run_job`. -/
def runRetries (job : Job) (attemptIndex : ℕ) : ℕ → Attempt → List Retry → Option Attempt
  | _, s, [] => some s
  | retry, s, r :: rest =>
      if r.expired then some { s with final := SerialSession.timeout "case_deadline" }
      else do
        let logs := collectSessionLogs s.logs r.remote
        let rows ← retryRows b job attemptIndex retry r logs
        let s : Attempt :=
          { final := r.final logs
            reconnectCount := retry
            observations := r.observations
            logs := logs
            transferRows := s.transferRows ++ rows }
        if r.Stops logs rest then
          some { s with
            final := if r.late = true ∧ ¬ SerialSession.succeeded s.final then
              SerialSession.timeout "case_deadline" else s.final }
        else runRetries job attemptIndex (retry + 1) s rest

/-! ## The row of the attempt -/

/-- The observations, with the handshake from the collected log if the board has not reported it. -/
def withHandshake (job : Job) (s : Attempt) : List (Str × Values) :=
  match job with
  | .session _ => s.observations
  | .round _ =>
      if ∃ observation ∈ s.observations, observation.1 = "HANDSHAKE".toList then s.observations
      else
        match latestBenchmarkObservation s.logs.gateway "HANDSHAKE".toList with
        | some handshake => s.observations ++ [("HANDSHAKE".toList, handshake)]
        | none => s.observations

/-- The values of the last handshake. -/
def lastHandshake (observations : List (Str × Values)) : Option Values :=
  Fold.latest (valuesOf "HANDSHAKE".toList) observations

/-- `final` for the row: in transfer mode the values of the handshake, with the outcome of the
round. -/
def rowFinal (job : Job) (s : Attempt) : Values :=
  match job, lastHandshake (withHandshake job s) with
  | .round _, some handshake =>
      ((handshake.set "status".toList (s.final.get "status".toList "fail".toList)).set
        "stage".toList
        (s.final.get "stage".toList "transfer_complete".toList)).set "error".toList
          (s.final.get "error".toList [])
  | _, _ => s.final

/-- A row of `attempts.csv`.  The columns that are left out are the fields of `final` under the same
name or in another unit, those of the case, and those of the power profiler. -/
structure AttemptRow where
  attemptIndex : ℕ
  scheduleIndex : ℕ
  session : ℕ
  attemptInSession : ℕ
  warmup : ℕ
  status : Str
  reconnectCount : ℕ
  certificateVerifyAlg : Str
  certificateVerifyMatch : Bool
  bleL2capConnectMs : Str
  gatewayTcpConnectMs : Str
  serverKemEncapsulationMs : Str
  serverCertificateVerifySignMs : Str
  errorCode : Str
  message : Str
  fatal : Str
  fatalMessage : Str
  /-- `final`. -/
  final : Values
  /-- `_transmissions`. -/
  transmissions : List RoundRow

/-- The row of an attempt at a case with this signature scheme.  `Char.toLower` is for ASCII letters
only; `lower` is for others, too, but makes no `success` of a status that has them. -/
def attemptRowOf (expectedScheme : Str) (job : Job) (attemptIndex : ℕ) (s : Attempt) : AttemptRow :=
  let final := rowFinal job s
  let status := (final.get "status".toList "fail".toList).map Char.toLower
  let observedScheme := field final "certificate_verify_alg"
  let mismatch := status = "success".toList ∧ observedScheme ≠ expectedScheme
  let final := if mismatch then
    (final.set "stage".toList "certificate_verify_mismatch".toList).set "error".toList
      "certificate_verify_mismatch".toList else final
  let gateway := parseGatewayMetrics s.logs.gateway
  let server := parseServerMetrics s.logs.broker
  { attemptIndex := attemptIndex
    scheduleIndex := job.sequence
    session := job.sessionIndex
    attemptInSession := job.attemptInSession
    warmup := job.warmup
    status := if mismatch then "fail".toList else status
    reconnectCount := s.reconnectCount
    certificateVerifyAlg := observedScheme
    certificateVerifyMatch := decide (observedScheme = expectedScheme)
    bleL2capConnectMs := field gateway "ble_l2cap_connect_ms"
    gatewayTcpConnectMs := field gateway "gateway_tcp_connect_ms"
    serverKemEncapsulationMs := microsecondsAsMilliseconds b server "server_kem_encapsulation_us"
    serverCertificateVerifySignMs :=
      microsecondsAsMilliseconds b server "server_certificate_verify_sign_us"
    errorCode := field final "error"
    message := final.get "fatal_message".toList (field final "stage")
    fatal := field final "fatal"
    fatalMessage := field final "fatal_message"
    final := final
    transmissions := s.transferRows }

/-- `run_job`, unless it raises.  The local logs are those that earlier attempts have left. -/
def runJob (expectedScheme : Str) (job : Job) (attemptIndex : ℕ) (logs : LocalLogs)
    (retries : List Retry) : Option AttemptRow :=
  (runRetries b job attemptIndex 0 ⟨[], 0, [], logs, []⟩ retries).map
    (attemptRowOf b expectedScheme job attemptIndex)

end

end RunJob

end PeripheralBench.Runner

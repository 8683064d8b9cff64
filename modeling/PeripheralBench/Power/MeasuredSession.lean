import PeripheralBench.Mqtt.Connack
import PeripheralBench.Power.Metrics

/-!
# A measured session

`start_secure_mqtt_session` of `firmware/src/main.c` from its first line to its last, as far as the
measurement goes: when the power markers move, when the metrics are recorded, and what is reported.
The part of `benchmark_mqtt_transfer_run` that does the same for each transfer is here too.

This is the firmware for the power profiler, which is built with `BENCH_POWER_MARKERS` and
`BENCH_BLE_TELEMETRY`.  So `emit_transfer_result` is not in it, and a report goes to
`benchmark_output`, which sends it over the channel if there still is one.  A report or a published
record has the outcome and the metrics of `benchmark_metrics.c`; what else is in it is left out:
times, the identifier of the packet, and how far the heap and the stacks have ever been filled.

What wolfSSL and the transport do in a call comes in as marks.  A call that runs the patched
functions may leave them early, so that nothing is said about the marks, except while the session is
shut down: nothing resets the markers after that.

The levels of the pins are kept together with what the device does when they change.
-/

open PeripheralBench.Text PeripheralBench.Trace PeripheralBench.Mqtt
open PeripheralBench.Mqtt.Connack (Line Round timeoutLine errorLine isConnack)

namespace PeripheralBench.Power

/-! ## The device -/

/-- What the device does.  The total marker should be up except when it is idle. -/
inductive Stage where
  | idle
  /-- From the first line of the session to the answer to CONNECT, or to a failure. -/
  | session
  /-- The data phase of a transfer. -/
  | operation (number : ℕ)
deriving DecidableEq

/-- The levels that the pins take, one after another, while the device does something. -/
structure Stretch where
  stage : Stage
  levels : List Pins
deriving DecidableEq

/-- A line that is handed to `benchmark_output`, with the metrics it is made of. -/
structure Report where
  line : Line
  metrics : Option Metrics := none
deriving DecidableEq

/-- The device, as far as the measurement goes. -/
structure Device where
  board : Board := {}
  recorder : Recorder := {}
  past : List Stretch := []
  current : Stretch := ⟨.idle, [{}]⟩
  reports : List Report := []
  /-- The metrics in the records that `publish_transfer_metrics` has made. -/
  published : List Metrics := []
deriving DecidableEq

/-- The levels after each access to the port in a call. -/
def Board.levels (b : Board) (c : Call) : List Pins :=
  ((b.markers.call c).2.scanl Pins.write b.pins).tail

namespace Device

/-- A call of a marker function, with which the device begins to do this, unless it does already. -/
def into (stage : Stage) (c : Call) (d : Device) : Device :=
  let levels := d.board.levels c
  if d.current.stage = stage then
    { d with board := d.board.call c, current := ⟨stage, d.current.levels ++ levels⟩ }
  else
    { d with board := d.board.call c, past := d.past ++ [d.current], current := ⟨stage, levels⟩ }

/-- A call of a marker function. -/
def call (c : Call) (d : Device) : Device := d.into d.current.stage c

/-- A change of the recorder. -/
def record (f : Recorder → Recorder) (d : Device) : Device := { d with recorder := f d.recorder }

/-- A mark: `benchmark_crypto_metric_start` raises a marker, `benchmark_metric_stop` lowers it. -/
def mark (ticksPerSecond : ℕ) (d : Device) (m : Mark Work) : Device :=
  match m with
  | .enter (.crypto operation _) => d.call (.cryptoStart operation)
  | .leave (.crypto operation interval) =>
      (d.call (.cryptoStop operation)).record (·.record ticksPerSecond (.crypto operation interval))
  | m => d.record (·.mark ticksPerSecond m)

/-- Marks, one after another. -/
def follow (ticksPerSecond : ℕ) (marks : List (Mark Work)) (d : Device) : Device :=
  marks.foldl (mark ticksPerSecond) d

/-- `BENCH_RESULT_OUT`: the markers are reset, and the line goes to `benchmark_output`. -/
def resultOut (line : Line) (metrics : Option Metrics) (d : Device) : Device :=
  let d := d.into .idle .reset
  { d with reports := d.reports ++ [⟨line, metrics⟩] }

end Device

/-! ## The world outside -/

/-- What the calls before the handshake return.  `WOLFSSL_SUCCESS` is one. -/
structure Setup where
  ctxNew : Bool
  /-- `wolfSSL_CTX_SetDevId`, if `BENCH_USE_PQM4_MLKEM` is defined. -/
  setDevId : Option ℤ
  /-- `selected_signature->signature_scheme_id`, if both are selected. -/
  selected : Option UInt16
  loadVerifyBuffer : ℤ
  setGroups : ℤ
  /-- `wolfSSL_CTX_use_certificate_buffer` and `wolfSSL_CTX_use_PrivateKey_buffer`, if
  `BENCH_MTLS_MODE` is set. -/
  clientIdentity : Option (ℤ × ℤ)
  sslNew : Bool
  allocateSuites : ℤ
deriving DecidableEq

/-- What happens in a transfer. -/
structure Operation where
  /-- While the command is read and acknowledged. -/
  command : List (Mark Work)
  /-- The direction is DOWN or UP. -/
  known : Bool
  /-- While the payload is transferred and acknowledged. -/
  data : List (Mark Work)
  /-- What the cache counters say before and after it. -/
  cacheStart : UInt32 × UInt32
  cacheStop : UInt32 × UInt32
  /-- While the metrics are published. -/
  publish : List (Mark Work)
  /-- `publish_transfer_metrics` returns zero. -/
  published : Bool
  /-- `valid`. -/
  valid : Bool
deriving DecidableEq

/-- What happens in `benchmark_mqtt_transfer_run`. -/
structure Transfers where
  /-- Until the BEGIN command has been read. -/
  opening : List (Mark Work)
  /-- The operations whose command has been read. -/
  operations : List Operation
  /-- After them: another command may come incomplete. -/
  closing : List (Mark Work)
  ret : ℤ
deriving DecidableEq

/-- What happens in a session. -/
structure Environment where
  ticksPerSecond : ℕ
  /-- `BENCH_TRANSFER_MODE` is defined. -/
  transferMode : Bool
  setup : Setup
  /-- Until the handshake starts. -/
  preparing : List (Mark Work)
  /-- The calls of `wolfSSL_connect` that have to be repeated. -/
  connects : List (List (Mark Work))
  /-- The last one. -/
  lastConnect : List (Mark Work)
  connectError : Option ℤ
  cacheStart : UInt32 × UInt32
  cacheStop : UInt32 × UInt32
  /-- `wolfSSL_write` of CONNECT. -/
  write : List (Mark Work)
  writeError : Option ℤ
  /-- What the server sends, and how it is read. -/
  stream : Bytes
  rounds : List (List (Mark Work) × Round)
  transfers : Transfers
  /-- The calls in `shutdown_tls_gracefully`. -/
  shutdown : List (Calls Work)
deriving DecidableEq

/-! ## The session -/

/-- A line for a failure before the handshake. -/
def setupLine (stage error : String) : Line where
  tag := "[BENCH_RESULT]"
  status := "fail"
  stage := stage
  error := error

/-- A call that must return `WOLFSSL_SUCCESS`.  The flag says that the markers are reset once more
when it does not. -/
def succeed (stage : String) (ret : ℤ) : Except (Line × Bool) Unit :=
  if ret = 1 then .ok () else .error (setupLine stage (toString ret), true)

/-- Something that must have been allocated. -/
def allocated (stage error : String) (ok : Bool) : Except (Line × Bool) Unit :=
  if ok then .ok () else .error (setupLine stage error, true)

/-- The calls before the handshake: the scheme that is expected, or what is printed. -/
def Setup.prepare (s : Setup) : Except (Line × Bool) UInt16 := do
  allocated "tls_setup" "ctx_new" s.ctxNew
  (match s.setDevId with
    | some ret => succeed "pqm4_device" ret
    | none => pure ())
  let scheme ← (match s.selected with
    | some scheme => .ok scheme
    | none => .error (setupLine "pki_selection" "missing_profile", true))
  succeed "ca_load" s.loadVerifyBuffer
  succeed "group_setup" s.setGroups
  (match s.clientIdentity with
    | some (certificate, key) => do
        succeed "client_cert" certificate
        succeed "client_key" key
    | none => pure ())
  allocated "tls_setup" "ssl_new" s.sslNew
  -- the only failure without a reset of its own
  (if s.allocateSuites = 0 then pure ()
    else .error (setupLine "signature_scheme" "allocate_suites", false))
  pure scheme

namespace Operation

variable (ticksPerSecond : ℕ)

/-- One round of the loop over the operations: whether there is another one. -/
def run (op : Operation) (number : ℕ) (d : Device) : Device × Bool :=
  let d := d.follow ticksPerSecond op.command
  let d := (d.record .reset).record (·.hardwareCountersStart op.cacheStart.1 op.cacheStart.2)
  let d := d.into (.operation number) (.totalSet true)
  if op.known then
    let d := d.follow ticksPerSecond op.data
    let d := d.into .idle (.totalSet false)
    let d := (d.record (·.hardwareCountersStop op.cacheStop.1 op.cacheStop.2)).record .stop
    let d := { d with published := d.published ++ [d.recorder.metrics] }
    (d.follow ticksPerSecond op.publish, op.published && op.valid)
  else (d.into .idle (.totalSet false), false)

/-- The loop over the operations. -/
def runAll (number : ℕ) (d : Device) : List Operation → Device
  | [] => d
  | op :: ops =>
      let (d, goesOn) := op.run ticksPerSecond number d
      if goesOn then runAll (number + 1) d ops else d

end Operation

/-- `benchmark_mqtt_transfer_run`. -/
def Transfers.run (ticksPerSecond : ℕ) (t : Transfers) (d : Device) : Device :=
  (Operation.runAll ticksPerSecond 0 (d.follow ticksPerSecond t.opening) t.operations).follow
    ticksPerSecond t.closing

/-- The line at the end of a session with transfers. -/
def transferLine (ret : ℤ) : Line where
  tag := "[BENCH_RESULT]"
  status := if ret = 0 then "success" else "fail"
  stage := if ret = 0 then "transfer_complete" else "transfer_failed"
  error := toString ret

namespace Environment

variable (e : Environment)

/-- The line when the session has been set up. -/
def handshakeLine : Line where
  tag := if e.transferMode then "[BENCH_HANDSHAKE]" else "[BENCH_RESULT]"
  status := "success"

/-- The line when the server has signed with another scheme. -/
def mismatchLine : Line where
  tag := "[BENCH_RESULT]"
  status := "fail"
  stage := "certificate_verify_mismatch"

/-- What is done when the CONNACK has come. -/
def finish (scheme : UInt16) (d : Device) : Device :=
  let d := d.record .stop
  let metrics := d.recorder.metrics
  let d := d.into .idle (.totalSet false)
  if metrics.serverCertificateVerifyScheme = some scheme then
    let d := d.resultOut e.handshakeLine (some metrics)
    if e.transferMode then
      (e.transfers.run e.ticksPerSecond d).resultOut (transferLine e.transfers.ret) none
    else d
  else d.resultOut mismatchLine (some metrics)

/-- The loop that reads the answer to CONNECT. -/
def readLoop (scheme : UInt16) (rx unread : Bytes) (d : Device) :
    List (List (Mark Work) × Round) → Device
  | [] => d.resultOut (timeoutLine rx) (some d.recorder.metrics)
  | (marks, round) :: rounds =>
      let d := d.follow e.ticksPerSecond marks
      let chunk := round.chunk rx unread
      if isConnack (rx ++ chunk) then finish e scheme d
      else
        match round with
        | .read _ | .want => readLoop scheme (rx ++ chunk) (unread.drop chunk.length) d rounds
        | .error error => d.resultOut (errorLine "mqtt_read" error) none

/-- From the end of the handshake to `cleanup`. -/
def connectMqtt (scheme : UInt16) (d : Device) : Device :=
  let d := d.follow e.ticksPerSecond e.write
  match e.writeError with
  | some error => d.resultOut (errorLine "mqtt_write" error) none
  | none => readLoop e scheme [] e.stream d e.rounds

/-- `cleanup`, with `shutdown_tls_gracefully`. -/
def cleanup (d : Device) : Device :=
  let d := (d.record .stop).into .idle .reset
  e.shutdown.foldl (fun d calls ↦ d.follow e.ticksPerSecond calls.marks) d

/-- The handshake, until `handshake_done_ms`. -/
def handshake (d : Device) : Device :=
  let d := (d.record .reset).record (·.hardwareCountersStart e.cacheStart.1 e.cacheStart.2)
  let d := d.call (.handshakeSet true)
  let d := e.connects.foldl (fun d marks ↦ d.follow e.ticksPerSecond marks) d
  let d := d.follow e.ticksPerSecond e.lastConnect
  let d := d.record (·.hardwareCountersStop e.cacheStop.1 e.cacheStop.2)
  d.call (.handshakeSet false)

/-- `start_secure_mqtt_session`. -/
def startSecureMqttSession (d : Device) : Device :=
  let d := (d.into .idle .reset).into .session (.totalSet true)
  let d := d.follow e.ticksPerSecond e.preparing
  match e.setup.prepare with
  | .error (line, again) =>
      let d := d.resultOut line none
      if again then d.into .idle .reset else d
  | .ok scheme =>
      let d := e.handshake d
      match e.connectError with
      | some error =>
          (d.resultOut (errorLine "tls_handshake" error) (some d.recorder.metrics)).into
            .idle .reset
      | none => e.cleanup (e.connectMqtt scheme d)

end Environment

end PeripheralBench.Power

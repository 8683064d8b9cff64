import PeripheralBench.Mqtt.Firmware

/-!
# The device side of a transfer session

`benchmark_mqtt_transfer_run` of `firmware/src/mqtt_transfer.c` with the functions it is made of.
The device subscribes, announces itself, and then takes its orders from the control topic: each
operation begins with a command and ends with a PUBLISH of the metrics.  A failed data phase does
not stop the operation: the failure is recorded, the metrics are still published, and only then does
the function give up.

What the hardware contributes (cycle counters, heap statistics, transport counters and times) comes
in as `Readings`.  Of the three lines the device prints for an operation only the RESULT line is
kept; the other two repeat fields of the metrics.
-/

open PeripheralBench.Stream PeripheralBench.Text PeripheralBench.Mqtt PeripheralBench.Mqtt.Firmware

namespace PeripheralBench.Transfer

/-- `TOPIC_CONTROL`. -/
def topicControl : Bytes := ascii "bench/control"

/-- `TOPIC_DOWN`. -/
def topicDown : Bytes := ascii "bench/down"

/-- `TOPIC_UP`. -/
def topicUp : Bytes := ascii "bench/up"

/-- `TOPIC_DEVICE_ACK`. -/
def topicDeviceAck : Bytes := ascii "bench/device_ack"

/-- `TOPIC_METRICS`. -/
def topicMetrics : Bytes := ascii "bench/metrics"

namespace Device

/-! ## Measurements -/

/-- `struct cpu_snapshot`. -/
structure CpuSnapshot where
  /-- Cycles of the current thread. -/
  threadCycles : UInt64
  /-- Cycles of all threads. -/
  allCycles : UInt64
  /-- Cycles of all threads but the idle one. -/
  nonIdleCycles : UInt64
  /-- The kernel had statistics to give. -/
  valid : Bool

/-- `struct benchmark_dwt_delta`. -/
structure DwtDelta where
  /-- The cycle counter. -/
  cyccnt : UInt32
  /-- The event counters, in the order of the source: CPI, exceptions, sleep, LSU, folded. -/
  events : Fin 5 → UInt8
  /-- There is a cycle counter. -/
  cycleSupported : Bool
  /-- There are event counters. -/
  eventSupported : Bool

/-- What the hardware and the clocks contribute to the record of one operation. -/
structure Readings where
  /-- `cpu_start`. -/
  cpuStart : CpuSnapshot
  /-- `cpu_end`. -/
  cpuEnd : CpuSnapshot
  /-- `dwt`. -/
  dwt : DwtDelta
  /-- `sys_clock_hw_cycles_per_sec()`. -/
  cycleHz : UInt32
  /-- `heap->allocated_bytes`, `heap->max_allocated_bytes` and `heap->free_bytes`. -/
  heap : Fin 3 → UInt32
  /-- `l2cap_tx_packets`, `l2cap_tx_bytes`, `l2cap_rx_packets`, `l2cap_rx_bytes` and
  `l2cap_tx_retries`. -/
  l2cap : Fin 5 → UInt32
  /-- `l2cap_tx_wait_us`. -/
  l2capTxWaitUs : UInt64
  /-- `l2cap_rx_overflows`. -/
  l2capRxOverflows : UInt32
  /-- `data_done - started` in microseconds. -/
  dataUs : Int64
  /-- `ended - data_done` in microseconds. -/
  ackUs : Int64
  /-- `ended - started` in microseconds. -/
  endToEndUs : Int64

/-- The cycles of the operation, and the shares of its thread and of all threads in basis points. -/
def cpuUsage (start stop : CpuSnapshot) : UInt64 × UInt32 × UInt32 :=
  if start.valid ∧ stop.valid ∧ start.allCycles < stop.allCycles then
    let all := stop.allCycles - start.allCycles
    let cycles := stop.threadCycles - start.threadCycles
    let share (part : UInt64) : UInt32 := (min (part * 10000 / all) 10000).toUInt32
    (cycles, share cycles, share (stop.nonIdleCycles - start.nonIdleCycles))
  else (0, 0, 0)

/-- `valid ? 1 : 0`, printed with `%u`. -/
def flag (b : Bool) : Bytes := decimal b.toNat

/-- A format string and its values: each value after the text before it. -/
abbrev Fields : Type := List (String × Bytes)

/-- The text `printk` makes of a format string and its values. -/
def Fields.print (fields : Fields) : Bytes := fields.flatMap fun f ↦ ascii f.1 ++ f.2

/-- The fields that the RESULT line and the metrics have in common. -/
def resultFields (sequence : UInt32) (direction : Bytes) (payloadSize : UInt32) (success : Bool)
    (errorCode : ℤ) (packetId : ℕ) (hash : Bytes) (r : Readings) : Fields :=
  [("sequence=", decimal sequence.toNat),
    (" direction=", direction),
    (" payload_bytes=", decimal payloadSize.toNat),
    (" status=", if success then ascii "success" else ascii "fail"),
    (" error=", signedDecimal errorCode),
    (" integrity_match=", flag success),
    (" sha256=", cstr hash),
    (" transfer_us=", signedDecimal r.dataUs.toInt),
    (" ack_us=", signedDecimal r.ackUs.toInt),
    (" end_to_end_us=", signedDecimal r.endToEndUs.toInt),
    (" packet_id=", decimal packetId)]

/-- The fields of the processor and of the heap. -/
def resourceFields (r : Readings) : Fields :=
  let usage := cpuUsage r.cpuStart r.cpuEnd
  [(" client_cpu_cycles=", decimal usage.1.toNat),
    (" client_cycle_hz=", decimal r.cycleHz.toNat),
    (" client_cpu_usage_bp=", decimal usage.2.1.toNat),
    (" system_cpu_usage_bp=", decimal usage.2.2.toNat),
    (" client_heap_current_bytes=", decimal (r.heap 0).toNat),
    (" client_heap_peak_bytes=", decimal (r.heap 1).toNat),
    (" client_heap_free_bytes=", decimal (r.heap 2).toNat)]

/-- The fields of the transport. -/
def transportFields (r : Readings) : Fields :=
  [(" l2cap_tx_packets=", decimal (r.l2cap 0).toNat),
    (" l2cap_tx_bytes=", decimal (r.l2cap 1).toNat),
    (" l2cap_rx_packets=", decimal (r.l2cap 2).toNat),
    (" l2cap_rx_bytes=", decimal (r.l2cap 3).toNat),
    (" l2cap_tx_retries=", decimal (r.l2cap 4).toNat),
    (" l2cap_tx_wait_us=", decimal r.l2capTxWaitUs.toNat),
    (" l2cap_rx_overflows=", decimal r.l2capRxOverflows.toNat)]

/-- `BENCHMARK_DWT_FORMAT` with its values. -/
def dwtFields (d : DwtDelta) : Fields :=
  [(" dwt_cycle_counter_supported=", flag d.cycleSupported),
    (" dwt_event_counters_supported=", flag d.eventSupported),
    (" dwt_cyccnt=", decimal d.cyccnt.toNat),
    (" dwt_cpicnt=", decimal (d.events 0).toNat),
    (" dwt_exccnt=", decimal (d.events 1).toNat),
    (" dwt_sleepcnt=", decimal (d.events 2).toNat),
    (" dwt_lsucnt=", decimal (d.events 3).toNat),
    (" dwt_foldcnt=", decimal (d.events 4).toNat),
    (" dwt_cycle_counter_width_bits=32 dwt_event_counter_width_bits=8 dwt_counts_are_modulo=1", [])]

/-- All fields of the metrics. -/
def metricsFields (sequence : UInt32) (direction : Bytes) (payloadSize : UInt32) (success : Bool)
    (errorCode : ℤ) (packetId : ℕ) (hash : Bytes) (r : Readings) : Fields :=
  resultFields sequence direction payloadSize success errorCode packetId hash r ++ resourceFields r
    ++ transportFields r ++ dwtFields r.dwt

/-- The RESULT line of the console. -/
def resultLine (sequence : UInt32) (direction : Bytes) (payloadSize : UInt32) (success : Bool)
    (errorCode : ℤ) (packetId : ℕ) (hash : Bytes) (r : Readings) : Bytes :=
  ascii "[BENCH_TRANSFER_RESULT] "
    ++ (resultFields sequence direction payloadSize success errorCode packetId hash r).print
    ++ ascii "\n"

/-! ## Texts -/

/-- A command: `%7s %u %u %u %64s`. -/
structure Command where
  /-- `DOWN` or `UP`. -/
  direction : Bytes
  /-- The order number of the operation. -/
  sequence : UInt32
  /-- The size of the data payload. -/
  payloadSize : UInt32
  /-- The seed of the data payload. -/
  payloadSeed : UInt32
  /-- Its digest. -/
  hash : Bytes

/-- `sscanf(control, "%7s %u %u %u %64s", …)`. -/
def scanCommand : Scan Command := do
  let direction ← Scan.word 7
  Scan.space
  let sequence ← Scan.unsigned
  Scan.space
  let payloadSize ← Scan.unsigned
  Scan.space
  let payloadSeed ← Scan.unsigned
  Scan.space
  let hash ← Scan.word 64
  pure ⟨direction, sequence, payloadSize, payloadSeed, hash⟩

/-- `sscanf(begin_control, "BEGIN %u", …)`. -/
def scanBegin : Scan UInt32 := do
  Scan.literal (ascii "BEGIN")
  Scan.space
  Scan.unsigned

/-- `sscanf(control, "ACK_UP %u %u %64s", …)`. -/
def scanAckUp : Scan (UInt32 × UInt32 × Bytes) := do
  Scan.literal (ascii "ACK_UP")
  Scan.space
  let sequence ← Scan.unsigned
  Scan.space
  let valid ← Scan.unsigned
  Scan.space
  let hash ← Scan.word 64
  pure (sequence, valid, hash)

/-- `buffer[size] = '\0'`. -/
def terminate (buffer : Bytes) (size : ℕ) : Bytes := memcpy buffer size [0]

/-- A buffer of zeros. -/
def zeros (size : ℕ) : Bytes := List.replicate size 0

/-- The text `ack` of the DOWN branch. -/
def ackDown (sequence : UInt32) (valid : Bool) (hash : Bytes) : Bytes :=
  snprintf 128 (ascii "ACK_DOWN " ++ decimal sequence.toNat ++ ascii " " ++ flag valid
    ++ ascii " " ++ cstr hash)

/-! ## The program -/

/-- The body of the SUBSCRIBE packet of `subscribe_topics`. -/
def subscribeBody (packetId : UInt16) : Bytes :=
  be16 packetId.toNat
    ++ [topicControl, topicDown].flatMap fun topic ↦ be16 topic.length ++ topic ++ [1]

/-- `subscribe_topics`. -/
def subscribeTopics (packetId : UInt16) : Tls Unit := do
  let body := subscribeBody packetId
  Io.writeAll (plain (0x82 :: (encodeRemaining (UInt32.ofNat body.length) ++ body))) .eio
  let (type, remaining) ← readPacketHeader.orFail .einval
  Io.emit (.packet type 0x90)
  Io.require (type = 0x90 ∧ remaining ≤ 4) .einval
  let _ ← Io.readExact remaining .einval

/-- `if (ret == 0) ret = f();` -/
def andThen (ret : Except Errno Unit) (f : Tls Unit) : Tls (Except Errno Unit) :=
  match ret with
  | .ok () => Io.attempt f
  | .error e => pure (.error e)

/-- The two packet ids that outlive an operation: the variable `packet_id` and the static
`next_packet_id`. -/
structure PacketIds where
  /-- `packet_id`. -/
  last : ℕ
  /-- `next_packet_id`. -/
  next : UInt16

/-- What the data phase of an operation leaves behind. -/
structure Outcome where
  /-- `ret`. -/
  ret : Except Errno Unit
  /-- `valid`. -/
  valid : Bool
  /-- `actual_hash`. -/
  hash : Bytes
  /-- `result_packet_id`. -/
  resultPacketId : ℕ
  /-- The packet ids. -/
  ids : PacketIds

/-- The DOWN branch: read the data payload, acknowledge it and say what has been read.  A read that
fails leaves the variables it was to fill as they were. -/
def transferDown (sha : Bytes → Digest) (c : Command) (ids : PacketIds) : Tls Outcome := do
  let read ← Io.attempt (readPublish sha topicDown 32 [] 0 c.payloadSize c.payloadSeed)
  match read with
  | .error e => pure ⟨.error e, false, [], ids.last, ids⟩
  | .ok received => do
      let sent ← andThen (.ok ()) (sendPuback received.packetId)
      let ack := ackDown c.sequence received.integrity received.hash
      let published ← andThen sent (publishMemory topicDeviceAck ack ids.next)
      let ret ← andThen published (waitPuback ids.next)
      let ids := match sent, published with
        | .ok (), .ok () => ⟨ids.next.toNat, ids.next + 1⟩
        | .ok (), .error _ => ⟨received.packetId, ids.next + 1⟩
        | .error _, _ => ⟨received.packetId, ids.next⟩
      pure ⟨ret, received.integrity, received.hash, received.packetId, ids⟩

/-- Read the server's verdict on an uploaded payload; `control` is the buffer, which still holds the
command. -/
def readAckUp (sha : Bytes → Digest) (control : Bytes) (c : Command) (hash : Bytes) :
    Tls (Except Errno Unit × Bool) := do
  let read ← Io.attempt (readPublish sha topicControl 32 control 191 0 0)
  match read with
  | .error e => pure (.error e, false)
  | .ok received => do
      let ret ← andThen (.ok ()) (sendPuback received.packetId)
      let control :=
        if received.payloadSize < 192 then terminate received.small received.payloadSize
        else received.small
      let valid := match ret, scanAckUp.run control with
        | .ok (), some (sequence, valid, ackHash) =>
            decide (sequence = c.sequence) && decide (valid = 1) && strEq ackHash hash
        | _, _ => false
      pure (ret, valid)

/-- The UP branch once the data payload has been sent. -/
def awaitAckUp (sha : Bytes → Digest) (control : Bytes) (c : Command) (hash : Bytes)
    (ids : PacketIds) : Tls Outcome := do
  let ret ← andThen (.ok ()) (waitPuback ids.next)
  match ret with
  | .error e => pure ⟨.error e, false, hash, ids.next.toNat, ⟨ids.next.toNat, ids.next + 1⟩⟩
  | .ok () => do
      let (ret, valid) ← readAckUp sha control c hash
      pure ⟨ret, valid, hash, ids.next.toNat, ⟨ids.next.toNat, ids.next + 1⟩⟩

/-- The UP branch: send the data payload and read the server's verdict on it. -/
def transferUp (sha : Bytes → Digest) (operation : ℕ) (control : Bytes) (c : Command)
    (ids : PacketIds) : Tls Outcome := do
  let published ← Io.attempt
    (publishPattern sha operation topicUp c.payloadSeed c.payloadSize.toNat ids.next)
  match published with
  | .error e => pure ⟨.error e, false, [], ids.last, ⟨ids.last, ids.next + 1⟩⟩
  | .ok hash => awaitAckUp sha control c hash ids

/-- `publish_transfer_metrics`. -/
def publishTransferMetrics (text : Bytes) (packetId : UInt16) : Tls Unit := do
  Io.require (0 < text.length ∧ text.length < 1024) .eio
  publishMemory topicMetrics (snprintf 1024 text) packetId
  waitPuback packetId

/-- Read a PUBLISH on the control topic into a buffer of `capacity` zeros and acknowledge it: the
buffer. -/
def readControl (sha : Bytes → Digest) (capacity : ℕ) : Tls Bytes := do
  let control ←
    (readPublish sha topicControl 32 (zeros capacity) (capacity - 1) 0 0).orFail .einval
  Io.require (strEq control.topic topicControl ∧ control.payloadSize < capacity) .einval
  (sendPuback control.packetId).orFail .einval
  pure (terminate control.small control.payloadSize)

/-- The name of a direction in the records: DOWN, or anything else. -/
def directionName (direction : Bytes) : Bytes :=
  if strEq direction (ascii "DOWN") then ascii "server_to_device" else ascii "device_to_server"

/-- The value of `ret` in the records. -/
def Outcome.errorCode (o : Outcome) : ℤ :=
  match o.ret with
  | .ok () => 0
  | .error e => e.code

/-- `valid && ret == 0 && strcmp(actual_hash, expected_hash) == 0`. -/
def Outcome.success (o : Outcome) (c : Command) : Bool :=
  o.valid && o.ret.isOk && strEq o.hash c.hash

/-- The data phase of an operation. -/
def transfer (sha : Bytes → Digest) (operation : ℕ) (control : Bytes) (c : Command)
    (ids : PacketIds) : Tls Outcome :=
  if strEq c.direction (ascii "DOWN") then transferDown sha c ids
  else if strEq c.direction (ascii "UP") then transferUp sha operation control c ids
  else throw .einval

/-- The end of an operation: record its outcome, publish the metrics, and go on only if all is well.
-/
def finishOperation (r : Readings) (operation : ℕ) (c : Command) (o : Outcome) :
    Tls PacketIds := do
  let valid := o.success c
  let direction := directionName c.direction
  Io.emit (.record operation valid
    (resultLine c.sequence direction c.payloadSize valid o.errorCode o.resultPacketId o.hash r))
  let metrics :=
    metricsFields c.sequence direction c.payloadSize valid o.errorCode o.resultPacketId o.hash r
  (publishTransferMetrics metrics.print o.ids.next).orFail .eio
  Io.require valid .eio
  pure { o.ids with next := o.ids.next + 1 }

/-- One operation: read its command, run its data phase and finish it. -/
def runOperation (sha : Bytes → Digest) (r : Readings) (operation : ℕ) (ids : PacketIds) :
    Tls PacketIds := do
  Io.emit (.operation operation)
  let control ← readControl sha 192
  match scanCommand.run control with
  | none => throw .einval
  | some c => do
      let outcome ← transfer sha operation control c ids
      finishOperation r operation c outcome

/-- The loop over the operations: `count` of them are left, and `operation` is the next one. -/
def runOperations (sha : Bytes → Digest) (readings : ℕ → Readings) :
    ℕ → ℕ → PacketIds → Tls Unit
  | 0, _, _ => pure ()
  | count + 1, operation, ids => do
      let ids ← runOperation sha (readings operation) operation ids
      runOperations sha readings count (operation + 1) ids

/-- `BENCH_TRANSFER_MAX_OPERATIONS`. -/
def maxOperations : ℕ := 4096

/-- `benchmark_mqtt_transfer_run`, with the value `nextPacketId` of the static counter. -/
def benchmarkMqttTransferRun (sha : Bytes → Digest) (readings : ℕ → Readings)
    (nextPacketId : UInt16) : Tls Unit := do
  (subscribeTopics nextPacketId).orFail .eio
  (publishMemory topicUp (ascii "READY") (nextPacketId + 1)).orFail .eio
  (waitPuback (nextPacketId + 1)).orFail .eio
  let beginControl ← readControl sha 64
  match scanBegin.run beginControl with
  | none => throw .einval
  | some operationCount => do
      Io.require (operationCount.toNat ≠ 0 ∧ operationCount.toNat ≤ maxOperations) .einval
      runOperations sha readings operationCount.toNat 0
        ⟨(nextPacketId + 1).toNat, nextPacketId + 2⟩

end Device

end PeripheralBench.Transfer

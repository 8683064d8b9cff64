import PeripheralBench.Mqtt.ServerMemory
import PeripheralBench.Transfer.Plan

/-!
# The memory of a transfer session

`run_transfers` of `gateway/wolfssl_tls_server.c` with its memory: the array of operations, which
grows while the plan is loaded, the expected payload of an operation and the bodies of the packets
are allocated; the topics, the hash and the texts are in arrays on the stack.

What the source does at `fail` and `operation_fail` is done here by the functions that have
allocated something.  So those that read a packet return its body too.
-/

open PeripheralBench.Stream PeripheralBench.Text PeripheralBench.Memory PeripheralBench.Mqtt
  PeripheralBench.Mqtt.Server

namespace PeripheralBench.Transfer.Server

/-- Server code in a transfer session. -/
abbrev Session : Type → Type := Mem TransferOperation

variable (grants : ℕ → Bool) (sha : Bytes → Digest)

/-! ## The plan -/

/-- The array of operations. -/
structure OperationArray where
  /-- `operations`: `NULL`, or the array. -/
  operations : Option ℕ := none
  count : ℕ := 0
  capacity : ℕ := 0

/-- The array gets room for another operation. -/
def grow (a : OperationArray) : Session (Option OperationArray) :=
  if a.count = a.capacity then do
    let nextCapacity := if a.capacity = 0 then 16 else a.capacity * 2
    match ← realloc grants a.operations nextCapacity with
    | none => pure none
    | some resized => pure (some ⟨some resized, a.count, nextCapacity⟩)
  else pure (some a)

/-- The loop of `load_transfer_plan`: whether it comes to the end of the file, and the array. -/
def Mem.loadOperations : ℕ → Bytes → OperationArray → Session (Bool × OperationArray)
  | 0, _, a => pure (true, a)
  | rounds + 1, file, a =>
      if file.dropWhile isSpace = [] then pure (true, a)
      else
        match scanOperation file with
        | none => pure (false, a)
        | some (op, rest) => do
            let _ ← setArray 0 (op.direction ++ [0]) (Cells.blank 24)
            match ← grow grants a with
            | none => pure (false, a)
            | some a => do
                storeRecord a.operations a.count op
                Mem.loadOperations rounds rest { a with count := a.count + 1 }

/-- `load_transfer_plan` of an open file: `*operations_out` and `*count_out`. -/
def Mem.loadFile (file : Bytes) : Session (Option (Option ℕ × ℕ)) :=
  match fgets 128 file with
  | none => pure none
  | some (header, rest) => do
      let _ ← setArray 0 (header ++ [0]) (Cells.blank 128)
      let (ok, a) ← Mem.loadOperations grants rest.length rest {}
      if ok ∧ a.count ≠ 0 then pure (some (a.operations, a.count))
      else do
        freeRecords a.operations
        pure none

/-- `load_transfer_plan`.  There may be no such file. -/
def Mem.loadTransferPlan : Option Bytes → Session (Option (Option ℕ × ℕ))
  | none => pure none
  | some file => Mem.loadFile grants file

/-! ## The opening -/

/-- Whether the device says that it is ready, and the body. -/
def readReady : Session (Bool × Option ℕ) := do
  match ← Mem.readPublish grants topicUp (Cells.blank 64) with
  | (none, body) => pure (false, body)
  | (some parsed, body) => do
      let topic ← getString parsed.topic
      if strEq topic topicUp ∧ parsed.payloadSize = 5 then
        let payload ← load body parsed.payload 5
        if payload = ascii "READY" then
          let ok ← Mem.sendPuback parsed.packetId
          pure (ok, body)
        else pure (false, body)
      else pure (false, body)

/-- `handle_subscribe_and_ready`. -/
def Mem.handleSubscribeAndReady : Session Bool := do
  let (ok, packet) ← Mem.readPacket grants
  if ok then
    Stateful.record (.packet packet.type 0x82)
    if packet.type = 0x82 ∧ 2 ≤ packet.bodySize then
      let word ← load packet.body 0 2
      free packet.body
      if ← tlsWriteAll (plain (subackBytes (word16 (word.getD 0 0) (word.getD 1 0)))) then
        let (ok, body) ← readReady grants
        free body
        pure ok
      else pure false
    else do
      free packet.body
      pure false
  else do
    free packet.body
    pure false

/-! ## One operation -/

/-- The text of the command for an operation whose payload has this hash. -/
def commandText (op : TransferOperation) (hash : Bytes) : Bytes :=
  commandWord op ++ ascii " " ++ decimal op.order.toNat ++ ascii " "
    ++ decimal op.payloadBytes.toNat ++ ascii " " ++ decimal op.payloadSeed.toNat ++ ascii " "
    ++ hash

/-- The text of the report that is due. -/
def expectedAckText (op : TransferOperation) (hash : Bytes) : Bytes :=
  ascii "ACK_DOWN " ++ decimal op.order.toNat ++ ascii " 1 " ++ hash

/-- The text of the verdict. -/
def ackUpText (op : TransferOperation) (hash : Bytes) : Bytes :=
  ascii "ACK_UP " ++ decimal op.order.toNat ++ ascii " 1 " ++ hash

/-- The line for an operation. -/
def resultText (op : TransferOperation) (hash : Bytes) (elapsed : Int64) : Bytes :=
  ascii "[BENCH_TRANSFER_SERVER] sequence=" ++ decimal op.order.toNat
    ++ ascii " direction=" ++ cstr op.direction
    ++ ascii " payload_bytes=" ++ decimal op.payloadBytes.toNat
    ++ ascii " status=success integrity_match=1 sha256=" ++ hash
    ++ ascii " server_end_to_end_us=" ++ signedDecimal elapsed.toInt ++ ascii "\n"

/-- `make_payload`. -/
def makePayload (seed size : UInt32) : Session (Option ℕ) := do
  match ← malloc grants size.toNat with
  | none => pure none
  | some payload => do
      fill (some payload) (pattern seed size.toNat)
      pure (some payload)

/-- `hash_hex` of a block, into an array. -/
def hashHex (p : Option ℕ) (size : ℕ) : Session (Cells UInt8) := do
  let data ← load p 0 size
  setArray 0 (hashToHex (sha data) ++ [0]) (Cells.blank 65)

/-- Publish the text in an array on the control topic. -/
def publishArray (array : Cells UInt8) (packetIdState : UInt32) : Session (Bool × UInt32) := do
  let text ← getString array
  Mem.publish grants none topicControl text packetIdState

/-- The data phase of a download: the next value of `packet_id_state`, and the body. -/
def Mem.transferDown (index : ℕ) (op : TransferOperation) (expected : Option ℕ)
    (expectedHash command : Cells UInt8) (packetIdState : UInt32) :
    Session (Option UInt32 × Option ℕ) := do
  let data ← load expected 0 op.payloadBytes.toNat
  let (ok, packetIdState) ← Mem.publish grants (some index) topicDown data packetIdState
  if ok then
    match ← Mem.readPublish grants topicDeviceAck (Cells.blank 64) with
    | (none, body) => pure (none, body)
    | (some parsed, body) => do
        let topic ← getString parsed.topic
        if strEq topic topicDeviceAck ∧ parsed.payloadSize < command.length then
          if ← Mem.sendPuback parsed.packetId then
            let payload ← load body parsed.payload parsed.payloadSize
            let command ← setArray 0 payload command
            let command ← setArray parsed.payloadSize [0] command
            let hash ← getString expectedHash
            let expectedAck ← printArray (expectedAckText op hash) (Cells.blank 192)
            let text ← getString command
            let expected ← getString expectedAck
            pure (if strEq text expected then some packetIdState else none, body)
          else pure (none, body)
        else pure (none, body)
  else pure (none, none)

/-- The data phase of an upload: the next value of `packet_id_state`, and the body. -/
def Mem.transferUp (op : TransferOperation) (expected : Option ℕ)
    (expectedHash command : Cells UInt8) (packetIdState : UInt32) :
    Session (Option UInt32 × Option ℕ) := do
  match ← Mem.readPublish grants topicUp (Cells.blank 64) with
  | (none, body) => pure (none, body)
  | (some parsed, body) => do
      let topic ← getString parsed.topic
      if strEq topic topicUp ∧ parsed.payloadSize = op.payloadBytes.toNat then
        let payload ← load body parsed.payload parsed.payloadSize
        let data ← load expected 0 parsed.payloadSize
        if payload = data then
          if ← Mem.sendPuback parsed.packetId then
            let hash ← getString expectedHash
            let command ← printArray (ackUpText op hash) command
            let (ok, packetIdState) ← publishArray grants command packetIdState
            pure (if ok then some packetIdState else none, body)
          else pure (none, body)
        else pure (none, body)
      else pure (none, body)

/-- The data phase of an operation. -/
def Mem.transfer (index : ℕ) (op : TransferOperation) (expected : Option ℕ)
    (expectedHash command : Cells UInt8) (packetIdState : UInt32) :
    Session (Option UInt32 × Option ℕ) :=
  if op.IsDown then Mem.transferDown grants index op expected expectedHash command packetIdState
  else Mem.transferUp grants op expected expectedHash command packetIdState

/-- The end of an operation: whether the metrics come, and the body. -/
def readMetrics (elapsed : Int64) (index : ℕ) (op : TransferOperation)
    (expectedHash : Cells UInt8) : Session (Bool × Option ℕ) := do
  match ← Mem.readPublish grants topicMetrics (Cells.blank 64) with
  | (none, body) => pure (false, body)
  | (some parsed, body) => do
      let topic ← getString parsed.topic
      if strEq topic topicMetrics then
        if ← Mem.sendPuback parsed.packetId then
          let payload ← load body parsed.payload parsed.payloadSize
          Stateful.record (.print (ascii "[BENCH_TRANSFER_DEVICE] " ++ cstr payload ++ ascii "\n"))
          let hash ← getString expectedHash
          Stateful.record (.record index true (resultText op hash elapsed))
          pure (true, body)
        else pure (false, body)
      else pure (false, body)

/-- What is done with the expected payload: the next value of `packet_id_state`. -/
def exchange (elapsed : Int64) (index : ℕ) (op : TransferOperation) (expected : Option ℕ)
    (packetIdState : UInt32) : Session (Option UInt32) := do
  let expectedHash ← hashHex sha expected op.payloadBytes.toNat
  let hash ← getString expectedHash
  let command ← printArray (commandText op hash) (Cells.blank 192)
  let (ok, packetIdState) ← publishArray grants command packetIdState
  if ok then
    let (packetIdState, body) ←
      Mem.transfer grants index op expected expectedHash command packetIdState
    free body
    match packetIdState with
    | none => pure none
    | some packetIdState => do
        let (ok, body) ← readMetrics grants elapsed index op expectedHash
        free body
        pure (if ok then some packetIdState else none)
  else pure none

/-- One round of the loop of `run_transfers`: the next value of `packet_id_state`. -/
def Mem.runOperation (elapsed : Int64) (index : ℕ) (op : TransferOperation)
    (packetIdState : UInt32) : Session (Option UInt32) := do
  Stateful.record (.operation index)
  match ← makePayload grants op.payloadSeed op.payloadBytes with
  | none => pure none
  | some expected => do
      let next ← exchange grants sha elapsed index op (some expected) packetIdState
      free (some expected)
      pure next

/-! ## The session -/

/-- The loop of `run_transfers` over the last operations of the array. -/
def Mem.runOperations (elapsed : ℕ → Int64) (operations : Option ℕ) :
    ℕ → ℕ → UInt32 → Session Bool
  | 0, _, _ => pure true
  | rounds + 1, index, packetIdState => do
      match ← loadRecord operations index with
      | [] => pure false
      | op :: _ =>
          match ← Mem.runOperation grants sha (elapsed index) index op packetIdState with
          | none => pure false
          | some packetIdState =>
              Mem.runOperations elapsed operations rounds (index + 1) packetIdState

/-- `run_transfers` with a loaded plan. -/
def session (elapsed : ℕ → Int64) (operations : Option ℕ) (operationCount : ℕ) : Session Bool := do
  if ← Mem.handleSubscribeAndReady grants then
    Stateful.record (.print (ascii "[BENCH_TRANSFER_SERVER] status=ready\n"))
    let begin ← printArray (ascii "BEGIN " ++ decimal operationCount) (Cells.blank 64)
    let (ok, packetIdState) ← publishArray grants begin 100
    if ok then
      if ← Mem.runOperations grants sha elapsed operations operationCount 0 packetIdState then
        Stateful.record (.print (ascii "[BENCH_TRANSFER_SERVER] status=complete\n"))
        pure true
      else pure false
    else pure false
  else pure false

/-- `run_transfers`. -/
def Mem.runTransfers (elapsed : ℕ → Int64) (plan : Option Bytes) : Session Bool := do
  match ← Mem.loadTransferPlan grants plan with
  | none => pure false
  | some (operations, operationCount) => do
      let ok ← session grants sha elapsed operations operationCount
      freeRecords operations
      pure ok

/-! ## Without the memory -/

/-- What `run_transfers` does when there is always enough memory. -/
def runPlan (elapsed : ℕ → Int64) (plan : Option Bytes) : Tls Unit :=
  match plan.bind loadTransferPlan with
  | none => throw ()
  | some operations => runTransfers sha elapsed operations

end PeripheralBench.Transfer.Server

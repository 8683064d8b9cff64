import PeripheralBench.Mqtt.Server
import PeripheralBench.Transfer.Device

/-!
# The server side of a transfer session

`run_transfers` of `gateway/wolfssl_tls_server.c`, once the plan has been loaded.  The server waits
for the device to subscribe and to announce itself, says how many operations there are, and drives
them one after the other.  It stops at the first packet that is not the expected one.

What the clock contributes is the time each operation took.
-/

open PeripheralBench.Stream PeripheralBench.Text PeripheralBench.Mqtt PeripheralBench.Mqtt.Server

namespace PeripheralBench.Transfer

/-- `struct transfer_operation`. -/
structure TransferOperation where
  /-- The order number. -/
  order : UInt32
  /-- `server_to_device`, or anything else for the other direction. -/
  direction : Bytes
  /-- The size of the data payload. -/
  payloadBytes : UInt32
  /-- The seed of the data payload. -/
  payloadSeed : UInt32

namespace TransferOperation

variable (op : TransferOperation)

/-- The server sends the data payload. -/
def IsDown : Prop := strEq op.direction (ascii "server_to_device") = true

instance : Decidable op.IsDown := inferInstanceAs (Decidable (_ = _))

/-- `make_payload`. -/
def payload : Bytes := pattern op.payloadSeed op.payloadBytes.toNat

/-- `hash_hex` of the payload. -/
def hash (sha : Bytes → Digest) : Bytes := hashToHex (sha op.payload)

end TransferOperation

namespace Server

/-- The bytes of the SUBACK. -/
def subackBytes (packetId : ℕ) : Bytes := [0x90, 0x04] ++ be16 packetId ++ [0x01, 0x01]

/-- `handle_subscribe_and_ready`. -/
def handleSubscribeAndReady : Tls Unit := do
  let (type, body) ← readPacket
  Io.emit (.packet type 0x82)
  Io.require (type = 0x82 ∧ 2 ≤ body.length) ()
  let packetId := word16 (body.getD 0 0) (body.getD 1 0)
  Io.writeAll (plain (subackBytes packetId)) ()
  let (topic, payload, packetId) ← readPublish topicUp 64
  Io.require (strEq topic topicUp ∧ payload = ascii "READY") ()
  sendPuback packetId

/-- The word for a direction in a command. -/
def commandWord (op : TransferOperation) : Bytes := if op.IsDown then ascii "DOWN" else ascii "UP"

/-- The text of the command for an operation. -/
def command (sha : Bytes → Digest) (op : TransferOperation) : Bytes :=
  snprintf 192 (commandWord op ++ ascii " " ++ decimal op.order.toNat ++ ascii " "
    ++ decimal op.payloadBytes.toNat ++ ascii " " ++ decimal op.payloadSeed.toNat ++ ascii " "
    ++ op.hash sha)

/-- `expected_ack`. -/
def expectedAck (sha : Bytes → Digest) (op : TransferOperation) : Bytes :=
  snprintf 192 (ascii "ACK_DOWN " ++ decimal op.order.toNat ++ ascii " 1 " ++ op.hash sha)

/-- The verdict on an uploaded payload. -/
def ackUp (sha : Bytes → Digest) (op : TransferOperation) : Bytes :=
  snprintf 192 (ascii "ACK_UP " ++ decimal op.order.toNat ++ ascii " 1 " ++ op.hash sha)

/-- Publish a text on the control topic. -/
def publishControl (text : Bytes) (packetIdState : UInt32) : Tls UInt32 :=
  publish none topicControl (cstr text) packetIdState

/-- The data phase of a download: send the payload, and accept the device's report on it. -/
def transferDown (sha : Bytes → Digest) (index : ℕ) (op : TransferOperation)
    (packetIdState : UInt32) : Tls UInt32 := do
  let packetIdState ← publish (some index) topicDown op.payload packetIdState
  let (topic, payload, packetId) ← readPublish topicDeviceAck 64
  Io.require (strEq topic topicDeviceAck ∧ payload.length < 192) ()
  sendPuback packetId
  Io.require (strEq payload (expectedAck sha op)) ()
  pure packetIdState

/-- The data phase of an upload: read the payload, compare it, and say that it is right. -/
def transferUp (sha : Bytes → Digest) (op : TransferOperation) (packetIdState : UInt32) :
    Tls UInt32 := do
  let (topic, payload, packetId) ← readPublish topicUp 64
  Io.require
    (strEq topic topicUp ∧ payload.length = op.payloadBytes.toNat ∧ payload = op.payload) ()
  sendPuback packetId
  publishControl (ackUp sha op) packetIdState

/-- The data phase of an operation. -/
def transfer (sha : Bytes → Digest) (index : ℕ) (op : TransferOperation) (packetIdState : UInt32) :
    Tls UInt32 :=
  if op.IsDown then transferDown sha index op packetIdState else transferUp sha op packetIdState

/-- The line the server prints for an operation. -/
def resultLine (sha : Bytes → Digest) (op : TransferOperation) (elapsed : Int64) : Bytes :=
  ascii "[BENCH_TRANSFER_SERVER] sequence=" ++ decimal op.order.toNat
    ++ ascii " direction=" ++ cstr op.direction
    ++ ascii " payload_bytes=" ++ decimal op.payloadBytes.toNat
    ++ ascii " status=success integrity_match=1 sha256=" ++ op.hash sha
    ++ ascii " server_end_to_end_us=" ++ signedDecimal elapsed.toInt ++ ascii "\n"

/-- One round of the loop of `run_transfers`: the next value of `packet_id_state`. -/
def runOperation (sha : Bytes → Digest) (elapsed : Int64) (index : ℕ) (op : TransferOperation)
    (packetIdState : UInt32) : Tls UInt32 := do
  Io.emit (.operation index)
  let packetIdState ← publishControl (command sha op) packetIdState
  let packetIdState ← transfer sha index op packetIdState
  let (topic, payload, packetId) ← readPublish topicMetrics 64
  Io.require (strEq topic topicMetrics) ()
  sendPuback packetId
  Io.emit (.print (ascii "[BENCH_TRANSFER_DEVICE] " ++ cstr payload ++ ascii "\n"))
  Io.emit (.record index true (resultLine sha op elapsed))
  pure packetIdState

/-- The loop of `run_transfers` over the operations from `index` on. -/
def runOperations (sha : Bytes → Digest) (elapsed : ℕ → Int64) :
    List TransferOperation → ℕ → UInt32 → Tls Unit
  | [], _, _ => pure ()
  | op :: operations, index, packetIdState => do
      let packetIdState ← runOperation sha (elapsed index) index op packetIdState
      runOperations sha elapsed operations (index + 1) packetIdState

/-- The text that opens the session. -/
def beginText (operationCount : ℕ) : Bytes := snprintf 64 (ascii "BEGIN " ++ decimal operationCount)

/-- `run_transfers` with a loaded plan. -/
def runTransfers (sha : Bytes → Digest) (elapsed : ℕ → Int64)
    (operations : List TransferOperation) : Tls Unit := do
  handleSubscribeAndReady
  Io.emit (.print (ascii "[BENCH_TRANSFER_SERVER] status=ready\n"))
  let packetIdState ← publishControl (beginText operations.length) 100
  runOperations sha elapsed operations 0 packetIdState
  Io.emit (.print (ascii "[BENCH_TRANSFER_SERVER] status=complete\n"))

end Server

end PeripheralBench.Transfer

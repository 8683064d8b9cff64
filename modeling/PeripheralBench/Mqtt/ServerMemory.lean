import Mathlib.Data.UInt
import PeripheralBench.Memory.Blocks
import PeripheralBench.Mqtt.Server
import PeripheralBench.Stream.Refinement

/-!
# The memory of the TLS server

The packet functions of `gateway/wolfssl_tls_server.c` once more, this time with the memory that
they use.  `Mqtt.Server` has what they read and write, and takes memory for granted; here bodies are
blocks that `malloc` may refuse and that must be given back, and topics, headers and texts are in
arrays of a fixed size.  An access outside a block or an array, or of something that has not been
written to, is a fault.

Which allocations are granted is a parameter.  Arrays are passed around as what is in them.
-/

open PeripheralBench.Stream PeripheralBench.Text PeripheralBench.Memory

namespace PeripheralBench.Mqtt.Server

/-- The heap: blocks of bytes, and arrays of some structure. -/
structure Heap (ρ : Type) where
  bytes : Blocks UInt8 := {}
  records : Blocks ρ := {}
  /-- How many allocations have been asked for. -/
  asked : ℕ := 0

/-- Server code that talks over TLS and uses memory. -/
abbrev Mem (ρ : Type) : Type → Type := Stateful (Heap ρ) Item UInt8 Event

variable {ρ : Type}

/-! ## Memory -/

/-- Another state of the blocks of bytes. -/
def Heap.mapBytes (f : Blocks UInt8 → Blocks UInt8) (h : Heap ρ) : Heap ρ :=
  { h with bytes := f h.bytes }

/-- Another state of the arrays of structures. -/
def Heap.mapRecords (f : Blocks ρ → Blocks ρ) (h : Heap ρ) : Heap ρ :=
  { h with records := f h.records }

/-- The result of an access, if it is allowed. -/
def access {α : Type} [Inhabited α] : Option α → Mem ρ α
  | some a => pure a
  | none => do
      modify (Heap.mapBytes fun m ↦ { m with fault := true })
      pure default

/-- Whether the next allocation is granted. -/
def request (grants : ℕ → Bool) : Mem ρ Bool := do
  let h ← get
  modify fun h ↦ { h with asked := h.asked + 1 }
  pure (grants h.asked)

/-- `malloc`. -/
def malloc (grants : ℕ → Bool) (size : ℕ) : Mem ρ (Option ℕ) := do
  if ← request grants then
    let h ← get
    modify (Heap.mapBytes (Blocks.alloc size))
    pure (some h.bytes.next)
  else pure none

/-- `free`. -/
def free : Option ℕ → Mem ρ Unit
  | none => pure ()
  | some p => modify (Heap.mapBytes (Blocks.free p))

/-- What a pointer points to, from an offset on. -/
def load (p : Option ℕ) (off n : ℕ) : Mem ρ Bytes := do
  let h ← get
  access (p.bind fun p ↦ h.bytes.load p off n)

/-- `realloc` of an array of structures. -/
def realloc (grants : ℕ → Bool) (p : Option ℕ) (size : ℕ) : Mem ρ (Option ℕ) := do
  if ← request grants then
    let h ← get
    modify (Heap.mapRecords (Blocks.realloc p size))
    pure (some h.records.next)
  else pure none

/-- `free` of an array of structures. -/
def freeRecords : Option ℕ → Mem ρ Unit
  | none => pure ()
  | some p => modify (Heap.mapRecords (Blocks.free p))

/-- A structure of an array. -/
def loadRecord (p : Option ℕ) (i : ℕ) : Mem ρ (List ρ) := do
  let h ← get
  access (p.bind fun p ↦ h.records.load p i 1)

/-- A structure of an array is assigned. -/
def storeRecord (p : Option ℕ) (i : ℕ) (record : ρ) : Mem ρ Unit :=
  match p with
  | none => access none
  | some p => modify (Heap.mapRecords (Blocks.store p i [record]))

/-- All of a block is assigned, if there is one. -/
def fill (p : Option ℕ) (data : Bytes) : Mem ρ Unit :=
  match p with
  | none => access none
  | some p => modify (Heap.mapBytes (Blocks.store p 0 data))

/-- Something is written to an array. -/
def setArray (off : ℕ) (data : Bytes) (cells : Cells UInt8) : Mem ρ (Cells UInt8) :=
  access (if data.length + off ≤ cells.length then some (cells.overwrite off data) else none)

/-- What is in an array, from its beginning on. -/
def getArray (n : ℕ) (cells : Cells UInt8) : Mem ρ Bytes := access (cells.slice 0 n)

/-- The string in an array. -/
def getString (cells : Cells UInt8) : Mem ρ Bytes := access cells.text

/-- `snprintf` into an array. -/
def printArray (text : Bytes) (cells : Cells UInt8) : Mem ρ (Cells UInt8) :=
  setArray 0 (snprintf cells.length text ++ [0]) cells

/-! ## The stream -/

/-- Code that does not use memory. -/
def tls {α : Type} (x : Tls α) : Mem ρ (Except Unit α) := Stateful.lift x.proc

/-- `tls_read_exact` into a block, from an offset on. -/
def tlsReadExact (p off size : ℕ) (h : Heap ρ) : Proc Item UInt8 Event (Bool × Heap ρ) :=
  if size = 0 then .ret (true, h)
  else .read size fun bs ↦
    if _h : bs = [] then .ret (false, h)
    else tlsReadExact p (off + bs.length) (size - bs.length) (h.mapBytes (Blocks.store p off bs))
termination_by size
decreasing_by
  have := List.length_pos_of_ne_nil _h
  omega

/-- `tls_write_all`. -/
def tlsWriteAll (xs : List Item) : Mem ρ Bool := Stateful.lift (Proc.writeLoop xs)

/-! ## Packets -/

/-- What `read_packet` writes to its parameters. -/
structure Packet where
  type : UInt8
  /-- `*body`: `NULL`, or a block. -/
  body : Option ℕ
  /-- `*body_size`. -/
  bodySize : ℕ

/-- The body of a packet is read into a new block, if there is one. -/
def readBody : Option ℕ → ℕ → Mem ρ Bool
  | none, _ => pure false
  | some p, size => tlsReadExact p 0 size

/-- What `read_packet` does after the header: when it fails there is no body. -/
def allocateBody (grants : ℕ → Bool) (type : UInt8) (bodySize : ℕ) : Mem ρ (Bool × Packet) :=
  if bodySize = 0 then pure (true, ⟨type, none, bodySize⟩)
  else do
    let body ← malloc grants bodySize
    if ← readBody body bodySize then pure (true, ⟨type, body, bodySize⟩)
    else do
      free body
      pure (false, ⟨type, none, bodySize⟩)

/-- `read_packet`. -/
def Mem.readPacket (grants : ℕ → Bool) : Mem ρ (Bool × Packet) := do
  match ← tls (Io.readOne ()) with
  | .error _ => pure (false, ⟨0, none, 0⟩)
  | .ok type =>
      match ← tls (readRemaining () () 4 1 0) with
      | .error _ => pure (false, ⟨type, none, 0⟩)
      | .ok bodySize => allocateBody grants type bodySize

/-- `send_puback`. -/
def Mem.sendPuback (packetId : ℕ) : Mem ρ Bool := tlsWriteAll (plain (pubackBytes packetId))

/-- The condition of `wait_puback`. -/
def isPuback (packetId : UInt32) (packet : Packet) : Mem ρ Bool := do
  Stateful.record (.packet packet.type 0x40)
  if packet.type = 0x40 ∧ packet.bodySize = 2 then
    let word ← load packet.body 0 2
    let got := word16 (word.getD 0 0) (word.getD 1 0)
    Stateful.record (.puback got packetId.toNat)
    pure (decide (got = packetId.toNat))
  else pure false

/-- `wait_puback`. -/
def Mem.waitPuback (grants : ℕ → Bool) (packetId : UInt32) : Mem ρ Bool := do
  let (ok, packet) ← readPacket grants
  let result ← if ok then isPuback packetId packet else pure false
  free packet.body
  pure result

/-- The header that `publish` builds in an array of 128 bytes, with the Remaining Length in an array
of four. -/
def buildHeader (topic encoded : Bytes) (packetId : UInt32) : Mem ρ Bytes := do
  let remaining ← setArray 0 encoded (Cells.blank 4)
  let header ← setArray 0 [0x32] (Cells.blank 128)
  let digits ← getArray encoded.length remaining
  let header ← setArray 1 digits header
  let header ← setArray (1 + encoded.length) (be16 topic.length) header
  let header ← setArray (3 + encoded.length) topic header
  let header ← setArray (3 + encoded.length + topic.length) (be16 packetId.toNat) header
  getArray (5 + encoded.length + topic.length) header

/-- `publish`: whether it succeeds, and the next value of `*packet_id_state`. -/
def Mem.publish (grants : ℕ → Bool) (operation : Option ℕ) (topic payload : Bytes)
    (packetIdState : UInt32) : Mem ρ (Bool × UInt32) := do
  let packetId := packetIdState
  let remaining := UInt32.ofNat (2 + (cstr topic).length + 2 + payload.length)
  let header ← buildHeader (cstr topic) (encodeRemaining remaining) packetId
  if ← tlsWriteAll (plain header) then
    if ← tlsWriteAll (items operation 0 payload) then
      let ok ← waitPuback grants packetId
      pure (ok, packetIdState + 1)
    else pure (false, packetIdState + 1)
  else pure (false, packetIdState + 1)

/-- What `parse_publish` writes to its parameters. -/
structure Parsed where
  /-- The array with the topic. -/
  topic : Cells UInt8
  /-- What has been copied there, for the record. -/
  name : Bytes
  /-- Where in the body the payload is. -/
  payload : ℕ
  payloadSize : ℕ
  packetId : ℕ

/-- `parse_publish`, with the array for the topic. -/
def Mem.parsePublish (packet : Packet) (topic : Cells UInt8) : Mem ρ (Option Parsed) :=
  if packet.type >>> 4 ≠ 3 ∨ packet.bodySize < 2 then pure none
  else do
    let word ← load packet.body 0 2
    let topicSize := word16 (word.getD 0 0) (word.getD 1 0)
    let offset := 2 + topicSize
    if topic.length < topicSize + 1 ∨ packet.bodySize < offset then pure none
    else do
      let name ← load packet.body 2 topicSize
      let topic ← setArray 0 name topic
      let topic ← setArray topicSize [0] topic
      if (packet.type >>> 1) &&& 3 ≠ 0 then
        if packet.bodySize < offset + 2 then pure none
        else do
          let word ← load packet.body offset 2
          pure (some ⟨topic, name, offset + 2, packet.bodySize - (offset + 2),
            word16 (word.getD 0 0) (word.getD 1 0)⟩)
      else pure (some ⟨topic, name, offset, packet.bodySize - offset, 0⟩)

/-- `read_packet` and `parse_publish`: what has been parsed, and the body. -/
def Mem.readPublish (grants : ℕ → Bool) (expect : Bytes) (topic : Cells UInt8) :
    Mem ρ (Option Parsed × Option ℕ) := do
  let (ok, packet) ← readPacket grants
  if ok then
    Stateful.record (.packet packet.type 0x32)
    match ← parsePublish packet topic with
    | none => pure (none, packet.body)
    | some parsed => do
        Stateful.record (.topic parsed.name expect)
        pure (some parsed, packet.body)
  else pure (none, packet.body)

end PeripheralBench.Mqtt.Server

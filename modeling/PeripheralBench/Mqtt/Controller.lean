import PeripheralBench.Mqtt.Payload
import PeripheralBench.Mqtt.Wire

/-!
# The MQTT codec of the transfer controller

The packet functions of `gateway/mqtt_transfer_controller.py` and the header of
`benchmarklib/transfer.py`.  `sock.sendall` sends everything or raises, so what the client sends is
a list of bytes; what it reads comes through `sock.recv` and is a stream program.  A failing
function raises an `Exn`.
-/

open PeripheralBench.Stream PeripheralBench.Text

namespace PeripheralBench.Mqtt.Controller

/-- The exceptions the codec raises. -/
inductive Exn where
  /-- `ConnectionError`: the broker closed the connection. -/
  | connection
  /-- `ValueError`: malformed remaining length, or one that is out of range. -/
  | value
  /-- `OverflowError`: `int.to_bytes` of a number that does not fit. -/
  | overflow
  /-- `UnicodeDecodeError`: `bytes.decode` of bytes that are not UTF-8. -/
  | unicode
  /-- `RuntimeError`: a packet that is not the expected one. -/
  | runtime
deriving DecidableEq

/-- Controller code that reads from the socket. -/
abbrev Sock : Type → Type := Io Exn UInt8 UInt8 Empty

/-- `str.encode`. -/
def encode (value : String) : Bytes := value.toByteArray.data.toList

/-- `bytes.decode`. -/
def decode (data : Bytes) : Except Exn String :=
  match String.fromUTF8? ⟨data.toArray⟩ with
  | some value => pure value
  | none => throw .unicode

/-- `int.to_bytes(2, "big")`. -/
def toBytes2 (n : ℕ) : Except Exn Bytes := if n < 2 ^ 16 then pure (be16 n) else throw .overflow

/-- `int.from_bytes(data, "big")` of at most two bytes. -/
def fromBytes2 : Bytes → ℕ
  | [] => 0
  | [lo] => lo.toNat
  | hi :: lo :: _ => word16 hi lo

/-- `encode_remaining_length` of the controller. -/
def encodeRemainingLength (value : ℕ) : Bytes :=
  let digit := UInt8.ofNat (value % 128)
  let value' := value / 128
  if value' ≠ 0 then (digit ||| 0x80) :: encodeRemainingLength value' else [digit]
termination_by value

/-- `encode_utf8`. -/
def encodeUtf8 (value : String) : Except Exn Bytes := do
  let data := encode value
  let size ← toBytes2 data.length
  pure (size ++ data)

/-- The state of an `MqttClient`: the next packet id, and the messages nobody has waited for yet. -/
structure MqttClient where
  /-- `self.packet_id`. -/
  packetId : ℕ
  /-- `self.inbox`: topic, payload and packet id. -/
  inbox : List (String × Bytes × ℕ)

/-- `__init__`, once the connection stands. -/
def MqttClient.init : MqttClient := ⟨1, []⟩

/-- `_next_id`. -/
def MqttClient.nextId (client : MqttClient) : ℕ × MqttClient :=
  (client.packetId,
    { client with packetId := if client.packetId = 65535 then 1 else client.packetId + 1 })

/-! ## Sending -/

/-- What `publish` sends, and the packet id it then waits for. -/
def publishPacket (client : MqttClient) (topic : String) (payload : Bytes) :
    Except Exn (Bytes × ℕ × MqttClient) := do
  let (packetId, client) := client.nextId
  let topic ← encodeUtf8 topic
  let id ← toBytes2 packetId
  let body := topic ++ id ++ payload
  pure ([0x32] ++ encodeRemainingLength body.length ++ body, packetId, client)

/-- The bytes `publish_pattern` sends at a time. -/
def patternChunk : ℕ := 1024

/-- What `publish_pattern` sends from `offset` on, piece by piece. -/
def patternChunks (seed size offset : ℕ) : Bytes :=
  if offset < size then
    let count := min patternChunk (size - offset)
    payloadSlice seed offset count ++ patternChunks seed size (offset + patternChunk)
  else []
termination_by size - offset
decreasing_by
  have : 0 < patternChunk := by norm_num [patternChunk]
  omega

/-- What `publish_pattern` sends, and the packet id it then waits for. -/
def publishPatternPacket (client : MqttClient) (topic : String) (seed size : ℕ) :
    Except Exn (Bytes × ℕ × MqttClient) := do
  let (packetId, client) := client.nextId
  let topic ← encodeUtf8 topic
  let id ← toBytes2 packetId
  let variablePart := topic ++ id
  let header := [0x32] ++ encodeRemainingLength (variablePart.length + size) ++ variablePart
  pure (header ++ patternChunks seed size 0, packetId, client)

/-- `encode_remaining_length` of `benchmarklib/transfer.py`. -/
def checkedRemainingLength (value : ℕ) : Except Exn Bytes :=
  if value ≤ 268435455 then pure (encodeRemainingLength value) else throw .value

/-- `mqtt_publish_header` of `benchmarklib/transfer.py`. -/
def mqttPublishHeader (topic : String) (packetId payloadSize : ℕ) : Except Exn Bytes := do
  let topicBytes := encode topic
  let size ← toBytes2 topicBytes.length
  let id ← toBytes2 packetId
  let variablePart := size ++ topicBytes ++ id
  let remaining ← checkedRemainingLength (variablePart.length + payloadSize)
  pure ([0x32] ++ remaining ++ variablePart)

/-! ## Receiving -/

/-- `_read_exact`. -/
def readExact (size : ℕ) : Sock Bytes := Io.readExact size .connection

/-- `read_packet_header`: the first byte and the remaining length. -/
def readPacketHeader : Sock (UInt8 × ℕ) := do
  let first ← Io.readOne .connection
  let remaining ← readRemaining .connection .value 4 1 0
  pure (first, remaining)

/-- `read_packet`: the first byte and the body. -/
def readPacket : Sock (UInt8 × Bytes) := do
  let (first, remaining) ← readPacketHeader
  let body ← readExact remaining
  pure (first, body)

/-- `_store_publish`: what it sends, and the client afterwards. -/
def storePublish (client : MqttClient) (packet : UInt8) (body : Bytes) :
    Except Exn (Bytes × MqttClient) :=
  if packet >>> 4 ≠ 3 then pure ([], client)
  else do
    let topicLen := fromBytes2 (body.take 2)
    let topic ← decode ((body.drop 2).take topicLen)
    let offset := 2 + topicLen
    let qos := (packet >>> 1) &&& 0x03
    if qos ≠ 0 then
      let packetId := fromBytes2 ((body.drop offset).take 2)
      pure (pubackBytes packetId,
        { client with inbox := client.inbox ++ [(topic, body.drop (offset + 2), packetId)] })
    else
      pure ([], { client with inbox := client.inbox ++ [(topic, body.drop offset, 0)] })

/-- `read_packet` and `_store_publish`, as the waiting functions call them. -/
def readAndStore (client : MqttClient) : Sock MqttClient := do
  let (packet, body) ← readPacket
  match storePublish client packet body with
  | .error e => throw e
  | .ok (answer, client) =>
      Io.writeAll answer .connection
      pure client

/-! ## Texts -/

theorem encode_eq (value : String) : encode value = value.toList.flatMap String.utf8EncodeChar := by
  rw [encode, ← String.utf8Encode_toList, List.utf8Encode, List.data_toByteArray]

theorem decode_encode (value : String) : decode (encode value) = .ok value := by
  have hbytes : (⟨(encode value).toArray⟩ : ByteArray) = value.toByteArray := by
    rw [encode, Array.toArray_toList]
  rw [decode, hbytes, String.fromUTF8?, dif_pos value.isValidUTF8]
  rfl

theorem encodeRemainingLength_eq (n : ℕ) : encodeRemainingLength n = varint n := by
  rw [encodeRemainingLength]
  by_cases h : n < 128
  · rw [varint_of_lt h, Nat.mod_eq_of_lt h, if_neg (by omega)]
  · rw [varint_of_le (Nat.not_lt.mp h), if_pos (by omega), ofNat_or_80 (Nat.mod_lt _ (by norm_num)),
      encodeRemainingLength_eq (n / 128)]
termination_by n

theorem toBytes2_of_lt {n : ℕ} (h : n < 2 ^ 16) : toBytes2 n = .ok (be16 n) := if_pos h

theorem fromBytes2_be16 {n : ℕ} (h : n < 2 ^ 16) : fromBytes2 (be16 n) = n := word16_be16 h

theorem encodeUtf8_eq {topic : String} (h : (encode topic).length < 2 ^ 16) :
    encodeUtf8 topic = .ok (be16 (encode topic).length ++ encode topic) := by
  rw [encodeUtf8, toBytes2_of_lt h]
  rfl

/-- The pieces of `publish_pattern` are the payload. -/
theorem patternChunks_eq (seed : UInt32) (size : ℕ) (hsize : size ≤ 2 ^ 32) (offset : ℕ) :
    patternChunks seed.toNat size offset = patternFrom seed offset (size - offset) := by
  have hchunk : 0 < patternChunk := by norm_num [patternChunk]
  rw [patternChunks]
  by_cases h : offset < size
  · have hslice := payloadSlice_eq seed offset (min patternChunk (size - offset)) (by omega)
    rw [if_pos h, patternChunks_eq seed size hsize]
    simp only [hslice]
    by_cases hlast : size - offset ≤ patternChunk
    · rw [Nat.min_eq_right hlast, Nat.sub_eq_zero_of_le (by omega : size ≤ offset + patternChunk)]
      exact List.append_nil _
    · have hsum : patternChunk + (size - (offset + patternChunk)) = size - offset := by omega
      rw [Nat.min_eq_left (by omega), patternFrom_append, hsum]
  · rw [if_neg h, Nat.sub_eq_zero_of_le (Nat.not_lt.mp h)]
    rfl
termination_by size - offset
decreasing_by
  have : 0 < patternChunk := by norm_num [patternChunk]
  omega

/-! ## Sending -/

section Send

variable (p : Publish) {topic : String} {client : MqttClient}

theorem publishPacket_eq (htopic : p.topic = encode topic) (hid : client.packetId = p.id.toNat) :
    publishPacket client topic p.payload = .ok (p.encode, p.id.toNat, client.nextId.2) := by
  have hsize : (encode topic).length < 2 ^ 16 := htopic ▸ p.topic_lt
  have hlen : (be16 (encode topic).length ++ encode topic ++ be16 p.id.toNat ++ p.payload).length =
      p.remaining := by
    rw [← p.length_body, Publish.body, htopic]
  simp only [publishPacket, MqttClient.nextId, hid, encodeUtf8_eq hsize,
    toBytes2_of_lt p.id.toNat_lt, bind, Except.bind, pure, Except.pure, hlen,
    encodeRemainingLength_eq, Publish.encode_eq, Publish.body, htopic]
  simp

theorem publishPatternPacket_eq (htopic : p.topic = encode topic)
    (hid : client.packetId = p.id.toNat) {seed : UInt32} {size : ℕ}
    (hp : p.payload = pattern seed size) :
    publishPatternPacket client topic seed.toNat size =
      .ok (p.encode, p.id.toNat, client.nextId.2) := by
  have hsize : (encode topic).length < 2 ^ 16 := htopic ▸ p.topic_lt
  have hpayload : p.payload.length = size := by rw [hp, length_pattern]
  have hlen : (be16 (encode topic).length ++ encode topic ++ be16 p.id.toNat).length + size =
      p.remaining := by
    rw [← p.length_body, Publish.body, htopic, @List.length_append _ _ p.payload, hpayload]
  have hle := p.remaining_lt
  have hchunks := patternChunks_eq seed size (by omega) 0
  rw [Nat.sub_zero] at hchunks
  simp only [publishPatternPacket, MqttClient.nextId, hid, encodeUtf8_eq hsize,
    toBytes2_of_lt p.id.toNat_lt, bind, Except.bind, pure, Except.pure, hlen,
    encodeRemainingLength_eq, Publish.encode_eq_header, Publish.header, headerBytes,
    Publish.remaining,
    htopic, hchunks, hp, pattern, length_patternFrom]
  simp

theorem mqttPublishHeader_eq (htopic : p.topic = encode topic) :
    mqttPublishHeader topic p.id.toNat p.payload.length = .ok p.header := by
  have hsize : (encode topic).length < 2 ^ 16 := htopic ▸ p.topic_lt
  have hlen : (be16 (encode topic).length ++ encode topic ++ be16 p.id.toNat).length +
      p.payload.length = p.remaining := by
    rw [← p.length_body, Publish.body, htopic, @List.length_append _ _ p.payload]
  have hrange : p.remaining ≤ 268435455 := Nat.le_of_lt_succ p.remaining_lt
  simp only [mqttPublishHeader, toBytes2_of_lt hsize, toBytes2_of_lt p.id.toNat_lt, bind,
    Except.bind, pure, Except.pure, hlen, checkedRemainingLength, if_pos hrange,
    encodeRemainingLength_eq, Publish.header, headerBytes]
  simp [Publish.remaining, htopic]

end Send

/-! ## Receiving -/

/-- A header is read back for every fragmentation. -/
theorem consumes_readPacketHeader (first : UInt8) {n : ℕ} (h : n < 2 ^ 28) :
    readPacketHeader.proc.Consumes (first :: varint n) [] (.ret (.ok (first, n))) := by
  have hread := consumes_readRemaining (ω := UInt8) (ε := Empty) (n := n) (k := 3)
    (by norm_num at h ⊢; exact h) Exn.connection Exn.value 1 0
  rw [Nat.zero_add, Nat.mul_one] at hread
  rw [readPacketHeader, ← List.singleton_append]
  exact Io.consumes_bind (Io.consumes_readOne first _) (Io.consumes_bind_pure hread rfl)

/-- A packet is read back for every fragmentation. -/
theorem consumes_readPacket (first : UInt8) (body : Bytes) (h : body.length < 2 ^ 28) :
    readPacket.proc.Consumes (first :: (varint body.length ++ body)) []
      (.ret (.ok (first, body))) := by
  have hpacket := Io.consumes_bind (f := fun r : UInt8 × ℕ ↦ do
    let body ← readExact r.2
    pure (r.1, body)) (consumes_readPacketHeader first h)
      (Io.consumes_bind_pure (Io.consumes_readExact rfl _) rfl)
  exact hpacket

theorem storePublish_body (p : Publish) {topic : String} (htopic : p.topic = encode topic)
    (client : MqttClient) :
    storePublish client 0x32 p.body = .ok (pubackBytes p.id.toNat,
      { client with inbox := client.inbox ++ [(topic, p.payload, p.id.toNat)] }) := by
  have hbody : p.body = be16 p.topic.length ++ (p.topic ++ (be16 p.id.toNat ++ p.payload)) := by
    simp only [Publish.body, List.append_assoc]
  have hsize : fromBytes2 (p.body.take 2) = p.topic.length := by
    rw [hbody]; exact fromBytes2_be16 p.topic_lt
  have hdrop : p.body.drop 2 = p.topic ++ (be16 p.id.toNat ++ p.payload) := by rw [hbody]; rfl
  have hrest : p.body.drop (2 + p.topic.length) = be16 p.id.toNat ++ p.payload := by
    rw [← List.drop_drop, hdrop, List.drop_left]
  have hid : fromBytes2 ((p.body.drop (2 + p.topic.length)).take 2) = p.id.toNat := by
    rw [hrest]; exact fromBytes2_be16 p.id.toNat_lt
  have hpayload : p.body.drop (2 + p.topic.length + 2) = p.payload := by
    rw [← List.drop_drop, hrest]; rfl
  have hqos : ((0x32 : UInt8) >>> 1) &&& 0x03 ≠ 0 := by decide
  rw [storePublish, if_neg (by decide)]
  simp only [hsize, hdrop, List.take_left, htopic ▸ decode_encode topic, bind, Except.bind]
  rw [if_pos hqos, hid, hpayload]
  rfl

end PeripheralBench.Mqtt.Controller

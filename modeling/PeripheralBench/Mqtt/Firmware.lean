import PeripheralBench.Mqtt.Payload
import PeripheralBench.Mqtt.Wire

/-!
# The MQTT codec of the firmware

The packet functions of `firmware/src/mqtt_transfer.c`: the header of a QoS 1 PUBLISH, the two
publishers (from memory, and generated in chunks), the streaming reader that hashes and checks a
PUBLISH as it arrives, and the two sides of a PUBACK.  TLS is the pair of streams; allocations
succeed and no deadline expires.

`sha` is SHA-256.  The firmware feeds it chunk by chunk, which is the digest of the chunks joined.
-/

open PeripheralBench.Stream PeripheralBench.Text

namespace PeripheralBench.Mqtt.Firmware

/-- The error codes of the firmware. -/
inductive Errno where
  /-- `EIO`. -/
  | eio
  /-- `EINVAL`. -/
  | einval
  /-- `EMSGSIZE`. -/
  | emsgsize
  /-- What `wolfSSL_get_error` says about a closed connection, `WOLFSSL_ERROR_ZERO_RETURN`. -/
  | tls
deriving DecidableEq

/-- The value a failing function returns. -/
def Errno.code : Errno → ℤ
  | .eio => -5
  | .einval => -22
  | .emsgsize => -122
  | .tls => -6

/-- Firmware code that talks over TLS. -/
abbrev Tls : Type → Type := Io Errno Item UInt8 Event

/-- `MQTT_RX_CHUNK`. -/
def rxChunk : ℕ := 512

/-- `MQTT_TX_CHUNK`. -/
def txChunk : ℕ := 16 * 1024

/-- `encode_remaining`. -/
def encodeRemaining (value : UInt32) : Bytes := Mqtt.encodeRemaining 4 value

/-- `read_packet_header`: the type and the Remaining Length. -/
def readPacketHeader : Tls (UInt8 × ℕ) := do
  let type ← Io.readOne .eio
  let remaining ← readRemaining .eio .einval 4 1 0
  pure (type, remaining)

/-- `send_puback`. -/
def sendPuback (packetId : ℕ) : Tls Unit := Io.writeAll (plain (pubackBytes packetId)) .tls

/-- `wait_puback`. -/
def waitPuback (packetId : UInt16) : Tls Unit := do
  let (type, remaining) ← readPacketHeader.orFail .einval
  Io.emit (.packet type 0x40)
  Io.require (type = 0x40 ∧ remaining = 2) .einval
  let got ← readWord16 .einval
  Io.emit (.puback got packetId.toNat)
  Io.require (got = packetId.toNat) .einval

/-- The header that `publish_memory` and `publish_pattern` build. -/
def publishHeader (topic : Bytes) (packetId : UInt16) (payloadSize : ℕ) : Bytes :=
  let topic := cstr topic
  0x32 :: (encodeRemaining (UInt32.ofNat (2 + topic.length + 2 + payloadSize))
    ++ be16 topic.length ++ topic ++ be16 packetId.toNat)

/-- `publish_memory`.  The packet id is the value of `next_packet_id`, which the call increments. -/
def publishMemory (topic payload : Bytes) (packetId : UInt16) : Tls Unit := do
  Io.writeAll (plain (publishHeader topic packetId payload.length)) .eio
  Io.writeAll (plain payload) .eio

/-- The loop of `publish_pattern`: what has been hashed when all of the payload has been sent. -/
def sendPattern (operation : ℕ) (seed : UInt32) (payloadSize sent : ℕ) (hashed : Bytes) :
    Tls Bytes :=
  if sent < payloadSize then do
    let count := min txChunk (payloadSize - sent)
    let chunk := patternFrom seed sent count
    Io.writeAll (placed operation sent chunk) .tls
    sendPattern operation seed payloadSize (sent + count) (hashed ++ chunk)
  else pure hashed
termination_by payloadSize - sent
decreasing_by
  have : 0 < txChunk := by norm_num [txChunk]
  omega

/-- `publish_pattern` for the data payload of an operation: the digest in hexadecimal.  The packet
id is the value of `next_packet_id`, which the call increments. -/
def publishPattern (sha : Bytes → Digest) (operation : ℕ) (topic : Bytes) (seed : UInt32)
    (payloadSize : ℕ) (packetId : UInt16) : Tls Bytes := do
  Io.writeAll (plain (publishHeader topic packetId payloadSize)) .tls
  let hashed ← sendPattern operation seed payloadSize 0 []
  pure (hashToHex (sha hashed))

/-- What `read_publish` hands back. -/
structure Received where
  /-- The contents of `topic`. -/
  topic : Bytes
  /-- `*payload_size_out`. -/
  payloadSize : ℕ
  /-- `*packet_id_out`. -/
  packetId : ℕ
  /-- `*integrity_out`. -/
  integrity : Bool
  /-- `hash_hex`. -/
  hash : Bytes
  /-- The buffer `small_payload`. -/
  small : Bytes

/-- The loop of `read_publish`: the small buffer, whether the payload has been as expected so far,
and what has been hashed. -/
def readPayload (smallCapacity : ℕ) (expectedSize expectedSeed : UInt32)
    (payloadSize received : ℕ) (small : Bytes) (valid : Bool) (hashed : Bytes) :
    Tls (Bytes × Bool × Bytes) :=
  if received < payloadSize then do
    let count := min rxChunk (payloadSize - received)
    let chunk ← Io.readExact count .eio
    let small :=
      if received + count ≤ smallCapacity then memcpy small received chunk else small
    let valid :=
      if expectedSize ≠ 0 then valid && chunk = patternFrom expectedSeed received count else valid
    readPayload smallCapacity expectedSize expectedSeed payloadSize (received + count) small valid
      (hashed ++ chunk)
  else pure (small, valid, hashed)
termination_by payloadSize - received
decreasing_by
  have : 0 < rxChunk := by norm_num [rxChunk]
  omega

/-- The packet id of a PUBLISH, which only QoS 1 and 2 have. -/
def readPacketId (qos : UInt8) : Tls ℕ := if qos ≠ 0 then readWord16 .eio else pure 0

/-- `read_publish`.  A `NULL` buffer is one of capacity 0.  `expect` is the topic that is due; it is
only recorded. -/
def readPublish (sha : Bytes → Digest) (expect : Bytes) (topicCapacity : ℕ) (small : Bytes)
    (smallCapacity : ℕ) (expectedSize expectedSeed : UInt32) : Tls Received := do
  let (type, remaining) ← readPacketHeader.orFail .einval
  Io.emit (.packet type 0x32)
  Io.require (type >>> 4 = 3) .einval
  let topicSize ← readWord16 .einval
  Io.require (topicSize + 1 ≤ topicCapacity) .emsgsize
  let topic ← Io.readExact topicSize .emsgsize
  Io.emit (.topic topic expect)
  let qos := (type >>> 1) &&& 3
  let packetId ← readPacketId qos
  let consumed := 2 + topicSize + if qos ≠ 0 then 2 else 0
  Io.require (consumed ≤ remaining) .einval
  let payloadSize := remaining - consumed
  let (small, valid, hashed) ←
    readPayload smallCapacity expectedSize expectedSeed payloadSize 0 small true []
  pure {
    topic := topic
    payloadSize := payloadSize
    packetId := packetId
    integrity := valid && (expectedSize = 0 || payloadSize = expectedSize.toNat)
    hash := hashToHex (sha hashed)
    small := small }

/-! ## Writing -/

theorem publishHeader_eq (p : Publish) (h : 0 ∉ p.topic) :
    publishHeader p.topic p.id p.payload.length = p.header := by
  have hlt := p.remaining_lt
  simp only [publishHeader, cstr_of_notMem h, encodeRemaining]
  rw [encodeRemaining_eq (by norm_num at hlt ⊢; omega) (by omega)]
  rfl

theorem produces_publishMemory (p : Publish) (h : 0 ∉ p.topic) :
    (publishMemory p.topic p.payload p.id).proc.Produces (plain p.encode) []
      (.ret (.ok ())) := by
  rw [publishMemory, publishHeader_eq p h, Publish.encode_eq_header, plain_append]
  exact Io.produces_bind (Io.produces_writeAll _ _) (Io.produces_writeAll _ _)

/-- The chunks of the loop are the payload. -/
theorem produces_sendPattern (operation : ℕ) (seed : UInt32) (payloadSize sent : ℕ)
    (hashed : Bytes) :
    (sendPattern operation seed payloadSize sent hashed).proc.Produces
      (placed operation sent (patternFrom seed sent (payloadSize - sent))) []
      (.ret (.ok (hashed ++ patternFrom seed sent (payloadSize - sent)))) := by
  rw [sendPattern]
  by_cases h : sent < payloadSize
  · have hpos : 0 < txChunk := by norm_num [txChunk]
    set count := min txChunk (payloadSize - sent) with hcount
    have hsplit : payloadSize - sent = count + (payloadSize - (sent + count)) := by omega
    have ih := produces_sendPattern operation seed payloadSize (sent + count)
      (hashed ++ patternFrom seed sent count)
    rw [if_pos h, hsplit, ← patternFrom_append, placed_append, length_patternFrom]
    rw [List.append_assoc] at ih
    exact Io.produces_bind (Io.produces_writeAll _ _) ih
  · rw [if_neg h, Nat.sub_eq_zero_of_le (Nat.not_lt.mp h)]
    simpa [patternFrom, placed] using .refl _
termination_by payloadSize - sent
decreasing_by
  have : 0 < txChunk := by norm_num [txChunk]
  omega

theorem produces_publishPattern (sha : Bytes → Digest) (operation : ℕ) (p : Publish)
    (h : 0 ∉ p.topic) {seed : UInt32} {size : ℕ} (hp : p.payload = pattern seed size) :
    (publishPattern sha operation p.topic seed size p.id).proc.Produces
      (plain p.header ++ placed operation 0 p.payload) []
      (.ret (.ok (hashToHex (sha p.payload)))) := by
  have hsize : size = p.payload.length := by rw [hp, length_pattern]
  have hheader := publishHeader_eq p h
  rw [← hsize] at hheader
  have hpattern := produces_sendPattern operation seed size 0 []
  rw [Nat.sub_zero, List.nil_append] at hpattern
  rw [publishPattern, hheader, hp]
  exact Io.produces_bind (Io.produces_writeAll _ _) (Io.produces_bind_pure hpattern rfl)

theorem produces_sendPuback (packetId : ℕ) :
    (sendPuback packetId).proc.Produces (plain (pubackBytes packetId)) [] (.ret (.ok ())) :=
  Io.produces_writeAll _ _

/-! ## Reading -/

/-- A header is read back for every fragmentation. -/
theorem consumes_readPacketHeader (type : UInt8) {n : ℕ} (h : n < 2 ^ 28) :
    readPacketHeader.proc.Consumes (type :: varint n) [] (.ret (.ok (type, n))) := by
  have hread := consumes_readRemaining (ω := Item) (ε := Event) (n := n) (k := 3)
    (by norm_num at h ⊢; exact h) Errno.eio Errno.einval 1 0
  rw [Nat.zero_add, Nat.mul_one] at hread
  rw [readPacketHeader, ← List.singleton_append]
  exact Io.consumes_bind (Io.consumes_readOne type _) (Io.consumes_bind_pure hread rfl)

/-- The PUBACK that is waited for is accepted. -/
theorem consumes_waitPuback (packetId : UInt16) :
    (waitPuback packetId).proc.Consumes (pubackBytes packetId.toNat)
      [.packet 0x40 0x40, .puback packetId.toNat packetId.toNat] (.ret (.ok ())) := by
  have hheader := Io.consumes_orFail (consumes_readPacketHeader 0x40 (n := 2) (by norm_num)) .einval
  rw [varint_of_lt (by norm_num)] at hheader
  refine Io.consumes_bind hheader ?_
  rw [Io.proc_emit_bind, Io.proc_require_bind ⟨rfl, rfl⟩]
  refine .emit ?_
  rw [← List.append_nil (be16 _)]
  refine Io.consumes_bind (consumes_readWord16 packetId.toNat_lt _) ?_
  rw [Io.proc_emit_bind, Io.require_pos rfl]
  exact .emit (.refl _)

/-- The reader stops as soon as the stream ends. -/
theorem drain_waitPuback (packetId : UInt16) :
    (waitPuback packetId).proc.drain = ([], .error .einval) := by
  refine Io.drain_bind_error (Io.drain_orFail_error (e := .eio) ?_ _)
  exact Io.drain_bind_error (Io.drain_readOne _)

/-- What the reading loop has found out when the payload has arrived: whether it is the expected
one, its bytes, and a copy of it if it fits. -/
theorem consumes_readPayload (smallCapacity : ℕ) (expectedSize expectedSeed : UInt32)
    (received : ℕ) (small : Bytes) (valid : Bool) (hashed payload : Bytes)
    (hsmall : smallCapacity ≤ small.length) :
    ∃ small', (received + payload.length ≤ smallCapacity → small' = memcpy small received payload) ∧
      (readPayload smallCapacity expectedSize expectedSeed (received + payload.length) received
          small valid hashed).proc.Consumes payload []
        (.ret (.ok (small', valid && (expectedSize = 0 ||
          payload = patternFrom expectedSeed received payload.length), hashed ++ payload))) := by
  induction hn : payload.length using Nat.strong_induction_on
    generalizing received small valid hashed payload with
  | _ n ih =>
      subst hn
      rw [readPayload]
      by_cases hnil : payload = []
      · subst hnil
        refine ⟨small, fun _ ↦ (memcpy_nil small received).symm, ?_⟩
        rw [if_neg (by simp)]
        simpa [patternFrom] using .refl _
      have hpos : 0 < payload.length := List.length_pos_of_ne_nil hnil
      have hchunk : 0 < rxChunk := by norm_num [rxChunk]
      -- One round reads `a` and leaves `b` to the rounds after it.
      obtain ⟨a, b, rfl, ha⟩ : ∃ a b, payload = a ++ b ∧ a.length = min rxChunk payload.length :=
        ⟨payload.take _, payload.drop _, (List.take_append_drop _ _).symm,
          List.length_take_of_le (Nat.min_le_right _ _)⟩
      rw [List.length_append] at hpos ha
      set small₁ := if received + a.length ≤ smallCapacity then memcpy small received a else small
        with hsmall₁
      have hlen₁ : smallCapacity ≤ small₁.length := by
        rw [hsmall₁]
        split
        · rwa [length_memcpy (by omega)]
        · exact hsmall
      obtain ⟨small', hcopy, hread⟩ := ih b.length (by rw [List.length_append]; omega)
        (received + a.length) small₁ (if expectedSize ≠ 0 then
          valid && decide (a = patternFrom expectedSeed received a.length) else valid)
        (hashed ++ a) b hlen₁ rfl
      refine ⟨small', fun hfits ↦ ?_, ?_⟩
      · rw [List.length_append] at hfits
        rw [hcopy (by omega), hsmall₁, if_pos (by omega), memcpy_memcpy (by omega)]
      · have hvalid : (valid && (decide (expectedSize = 0) || decide (a ++ b =
            patternFrom expectedSeed received (a ++ b).length))) =
              ((if expectedSize ≠ 0 then
                  valid && decide (a = patternFrom expectedSeed received a.length) else valid) &&
                (decide (expectedSize = 0) ||
                  decide (b = patternFrom expectedSeed (received + a.length) b.length))) := by
          simp only [append_eq_patternFrom_iff]
          by_cases h0 : expectedSize = 0 <;> simp [h0, Bool.and_assoc]
        rw [hvalid, ← List.append_assoc, if_pos (by rw [List.length_append]; omega)]
        rw [Nat.add_assoc, ← List.length_append] at hread
        refine Io.consumes_bind (Io.consumes_readExact ?_ Errno.eio) ?_
        · rw [List.length_append, ha]; omega
        · have hcount : min rxChunk (received + (a ++ b).length - received) = a.length := by
            rw [List.length_append, ha]; omega
          rw [hcount]
          exact hread

/-- A PUBLISH is read back for every fragmentation: its topic, its packet id, its payload as far as
the caller asked for it, and whether the payload is the expected one. -/
theorem consumes_readPublish (sha : Bytes → Digest) (p : Publish) (expect : Bytes)
    {topicCapacity : ℕ} {small : Bytes} {smallCapacity : ℕ} (expectedSize expectedSeed : UInt32)
    (htopic : p.topic.length < topicCapacity) (hsmall : smallCapacity ≤ small.length) :
    ∃ small', (p.payload.length ≤ smallCapacity → small' = memcpy small 0 p.payload) ∧
      (readPublish sha expect topicCapacity small smallCapacity expectedSize
          expectedSeed).proc.Consumes p.encode [.packet 0x32 0x32, .topic p.topic expect]
        (.ret (.ok {
          topic := p.topic
          payloadSize := p.payload.length
          packetId := p.id.toNat
          integrity := expectedSize = 0 ||
            p.payload = pattern expectedSeed expectedSize.toNat
          hash := hashToHex (sha p.payload)
          small := small' })) := by
  obtain ⟨small', hcopy, hread⟩ := consumes_readPayload smallCapacity expectedSize expectedSeed 0
    small true [] p.payload hsmall
  rw [Nat.zero_add] at hcopy hread
  refine ⟨small', hcopy, ?_⟩
  have hheader := Io.consumes_orFail
    (consumes_readPacketHeader 0x32 (n := p.remaining) p.remaining_lt) .einval
  have hconsumed : 2 + p.topic.length + 2 ≤ p.remaining := by
    rw [Publish.remaining]; omega
  have hsize : p.remaining - (2 + p.topic.length + 2) = p.payload.length := by
    rw [Publish.remaining]; omega
  have hintegrity : ((expectedSize = 0 || p.payload =
        patternFrom expectedSeed 0 p.payload.length) &&
      (expectedSize = 0 || p.payload.length = expectedSize.toNat)) =
        (decide (expectedSize = 0) ||
          decide (p.payload = pattern expectedSeed expectedSize.toNat)) := by
    by_cases h0 : expectedSize = 0
    · simp [h0]
    simp only [h0, decide_false, Bool.false_or, ← Bool.decide_and, decide_eq_decide]
    constructor
    · rintro ⟨hpattern, hlen⟩
      rwa [hlen] at hpattern
    · intro hpattern
      have hlen : p.payload.length = expectedSize.toNat := by rw [hpattern, length_pattern]
      exact ⟨by rw [hlen]; exact hpattern, hlen⟩
  rw [Publish.encode_eq, ← List.cons_append, readPublish, Publish.body]
  refine Io.consumes_bind hheader ?_
  rw [Io.proc_emit_bind, List.append_assoc, List.append_assoc]
  refine .emit ?_
  rw [Io.proc_require_bind (by decide)]
  refine Io.consumes_bind (consumes_readWord16 p.topic_lt _) ?_
  rw [Io.proc_require_bind (Nat.succ_le_of_lt htopic)]
  refine Io.consumes_bind (Io.consumes_readExact rfl _) ?_
  rw [Io.proc_emit_bind]
  refine .emit ?_
  refine Io.consumes_bind (consumes_readWord16 p.id.toNat_lt _) ?_
  have hqos : (if ((0x32 : UInt8) >>> 1) &&& 3 ≠ 0 then 2 else 0) = 2 := by decide
  rw [hqos, Io.proc_require_bind hconsumed, hsize]
  refine Io.consumes_bind_pure hread ?_
  rw [← hintegrity]
  rfl

end PeripheralBench.Mqtt.Firmware

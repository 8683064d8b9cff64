import PeripheralBench.Mqtt.Payload
import PeripheralBench.Mqtt.Wire

/-!
# The MQTT codec of the TLS server

The packet functions of `gateway/wolfssl_tls_server.c`.  The server reads a packet whole
(`readPacket`) and takes it apart in memory (`parsePublish`); a `publish` is not over until its
PUBACK has come.  Every failure is `-1`; allocations succeed.
-/

open PeripheralBench.Stream PeripheralBench.Text

namespace PeripheralBench.Mqtt.Server

/-- Server code that talks over TLS. -/
abbrev Tls : Type → Type := Io Unit Item UInt8 Event

/-- `encode_remaining`. -/
def encodeRemaining (value : UInt32) : Bytes := Mqtt.encodeRemaining 4 value

/-- `read_packet`: the type and the body. -/
def readPacket : Tls (UInt8 × Bytes) := do
  let type ← Io.readOne ()
  let bodySize ← readRemaining () () 4 1 0
  let body ← Io.readExact bodySize ()
  pure (type, body)

/-- `send_puback`. -/
def sendPuback (packetId : ℕ) : Tls Unit := Io.writeAll (plain (pubackBytes packetId)) ()

/-- `wait_puback`. -/
def waitPuback (packetId : UInt32) : Tls Unit := do
  let (type, body) ← readPacket
  Io.emit (.packet type 0x40)
  Io.require (type = 0x40 ∧ body.length = 2) ()
  let got := word16 (body.getD 0 0) (body.getD 1 0)
  Io.emit (.puback got packetId.toNat)
  Io.require (got = packetId.toNat) ()

/-- The header that `publish` builds. -/
def publishHeader (topic : Bytes) (packetId : UInt32) (payloadSize : ℕ) : Bytes :=
  let topic := cstr topic
  0x32 :: (encodeRemaining (UInt32.ofNat (2 + topic.length + 2 + payloadSize))
    ++ be16 topic.length ++ topic ++ be16 packetId.toNat)

/-- `publish`, of the data payload of an operation or of something else: the next value of
`*packet_id_state`. -/
def publish (operation : Option ℕ) (topic payload : Bytes) (packetIdState : UInt32) :
    Tls UInt32 := do
  let packetId := packetIdState
  Io.writeAll (plain (publishHeader topic packetId payload.length)) ()
  Io.writeAll (items operation 0 payload) ()
  waitPuback packetId
  pure (packetIdState + 1)

/-- `parse_publish`: the topic, the payload and the packet id. -/
def parsePublish (type : UInt8) (body : Bytes) (topicCapacity : ℕ) : Option (Bytes × Bytes × ℕ) :=
  if type >>> 4 ≠ 3 ∨ body.length < 2 then none
  else
    let topicSize := word16 (body.getD 0 0) (body.getD 1 0)
    let offset := 2 + topicSize
    if topicCapacity < topicSize + 1 ∨ body.length < offset then none
    else
      let topic := (body.drop 2).take topicSize
      if (type >>> 1) &&& 3 ≠ 0 then
        if body.length < offset + 2 then none
        else
          some (topic, body.drop (offset + 2),
            word16 (body.getD offset 0) (body.getD (offset + 1) 0))
      else some (topic, body.drop offset, 0)

/-- `read_packet` and `parse_publish`, which the server always calls together.  `expect` is the
topic that is due; it is only recorded. -/
def readPublish (expect : Bytes) (topicCapacity : ℕ) : Tls (Bytes × Bytes × ℕ) := do
  let (type, body) ← readPacket
  Io.emit (.packet type 0x32)
  match parsePublish type body topicCapacity with
  | none => throw ()
  | some (topic, payload, packetId) =>
      Io.emit (.topic topic expect)
      pure (topic, payload, packetId)

/-! ## Writing -/

theorem publishHeader_eq (p : Publish) (h : 0 ∉ p.topic) {packetId : UInt32}
    (hid : packetId.toNat = p.id.toNat) :
    publishHeader p.topic packetId p.payload.length = p.header := by
  have hlt := p.remaining_lt
  simp only [publishHeader, cstr_of_notMem h, encodeRemaining, hid]
  rw [encodeRemaining_eq (by norm_num at hlt ⊢; omega) (by omega)]
  rfl

/-- `publish` writes the packet and then waits for its PUBACK. -/
theorem produces_publish (operation : Option ℕ) (p : Publish) (h : 0 ∉ p.topic)
    {packetId : UInt32} (hid : packetId.toNat = p.id.toNat) :
    (publish operation p.topic p.payload packetId).proc.Produces
      (plain p.header ++ items operation 0 p.payload) []
      (waitPuback packetId >>= fun _ ↦ (pure (packetId + 1) : Tls UInt32)).proc := by
  rw [publish, publishHeader_eq p h hid]
  exact Io.produces_bind (Io.produces_writeAll _ _)
    (Io.produces_bind_cont (Io.produces_writeAll _ _))

theorem produces_sendPuback (packetId : ℕ) :
    (sendPuback packetId).proc.Produces (plain (pubackBytes packetId)) [] (.ret (.ok ())) :=
  Io.produces_writeAll _ _

/-! ## Reading -/

/-- A packet is read back for every fragmentation. -/
theorem consumes_readPacket (type : UInt8) (body : Bytes) (h : body.length < 2 ^ 28) :
    readPacket.proc.Consumes (type :: (varint body.length ++ body)) []
      (.ret (.ok (type, body))) := by
  have hread := consumes_readRemaining (ω := Item) (ε := Event) (n := body.length) (k := 3)
    (by norm_num at h ⊢; exact h) () () 1 0
  rw [Nat.zero_add, Nat.mul_one] at hread
  rw [readPacket, ← List.singleton_append]
  refine Io.consumes_bind (Io.consumes_readOne type _) ?_
  exact Io.consumes_bind hread (Io.consumes_bind_pure (Io.consumes_readExact rfl _) rfl)

/-- The PUBACK that is waited for is accepted. -/
theorem consumes_waitPuback (packetId : UInt32) (h : packetId.toNat < 2 ^ 16) :
    (waitPuback packetId).proc.Consumes (pubackBytes packetId.toNat)
      [.packet 0x40 0x40, .puback packetId.toNat packetId.toNat] (.ret (.ok ())) := by
  have hpacket := consumes_readPacket 0x40 (be16 packetId.toNat) (by simp [be16])
  have hgot : word16 ((be16 packetId.toNat).getD 0 0) ((be16 packetId.toNat).getD 1 0) =
      packetId.toNat := word16_be16 h
  rw [show (be16 packetId.toNat).length = 2 from rfl, varint_of_lt (by norm_num)] at hpacket
  rw [waitPuback, show pubackBytes packetId.toNat = [0x40, 0x02] ++ be16 packetId.toNat ++ [] by
    simp [pubackBytes]]
  refine Io.consumes_bind hpacket ?_
  rw [Io.proc_emit_bind, Io.proc_require_bind ⟨rfl, rfl⟩, hgot, Io.proc_emit_bind,
    Io.require_pos rfl]
  exact .emit (.emit (.refl _))

theorem parsePublish_body (p : Publish) {topicCapacity : ℕ} (h : p.topic.length < topicCapacity) :
    parsePublish 0x32 p.body topicCapacity = some (p.topic, p.payload, p.id.toNat) := by
  have hlen := p.length_body
  rw [Publish.remaining] at hlen
  have hbody : p.body = be16 p.topic.length ++ (p.topic ++ (be16 p.id.toNat ++ p.payload)) := by
    simp only [Publish.body, List.append_assoc]
  have hsize : word16 (p.body.getD 0 0) (p.body.getD 1 0) = p.topic.length := by
    rw [hbody]; exact word16_be16 p.topic_lt
  have hdrop : p.body.drop 2 = p.topic ++ (be16 p.id.toNat ++ p.payload) := by rw [hbody]; rfl
  have hrest : p.body.drop (2 + p.topic.length) = be16 p.id.toNat ++ p.payload := by
    rw [← List.drop_drop, hdrop, List.drop_left]
  have hget : ∀ k, p.body.getD (2 + p.topic.length + k) 0 =
      (be16 p.id.toNat ++ p.payload).getD k 0 := by
    intro k
    rw [← hrest, List.getD_eq_getElem?_getD, List.getD_eq_getElem?_getD, List.getElem?_drop]
  have hid : word16 (p.body.getD (2 + p.topic.length) 0) (p.body.getD (2 + p.topic.length + 1) 0) =
      p.id.toNat := by
    rw [hget 1, ← Nat.add_zero (2 + p.topic.length), hget 0]
    exact word16_be16 p.id.toNat_lt
  have hpayload : p.body.drop (2 + p.topic.length + 2) = p.payload := by
    rw [← List.drop_drop, hrest]; rfl
  have hqos : ((0x32 : UInt8) >>> 1) &&& 3 ≠ 0 := by decide
  rw [parsePublish, if_neg (by rw [not_or]; exact ⟨by decide, by omega⟩)]
  simp only [hsize]
  rw [if_neg (by omega), if_pos hqos, if_neg (by omega), hid, hpayload, hdrop, List.take_left]

/-- A PUBLISH is read back for every fragmentation. -/
theorem consumes_readPublish (p : Publish) (expect : Bytes) {topicCapacity : ℕ}
    (h : p.topic.length < topicCapacity) :
    (readPublish expect topicCapacity).proc.Consumes p.encode
      [.packet 0x32 0x32, .topic p.topic expect]
      (.ret (.ok (p.topic, p.payload, p.id.toNat))) := by
  have hpacket := consumes_readPacket 0x32 p.body (by rw [p.length_body]; exact p.remaining_lt)
  rw [p.length_body, ← Publish.encode_eq] at hpacket
  rw [readPublish, ← List.append_nil p.encode]
  refine Io.consumes_bind hpacket ?_
  rw [Io.proc_emit_bind, parsePublish_body p h]
  exact .emit (.emit (.refl _))

end PeripheralBench.Mqtt.Server

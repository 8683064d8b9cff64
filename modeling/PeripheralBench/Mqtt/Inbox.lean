import PeripheralBench.Mqtt.Format

/-!
# The inbox of the transfer controller

What the calls of `MqttClient` do with the packets of the broker.  `subscribe`, `publish` and
`publish_pattern` wait for an acknowledgement, `wait_publish` waits for a message; all four put the
messages that they meet on the way into the inbox, and `wait_publish` looks there first.
`wait_pattern_publish` streams the next packet straight from the socket.

A broker sends `Packet`s: acknowledgements and the application messages of QoS 0 and 1.  A `Turn` is
what one call makes of the packets that are on their way.  The client reads a packet whole whichever
way the bytes are cut (`decodes_readAndStore`, `decodes_readPatternPublish`), so packets are what
the calls are defined on.
-/

open PeripheralBench.Stream PeripheralBench.Text

namespace PeripheralBench.Mqtt.Controller

/-! ## What a broker sends -/

/-- An application message: of QoS 1 if it has a packet id, else of QoS 0. -/
structure Message where
  /-- The DUP flag. -/
  dup : Bool
  /-- The RETAIN flag. -/
  retain : Bool
  /-- The topic. -/
  topic : String
  /-- The packet identifier. -/
  packetId : Option UInt16
  /-- The application message itself. -/
  payload : Bytes
  packetId_ne : packetId ≠ some 0
  topic_lt : (encode topic).length < 2 ^ 16
  remaining_lt : 2 + (encode topic).length + 2 + payload.length < 2 ^ 28

namespace Message

variable (m : Message)

/-- The first byte of its PUBLISH. -/
def first : UInt8 :=
  0x30 ||| (if m.dup then 0x08 else 0) ||| (if m.packetId.isSome then 0x02 else 0)
    ||| (if m.retain then 0x01 else 0)

/-- The bytes of the packet identifier. -/
def idBytes : Bytes :=
  match m.packetId with
  | some id => be16 id.toNat
  | none => []

/-- What is behind the Remaining Length of its PUBLISH. -/
def body : Bytes := be16 (encode m.topic).length ++ (encode m.topic ++ (m.idBytes ++ m.payload))

/-- The packet identifier as the client counts it, 0 if there is none. -/
def idNumber : ℕ :=
  match m.packetId with
  | some id => id.toNat
  | none => 0

/-- The acknowledgement that it asks for. -/
def ack : Bytes :=
  match m.packetId with
  | some id => pubackBytes id.toNat
  | none => []

/-- The entry of the inbox. -/
def item : String × Bytes × ℕ := (m.topic, m.payload, m.idNumber)

end Message

/-- A packet of the broker. -/
inductive Packet where
  /-- PUBACK. -/
  | puback (id : UInt16)
  /-- SUBACK, with one return code for each topic. -/
  | suback (id : UInt16) (codes : Bytes)
  /-- PUBLISH. -/
  | publish (message : Message)

namespace Packet

/-- The first byte. -/
def first : Packet → UInt8
  | .puback _ => 0x40
  | .suback .. => 0x90
  | .publish m => m.first

/-- What is behind the Remaining Length. -/
def body : Packet → Bytes
  | .puback id => be16 id.toNat
  | .suback id codes => be16 id.toNat ++ codes
  | .publish m => m.body

/-- The message that the packet brings. -/
def message? : Packet → Option Message
  | .publish m => some m
  | _ => none

end Packet

/-- The bytes on the socket. -/
def Packet.bytes (packet : Packet) : Bytes :=
  packet.first :: (varint packet.body.length ++ packet.body)

/-- The messages among some packets. -/
def messages (packets : List Packet) : List Message := packets.filterMap Packet.message?

/-- What the inbox holds of some packets. -/
def items (packets : List Packet) : List (String × Bytes × ℕ) := (messages packets).map Message.item

/-- The acknowledgements that some packets ask for. -/
def acks (packets : List Packet) : Bytes := (messages packets).flatMap Message.ack

/-! ## The calls -/

/-- What a call hands back. -/
inductive Result where
  /-- Nothing. -/
  | done
  /-- The payload of a message. -/
  | payload (bs : Bytes)
  /-- The digest of a payload, and whether it is the expected one. -/
  | verdict (hash : Bytes) (valid : Bool)
deriving DecidableEq

/-- How a call ends. -/
inductive Outcome where
  /-- It has returned. -/
  | returned (result : Result)
  /-- It waits for a packet; in the end the socket times out. -/
  | waiting
  /-- It has raised an exception. -/
  | raised (e : Exn)
deriving DecidableEq

/-- What a call has done. -/
structure Turn where
  /-- How it ends. -/
  outcome : Outcome
  /-- The client afterwards. -/
  client : MqttClient
  /-- The packets that it has read. -/
  read : List Packet
  /-- The packets that it has left. -/
  unread : List Packet
  /-- The acknowledgements that it has sent. -/
  answers : Bytes

namespace Turn

/-- A turn that begins by reading a packet. -/
def after (packet : Packet) (answer : Bytes) (turn : Turn) : Turn :=
  { turn with read := packet :: turn.read, answers := answer ++ turn.answers }

end Turn

/-- The loop of `subscribe` and `_wait_puback`: read until a packet is accepted, and store the
messages before it. -/
def storeUntil (accept : UInt8 → Bytes → Bool) (client : MqttClient) : List Packet → Turn
  | [] => ⟨.waiting, client, [], [], []⟩
  | packet :: unread =>
      if accept packet.first packet.body then ⟨.returned .done, client, [packet], unread, []⟩
      else
        match storePublish client packet.first packet.body with
        | .error e => ⟨.raised e, client, [packet], unread, []⟩
        | .ok (answer, client) => (storeUntil accept client unread).after packet answer

/-- `_wait_puback`. -/
def waitPuback (packetId : ℕ) : MqttClient → List Packet → Turn :=
  storeUntil fun packet body ↦ packet = 0x40 ∧ body = be16 packetId

/-- The body of the SUBSCRIBE that `subscribe` sends. -/
def subscribeBody (packetId : ℕ) (topics : List String) : Except Exn Bytes := do
  let id ← toBytes2 packetId
  let topics ← topics.mapM fun topic ↦ do
    let topic ← encodeUtf8 topic
    pure (topic ++ [0x01])
  pure (id ++ topics.flatten)

/-- `subscribe`. -/
def subscribe (topics : List String) (client : MqttClient) (unread : List Packet) : Turn :=
  let (packetId, client) := client.nextId
  match subscribeBody packetId topics with
  | .error e => ⟨.raised e, client, [], unread, []⟩
  | .ok _ =>
      storeUntil (fun packet body ↦ packet = 0x90 ∧ body.take 2 = be16 packetId) client unread

/-- What `publish` and `publish_pattern` do once they know what to send: send it, and wait for its
PUBACK. -/
def sendAndWait (sent : Except Exn (Bytes × ℕ × MqttClient)) (client : MqttClient)
    (unread : List Packet) : Turn :=
  match sent with
  | .error e => ⟨.raised e, client.nextId.2, [], unread, []⟩
  | .ok (_, packetId, client) => waitPuback packetId client unread

/-- `publish`. -/
def publish (topic : String) (payload : Bytes) (client : MqttClient) : List Packet → Turn :=
  sendAndWait (publishPacket client topic payload) client

/-- `publish_pattern`. -/
def publishPattern (topic : String) (seed size : ℕ) (client : MqttClient) : List Packet → Turn :=
  sendAndWait (publishPatternPacket client topic seed size) client

/-- The entries of the inbox that `wait_publish` is content with. -/
def isOn (topic : String) (item : String × Bytes × ℕ) : Bool := item.1 = topic

/-- `wait_publish`. -/
def waitPublish (topic : String) (client : MqttClient) (unread : List Packet) : Turn :=
  match client.inbox.find? (isOn topic), unread with
  | some item, unread =>
      ⟨.returned (.payload item.2.1), { client with inbox := client.inbox.eraseP (isOn topic) }, [],
        unread, []⟩
  | none, [] => ⟨.waiting, client, [], [], []⟩
  | none, packet :: unread =>
      match storePublish client packet.first packet.body with
      | .error e => ⟨.raised e, client, [packet], unread, []⟩
      | .ok (answer, client) => (waitPublish topic client unread).after packet answer

/-- The bytes that `wait_pattern_publish` reads at a time. -/
def readChunk : ℕ := 1024

/-- The loop of `wait_pattern_publish` from `offset` on: what it feeds to SHA-256, and whether every
piece is the expected one. -/
def readPattern (seed payloadSize offset : ℕ) (valid : Bool) (hashed : Bytes) :
    Sock (Bytes × Bool) :=
  if offset < payloadSize then do
    let count := min readChunk (payloadSize - offset)
    let chunk ← readExact count
    readPattern seed payloadSize (offset + count)
      (valid && chunk = payloadSlice seed offset chunk.length) (hashed ++ chunk)
  else pure (hashed, valid)
termination_by payloadSize - offset
decreasing_by
  have : 0 < readChunk := by norm_num [readChunk]
  omega

/-- A text that has been read. -/
def readText (size : ℕ) : Sock String := do
  let data ← readExact size
  match decode data with
  | .error e => throw e
  | .ok text => pure text

/-- A number of two bytes that has been read. -/
def readNumber : Sock ℕ := do
  let data ← readExact 2
  pure (fromBytes2 data)

/-- The packet identifier of a PUBLISH, which only QoS 1 and 2 have. -/
def readPacketId (qos : UInt8) : Sock ℕ := if qos ≠ 0 then readNumber else pure 0

/-- `wait_pattern_publish`, on the socket. -/
def readPatternPublish (sha : Bytes → Digest) (topic : String) (seed size : ℕ) :
    Sock (Bytes × Bool) := do
  let (packet, remaining) ← readPacketHeader
  Io.require (packet >>> 4 = 3) .runtime
  let topicSize ← readNumber
  let actualTopic ← readText topicSize
  let qos := (packet >>> 1) &&& 0x03
  let packetId ← readPacketId qos
  let payloadSize : ℤ := remaining - 2 - topicSize - if qos ≠ 0 then 2 else 0
  let (hashed, valid) ←
    readPattern seed payloadSize.toNat 0 (actualTopic = topic && payloadSize = size) []
  Io.writeAll (if packetId ≠ 0 then pubackBytes packetId else []) .connection
  pure (hashToHex (sha hashed), valid)

/-- What `wait_pattern_publish` says about a message on `actualTopic`. -/
def patternVerdict (sha : Bytes → Digest) (topic : String) (seed size : ℕ) (actualTopic : String)
    (payload : Bytes) : Result :=
  .verdict (hashToHex (sha payload)) (actualTopic = topic && payload.length = size &&
    payload = payloadSlice seed 0 payload.length)

/-- `wait_pattern_publish`, on packets. -/
def waitPatternPublish (sha : Bytes → Digest) (topic : String) (seed size : ℕ)
    (client : MqttClient) : List Packet → Turn
  | [] => ⟨.waiting, client, [], [], []⟩
  | .publish m :: unread =>
      ⟨.returned (patternVerdict sha topic seed size m.topic m.payload), client,
        [.publish m], unread,
        m.ack⟩
  | packet :: unread => ⟨.raised .runtime, client, [packet], unread, []⟩

/-! ## Messages on the socket -/

namespace Message

variable (m : Message)

theorem first_shift : m.first >>> 4 = 3 := by
  rw [first]
  cases m.dup <;> cases m.packetId.isSome <;> cases m.retain <;> rfl

theorem first_qos : (m.first >>> 1) &&& 0x03 = if m.packetId.isSome then 1 else 0 := by
  rw [first]
  cases m.dup <;> cases m.packetId.isSome <;> cases m.retain <;> rfl

theorem qos_ne_zero : (m.first >>> 1) &&& 0x03 ≠ 0 ↔ m.packetId.isSome = true := by
  rw [first_qos]
  cases m.packetId.isSome
  · exact iff_of_false (not_not.mpr rfl) Bool.false_ne_true
  · exact iff_of_true (by decide) rfl

theorem size_body : fromBytes2 (m.body.take 2) = (encode m.topic).length :=
  fromBytes2_be16 m.topic_lt

theorem drop_body : m.body.drop 2 = encode m.topic ++ (m.idBytes ++ m.payload) := rfl

theorem drop_topic : m.body.drop (2 + (encode m.topic).length) = m.idBytes ++ m.payload := by
  rw [← List.drop_drop, drop_body, List.drop_left]

end Message

@[simp] theorem messages_nil : messages [] = [] := rfl

theorem messages_append (a b : List Packet) : messages (a ++ b) = messages a ++ messages b :=
  List.filterMap_append

theorem items_append (a b : List Packet) : items (a ++ b) = items a ++ items b := by
  rw [items, messages_append, List.map_append, ← items, ← items]

theorem acks_append (a b : List Packet) : acks (a ++ b) = acks a ++ acks b := by
  rw [acks, messages_append, List.flatMap_append, ← acks, ← acks]

theorem storePublish_ignores (client : MqttClient) {packet : Packet} (h : packet.first >>> 4 ≠ 3)
    (hmessage : packet.message? = none) :
    storePublish client packet.first packet.body =
      .ok (acks [packet], { client with inbox := client.inbox ++ items [packet] }) := by
  have hmessages : messages [packet] = [] := by simp [messages, hmessage]
  have hstore : storePublish client packet.first packet.body = .ok ([], client) := if_pos h
  rw [hstore, acks, items, hmessages, List.map_nil, List.append_nil, List.flatMap_nil]

/-- `_store_publish` acknowledges a message and puts it into the inbox, and ignores everything
else. -/
theorem storePublish_packet (client : MqttClient) (packet : Packet) :
    storePublish client packet.first packet.body =
      .ok (acks [packet], { client with inbox := client.inbox ++ items [packet] }) := by
  cases packet with
  | puback id => exact storePublish_ignores client (show (0x40 : UInt8) >>> 4 ≠ 3 by decide) rfl
  | suback id codes =>
      exact storePublish_ignores client (show (0x90 : UInt8) >>> 4 ≠ 3 by decide) rfl
  | publish m =>
      have hshift : ¬ m.first >>> 4 ≠ 3 := not_not.mpr m.first_shift
      have hmessages : messages [.publish m] = [m] := rfl
      change storePublish client m.first m.body = _
      rw [acks, items, hmessages, storePublish, if_neg hshift]
      simp only [m.size_body, m.drop_body, List.take_left, decode_encode, bind, Except.bind]
      cases hid : m.packetId with
      | none =>
          have hqos : ¬ (m.first >>> 1) &&& 0x03 ≠ 0 := by rw [m.qos_ne_zero, hid]; decide
          rw [if_neg hqos, m.drop_topic]
          simp [Message.ack, Message.item, Message.idNumber, Message.idBytes, hid, pure,
            Except.pure]
      | some id =>
          have hqos : (m.first >>> 1) &&& 0x03 ≠ 0 := by rw [m.qos_ne_zero, hid]; rfl
          have hbytes : m.idBytes = be16 id.toNat := by rw [Message.idBytes, hid]
          have hnumber : fromBytes2 ((m.body.drop (2 + (encode m.topic).length)).take 2) =
              id.toNat := by
            rw [m.drop_topic, hbytes]
            exact fromBytes2_be16 id.toNat_lt
          have hpayload : m.body.drop (2 + (encode m.topic).length + 2) = m.payload := by
            rw [← List.drop_drop, m.drop_topic, hbytes]
            rfl
          rw [if_pos hqos, hnumber, hpayload]
          simp [Message.ack, Message.item, Message.idNumber, hid, pure, Except.pure]

/-! ## Packets on the socket -/

theorem consumes_readNumber {n : ℕ} (h : n < 2 ^ 16) :
    readNumber.proc.Consumes (be16 n) [] (.ret (.ok n)) := by
  have hread : (readExact 2).proc.Consumes (be16 n) [] (.ret (.ok (be16 n))) :=
    Io.consumes_readExact (show (be16 n).length = 2 from rfl) _
  have hnumber : fromBytes2 (be16 n) = n := fromBytes2_be16 h
  exact Io.consumes_bind_pure hread (congrArg pure hnumber)

theorem consumes_readText (text : String) :
    (readText (encode text).length).proc.Consumes (encode text) [] (.ret (.ok text)) := by
  have hread : (readExact (encode text).length).proc.Consumes (encode text) []
      (.ret (.ok (encode text))) := Io.consumes_readExact rfl _
  refine Io.consumes_bind_pure hread ?_
  rw [decode_encode]

namespace Message

variable (m : Message)

theorem length_idBytes : m.idBytes.length = if (m.first >>> 1) &&& 0x03 ≠ 0 then 2 else 0 := by
  simp only [m.qos_ne_zero]
  rw [idBytes]
  cases m.packetId with
  | none => rfl
  | some id => rfl

theorem length_body :
    m.body.length = 2 + (encode m.topic).length + m.idBytes.length + m.payload.length := by
  simp only [body, List.length_append, show (be16 _).length = 2 from rfl]
  omega

theorem length_body_lt : m.body.length < 2 ^ 28 := by
  have hid : m.idBytes.length ≤ 2 := by
    rw [length_idBytes]
    split
    · exact le_rfl
    · exact Nat.zero_le 2
  have hlt := m.remaining_lt
  rw [length_body]
  omega

theorem consumes_readPacketId :
    (readPacketId ((m.first >>> 1) &&& 0x03)).proc.Consumes m.idBytes []
      (.ret (.ok m.idNumber)) := by
  simp only [readPacketId, m.qos_ne_zero]
  rw [idBytes, idNumber]
  cases m.packetId with
  | none => exact .refl _
  | some id => exact consumes_readNumber id.toNat_lt

theorem ack_eq : (if m.idNumber ≠ 0 then pubackBytes m.idNumber else []) = m.ack := by
  have hne := m.packetId_ne
  rw [idNumber, ack]
  cases hid : m.packetId with
  | none => rfl
  | some id =>
      refine if_pos fun h ↦ hne ?_
      rw [hid, UInt16.toNat_inj.mp (h.trans UInt16.toNat_zero.symm)]

end Message

/-- What the loop has found out when the payload has arrived. -/
theorem consumes_readPattern (seed offset : ℕ) (valid : Bool) (hashed payload : Bytes) :
    (readPattern seed (offset + payload.length) offset valid hashed).proc.Consumes payload []
      (.ret (.ok (hashed ++ payload,
        valid && payload = payloadSlice seed offset payload.length))) := by
  induction hn : payload.length using Nat.strong_induction_on
    generalizing offset valid hashed payload with
  | _ n ih =>
      subst hn
      rw [readPattern]
      by_cases hnil : payload = []
      · subst hnil
        rw [if_neg (by simp)]
        simpa [payloadSlice_eq_map] using .refl _
      have hpos : 0 < payload.length := List.length_pos_of_ne_nil hnil
      have hchunk : 0 < readChunk := by norm_num [readChunk]
      -- One round reads `a` and leaves `b` to the rounds after it.
      obtain ⟨a, b, rfl, ha⟩ : ∃ a b, payload = a ++ b ∧ a.length = min readChunk payload.length :=
        ⟨payload.take _, payload.drop _, (List.take_append_drop _ _).symm,
          List.length_take_of_le (Nat.min_le_right _ _)⟩
      rw [List.length_append] at hpos ha
      have hvalid : (valid && decide (a ++ b = payloadSlice seed offset (a ++ b).length)) =
          ((valid && decide (a = payloadSlice seed offset a.length)) &&
            decide (b = payloadSlice seed (offset + a.length) b.length)) := by
        simp only [payloadSlice_eq_map, append_eq_map_range'_iff, Bool.and_assoc, Bool.decide_and]
      have hrest := ih b.length (by rw [List.length_append]; omega) (offset + a.length)
        (valid && decide (a = payloadSlice seed offset a.length)) (hashed ++ a) b rfl
      have hcount : min readChunk (offset + (a ++ b).length - offset) = a.length := by
        rw [List.length_append]; omega
      rw [hvalid, ← List.append_assoc, if_pos (by rw [List.length_append]; omega)]
      simp only [hcount]
      rw [List.length_append, ← Nat.add_assoc]
      exact Io.consumes_bind (Io.consumes_readExact rfl _) hrest

/-- `wait_pattern_publish` reads a message whole, acknowledges it and says what it is. -/
theorem decodes_readPatternPublish (sha : Bytes → Digest) (topic : String) (seed size : ℕ)
    (m : Message) :
    Decodes id (readPatternPublish sha topic seed size).run (Packet.publish m).bytes m.ack
      (.ok (hashToHex (sha m.payload), m.topic = topic && m.payload.length = size &&
        m.payload = payloadSlice seed 0 m.payload.length)) := by
  have hpattern := consumes_readPattern seed 0 (decide (m.topic = topic) && m.payload.length = size)
    [] m.payload
  rw [Nat.zero_add, List.nil_append] at hpattern
  have hsize : ((m.body.length : ℤ) - 2 - (encode m.topic).length
      - if (m.first >>> 1) &&& 0x03 ≠ 0 then 2 else 0) = m.payload.length := by
    rw [m.length_body, m.length_idBytes]
    push_cast
    ring
  have hbytes : (Packet.publish m).bytes = (m.first :: varint m.body.length) ++
      (be16 (encode m.topic).length ++ (encode m.topic ++ (m.idBytes ++ m.payload))) := rfl
  have hread : (readPatternPublish sha topic seed size).proc.Consumes (Packet.publish m).bytes []
      (do
        Io.writeAll m.ack .connection
        pure (hashToHex (sha m.payload), m.topic = topic && m.payload.length = size &&
          m.payload = payloadSlice seed 0 m.payload.length) : Sock (Bytes × Bool)).proc := by
    rw [hbytes]
    refine Io.consumes_bind (consumes_readPacketHeader m.first m.length_body_lt) ?_
    rw [Io.proc_require_bind m.first_shift]
    refine Io.consumes_bind (consumes_readNumber m.topic_lt) ?_
    refine Io.consumes_bind (consumes_readText m.topic) ?_
    refine Io.consumes_bind m.consumes_readPacketId ?_
    have hcont := Io.consumes_bind_cont (f := fun r : Bytes × Bool ↦ do
      Io.writeAll (if m.idNumber ≠ 0 then pubackBytes m.idNumber else []) .connection
      pure (hashToHex (sha r.1), r.2)) hpattern
    rw [m.ack_eq] at hcont
    simp only [hsize, Int.toNat_natCast, Int.natCast_inj, m.ack_eq]
    exact hcont
  have hwrite : (do
      Io.writeAll m.ack .connection
      pure (hashToHex (sha m.payload), m.topic = topic && m.payload.length = size &&
        m.payload = payloadSlice seed 0 m.payload.length) :
        Sock (Bytes × Bool)).proc.Produces m.ack []
          (.ret (.ok (hashToHex (sha m.payload), m.topic = topic && m.payload.length = size &&
            m.payload = payloadSlice seed 0 m.payload.length))) :=
    Io.produces_bind_pure (Io.produces_writeAll _ _) rfl
  rw [← List.map_id m.ack]
  exact decodes_of_consumes hread hwrite

/-- `wait_pattern_publish` does not read past the header of anything else. -/
theorem consumes_readPatternPublish_other (sha : Bytes → Digest) (topic : String) (seed size : ℕ)
    {packet : Packet} (h : packet.first >>> 4 ≠ 3) (hlen : packet.body.length < 2 ^ 28) :
    (readPatternPublish sha topic seed size).proc.Consumes
      (packet.first :: varint packet.body.length) [] (.ret (.error .runtime)) := by
  rw [← List.append_nil (packet.first :: _)]
  refine Io.consumes_bind (consumes_readPacketHeader packet.first hlen) ?_
  rw [Io.proc_require_bind_neg h]
  exact .refl _

/-- The other calls read a packet whole and store it. -/
theorem decodes_readAndStore (client : MqttClient) {packet : Packet}
    (hlen : packet.body.length < 2 ^ 28) :
    Decodes id (readAndStore client).run packet.bytes (acks [packet])
      (.ok { client with inbox := client.inbox ++ items [packet] }) := by
  have hanswer : (match storePublish client packet.first packet.body with
      | .error e => throw e
      | .ok (answer, client) => do
          Io.writeAll answer Exn.connection
          pure client : Sock MqttClient).proc.Produces (acks [packet]) []
        (.ret (.ok { client with inbox := client.inbox ++ items [packet] })) := by
    rw [storePublish_packet]
    exact Io.produces_bind_pure (Io.produces_writeAll _ _) rfl
  rw [← List.map_id (acks _)]
  exact decodes_of_consumes (Io.consumes_bind_cont (consumes_readPacket _ _ hlen)) hanswer

/-! ## What the calls do -/

namespace Turn

/-- The call has read some of the packets and acknowledged their messages. -/
structure Reads (packets : List Packet) (turn : Turn) : Prop where
  split : turn.read ++ turn.unread = packets
  answers : turn.answers = acks turn.read

/-- The call has put everything that it has read into the inbox. -/
structure Stores (client : MqttClient) (packets : List Packet) (turn : Turn) : Prop
    extends turn.Reads packets where
  inbox : turn.client.inbox = client.inbox ++ items turn.read

variable {client client' : MqttClient} {packet : Packet} {packets : List Packet} {turn : Turn}

theorem Reads.after (h : turn.Reads packets) :
    (turn.after packet (acks [packet])).Reads (packet :: packets) where
  split := congrArg (packet :: ·) h.split
  answers := by
    rw [Turn.after, h.answers, ← acks_append, List.singleton_append]

theorem Stores.after (hclient : client'.inbox = client.inbox ++ items [packet])
    (h : turn.Stores client' packets) :
    (turn.after packet (acks [packet])).Stores client (packet :: packets) where
  toReads := h.toReads.after
  inbox := by
    rw [Turn.after, h.inbox, hclient, List.append_assoc, ← items_append, List.singleton_append]

/-- A call that has read nothing. -/
theorem Stores.unread (outcome : Outcome) (hclient : client'.inbox = client.inbox) :
    (⟨outcome, client', [], packets, []⟩ : Turn).Stores client packets where
  split := rfl
  answers := rfl
  inbox := by rw [hclient]; exact (List.append_nil _).symm

end Turn

/-- The loops that wait for an acknowledgement store every message. -/
theorem storeUntil_stores (accept : UInt8 → Bytes → Bool)
    (haccept : ∀ packet : Packet, accept packet.first packet.body = true → packet.message? = none)
    (client : MqttClient) (packets : List Packet) :
    (storeUntil accept client packets).Stores client packets := by
  induction packets generalizing client with
  | nil => exact .unread _ rfl
  | cons packet packets ih =>
      rw [storeUntil]
      split
      · have hmessages : messages [packet] = [] := by
          simp [messages, haccept packet ‹_›]
        refine ⟨⟨rfl, ?_⟩, ?_⟩
        · rw [acks, hmessages, List.flatMap_nil]
        · rw [items, hmessages, List.map_nil, List.append_nil]
      · rw [storePublish_packet]
        exact (ih _).after rfl

/-- No PUBLISH is taken for an acknowledgement. -/
theorem message?_eq_none {packet : Packet} (h : packet.first >>> 4 ≠ 3) :
    packet.message? = none := by
  cases packet with
  | puback => rfl
  | suback => rfl
  | publish m => exact absurd m.first_shift h

theorem waitPuback_stores (packetId : ℕ) (client : MqttClient) (packets : List Packet) :
    (waitPuback packetId client packets).Stores client packets := by
  refine storeUntil_stores _ (fun packet h ↦ message?_eq_none ?_) client packets
  rw [(of_decide_eq_true h).1]
  decide

theorem sendAndWait_stores {sent : Except Exn (Bytes × ℕ × MqttClient)} {client : MqttClient}
    (hsent : ∀ r, sent = .ok r → r.2.2.inbox = client.inbox) (packets : List Packet) :
    (sendAndWait sent client packets).Stores client packets := by
  cases sent with
  | error e => exact .unread _ rfl
  | ok r =>
      have hstores := waitPuback_stores r.2.1 r.2.2 packets
      exact ⟨hstores.toReads, hsent r rfl ▸ hstores.inbox⟩

theorem subscribe_stores (topics : List String) (client : MqttClient) (packets : List Packet) :
    (subscribe topics client packets).Stores client packets := by
  rw [subscribe]
  simp only [MqttClient.nextId]
  split
  · exact .unread _ rfl
  · have hstores := storeUntil_stores (fun packet body ↦
        packet = 0x90 ∧ body.take 2 = be16 client.packetId) (fun packet h ↦ message?_eq_none (by
          rw [(of_decide_eq_true h).1]
          decide)) client.nextId.2 packets
    exact ⟨hstores.toReads, hstores.inbox⟩

theorem inbox_publishPacket {client : MqttClient} {topic : String} {payload : Bytes}
    {r : Bytes × ℕ × MqttClient} (h : publishPacket client topic payload = .ok r) :
    r.2.2.inbox = client.inbox := by
  simp only [publishPacket, MqttClient.nextId, bind, Except.bind] at h
  split at h
  · cases h
  split at h
  · cases h
  cases h
  rfl

theorem inbox_publishPatternPacket {client : MqttClient} {topic : String} {seed size : ℕ}
    {r : Bytes × ℕ × MqttClient} (h : publishPatternPacket client topic seed size = .ok r) :
    r.2.2.inbox = client.inbox := by
  simp only [publishPatternPacket, MqttClient.nextId, bind, Except.bind] at h
  split at h
  · cases h
  split at h
  · cases h
  cases h
  rfl

theorem publish_stores (topic : String) (payload : Bytes) (client : MqttClient)
    (packets : List Packet) : (publish topic payload client packets).Stores client packets :=
  sendAndWait_stores (fun _ ↦ inbox_publishPacket) packets

theorem publishPattern_stores (topic : String) (seed size : ℕ) (client : MqttClient)
    (packets : List Packet) :
    (publishPattern topic seed size client packets).Stores client packets :=
  sendAndWait_stores (fun _ ↦ inbox_publishPatternPacket) packets

namespace Turn

/-- The call has handed back the first message on `topic`, be it from the inbox or from what it has
read, and stored the others; or there is none. -/
structure Takes (topic : String) (client : MqttClient) (packets : List Packet) (turn : Turn) : Prop
    extends turn.Reads packets where
  taken : match (client.inbox ++ items turn.read).find? (isOn topic) with
    | some item => turn.outcome = .returned (.payload item.2.1) ∧
        turn.client.inbox = (client.inbox ++ items turn.read).eraseP (isOn topic)
    | none => turn.outcome = .waiting ∧ turn.client.inbox = client.inbox ++ items turn.read

theorem Takes.after {topic : String} {client client' : MqttClient} {packet : Packet}
    {packets : List Packet} {turn : Turn} (hclient : client'.inbox = client.inbox ++ items [packet])
    (h : turn.Takes topic client' packets) :
    (turn.after packet (acks [packet])).Takes topic client (packet :: packets) where
  toReads := h.toReads.after
  taken := by
    have hitems : client.inbox ++ items (packet :: turn.read) =
        client'.inbox ++ items turn.read := by
      rw [hclient, List.append_assoc, ← items_append, List.singleton_append]
    have htaken := h.taken
    rwa [← hitems] at htaken

end Turn

theorem waitPublish_takes (topic : String) (client : MqttClient) (packets : List Packet) :
    (waitPublish topic client packets).Takes topic client packets := by
  have hnil : ∀ inbox : List (String × Bytes × ℕ), inbox ++ items [] = inbox := List.append_nil
  induction packets generalizing client with
  | nil =>
      rw [waitPublish.eq_def]
      cases hfind : client.inbox.find? (isOn topic) with
      | none => exact ⟨⟨rfl, rfl⟩, by simp only [hnil, hfind, and_self]⟩
      | some item => exact ⟨⟨rfl, rfl⟩, by simp only [hnil, hfind, and_self]⟩
  | cons packet packets ih =>
      rw [waitPublish.eq_def]
      cases hfind : client.inbox.find? (isOn topic) with
      | none =>
          simp only [storePublish_packet]
          exact (ih _).after rfl
      | some item => exact ⟨⟨rfl, rfl⟩, by simp only [hnil, hfind, and_self]⟩

end PeripheralBench.Mqtt.Controller

import PeripheralBench.Mqtt.Controller
import PeripheralBench.Transfer.Device
import PeripheralBench.Transfer.Server

/-!
# Packet identifiers

Each of the three programs counts its packets.  The firmware counts in sixteen bits, from ten on and
for as long as it runs; the TLS server counts in 32 bits, from a hundred on in every session; the
controller counts from one on in every session, and after 65535 it goes on with one.

Each takes the identifier before it writes the packet, so that a packet uses up its identifier even
if the write fails.  What a packet says about its identifier is what the receiver finds in its bytes
(`idOf`).  The identifier must not be zero, and it must be the one that the sender waits for
(`Sent.Valid`).  The controller's packets are all so.  The firmware puts zero in a packet after it
has taken 65526 identifiers, and the server after 65436, while it waits for 65536
(`packet_ids_valid_iff`).
-/

open PeripheralBench.Stream PeripheralBench.Text PeripheralBench.Mqtt

namespace PeripheralBench.Transfer.PacketIds

/-! ## The packets -/

/-- What a QoS 1 PUBLISH says besides its identifier.  The Remaining Length of a packet has four
groups at most. -/
structure Message where
  topic : String
  payload : Bytes
  topic_lt : (Controller.encode topic).length < 2 ^ 16
  zero_notMem : 0 ∉ Controller.encode topic
  remaining_lt : 2 + (Controller.encode topic).length + 2 + payload.length < 2 ^ 28

/-- What comes behind the Remaining Length. -/
def dropRemaining : Bytes → Bytes
  | [] => []
  | b :: bs => if b.toNat < 128 then bs else dropRemaining bs

/-- The sixteen-bit number at this place. -/
def wordAt (body : Bytes) (offset : ℕ) : ℕ :=
  word16 (body.getD offset 0) (body.getD (offset + 1) 0)

/-- The identifier that the receiver finds in a QoS 1 PUBLISH, or in a SUBSCRIBE. -/
def idOf (packet : Bytes) : ℕ :=
  let body := dropRemaining (packet.drop 1)
  if packet.head? = some 0x32 then wordAt body (2 + wordAt body 0) else wordAt body 0

/-- A packet that has been written at least up to its identifier, and the identifier that the
program waits for, if it does. -/
structure Sent where
  packet : Bytes
  awaited : Option ℕ

/-- The identifier is one that MQTT allows, and the receiver's answer is the one that is waited for.
-/
def Sent.Valid (sent : Sent) : Prop :=
  1 ≤ idOf sent.packet ∧ idOf sent.packet ≤ 65535 ∧ ∀ id ∈ sent.awaited, id = idOf sent.packet

/-- How far the write of a packet gets. -/
inductive Progress where
  /-- It fails before the identifier has been written. -/
  | beforeId
  /-- It fails behind the identifier. -/
  | behindId
  | complete
deriving DecidableEq

/-- What has been sent.  An answer is waited for only when the packet has been written. -/
def Progress.sent (progress : Progress) (packet : Bytes) (awaited : Option ℕ) : List Sent :=
  match progress with
  | beforeId => []
  | behindId => [⟨packet, none⟩]
  | complete => [⟨packet, awaited⟩]

/-! ## The programs -/

/-- `MqttClient.subscribe`: what it sends, and the identifier that it waits for. -/
def subscribePacket (client : Controller.MqttClient) (topics : List String) :
    Except Controller.Exn (Bytes × ℕ × Controller.MqttClient) := do
  let (packetId, client) := client.nextId
  let id ← Controller.toBytes2 packetId
  let filters ← topics.mapM Controller.encodeUtf8
  let body := id ++ filters.flatMap (· ++ [1])
  pure ([0x82] ++ Controller.encodeRemainingLength body.length ++ body, packetId, client)

/-- What the three programs do, and how far they get with it. -/
inductive Call where
  /-- The firmware calls `subscribe_topics`. -/
  | subscribeTopics (progress : Progress)
  /-- The firmware calls `publish_memory` or `publish_pattern`, which write the same header. -/
  | publishMemory (message : Message) (progress : Progress)
  /-- The server enters `run_transfers`. -/
  | runTransfers
  /-- The server calls `publish`. -/
  | serverPublish (message : Message) (progress : Progress)
  /-- The controller connects. -/
  | connect
  /-- The controller calls `subscribe`. -/
  | subscribe (topics : List String) (progress : Progress)
  /-- The controller calls `publish` or `publish_pattern`, which send the same bytes. -/
  | publish (message : Message) (progress : Progress)

/-- The counters, and what has been sent. -/
structure State where
  /-- `next_packet_id` of the firmware. -/
  nextPacketId : UInt16
  /-- `packet_id_state` of the server. -/
  packetIdState : UInt32
  client : Controller.MqttClient
  sent : List Sent

/-- The firmware has booted, and the others have begun their first session. -/
def State.init : State := ⟨10, 100, .init, []⟩

/-- The SUBSCRIBE of the firmware. -/
def subscribeTopicsPacket (packetId : UInt16) : Bytes :=
  let body := Device.subscribeBody packetId
  0x82 :: (Firmware.encodeRemaining (UInt32.ofNat body.length) ++ body)

/-- What the controller has sent, unless it has raised before. -/
def State.sendClient (s : State) (progress : Progress) :
    Except Controller.Exn (Bytes × ℕ × Controller.MqttClient) → State
  | .ok (packet, awaited, client) =>
      { s with client := client, sent := s.sent ++ progress.sent packet (some awaited) }
  | .error _ => { s with client := s.client.nextId.2 }

/-- What a call does.  The firmware does not look at the identifier of a SUBACK. -/
def State.step (s : State) : Call → State
  | .subscribeTopics progress =>
      { s with
        nextPacketId := s.nextPacketId + 1
        sent := s.sent ++ progress.sent (subscribeTopicsPacket s.nextPacketId) none }
  | .publishMemory m progress =>
      let topic := Controller.encode m.topic
      { s with
        nextPacketId := s.nextPacketId + 1
        sent := s.sent ++ progress.sent
          (Firmware.publishHeader topic s.nextPacketId m.payload.length ++ m.payload)
          (some s.nextPacketId.toNat) }
  | .runTransfers => { s with packetIdState := 100 }
  | .serverPublish m progress =>
      let topic := Controller.encode m.topic
      { s with
        packetIdState := s.packetIdState + 1
        sent := s.sent ++ progress.sent
          (Server.publishHeader topic s.packetIdState m.payload.length ++ m.payload)
          (some s.packetIdState.toNat) }
  | .connect => { s with client := .init }
  | .subscribe topics progress => s.sendClient progress (subscribePacket s.client topics)
  | .publish m progress =>
      s.sendClient progress (Controller.publishPacket s.client m.topic m.payload)

/-- A run. -/
def run (calls : List Call) : State := calls.foldl State.step .init

/-! ## Finding the identifier -/

theorem dropRemaining_varint (n : ℕ) (rest : Bytes) : dropRemaining (varint n ++ rest) = rest := by
  induction n using Nat.strong_induction_on with
  | _ n ih =>
      by_cases h : n < 128
      · have hb : (UInt8.ofNat n).toNat < 128 := by rw [UInt8.toNat_ofNat']; omega
        rw [varint_of_lt h, List.singleton_append, dropRemaining, if_pos hb]
      · have hb : ¬ (UInt8.ofNat (n % 128 + 128)).toNat < 128 := by rw [UInt8.toNat_ofNat']; omega
        rw [varint_of_le (Nat.not_lt.mp h), List.cons_append, dropRemaining, if_neg hb]
        exact ih (n / 128) (by omega)

/-- Sixteen bits of a number are written. -/
theorem be16_mod (n : ℕ) : be16 (n % 2 ^ 16) = be16 n := by
  have hhigh : UInt8.ofNat ((n % 2 ^ 16) >>> 8) = UInt8.ofNat (n >>> 8) := by
    apply UInt8.toNat_inj.mp
    rw [UInt8.toNat_ofNat', UInt8.toNat_ofNat', Nat.shiftRight_eq_div_pow,
      Nat.shiftRight_eq_div_pow]
    omega
  have hlow : UInt8.ofNat (n % 2 ^ 16) = UInt8.ofNat n := by
    apply UInt8.toNat_inj.mp
    rw [UInt8.toNat_ofNat', UInt8.toNat_ofNat']
    omega
  rw [be16, be16, hhigh, hlow]

theorem wordAt_append (before rest : Bytes) (n : ℕ) :
    wordAt (before ++ (be16 n ++ rest)) before.length = n % 2 ^ 16 := by
  have hword := word16_be16 (Nat.mod_lt n (show 2 ^ 16 > 0 by norm_num))
  have hbytes := be16_mod n
  rw [be16, be16] at hbytes
  obtain ⟨hhigh, hlow⟩ := List.cons_eq_cons.mp hbytes
  rw [hhigh, (List.cons_eq_cons.mp hlow).1] at hword
  rw [wordAt, List.getD_append_right _ _ _ _ le_rfl, List.getD_append_right _ _ _ _
    (Nat.le_add_right _ 1), Nat.sub_self, Nat.add_sub_cancel_left]
  exact hword

theorem idOf_headerBytes {topic : Bytes} (h : topic.length < 2 ^ 16) (id payloadSize : ℕ)
    (payload : Bytes) : idOf (headerBytes topic id payloadSize ++ payload) = id % 2 ^ 16 := by
  have hbody : dropRemaining ((headerBytes topic id payloadSize ++ payload).drop 1) =
      be16 topic.length ++ (topic ++ (be16 id ++ payload)) := by
    rw [headerBytes, List.cons_append, List.drop_one, List.tail_cons, List.append_assoc,
      List.append_assoc, List.append_assoc, dropRemaining_varint]
  have htopic : wordAt (be16 topic.length ++ (topic ++ (be16 id ++ payload))) 0 = topic.length := by
    have hword := wordAt_append [] (topic ++ (be16 id ++ payload)) topic.length
    rwa [Nat.mod_eq_of_lt h] at hword
  have hid := wordAt_append (be16 topic.length ++ topic) payload id
  rw [List.append_assoc, List.length_append, show (be16 topic.length).length = 2 from rfl] at hid
  simp only [idOf, hbody, htopic]
  exact hid

/-- A SUBSCRIBE begins with its identifier. -/
theorem idOf_subscribe (id n : ℕ) (rest : Bytes) :
    idOf (0x82 :: (varint n ++ (be16 id ++ rest))) = id % 2 ^ 16 := by
  simp only [idOf, List.drop_one, List.tail_cons, dropRemaining_varint, List.head?_cons,
    Option.some.injEq, show ((0x82 : UInt8) = 0x32) = False by decide, if_false]
  exact wordAt_append [] rest id

theorem subscribeTopicsPacket_eq (packetId : UInt16) :
    ∃ rest, subscribeTopicsPacket packetId =
    0x82 :: (varint 31 ++ (be16 packetId.toNat ++ rest)) := by
  have hlength : (Device.subscribeBody packetId).length = 31 := rfl
  refine ⟨(Device.subscribeBody packetId).drop 2, ?_⟩
  rw [subscribeTopicsPacket, hlength, Firmware.encodeRemaining,
    encodeRemaining_eq (by norm_num) (by norm_num)]
  rfl

/-- The header that the server builds, for an identifier of 32 bits. -/
theorem serverHeader_eq (m : Message) (packetId : UInt32) :
    Server.publishHeader (Controller.encode m.topic) packetId m.payload.length =
      headerBytes (Controller.encode m.topic) packetId.toNat m.payload.length := by
  have hlt := m.remaining_lt
  simp only [Server.publishHeader, cstr_of_notMem m.zero_notMem, Server.encodeRemaining]
  rw [encodeRemaining_eq (by norm_num at hlt ⊢; omega) (by omega)]
  rfl

/-- The packet with this identifier. -/
def Message.packet (m : Message) (id : UInt16) : Publish :=
  ⟨Controller.encode m.topic, id, m.payload, m.topic_lt, m.remaining_lt⟩

/-! ## One call -/

/-- The controller's counter is an identifier that MQTT allows. -/
def ClientValid (client : Controller.MqttClient) : Prop :=
  1 ≤ client.packetId ∧ client.packetId ≤ 65535

theorem ClientValid.nextId {client : Controller.MqttClient} (h : ClientValid client) :
    ClientValid client.nextId.2 := by
  obtain ⟨hpos, hle⟩ := h
  rw [ClientValid, Controller.MqttClient.nextId]
  dsimp only
  split <;> omega

/-- What a call adds to what has been sent is valid. -/
def Good (s : State) : Call → Prop
  | .subscribeTopics progress => progress ≠ .beforeId → s.nextPacketId ≠ 0
  | .publishMemory _ progress => progress ≠ .beforeId → s.nextPacketId ≠ 0
  | .serverPublish _ progress =>
      (progress ≠ .beforeId → s.packetIdState.toNat % 2 ^ 16 ≠ 0) ∧
        (progress = .complete → s.packetIdState.toNat < 2 ^ 16)
  | _ => True

variable {s : State} {client : Controller.MqttClient}

/-- What is sent is valid if its identifier is one and, once it has been written, is the one that is
waited for. -/
theorem forall_valid_sent_iff (progress : Progress) (packet : Bytes) (awaited : Option ℕ) :
    (∀ sent ∈ progress.sent packet awaited, sent.Valid) ↔
      (progress ≠ .beforeId → 1 ≤ idOf packet ∧ idOf packet ≤ 65535) ∧
        (progress = .complete → ∀ id ∈ awaited, id = idOf packet) := by
  cases progress with
  | beforeId => exact iff_of_true nofun ⟨fun h ↦ absurd rfl h, nofun⟩
  | behindId =>
      rw [Progress.sent, List.forall_mem_singleton, Sent.Valid, forall_prop_of_true nofun,
        ← and_assoc]
      exact and_congr_right fun _ ↦ iff_of_true nofun nofun
  | complete =>
      rw [Progress.sent, List.forall_mem_singleton, Sent.Valid, forall_prop_of_true nofun,
        forall_prop_of_true rfl, and_assoc]

/-- The identifiers that MQTT allows, in sixteen bits. -/
theorem allowed_iff (id : ℕ) : 1 ≤ id % 2 ^ 16 ∧ id % 2 ^ 16 ≤ 65535 ↔ id % 2 ^ 16 ≠ 0 := by
  omega

theorem valid_firmware_iff (m : Message) (packetId : UInt16) (progress : Progress) :
    (∀ sent ∈ progress.sent
      (Firmware.publishHeader (Controller.encode m.topic) packetId m.payload.length ++ m.payload)
      (some packetId.toNat), sent.Valid) ↔ (progress ≠ .beforeId → packetId ≠ 0) := by
  have hheader : Firmware.publishHeader (Controller.encode m.topic) packetId m.payload.length =
      headerBytes (Controller.encode m.topic) packetId.toNat m.payload.length :=
    Firmware.publishHeader_eq (m.packet packetId) m.zero_notMem
  have hzero : packetId = 0 ↔ packetId.toNat = 0 := by rw [← UInt16.toNat_inj, UInt16.toNat_zero]
  rw [forall_valid_sent_iff, hheader, idOf_headerBytes m.topic_lt, allowed_iff,
    Nat.mod_eq_of_lt packetId.toNat_lt, ne_eq packetId, hzero]
  exact and_iff_left fun _ _ h ↦ (Option.mem_some_iff.mp h).symm

theorem valid_server_iff (m : Message) (packetId : UInt32) (progress : Progress) :
    (∀ sent ∈ progress.sent
      (Server.publishHeader (Controller.encode m.topic) packetId m.payload.length ++ m.payload)
      (some packetId.toNat), sent.Valid) ↔
        (progress ≠ .beforeId → packetId.toNat % 2 ^ 16 ≠ 0) ∧
          (progress = .complete → packetId.toNat < 2 ^ 16) := by
  rw [forall_valid_sent_iff, serverHeader_eq, idOf_headerBytes m.topic_lt, allowed_iff]
  refine and_congr_right' (imp_congr_right fun _ ↦ ?_)
  simp only [Option.mem_some_iff, forall_eq']
  omega

theorem valid_subscribeTopics_iff (packetId : UInt16) (progress : Progress) :
    (∀ sent ∈ progress.sent (subscribeTopicsPacket packetId) none, sent.Valid) ↔
      (progress ≠ .beforeId → packetId ≠ 0) := by
  obtain ⟨rest, hpacket⟩ := subscribeTopicsPacket_eq packetId
  have hzero : packetId = 0 ↔ packetId.toNat = 0 := by rw [← UInt16.toNat_inj, UInt16.toNat_zero]
  rw [forall_valid_sent_iff, hpacket, idOf_subscribe, allowed_iff,
    Nat.mod_eq_of_lt packetId.toNat_lt, ne_eq packetId, hzero]
  exact and_iff_left fun _ _ h ↦ nomatch h

/-- The controller has raised, or has built a packet with the identifier that it waits for. -/
def SendsValid (client : Controller.MqttClient)
    (result : Except Controller.Exn (Bytes × ℕ × Controller.MqttClient)) : Prop :=
  (∃ e, result = .error e) ∨ ∃ packet, result = .ok (packet, client.packetId, client.nextId.2) ∧
    idOf packet = client.packetId

theorem sendsValid_publish (h : ClientValid client) (m : Message) :
    SendsValid client (Controller.publishPacket client m.topic m.payload) := by
  have hlt : client.packetId < 2 ^ 16 := h.2.trans_lt (by norm_num)
  obtain ⟨id, hid⟩ : ∃ id : UInt16, client.packetId = id.toNat :=
    ⟨UInt16.ofNat client.packetId, (UInt16.toNat_ofNat_of_lt' hlt).symm⟩
  have hpacket : Controller.publishPacket client m.topic m.payload =
      .ok ((m.packet id).encode, id.toNat, client.nextId.2) :=
    Controller.publishPacket_eq (m.packet id) rfl hid
  refine .inr ⟨(m.packet id).encode, ?_, ?_⟩
  · rw [hid]
    exact hpacket
  · change idOf (headerBytes (Controller.encode m.topic) id.toNat m.payload.length ++ m.payload) = _
    rw [← hid, idOf_headerBytes m.topic_lt, Nat.mod_eq_of_lt hlt]

theorem sendsValid_subscribe (h : ClientValid client) (topics : List String) :
    SendsValid client (subscribePacket client topics) := by
  have hlt : client.packetId < 2 ^ 16 := h.2.trans_lt (by norm_num)
  cases hfilters : topics.mapM Controller.encodeUtf8 with
  | error e =>
      refine .inl ⟨e, ?_⟩
      simp only [subscribePacket, Controller.MqttClient.nextId, Controller.toBytes2_of_lt hlt,
        hfilters, bind, Except.bind]
  | ok filters =>
      let body := be16 client.packetId ++ filters.flatMap (· ++ [1])
      refine .inr ⟨0x82 :: (varint body.length ++ body), ?_, ?_⟩
      · simp only [subscribePacket, Controller.MqttClient.nextId, Controller.toBytes2_of_lt hlt,
          hfilters, bind, Except.bind, pure, Except.pure, Controller.encodeRemainingLength_eq,
          List.cons_append, List.nil_append, body]
      · rw [idOf_subscribe, Nat.mod_eq_of_lt hlt]

/-- What a call of the controller leaves alone, and what it adds. -/
theorem sendClient_spec (hs : ClientValid s.client) (progress : Progress)
    {result : Except Controller.Exn (Bytes × ℕ × Controller.MqttClient)}
    (h : SendsValid s.client result) :
    (s.sendClient progress result).nextPacketId = s.nextPacketId ∧
    (s.sendClient progress result).packetIdState = s.packetIdState ∧
    ClientValid (s.sendClient progress result).client ∧
    ((∀ sent ∈ (s.sendClient progress result).sent, sent.Valid) ↔
      ∀ sent ∈ s.sent, sent.Valid) := by
  rcases h with ⟨e, rfl⟩ | ⟨packet, rfl, hid⟩
  · exact ⟨rfl, rfl, hs.nextId, Iff.rfl⟩
  · refine ⟨rfl, rfl, hs.nextId, ?_⟩
    rw [State.sendClient, List.forall_mem_append, forall_valid_sent_iff, hid]
    refine and_iff_left ⟨fun _ ↦ hs, fun _ id h ↦ (Option.mem_some_iff.mp h).symm⟩

/-- A call adds what is valid if and only if it is good. -/
theorem valid_step_iff (hs : ClientValid s.client) (call : Call) :
    (∀ sent ∈ (s.step call).sent, sent.Valid) ↔ (∀ sent ∈ s.sent, sent.Valid) ∧ Good s call := by
  cases call with
  | subscribeTopics progress =>
      rw [State.step, List.forall_mem_append, valid_subscribeTopics_iff]
      rfl
  | publishMemory m progress =>
      dsimp only [State.step]
      rw [List.forall_mem_append, valid_firmware_iff]
      rfl
  | serverPublish m progress =>
      dsimp only [State.step]
      rw [List.forall_mem_append, valid_server_iff]
      rfl
  | runTransfers => exact (and_iff_left trivial).symm
  | connect => exact (and_iff_left trivial).symm
  | subscribe topics progress =>
      exact (sendClient_spec hs progress (sendsValid_subscribe hs topics)).2.2.2.trans
        (and_iff_left trivial).symm
  | publish m progress =>
      exact (sendClient_spec hs progress (sendsValid_publish hs m)).2.2.2.trans
        (and_iff_left trivial).symm

/-! ## The answer -/

/-- The server takes a PUBACK for this identifier for the answer, and no other.  It looks for 32
bits. -/
theorem server_accepts (packetId : UInt32) {id : ℕ} (hid : id < 2 ^ 16) :
    (Server.waitPuback packetId).proc.Consumes (pubackBytes id)
      [.packet 0x40 0x40, .puback id packetId.toNat]
      (.ret (if id = packetId.toNat then .ok () else .error ())) := by
  have hpacket := Server.consumes_readPacket 0x40 (be16 id) (by norm_num [be16])
  have hgot : word16 ((be16 id).getD 0 0) ((be16 id).getD 1 0) = id := word16_be16 hid
  rw [show (be16 id).length = 2 from rfl, varint_of_lt (by norm_num)] at hpacket
  rw [Server.waitPuback, ← List.append_nil (pubackBytes id)]
  refine Io.consumes_bind hpacket ?_
  rw [Io.proc_emit_bind, Io.proc_require_bind ⟨rfl, rfl⟩, hgot, Io.proc_emit_bind]
  refine .emit (.emit ?_)
  by_cases h : id = packetId.toNat
  · rw [Io.require_pos h, if_pos h]
    exact .refl _
  · rw [Io.require_neg h, if_neg h]
    exact .refl _

/-- The firmware takes a PUBACK for this identifier for the answer, and no other. -/
theorem firmware_accepts (packetId : UInt16) {id : ℕ} (hid : id < 2 ^ 16) :
    (Firmware.waitPuback packetId).proc.Consumes (pubackBytes id)
      [.packet 0x40 0x40, .puback id packetId.toNat]
      (.ret (if id = packetId.toNat then .ok () else .error .einval)) := by
  have hheader :=
    Io.consumes_orFail (Firmware.consumes_readPacketHeader 0x40 (n := 2) (by norm_num))
    .einval
  rw [varint_of_lt (by norm_num)] at hheader
  refine Io.consumes_bind hheader ?_
  rw [Io.proc_emit_bind, Io.proc_require_bind ⟨rfl, rfl⟩]
  refine .emit ?_
  rw [← List.append_nil (be16 _)]
  refine Io.consumes_bind (consumes_readWord16 hid _) ?_
  rw [Io.proc_emit_bind]
  refine .emit ?_
  by_cases h : id = packetId.toNat
  · rw [Io.require_pos h, if_pos h]
    exact .refl _
  · rw [Io.require_neg h, if_neg h]
    exact .refl _

/-! ## Runs -/

/-- The call takes an identifier of the firmware. -/
def Call.isFirmware : Call → Bool
  | .subscribeTopics _ => true
  | .publishMemory _ _ => true
  | _ => false

/-- How many identifiers the server has taken in its session, after another call. -/
def countPublish (count : ℕ) : Call → ℕ
  | .runTransfers => 0
  | .serverPublish _ _ => count + 1
  | _ => count

/-- How many identifiers the firmware has taken. -/
def firmwareTaken (calls : List Call) : ℕ := calls.countP Call.isFirmware

/-- How many identifiers the server has taken in its latest session. -/
def sessionTaken (calls : List Call) : ℕ := calls.foldl countPublish 0

/-- The counters, which begin with 10 and with 100, are not at zero in sixteen bits when an
identifier is written, and the server's has not left the sixteen bits when it waits for the answer.
-/
def Unwrapped (earlier : List Call) : Call → Prop
  | .subscribeTopics progress =>
      progress ≠ .beforeId → (10 + firmwareTaken earlier) % 2 ^ 16 ≠ 0
  | .publishMemory _ progress =>
      progress ≠ .beforeId → (10 + firmwareTaken earlier) % 2 ^ 16 ≠ 0
  | .serverPublish _ progress =>
      (progress ≠ .beforeId → (100 + sessionTaken earlier) % 2 ^ 16 ≠ 0) ∧
        (progress = .complete → (100 + sessionTaken earlier) % 2 ^ 32 < 2 ^ 16)
  | _ => True

theorem run_append (calls : List Call) (call : Call) :
    run (calls ++ [call]) = (run calls).step call := List.foldl_append

theorem sessionTaken_append (calls : List Call) (call : Call) :
    sessionTaken (calls ++ [call]) = countPublish (sessionTaken calls) call :=
  List.foldl_append

/-- The counters after a run. -/
structure Counts (calls : List Call) (s : State) : Prop where
  nextPacketId : s.nextPacketId = UInt16.ofNat (10 + firmwareTaken calls)
  packetIdState : s.packetIdState = UInt32.ofNat (100 + sessionTaken calls)
  client : ClientValid s.client

theorem clientValid_init : ClientValid .init := ⟨le_rfl, by decide⟩

theorem Counts.step {calls : List Call} (h : Counts calls s) (call : Call) :
    Counts (calls ++ [call]) (s.step call) := by
  obtain ⟨hnext, hstate, hclient⟩ := h
  have hcount : firmwareTaken (calls ++ [call]) = firmwareTaken calls + call.isFirmware.toNat := by
    rw [firmwareTaken, List.countP_append, List.countP_singleton]
    cases call.isFirmware <;> rfl
  have hsame : call.isFirmware = false →
      s.nextPacketId = UInt16.ofNat (10 + firmwareTaken (calls ++ [call])) := by
    intro hfirmware
    rw [hcount, hfirmware]
    exact hnext
  have hnew : call.isFirmware = true →
      s.nextPacketId + 1 = UInt16.ofNat (10 + firmwareTaken (calls ++ [call])) := by
    intro hfirmware
    rw [hcount, hfirmware, ← Nat.add_assoc, UInt16.ofNat_add, ← hnext]
    rfl
  have hsession := sessionTaken_append calls call
  cases call with
  | subscribeTopics progress => exact ⟨hnew rfl, hsession ▸ hstate, hclient⟩
  | publishMemory m progress => exact ⟨hnew rfl, hsession ▸ hstate, hclient⟩
  | serverPublish m progress =>
      refine ⟨hsame rfl, ?_, hclient⟩
      rw [hsession, countPublish, ← Nat.add_assoc, UInt32.ofNat_add, ← hstate]
      rfl
  | runTransfers => exact ⟨hsame rfl, by rw [hsession]; rfl, hclient⟩
  | connect => exact ⟨hsame rfl, hsession ▸ hstate, clientValid_init⟩
  | subscribe topics progress =>
      obtain ⟨hnext', hstate', hclient', -⟩ :=
        sendClient_spec hclient progress (sendsValid_subscribe hclient topics)
      exact ⟨hnext'.trans (hsame rfl), hstate'.trans (hsession ▸ hstate), hclient'⟩
  | publish m progress =>
      obtain ⟨hnext', hstate', hclient', -⟩ :=
        sendClient_spec hclient progress (sendsValid_publish hclient m)
      exact ⟨hnext'.trans (hsame rfl), hstate'.trans (hsession ▸ hstate), hclient'⟩

theorem counts_run (calls : List Call) : Counts calls (run calls) := by
  induction calls using List.reverseRecOn with
  | nil => exact ⟨rfl, rfl, clientValid_init⟩
  | append_singleton calls call ih =>
      rw [run_append]
      exact ih.step call

/-- The next call is good if and only if the counters are not at their wraps. -/
theorem good_iff (calls : List Call) (call : Call) :
    Good (run calls) call ↔ Unwrapped calls call := by
  obtain ⟨hnext, hstate, -⟩ := counts_run calls
  have hzero : (run calls).nextPacketId = 0 ↔ (10 + firmwareTaken calls) % 2 ^ 16 = 0 := by
    rw [hnext, ← UInt16.toNat_inj, UInt16.toNat_ofNat', UInt16.toNat_zero]
  have htoNat : (run calls).packetIdState.toNat = (100 + sessionTaken calls) % 2 ^ 32 := by
    rw [hstate, UInt32.toNat_ofNat']
  cases call with
  | subscribeTopics progress => exact imp_congr_right fun _ ↦ hzero.not
  | publishMemory m progress => exact imp_congr_right fun _ ↦ hzero.not
  | serverPublish m progress =>
      rw [Good, Unwrapped, htoNat, Nat.mod_mod_of_dvd _ (Nat.pow_dvd_pow 2 (by norm_num))]
  | runTransfers => exact Iff.rfl
  | connect => exact Iff.rfl
  | subscribe topics progress => exact Iff.rfl
  | publish m progress => exact Iff.rfl

/-- **The identifiers are valid and matched** in a run of the three programs if and only if no call
writes its identifier at a wrap of its counter, and the server waits for no identifier of more than
sixteen bits. -/
theorem packet_ids_valid_iff (calls : List Call) :
    (∀ sent ∈ (run calls).sent, sent.Valid) ↔
      ∀ earlier call, earlier ++ [call] <+: calls → Unwrapped earlier call := by
  induction calls using List.reverseRecOn with
  | nil =>
      refine iff_of_true nofun fun earlier call h ↦ ?_
      exact absurd (List.prefix_nil.mp h)
        (List.append_ne_nil_of_right_ne_nil _ (List.cons_ne_nil _ _))
  | append_singleton calls call ih =>
      rw [run_append, valid_step_iff (counts_run calls).client, ih, good_iff]
      constructor
      · rintro ⟨hearlier, hlast⟩ earlier call' h
        rcases List.prefix_concat_iff.mp h with h | h
        · obtain ⟨hcalls, hcall⟩ := List.append_inj' h rfl
          rw [hcalls, List.singleton_inj.mp hcall]
          exact hlast
        · exact hearlier earlier call' h
      · intro h
        exact ⟨fun earlier call' hle ↦ h earlier call' (hle.trans (List.prefix_append _ _)),
          h calls call (List.prefix_refl _)⟩

/-! ## The wrap -/

theorem zero_notMem_up : 0 ∉ Controller.encode "bench/up" := by decide +kernel

theorem remaining_lt_ready :
    2 + (Controller.encode "bench/up").length + 2 + (ascii "READY").length < 2 ^ 28 := by
  decide +kernel

theorem topic_lt_up : (Controller.encode "bench/up").length < 2 ^ 16 := by decide +kernel

/-- A message of the firmware. -/
def readyMessage : Message where
  topic := "bench/up"
  payload := ascii "READY"
  topic_lt := topic_lt_up
  zero_notMem := zero_notMem_up
  remaining_lt := remaining_lt_ready

/-- The firmware sends zero in its packet after 65526 others. -/
theorem not_packet_ids_valid : ¬ ∀ calls : List Call, ∀ sent ∈ (run calls).sent, sent.Valid := by
  intro hall
  have hcounts := counts_run (List.replicate 65526 (.publishMemory readyMessage .complete))
  have hnext :
      (run (List.replicate 65526 (.publishMemory readyMessage .complete))).nextPacketId = 0 := by
    rw [hcounts.nextPacketId, firmwareTaken, List.countP_replicate]
    rfl
  have hvalid := hall (List.replicate 65526 (.publishMemory readyMessage .complete) ++
    [.publishMemory readyMessage .complete])
  rw [run_append, valid_step_iff hcounts.client] at hvalid
  exact hvalid.2 nofun hnext

end PeripheralBench.Transfer.PacketIds

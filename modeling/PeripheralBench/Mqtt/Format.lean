import PeripheralBench.Mqtt.Controller
import PeripheralBench.Mqtt.Firmware
import PeripheralBench.Mqtt.Server
import PeripheralBench.Stream.Talk

/-!
# One wire format

The firmware, the TLS server, the Python controller and the analytic header of `benchmarklib` write
the same bytes for a PUBLISH (`EncodersAgree`), and the three readers take any of these packets
apart again, wherever the transport cuts it, and leave what follows it on the stream
(`DecodersAgree`).  A Remaining Length that goes on after its fourth byte is refused by all three
(`RejectsFifthByte`).
-/

open PeripheralBench.Stream PeripheralBench.Text

namespace PeripheralBench.Mqtt

/-- However a stream that begins with `packet` is cut into reads, the program ends: it has answered
`answer`, returned `a` and left what follows the packet.  `byte` is the byte of a written item. -/
def Decodes {ω ε α : Type} (byte : ω → UInt8) (q : Prog ω UInt8 ε α) (packet answer : Bytes)
    (a : α) : Prop :=
  ∀ (xs : List ω) (rest : Bytes), xs.map byte = packet ++ rest →
    ∃ log, Net.AlwaysEnds ⟨byte, true⟩ (Net.init (Prog.writeAll xs : Prog ω UInt8 Empty Bool) q)
      ⟨.ret true, .ret a, answer, rest, [], log⟩

theorem decodes_of_consumes {ω ε α : Type} {byte : ω → UInt8} {q : Prog ω UInt8 ε α}
    {q' : Proc ω UInt8 ε α} {packet : Bytes} {ys : List ω} {es fs : List ε} {a : α}
    (hq : q.1.Consumes packet es q') (hq' : q'.Produces ys fs (.ret a)) :
    Decodes byte q packet (ys.map byte) a := by
  intro xs rest hxs
  have hrun : Net.Reaches ⟨byte, true⟩
      (Net.init (Prog.writeAll xs : Prog ω UInt8 Empty Bool) q) _ :=
    Net.reaches_fed hxs hq hq'
  exact ⟨es ++ fs, Net.alwaysEnds (Net.coherent_init _ _) hrun ⟨trivial, trivial⟩⟩

variable (sha : Bytes → Digest)

/-- Every encoder writes the packet `p`, whose topic is `topic`. -/
structure EncodersAgree (p : Publish) (topic : String) : Prop where
  /-- The header of `publish_memory` and `publish_pattern` of the firmware. -/
  firmwareHeader : Firmware.publishHeader p.topic p.id p.payload.length = p.header
  /-- The header of `publish` of the server, whose packet id has 32 bits. -/
  serverHeader : Server.publishHeader p.topic p.id.toUInt32 p.payload.length = p.header
  /-- `mqtt_publish_header`. -/
  analyticHeader : Controller.mqttPublishHeader topic p.id.toNat p.payload.length = .ok p.header
  /-- `publish_memory` writes the packet. -/
  publishMemory : ∃ xs, xs.map Item.byte = p.encode ∧
    (Firmware.publishMemory p.topic p.payload p.id).proc.Produces xs []
      (.ret (.ok ()))
  /-- The firmware's `publish_pattern` writes the packet if its payload is a pattern. -/
  publishPattern : ∀ operation seed size, p.payload = pattern seed size →
    ∃ xs, xs.map Item.byte = p.encode ∧
      (Firmware.publishPattern sha operation p.topic seed size p.id).proc.Produces xs []
        (.ret (.ok (hashToHex (sha p.payload))))
  /-- `publish` of the server writes the packet and goes on to wait for its PUBACK. -/
  serverPublish : ∀ operation, ∃ xs, xs.map Item.byte = p.encode ∧
    (Server.publish operation p.topic p.payload p.id.toUInt32).proc.Produces xs []
      (Server.waitPuback p.id.toUInt32 >>= fun _ ↦
        (pure (p.id.toUInt32 + 1) : Server.Tls UInt32)).proc
  /-- `publish` of the controller sends the packet and goes on to wait for its PUBACK. -/
  controllerPublish : ∀ client : Controller.MqttClient, client.packetId = p.id.toNat →
    Controller.publishPacket client topic p.payload =
      .ok (p.encode, p.id.toNat, client.nextId.2)
  /-- The controller's `publish_pattern` sends the packet if its payload is a pattern. -/
  controllerPattern : ∀ client : Controller.MqttClient, client.packetId = p.id.toNat →
    ∀ (seed : UInt32) (size : ℕ), p.payload = pattern seed size →
      Controller.publishPatternPacket client topic seed.toNat size =
        .ok (p.encode, p.id.toNat, client.nextId.2)

/-- Every decoder reads the packet `p`, whose topic is `topic`, and nothing more. -/
structure DecodersAgree (p : Publish) (topic : String) : Prop where
  /-- `read_publish` of the firmware streams the payload: it hands back its size and its digest,
  says whether it is the expected pattern, and copies it if it fits the buffer. -/
  firmware : ∀ (expect small : Bytes) (smallCapacity : ℕ) (expectedSize expectedSeed : UInt32),
    smallCapacity ≤ small.length →
    ∃ small', (p.payload.length ≤ smallCapacity → small' = memcpy small 0 p.payload) ∧
      Decodes Item.byte (Firmware.readPublish sha expect 32 small smallCapacity expectedSize
        expectedSeed).run p.encode []
        (.ok {
          topic := p.topic
          payloadSize := p.payload.length
          packetId := p.id.toNat
          integrity := expectedSize = 0 ||
            p.payload = pattern expectedSeed expectedSize.toNat
          hash := hashToHex (sha p.payload)
          small := small' })
  /-- `read_packet` and `parse_publish` of the server. -/
  server : ∀ expect, Decodes Item.byte (Server.readPublish expect 64).run p.encode []
    (.ok (p.topic, p.payload, p.id.toNat))
  /-- `read_packet` and `_store_publish` of the controller, which acknowledges the packet. -/
  controller : ∀ client : Controller.MqttClient,
    Decodes id (Controller.readAndStore client).run p.encode (pubackBytes p.id.toNat)
      (.ok { client with inbox := client.inbox ++ [(topic, p.payload, p.id.toNat)] })

/-- Every decoder refuses a Remaining Length whose fourth byte has the continuation bit. -/
structure RejectsFifthByte (first : UInt8) (groups : Bytes) : Prop where
  /-- `read_publish` of the firmware. -/
  firmware : ∀ expect topicCapacity small smallCapacity expectedSize expectedSeed,
    Decodes Item.byte (Firmware.readPublish sha expect topicCapacity small smallCapacity
      expectedSize expectedSeed).run (first :: groups) [] (.error .einval)
  /-- `read_packet` and `parse_publish` of the server. -/
  server : ∀ expect topicCapacity,
    Decodes Item.byte (Server.readPublish expect topicCapacity).run (first :: groups) [] (.error ())
  /-- `read_packet` and `_store_publish` of the controller. -/
  controller : ∀ client,
    Decodes id (Controller.readAndStore client).run (first :: groups) [] (.error .value)

theorem encodersAgree (p : Publish) (topic : String) (htopic : p.topic = Controller.encode topic)
    (hnul : 0 ∉ p.topic) : EncodersAgree sha p topic where
  firmwareHeader := Firmware.publishHeader_eq p hnul
  serverHeader := Server.publishHeader_eq p hnul p.id.toNat_toUInt32
  analyticHeader := Controller.mqttPublishHeader_eq p htopic
  publishMemory := ⟨_, map_byte_plain _, Firmware.produces_publishMemory p hnul⟩
  publishPattern operation seed size hp := by
    refine ⟨_, ?_, Firmware.produces_publishPattern sha operation p hnul hp⟩
    rw [List.map_append, map_byte_plain, map_byte_placed, Publish.encode_eq_header]
  serverPublish operation := by
    refine ⟨_, ?_, Server.produces_publish operation p hnul p.id.toNat_toUInt32⟩
    rw [List.map_append, map_byte_plain, map_byte_items, Publish.encode_eq_header]
  controllerPublish _ hid := Controller.publishPacket_eq p htopic hid
  controllerPattern _ hid _ _ hp := Controller.publishPatternPacket_eq p htopic hid hp

theorem decodersAgree (p : Publish) (topic : String) (htopic : p.topic = Controller.encode topic)
    (hlen : p.topic.length ≤ 31) : DecodersAgree sha p topic where
  firmware expect small smallCapacity expectedSize expectedSeed hsmall := by
    obtain ⟨small', hcopy, hread⟩ := Firmware.consumes_readPublish sha p expect expectedSize
      expectedSeed (Nat.lt_succ_of_le hlen) hsmall
    exact ⟨small', hcopy, decodes_of_consumes hread (.refl _)⟩
  server expect :=
    decodes_of_consumes (Server.consumes_readPublish p expect (by omega)) (.refl _)
  controller client := by
    have hpacket := Controller.consumes_readPacket 0x32 p.body
      (by rw [p.length_body]; exact p.remaining_lt)
    rw [p.length_body, ← Publish.encode_eq] at hpacket
    have hstore := Controller.storePublish_body p htopic client
    rw [← List.map_id (pubackBytes _)]
    refine decodes_of_consumes (Io.consumes_bind_cont hpacket)
      (?_ : Proc.Produces _ (pubackBytes p.id.toNat) [] _)
    simp only [hstore]
    exact Io.produces_bind_pure (Io.produces_writeAll _ _) rfl

theorem rejectsFifthByte (first : UInt8) {groups : Bytes} (hlen : groups.length = 4)
    (hcont : ∀ b ∈ groups, 128 ≤ b.toNat) : RejectsFifthByte sha first groups where
  firmware expect topicCapacity small smallCapacity expectedSize expectedSeed := by
    have hlong := consumes_readRemaining_long (ω := Item) (ε := Event) hcont Firmware.Errno.eio
      Firmware.Errno.einval 1 0
    rw [hlen] at hlong
    have hheader : Firmware.readPacketHeader.proc.Consumes ([first] ++ groups) []
        (.ret (.error .einval)) :=
      Io.consumes_bind (Io.consumes_readOne first _) (Io.consumes_bind_error hlong)
    exact decodes_of_consumes (Io.consumes_bind_error (Io.consumes_orFail_error hheader _))
      (.refl _)
  server expect topicCapacity := by
    have hlong := consumes_readRemaining_long (ω := Item) (ε := Event) hcont () () 1 0
    rw [hlen] at hlong
    have hpacket : Server.readPacket.proc.Consumes ([first] ++ groups) [] (.ret (.error ())) :=
      Io.consumes_bind (Io.consumes_readOne first _) (Io.consumes_bind_error hlong)
    exact decodes_of_consumes (Io.consumes_bind_error hpacket) (.refl _)
  controller client := by
    have hlong := consumes_readRemaining_long (ω := UInt8) (ε := Empty) hcont
      Controller.Exn.connection Controller.Exn.value 1 0
    rw [hlen] at hlong
    have hheader : Controller.readPacketHeader.proc.Consumes ([first] ++ groups) []
        (.ret (.error .value)) :=
      Io.consumes_bind (Io.consumes_readOne first _) (Io.consumes_bind_error hlong)
    exact decodes_of_consumes (Io.consumes_bind_error (Io.consumes_bind_error hheader)) (.refl _)

/-- **One wire format.**  For every topic of at most 31 bytes without NUL, every packet id and every
payload that fits, there is one packet that every encoder writes and every decoder reads back
for every fragmentation; and a fourth byte of the Remaining Length that asks for a fifth is
refused by every decoder. -/
theorem publish_wire_format (topic : String) (id : UInt16) (payload : Bytes)
    (hlen : (Controller.encode topic).length ≤ 31) (hnul : 0 ∉ Controller.encode topic)
    (hremaining : 2 + (Controller.encode topic).length + 2 + payload.length < 2 ^ 28) :
    (∃ p : Publish, p.topic = Controller.encode topic ∧ p.id = id ∧ p.payload = payload ∧
      EncodersAgree sha p topic ∧ DecodersAgree sha p topic) ∧
    ∀ (first : UInt8) (groups : Bytes), groups.length = 4 → (∀ b ∈ groups, 128 ≤ b.toNat) →
      RejectsFifthByte sha first groups := by
  let p : Publish := ⟨Controller.encode topic, id, payload, by omega, hremaining⟩
  constructor
  · exact ⟨p, rfl, rfl, rfl, encodersAgree sha p topic rfl hnul, decodersAgree sha p topic rfl hlen⟩
  · intro first groups hfour hcont
    exact rejectsFifthByte sha first hfour hcont

/-- SHA-256 of the text `READY`. -/
def readyDigest : Digest :=
  ![0xC2, 0xE3, 0xAC, 0x47, 0xF4, 0xA3, 0x25, 0x46,
    0x9C, 0x1A, 0x2D, 0x5F, 0x11, 0x7E, 0x46, 0x3E,
    0xC9, 0x43, 0xC7, 0x21, 0x98, 0x6D, 0x5D, 0x9F,
    0x09, 0xAC, 0x45, 0x40, 0xB7, 0xD8, 0x05, 0x26]

/-- The packet with which the device announces itself. -/
theorem publish_wire_format_ready :
    (∃ p : Publish, p.topic = Controller.encode "bench/up" ∧ p.id = 11 ∧
      p.payload = ascii "READY" ∧ EncodersAgree (fun _ ↦ readyDigest) p "bench/up" ∧
      DecodersAgree (fun _ ↦ readyDigest) p "bench/up") ∧
    ∀ (first : UInt8) (groups : Bytes), groups.length = 4 → (∀ b ∈ groups, 128 ≤ b.toNat) →
      RejectsFifthByte (fun _ ↦ readyDigest) first groups :=
  publish_wire_format _ "bench/up" 11 (ascii "READY")
    (by rw [Controller.encode_eq]; decide) (by rw [Controller.encode_eq]; decide)
    (by rw [Controller.encode_eq]; decide)

end PeripheralBench.Mqtt

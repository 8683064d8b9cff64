import PeripheralBench.Ble.Frames

/-!
# The BLE bridge

`gateway/ble_mqtt_bridge.c` between the device and the TLS server, with the receiving side of
`firmware/src/main.c`.  TLS bytes and control messages share the L2CAP channel.  Neither end says
which is which: an SDU that looks like a control frame is taken for one.

`relay` is the bridge's way from the device to the server, `cut` its way back, and `Receiver` is
where that leads.  Allocations succeed and the TCP connection takes what it is given.  Of what the
bridge prints only the control messages are kept.
-/

open PeripheralBench.Text PeripheralBench.Mqtt

namespace PeripheralBench.Ble

/-- A little-endian word. -/
def le16 (low high : UInt8) : UInt16 := UInt16.ofNat (word16 high low)

/-! ## From the device to the server -/

/-- `struct control_state`. -/
structure ControlState where
  /-- `message_id`. -/
  messageId : UInt16 := 0
  /-- `active`. -/
  active : Bool := false
  /-- `pending`. -/
  pending : Bytes := []
  /-- `identity_ready`. -/
  identityReady : Bool := false
  /-- `identity_error`. -/
  identityError : Bool := false
deriving DecidableEq

/-- `struct sdu_prefix_state`. -/
structure SduPrefixState where
  /-- `first_packet`. -/
  firstPacket : Bool := true
  /-- `framing_decided`. -/
  framingDecided : Bool := false
  /-- `strip_prefix`. -/
  stripPrefix : Bool := false
  /-- `pending`. -/
  pending : Bytes := []
  /-- `expected_sdu_len`. -/
  expectedSduLen : ℕ := 0
deriving DecidableEq

/-- Where the marker of a control frame stands, if there is one. -/
def controlBase (data : Bytes) : Option ℕ :=
  if controlHeaderSize ≤ data.length ∧ data.take 5 = controlMarker then some 0
  else if controlHeaderSize + 2 ≤ data.length ∧ (data.drop 2).take 5 = controlMarker then some 2
  else none

/-- What `handle_control_frame` makes of an SDU. -/
inductive ControlResult where
  /-- 0: it is no control frame. -/
  | plain
  /-- -1: the fragments are out of sequence. -/
  | invalid
  /-- 1: it is a control frame; the bridge prints a message if the frame ends one. -/
  | consumed (s : ControlState) (printed : List Bytes)
deriving DecidableEq

/-- A message as it is printed: it ends with a newline. -/
def printed (message : Bytes) : Bytes :=
  if message.getLast? = some 10 then message else message ++ [10]

/-- The `CONTROL_FLAG_END` branch. -/
def endMessage (s : ControlState) : ControlResult :=
  .consumed { s with
      identityReady := s.identityReady || decide (ascii "[BENCH_PKI] status=ready" <:+: s.pending)
      identityError := s.identityError || decide (ascii "[BENCH_PKI] status=error" <:+: s.pending)
      active := false
      pending := [] }
    [printed s.pending]

/-- `handle_control_frame` once the marker has been found. -/
def handleFragment (s : ControlState) (flags : UInt8) (messageId : UInt16) (payload : Bytes) :
    ControlResult :=
  let s := if flags &&& 0x01 ≠ 0 then
      { s with messageId := messageId, active := true, pending := [] }
    else s
  if s.active = false ∨ s.messageId ≠ messageId then .invalid
  else
    let s := { s with pending := s.pending ++ payload }
    if flags &&& 0x02 ≠ 0 then endMessage s else .consumed s []

/-- `handle_control_frame`. -/
def handleControlFrame (s : ControlState) (data : Bytes) : ControlResult :=
  match controlBase data with
  | none => .plain
  | some base =>
      handleFragment s (data.getD (base + 5) 0)
        (le16 (data.getD (base + 6) 0) (data.getD (base + 7) 0))
        (data.drop (base + controlHeaderSize))

/-- `drain_prefixed_sdu`: what is sent, what is left, and how much of the current SDU is missing. -/
def drainPrefixedSdu (pending : Bytes) (expected : ℕ) : Bytes × Bytes × ℕ :=
  match pending with
  | [] => ([], [], expected)
  | b :: rest =>
      if expected = 0 then
        match rest with
        | [] => ([], [b], 0)
        | c :: rest => drainPrefixedSdu rest (le16 b c).toNat
      else
        let chunk := min expected (rest.length + 1)
        let next := drainPrefixedSdu ((b :: rest).drop chunk) (expected - chunk)
        ((b :: rest).take chunk ++ next.1, next.2)
termination_by pending.length
decreasing_by
  · simp only [List.length_cons]; omega
  · simp only [List.length_drop, List.length_cons]; omega

/-- The state of `relay_loop`, with what it has sent to the server and the messages it has printed.
-/
structure Bridge where
  /-- `ble_rx_state`. -/
  framing : SduPrefixState := {}
  /-- `control_state`. -/
  control : ControlState := {}
  /-- The bytes sent to the server. -/
  tcp : Bytes := []
  /-- The control messages printed. -/
  stdout : List Bytes := []
deriving DecidableEq

namespace Bridge

/-- The first payload decides if SDUs come with their length in front of them. -/
def looksPrefixed (data : Bytes) : Bool :=
  decide (5 ≤ data.length) && ((data.getD 2 0 == 20) || (data.getD 2 0 == 21)
    || (data.getD 2 0 == 22) || (data.getD 2 0 == 23)) && (data.getD 3 0 == 3)

/-- `framing_decided`. -/
def decideFraming (s : SduPrefixState) (data : Bytes) : SduPrefixState :=
  if s.framingDecided then { s with firstPacket := false }
  else { s with firstPacket := false, framingDecided := true, stripPrefix := looksPrefixed data }

/-- `forward_ble_payload` of an SDU that is no control frame. -/
def forwardPlain (b : Bridge) (data : Bytes) : Bridge :=
  let s := decideFraming b.framing data
  if s.stripPrefix then
    let drained := drainPrefixedSdu (s.pending ++ data) s.expectedSduLen
    { b with
      framing := { s with pending := drained.2.1, expectedSduLen := drained.2.2 }
      tcp := b.tcp ++ drained.1 }
  else { b with framing := s, tcp := b.tcp ++ data }

/-- `forward_ble_payload`. -/
def forwardBlePayload (b : Bridge) (data : Bytes) : Option Bridge :=
  match handleControlFrame b.control data with
  | .invalid => none
  | .consumed s printed => some { b with control := s, stdout := b.stdout ++ printed }
  | .plain => some (b.forwardPlain data)

/-- One SDU received by `relay_loop`; an empty one ends it. -/
def receive (b : Bridge) (data : Bytes) : Option Bridge :=
  if data = [] then none else b.forwardBlePayload data

end Bridge

/-- `relay_loop` over the SDUs from the device. -/
def relay (b : Bridge) (sdus : List Bytes) : Option Bridge := sdus.foldlM Bridge.receive b

/-! ## From the server to the device -/

/-- `relay_loop` over the reads from the server: the SDUs it sends.  An empty read ends it. -/
def relayTcp (mtu : ℕ) (reads : List Bytes) : List Bytes :=
  (reads.takeWhile (· ≠ [])).flatMap (cut mtu)

/-- What `l2cap_recv` takes for a control frame. -/
def IsControl (data : Bytes) : Prop := controlHeaderSize ≤ data.length ∧ data.take 5 = controlMarker

instance (data : Bytes) : Decidable (IsControl data) := inferInstanceAs (Decidable (_ ∧ _))

/-- `sscanf(payload, "[BENCH_SELECT] root=%95s leaf=%95s", …)`. -/
def scanSelect : Scan (Bytes × Bytes) := do
  Scan.literal (ascii "[BENCH_SELECT]")
  Scan.space
  Scan.literal (ascii "root=")
  let root ← Scan.word 95
  Scan.space
  Scan.literal (ascii "leaf=")
  let leaf ← Scan.word 95
  pure (root, leaf)

/-- The receiving side of the firmware. -/
structure Receiver where
  /-- `l2cap_rx_fifo`. -/
  fifo : List Bytes := []
  /-- What is left of `l2cap_rx_current`. -/
  current : Option Bytes := none
  /-- `l2cap_rx_overflow`. -/
  overflow : Bool := false
  /-- The channel is lost. -/
  lost : Bool := false
  /-- The names of the profile that has been selected. -/
  selected : Option (Bytes × Bytes) := none
  /-- What `l2cap_wolfssl_recv` has given to wolfSSL. -/
  delivered : Bytes := []
deriving DecidableEq

namespace Receiver

/-- `l2cap_recv`. -/
def l2capRecv (r : Receiver) (data : Bytes) : Receiver :=
  if IsControl data then
    match scanSelect.run ((data.drop controlHeaderSize).take 159) with
    | some names => { r with selected := some names }
    | none => r
  else { r with fifo := r.fifo ++ [data] }

/-- `l2cap_rx_current`, taken from the queue if there is none. -/
def next (r : Receiver) : Option (Bytes × Receiver) :=
  match r.current, r.fifo with
  | some data, _ => some (data, r)
  | none, data :: fifo => some (data, { r with fifo := fifo })
  | none, [] => none

/-- What `l2cap_wolfssl_recv` returns. -/
inductive RecvReturn where
  /-- A number of bytes. -/
  | received (n : ℕ)
  /-- `WOLFSSL_CBIO_ERR_GENERAL`. -/
  | general
  /-- `WOLFSSL_CBIO_ERR_CONN_CLOSE`. -/
  | connClose
  /-- `WOLFSSL_CBIO_ERR_WANT_READ`. -/
  | wantRead
deriving DecidableEq

/-- `l2cap_wolfssl_recv`. -/
def l2capWolfsslRecv (r : Receiver) (size : ℕ) : Receiver × RecvReturn :=
  if r.overflow then (r, .general)
  else
    match r.next with
    | some (data, r) =>
        let rest := data.drop (min size data.length)
        ({ r with
            current := if rest = [] then none else some rest
            delivered := r.delivered ++ data.take (min size data.length) },
          .received (min size data.length))
    | none => (r, if r.lost then .connClose else .wantRead)

end Receiver

/-- What happens at the receiving side. -/
inductive RxEvent where
  /-- An SDU arrives. -/
  | sdu (data : Bytes)
  /-- wolfSSL asks for at most this many bytes. -/
  | read (size : ℕ)
deriving DecidableEq

/-- One event. -/
def Receiver.step (r : Receiver) : RxEvent → Receiver
  | .sdu data => r.l2capRecv data
  | .read size => (r.l2capWolfsslRecv size).1

/-- The receiving side after these events. -/
def Receiver.run (r : Receiver) (es : List RxEvent) : Receiver := es.foldl Receiver.step r

end PeripheralBench.Ble

import PeripheralBench.Ble.Control
import PeripheralBench.Pki.Selection

/-!
# Arming the board

Before every session a gateway tells the board the root and the leaf of the case, and waits until
the board has answered (`select_pki_profile`).  The board goes round the loop in `main`: it clears
the last selection, advertises, waits for a connection and for a selection, looks at what has been
selected, answers and begins the session.  The callbacks of the Bluetooth stack come in between at
any time, and a connection may break at any time.

The main thread takes a step for each access to a variable that the callbacks write.  The callbacks
run in a cooperative thread, so each of them is one step.  `benchmark_control_send` is one step as
well: it hands over some first frames of its message (`benchmarkControlSend_handed`), and the
gateway cannot tell when.
-/

open PeripheralBench.Text PeripheralBench.Ble PeripheralBench.Durable

namespace PeripheralBench.Pki

namespace Arming

/-! ## What the board answers -/

/-- The answer to a selection that the board knows. -/
def readyText (root : CaEntry) (signature : Signature) : Bytes :=
  ascii "[BENCH_PKI] status=ready root=" ++ root.id ++ ascii " leaf=" ++ signature.name ++
    ascii " certificate_verify_alg=" ++ signature.tlsSignatureScheme ++ [10]

/-- The answer to a selection that it does not know. -/
def errorText : Bytes := ascii "[BENCH_PKI] status=error error=unknown_profile" ++ [10]

/-- What `benchmark_control_send` finds in `char response[192]` after `snprintk`: it is told the
length of the text, and reads behind the buffer if the text is longer than that. -/
def response (text : Bytes) : Option Bytes :=
  if text.length ≤ 192 then some ((text.take 191 ++ [0]).take text.length) else none

/-! ## The gateway -/

/-- Where a gateway is in `select_pki_profile`. -/
inductive Stage where
  /-- It is connected, and has not sent its selection. -/
  | connected
  /-- It waits for the answer. -/
  | waiting
  /-- It has returned, and relays the session. -/
  | ready
  /-- It has given up. -/
  | failed
deriving DecidableEq

/-- A gateway, with the names in its options. -/
structure Gateway where
  /-- `root_signature`. -/
  root : Bytes
  /-- `leaf_signature`. -/
  leaf : Bytes
  stage : Stage := .connected
  /-- `control`. -/
  control : ControlState := {}
deriving DecidableEq

/-- A round of the wait for the answer in which a frame is received. -/
def Gateway.receive (g : Gateway) (frame : Bytes) : Gateway :=
  let effect := controlEffect g.control frame
  { g with
    control := effect.state
    stage :=
      if effect.returns < 0 then .failed
      else if effect.state.identityReady then .ready
      else if effect.state.identityError then .failed
      else .waiting }

/-! ## The system -/

/-- Where the main thread of the board is. -/
inductive Place where
  /-- At the head of the loop, before `l2cap_connected_sem` is reset. -/
  | rearm
  /-- Before `pki_profile_selected_sem` is reset. -/
  | resetSelected
  /-- Before `selected_root = NULL`. -/
  | clearRoot
  /-- Before `selected_signature = NULL`. -/
  | clearSignature
  /-- It advertises. -/
  | waitConnected
  /-- It waits for a selection. -/
  | waitSelected
  /-- At `selected_root == NULL`. -/
  | checkRoot
  /-- At `selected_signature == NULL`. -/
  | checkSignature
  /-- At `selected_root->id`. -/
  | readRoot
  /-- At `selected_signature->id`. -/
  | readSignature (root : CaEntry)
  /-- In `benchmark_control_send`.  The flag says that a session follows. -/
  | respond (ready : Bool) (message : Bytes)
  /-- In `start_secure_mqtt_session`, at the root. -/
  | loadRoot
  /-- In `start_secure_mqtt_session`, at the signature scheme. -/
  | loadSignature (root : CaEntry)
  /-- In the session. -/
  | session (root : CaEntry) (signature : Signature)
  /-- A null pointer has been followed, or a buffer left. -/
  | fault
deriving DecidableEq

/-- A channel, with the frames that are under way. -/
structure Link where
  /-- The MTU for what the board sends. -/
  mtu : ℕ
  /-- The frames for the board. -/
  up : List Bytes := []
  /-- The frames for the gateway. -/
  down : List Bytes := []
deriving DecidableEq

/-- A session that the board has begun. -/
structure Session where
  /-- The names in the options of the gateway. -/
  rootName : Bytes
  leafName : Bytes
  /-- The root that is loaded, and the signature scheme that is asked for. -/
  root : CaEntry
  signature : Signature
deriving DecidableEq

/-- The board and the gateways. -/
structure System where
  /-- `l2cap_connected_sem`. -/
  connected : Bool := false
  /-- `pki_profile_selected_sem`. -/
  selected : Bool := false
  /-- `selected_root`. -/
  root : Option CaEntry := none
  /-- `selected_signature`. -/
  signature : Option Signature := none
  /-- `benchmark_control_message_id`. -/
  messageId : UInt16 := 0
  place : Place := .rearm
  /-- The gateway that has connected last. -/
  gateway : Option Gateway := none
  /-- Its channel, while that is open. -/
  link : Option Link := none
  /-- The gateways before it. -/
  earlier : List Gateway := []
  /-- The sessions that the board has begun. -/
  begun : List Session := []
deriving DecidableEq

/-- What the main thread learns from outside in a step. -/
structure Input where
  /-- The wait is over. -/
  late : Bool := false
  /-- How many frames are handed over, at most. -/
  frames : ℕ := 0
  /-- `benchmark_control_send` fails. -/
  error : Bool := false
  /-- The board reboots when the session is over. -/
  reboot : Bool := false

/-- What happens next. -/
inductive Event where
  /-- A gateway opens a channel. -/
  | connect (root leaf : Bytes) (mtu : ℕ)
  /-- It sends its selection. -/
  | select
  /-- It relays some data. -/
  | forward (data : Bytes)
  /-- It reads a frame. -/
  | receive
  /-- It waits no longer. -/
  | giveUp
  /-- A frame arrives at the board. -/
  | deliver
  /-- The channel is closed. -/
  | close
  /-- The main thread of the board takes a step. -/
  | main (input : Input)

namespace System

variable (t : Tables)

/-- `l2cap_recv`.  What is not a control frame goes into the receive queue. -/
def l2capRecv (s : System) (data : Bytes) : System :=
  if IsControl data then
    match scanSelect.run ((data.drop controlHeaderSize).take 159) with
    | some (rootName, leafName) =>
        { s with
          root := t.selectRoot rootName
          signature := t.selectSignature leafName
          selected := true }
    | none => s
  else s

/-- `benchmark_control_send`, and what comes after it. -/
def respond (s : System) (ready : Bool) (message : Bytes) (input : Input) : System :=
  let s := { s with messageId := s.messageId + 1, place := .rearm }
  match s.link with
  | none => s
  | some link =>
      let mtu := min link.mtu l2capTxSduMtu
      if mtu ≤ controlHeaderSize then s
      else
        let frames := controlFrames s.messageId mtu message
        { s with
          link := some { link with down := link.down ++ frames.take input.frames }
          place :=
            if ready = true ∧ frames.length ≤ input.frames ∧ input.error = false then .loadRoot
            else .rearm }

/-- `start_secure_mqtt_session` has returned.  The board may start again. -/
def leave (s : System) (input : Input) : System :=
  if input.reboot then { gateway := s.gateway, earlier := s.earlier, begun := s.begun }
  else { s with place := .rearm }

/-- The session begins. -/
def begin (s : System) (root : CaEntry) (signature : Signature) : System :=
  { s with
    place := .session root signature
    begun := s.begun ++ s.gateway.toList.map fun g ↦ ⟨g.root, g.leaf, root, signature⟩ }

/-- One step of `main`. -/
def mainStep (s : System) (input : Input) : System :=
  match s.place with
  | .rearm => { s with connected := false, place := .resetSelected }
  | .resetSelected => { s with selected := false, place := .clearRoot }
  | .clearRoot => { s with root := none, place := .clearSignature }
  | .clearSignature => { s with signature := none, place := .waitConnected }
  | .waitConnected =>
      if s.connected then { s with connected := false, place := .waitSelected }
      else s
  | .waitSelected =>
      if s.selected then { s with selected := false, place := .checkRoot }
      else if input.late then { s with place := .rearm }
      else s
  | .checkRoot =>
      match s.root with
      | none => { s with place := .respond false errorText }
      | some _ => { s with place := .checkSignature }
  | .checkSignature =>
      match s.signature with
      | none => { s with place := .respond false errorText }
      | some _ => { s with place := .readRoot }
  | .readRoot =>
      match s.root with
      | none => { s with place := .fault }
      | some root => { s with place := .readSignature root }
  | .readSignature root =>
      match s.signature.bind fun signature ↦ response (readyText root signature) with
      | none => { s with place := .fault }
      | some message => { s with place := .respond true message }
  | .respond ready message => s.respond ready message input
  | .loadRoot =>
      match s.root, s.signature with
      | some root, some _ => { s with place := .loadSignature root }
      | _, _ => s.leave input
  | .loadSignature root =>
      match s.signature with
      | none => { s with place := .fault }
      | some signature => s.begin root signature
  | .session _ _ => s.leave input
  | .fault => s

/-- A gateway opens a channel, which the board accepts if there is no other. -/
def connect (s : System) (root leaf : Bytes) (mtu : ℕ) : System :=
  match s.link with
  | some _ => s
  | none =>
      { s with
        connected := true
        gateway := some { root := root, leaf := leaf }
        link := some { mtu := mtu }
        earlier := s.earlier ++ s.gateway.toList }

/-- What the gateway does, which sees one end of the channel. -/
def gatewayStep (s : System) (f : Gateway → Link → Gateway × Link) : System :=
  match s.gateway, s.link with
  | some g, some link =>
      let (g, link) := f g link
      { s with gateway := some g, link := some link }
  | _, _ => s

/-- `select_pki_profile`, up to the wait. -/
def select (g : Gateway) (link : Link) : Gateway × Link :=
  match g.stage, selectFrame g.root g.leaf with
  | .connected, some frame => ({ g with stage := .waiting }, { link with up := link.up ++ [frame] })
  | .connected, none => ({ g with stage := .failed }, link)
  | _, _ => (g, link)

/-- The relay sends an SDU. -/
def forward (data : Bytes) (g : Gateway) (link : Link) : Gateway × Link :=
  match g.stage with
  | .ready => (g, { link with up := link.up ++ [data] })
  | _ => (g, link)

/-- A frame is read, by `select_pki_profile` or by the relay, which has a control state of its own.
-/
def receive (g : Gateway) (link : Link) : Gateway × Link :=
  match g.stage, link.down with
  | .waiting, frame :: down => (g.receive frame, { link with down := down })
  | .ready, _ :: down => (g, { link with down := down })
  | _, _ => (g, link)

/-- Ten seconds have passed. -/
def giveUp (g : Gateway) (link : Link) : Gateway × Link :=
  match g.stage with
  | .waiting => ({ g with stage := .failed }, link)
  | _ => (g, link)

/-- The first frame under way arrives at the board. -/
def deliver (s : System) : System :=
  match s.link with
  | some { up := frame :: up, mtu, down } =>
      { s with link := some { mtu := mtu, up := up, down := down } }.l2capRecv t frame
  | _ => s

/-- One event.  What is under way is lost with the channel. -/
def step (s : System) : Event → System
  | .connect root leaf mtu => s.connect root leaf mtu
  | .select => s.gatewayStep select
  | .forward data => s.gatewayStep (forward data)
  | .receive => s.gatewayStep receive
  | .giveUp => s.gatewayStep giveUp
  | .deliver => s.deliver t
  | .close => { s with link := none }
  | .main input => s.mainStep input

/-- The state after these events, from the start of the board. -/
def run (events : List Event) : System := lives (step t) {} events

/-- All gateways so far. -/
def gateways (s : System) : List Gateway := s.earlier ++ s.gateway.toList

end System

end Arming

end PeripheralBench.Pki

import PeripheralBench.Mqtt.Wire

/-!
# The L2CAP channel of the firmware and its two senders

`l2cap_wolfssl_send` and `benchmark_control_send` of `firmware/src/main.c`.  Both hand SDUs to the
same channel from the same thread, and both wait for the completion of an SDU on the same binary
semaphore, `l2cap_tx_complete_sem`.  The callbacks of the Bluetooth stack run in between:
`l2cap_sent` gives the semaphore once for every SDU the channel has accepted, at any later time or
never.

A sender is a machine.  `act` is one statement of it that depends on its surroundings, together with
the answer it gets; `run` lets the callbacks happen anywhere between these statements.  What the
senders do for the statistics of the benchmark is left out.
-/

open PeripheralBench.Text

namespace PeripheralBench.Ble

/-! ## The channel -/

/-- `L2CAP_TX_SDU_MTU`. -/
def l2capTxSduMtu : ℕ := 5120

/-- The part of the firmware's state that the senders share with the callbacks. -/
structure Channel where
  /-- `le_chan->tx.mtu`. -/
  txMtu : ℕ
  /-- `chan->conn != NULL`. -/
  conn : Bool
  /-- `l2cap_peer_disconnected`. -/
  peerDisconnected : Bool
  /-- `l2cap_rx_current != NULL || !k_fifo_is_empty(&l2cap_rx_fifo)`. -/
  rxPending : Bool
  /-- `l2cap_tx_complete_sem` has been given. -/
  txComplete : Bool
  /-- The SDUs that the channel has accepted and not yet reported as sent. -/
  outstanding : ℕ
deriving DecidableEq

/-- The errors of `bt_l2cap_chan_send`. -/
inductive SendError where
  /-- `-EAGAIN`. -/
  | again
  /-- `-ENOMEM`. -/
  | noMem
  /-- Any other negative number. -/
  | other
deriving DecidableEq

/-- A statement of a sender, with the answer it gets. -/
inductive Action where
  /-- The connection is looked at. -/
  | check
  /-- `net_buf_alloc` returns a buffer, or none. -/
  | alloc (buffer : Bool)
  /-- `k_sem_reset(&l2cap_tx_complete_sem)`. -/
  | reset
  /-- `bt_l2cap_chan_send` accepts the SDU, or refuses it. -/
  | send (err : Option SendError)
  /-- `k_sem_take(&l2cap_tx_complete_sem, …)` succeeds, or times out. -/
  | take (completed : Bool)
deriving DecidableEq

/-- A callback of the Bluetooth stack. -/
inductive Callback where
  /-- `l2cap_sent`. -/
  | sent
  /-- `l2cap_disconnected`. -/
  | disconnected
  /-- The stack lets go of the connection. -/
  | released
  /-- The queue of received SDUs has become empty or nonempty. -/
  | rx (pending : Bool)
deriving DecidableEq

/-- Something that happens while a sender runs. -/
inductive Event where
  /-- The sender takes a step. -/
  | act (a : Action)
  /-- The stack calls back. -/
  | call (c : Callback)
deriving DecidableEq

namespace Channel

/-- The effect of a callback.  `l2cap_sent` is called for SDUs that have been accepted only. -/
def callback (ch : Channel) : Callback → Option Channel
  | .sent =>
      if 0 < ch.outstanding then
        some { ch with outstanding := ch.outstanding - 1, txComplete := true }
      else none
  | .disconnected => some { ch with peerDisconnected := true, txComplete := true }
  | .released => some { ch with conn := false }
  | .rx pending => some { ch with rxPending := pending }

/-- `k_sem_take`: it succeeds if the semaphore has been given, and times out if it has not. -/
def take (ch : Channel) (completed : Bool) : Option Channel :=
  if ch.txComplete = completed then some { ch with txComplete := false } else none

/-- `bt_l2cap_chan_send`. -/
def accept (ch : Channel) : Channel := { ch with outstanding := ch.outstanding + 1 }

/-- The channel is up, and the peer is there. -/
def Connected (ch : Channel) : Prop := ch.conn = true ∧ ch.peerDisconnected = false

instance (ch : Channel) : Decidable ch.Connected := inferInstanceAs (Decidable (_ ∧ _))

/-- `chan->conn == NULL || l2cap_peer_disconnected`. -/
def lost (ch : Channel) : Bool := !ch.conn || ch.peerDisconnected

theorem Connected.lost_eq {ch : Channel} (h : ch.Connected) : ch.lost = false := by
  rw [lost, h.1, h.2]; rfl

end Channel

/-- A machine and the callbacks take their steps in the order of the list. -/
def run {σ : Type} (act : σ → Channel → Action → Option (σ × Channel)) :
    σ × Channel → List Event → Option (σ × Channel)
  | s, [] => some s
  | s, .act a :: es => (act s.1 s.2 a).bind fun s ↦ run act s es
  | s, .call c :: es => (s.2.callback c).bind fun ch ↦ run act (s.1, ch) es

/-- What every statement of a machine preserves holds after every run of it. -/
theorem run_invariant {σ : Type} {act : σ → Channel → Action → Option (σ × Channel)} {P : σ → Prop}
    (hact : ∀ {c ch a c' ch'}, P c → act c ch a = some (c', ch') → P c') {c c' : σ}
    {ch ch' : Channel} {es : List Event} (hc : P c) (h : run act (c, ch) es = some (c', ch')) :
    P c' := by
  induction es generalizing c ch with
  | nil =>
      obtain ⟨rfl, -⟩ := Prod.mk.inj (Option.some.inj h)
      exact hc
  | cons e es ih =>
      cases e with
      | act a =>
          obtain ⟨⟨c₁, ch₁⟩, hstep, h⟩ := Option.bind_eq_some_iff.mp h
          exact ih (hact hc hstep) h
      | call e =>
          obtain ⟨ch₁, -, h⟩ := Option.bind_eq_some_iff.mp h
          exact ih hc h

/-- The channel stays up. -/
def StaysUp (es : List Event) : Prop := .call .disconnected ∉ es ∧ .call .released ∉ es

instance (es : List Event) : Decidable (StaysUp es) := inferInstanceAs (Decidable (_ ∧ _))

/-! ## `l2cap_wolfssl_send` -/

/-- What `l2cap_wolfssl_send` returns. -/
inductive SendReturn where
  /-- A number of bytes. -/
  | sent (n : ℕ)
  /-- `WOLFSSL_CBIO_ERR_WANT_READ`. -/
  | wantRead
  /-- `WOLFSSL_CBIO_ERR_CONN_CLOSE`. -/
  | connClose
  /-- `WOLFSSL_CBIO_ERR_GENERAL`. -/
  | general
  /-- `WOLFSSL_CBIO_ERR_TIMEOUT`. -/
  | timeout
deriving DecidableEq

/-- The statement that `l2cap_wolfssl_send` has reached. -/
inductive SendPoint where
  | check
  | alloc
  | reset
  | send
  | take
  | done (r : SendReturn)
deriving DecidableEq

/-- A call of `l2cap_wolfssl_send`. -/
structure SendCall where
  /-- `sent`. -/
  sent : ℕ
  /-- `err`: the last answer of `bt_l2cap_chan_send` for this chunk. -/
  err : Option SendError
  /-- Where the call is. -/
  point : SendPoint
  /-- The payloads that the channel has accepted from this call. -/
  handed : List Bytes
deriving DecidableEq

namespace SendCall

/-- `mtu`. -/
def sduMtu (txMtu : ℕ) : ℕ := if min txMtu l2capTxSduMtu = 0 then 23 else min txMtu l2capTxSduMtu

/-- `sent > 0 ? sent : r`. -/
def sentOr (sent : ℕ) (r : SendReturn) : SendReturn := if 0 < sent then .sent sent else r

variable (buf : Bytes) (mtu : ℕ)

/-- The `chunk` bytes at `buf + sent`. -/
def chunk (c : SendCall) : Bytes := (buf.drop c.sent).take mtu

/-- `while (sent < sz)`. -/
def loop (c : SendCall) : SendCall :=
  if c.sent < buf.length then { c with err := none, point := .check }
  else { c with point := .done (.sent c.sent) }

/-- The beginning of a call. -/
def start (ch : Channel) : SendCall :=
  if ch.peerDisconnected && ch.rxPending then ⟨0, none, .done .wantRead, []⟩
  else if !ch.conn then ⟨0, none, .done .connClose, []⟩
  else loop buf ⟨0, none, .check, []⟩

/-- `while (err == -EAGAIN || err == -ENOMEM)`: try again, or leave the inner loop. -/
def retry (c : SendCall) : SendCall :=
  if c.err = some .again ∨ c.err = some .noMem then { c with point := .check }
  else { c with point := .take }

/-- One statement. -/
def act (c : SendCall) (ch : Channel) (a : Action) : Option (SendCall × Channel) :=
  match c.point, a with
  | .check, .check =>
      if ch.peerDisconnected && ch.rxPending then
        some ({ c with point := .done (sentOr c.sent .wantRead) }, ch)
      else if !ch.conn then some ({ c with point := .done (sentOr c.sent .connClose) }, ch)
      else some ({ c with point := .alloc }, ch)
  | .alloc, .alloc true => some ({ c with point := .reset }, ch)
  | .alloc, .alloc false => some (c.retry, ch)
  | .reset, .reset => some ({ c with point := .send }, { ch with txComplete := false })
  | .send, .send none =>
      some (({ c with err := none, handed := c.handed ++ [c.chunk buf mtu] }).retry, ch.accept)
  | .send, .send (some .other) => some ({ c with point := .done (sentOr c.sent .general) }, ch)
  | .send, .send (some e) => some (({ c with err := some e }).retry, ch)
  | .take, .take false =>
      (ch.take false).map fun ch ↦ ({ c with point := .done (sentOr c.sent .timeout) }, ch)
  | .take, .take true =>
      (ch.take true).map fun ch ↦
        if ch.lost then ({ c with point := .done (sentOr c.sent .timeout) }, ch)
        else (({ c with sent := c.sent + (c.chunk buf mtu).length }).loop buf, ch)
  | _, _ => none

end SendCall

/-- `l2cap_wolfssl_send`: the call and the channel after these events. -/
def l2capWolfsslSend (buf : Bytes) (ch : Channel) (es : List Event) : Option (SendCall × Channel) :=
  run (SendCall.act buf (SendCall.sduMtu ch.txMtu)) (SendCall.start buf ch, ch) es

/-! ## `benchmark_control_send` -/

/-- `BENCH_CONTROL_HEADER_SIZE`. -/
def controlHeaderSize : ℕ := 8

/-- `BCTL1`. -/
def controlMarker : Bytes := ascii "BCTL1"

/-- `BENCH_CONTROL_FLAG_START` and `BENCH_CONTROL_FLAG_END`. -/
def controlFlags (start stop : Bool) : UInt8 :=
  (if start then 0x01 else 0) ||| (if stop then 0x02 else 0)

/-- A control frame. -/
def controlFrame (start stop : Bool) (messageId : UInt16) (payload : Bytes) : Bytes :=
  controlMarker ++ [controlFlags start stop, UInt8.ofNat messageId.toNat,
    UInt8.ofNat (messageId.toNat / 256)] ++ payload

/-- What `benchmark_control_send` returns. -/
inductive ControlReturn where
  /-- 0. -/
  | ok
  /-- `-ENOTCONN`. -/
  | notConn
  /-- `-EMSGSIZE`. -/
  | msgSize
  /-- `-ENOMEM`. -/
  | noMem
  /-- The error of `bt_l2cap_chan_send`. -/
  | send (e : SendError)
  /-- `-ETIMEDOUT`. -/
  | timedOut
deriving DecidableEq

/-- The statement that `benchmark_control_send` has reached. -/
inductive ControlPoint where
  | reset
  | alloc
  | send
  | take
  | done (r : ControlReturn)
deriving DecidableEq

/-- A call of `benchmark_control_send`. -/
structure ControlCall where
  /-- `offset`. -/
  offset : ℕ
  /-- Where the call is. -/
  point : ControlPoint
  /-- The frames that the channel has accepted from this call. -/
  handed : List Bytes
deriving DecidableEq

namespace ControlCall

variable (message : Bytes) (messageId : UInt16) (mtu : ℕ)

/-- The beginning of a call. -/
def start (ch : Channel) : ControlCall :=
  if ch.lost then ⟨0, .done .notConn, []⟩
  else if min ch.txMtu l2capTxSduMtu ≤ controlHeaderSize then ⟨0, .done .msgSize, []⟩
  else ⟨0, .reset, []⟩

/-- The `chunk` bytes at `message + offset`. -/
def chunk (offset : ℕ) : Bytes := (message.drop offset).take (mtu - controlHeaderSize)

/-- The frame at an offset. -/
def frame (offset : ℕ) : Bytes :=
  let chunk := chunk message mtu offset
  controlFrame (offset = 0) (offset + chunk.length = message.length) messageId chunk

/-- `while (offset < length)`. -/
def loop (c : ControlCall) : ControlCall :=
  if c.offset < message.length then { c with point := .alloc } else { c with point := .done .ok }

/-- One statement. -/
def act (c : ControlCall) (ch : Channel) (a : Action) : Option (ControlCall × Channel) :=
  match c.point, a with
  | .reset, .reset => some ({ c with point := .alloc }, { ch with txComplete := false })
  | .alloc, .alloc true => some ({ c with point := .send }, ch)
  | .alloc, .alloc false => some ({ c with point := .done .noMem }, ch)
  | .send, .send none =>
      some ({ c with point := .take, handed := c.handed ++ [frame message messageId mtu c.offset] },
        ch.accept)
  | .send, .send (some e) => some ({ c with point := .done (.send e) }, ch)
  | .take, .take false => (ch.take false).map fun ch ↦ ({ c with point := .done .timedOut }, ch)
  | .take, .take true =>
      (ch.take true).map fun ch ↦
        if ch.lost then ({ c with point := .done .timedOut }, ch)
        else
          (({ c with offset := c.offset + (chunk message mtu c.offset).length }).loop message, ch)
  | _, _ => none

end ControlCall

/-- `benchmark_control_send`: the call and the channel after these events. -/
def benchmarkControlSend (message : Bytes) (messageId : UInt16) (ch : Channel) (es : List Event) :
    Option (ControlCall × Channel) :=
  run (ControlCall.act message messageId (min ch.txMtu l2capTxSduMtu))
    (ControlCall.start ch, ch) es

end PeripheralBench.Ble

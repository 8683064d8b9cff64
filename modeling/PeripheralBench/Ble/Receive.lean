import PeripheralBench.Ble.Bridge
import PeripheralBench.Durable.Rewrite

/-!
# The receive queue of the firmware

The stream that wolfSSL reads on the device is a queue of SDUs.  `l2cap_recv` fills it, from the
thread of the Bluetooth stack; `l2cap_wolfssl_recv` empties it; and between two sessions `main`
throws away what is left, buffer by buffer, and sets the counter of queued bytes to zero.  SDUs may
arrive at any time, also while `main` is doing that.

One that arrives after `main` has found the queue empty, and before it resets the counter, is in the
queue and is not counted (`not_consistent`).  Without such arrivals the queue and the counter agree
(`run_consistent`).

A session lasts from one reset of the counter to the next.
-/

open PeripheralBench.Text PeripheralBench.Mqtt PeripheralBench.Durable

namespace PeripheralBench.Ble

/-! ## The state -/

/-- A buffer with an SDU, or what is left of it. -/
structure NetBuf where
  /-- The number of the SDU. -/
  id : ℕ
  /-- The bytes that have not been pulled. -/
  data : Bytes
deriving DecidableEq

/-- Where the main thread is. -/
inductive MainPoint where
  /-- It runs a session. -/
  | session
  /-- At `if (l2cap_rx_current != NULL)`. -/
  | completeCurrent
  /-- At `k_fifo_get`. -/
  | getFifo
  /-- At `bt_l2cap_chan_recv_complete`, with the buffer it has got. -/
  | completePending (pending : NetBuf)
  /-- At `atomic_set`, with the queue found empty. -/
  | setCounter
  /-- At the assignments after that. -/
  | resetFlags
deriving DecidableEq

/-- The receiving side of the firmware. -/
structure Rx where
  /-- `l2cap_rx_fifo`. -/
  fifo : List NetBuf := []
  /-- `l2cap_rx_current`. -/
  current : Option NetBuf := none
  /-- `l2cap_rx_queued_bytes`. -/
  queuedBytes : ℤ := 0
  /-- `l2cap_rx_overflow`. -/
  overflow : Bool := false
  /-- `chan->conn != NULL`. -/
  conn : Bool := false
  /-- `l2cap_peer_disconnected`. -/
  peerDisconnected : Bool := false
  /-- The names of the profile that has been selected. -/
  selected : Option (Bytes × Bytes) := none
  /-- The main thread. -/
  main : MainPoint := .completeCurrent
  /-- How many SDUs have been queued. -/
  arrived : ℕ := 0
  /-- The SDUs given to `bt_l2cap_chan_recv_complete`. -/
  completed : List ℕ := []
  /-- The SDUs of the session that are not control frames. -/
  sdus : List Bytes := []
  /-- The bytes that wolfSSL has got in the session. -/
  returned : Bytes := []
deriving DecidableEq

namespace Rx

/-- The bytes in the queue and in the current buffer. -/
def unread (s : Rx) : Bytes := (s.current.toList ++ s.fifo).flatMap NetBuf.data

/-- The buffer that the main thread is about to complete. -/
def pending (s : Rx) : Option NetBuf :=
  match s.main with
  | .completePending b => some b
  | _ => none

/-- The SDUs that have not been completed. -/
def waiting (s : Rx) : List NetBuf := s.current.toList ++ s.pending.toList ++ s.fifo

/-! ## The operations -/

/-- `l2cap_recv`. -/
def l2capRecv (s : Rx) (data : Bytes) : Rx :=
  if IsControl data then
    match scanSelect.run ((data.drop controlHeaderSize).take 159) with
    | some names => { s with selected := some names }
    | none => s
  else
    { s with
      queuedBytes := s.queuedBytes + data.length
      fifo := s.fifo ++ [⟨s.arrived, data⟩]
      arrived := s.arrived + 1
      sdus := s.sdus ++ [data] }

/-- `l2cap_rx_current = k_fifo_get(&l2cap_rx_fifo, K_NO_WAIT)`, if there is no current buffer. -/
def takeCurrent (s : Rx) : Rx :=
  match s.current, s.fifo with
  | none, b :: fifo => { s with current := some b, fifo := fifo }
  | _, _ => s

/-- wolfSSL is given at most `size` bytes of the current buffer, which is completed when it is
empty. -/
def pull (s : Rx) (size : ℕ) (b : NetBuf) : Rx :=
  let readBytes := min size b.data.length
  let s := { s with
    current := some { b with data := b.data.drop readBytes }
    queuedBytes := s.queuedBytes - readBytes
    returned := s.returned ++ b.data.take readBytes }
  if b.data.drop readBytes = [] then
    { s with current := none, completed := s.completed ++ [b.id] }
  else s

/-- `l2cap_wolfssl_recv`. -/
def l2capWolfsslRecv (s : Rx) (size : ℕ) : Rx × Receiver.RecvReturn :=
  if s.overflow then (s, .general)
  else
    let s := s.takeCurrent
    match s.current with
    | some b => (s.pull size b, .received (min size b.data.length))
    | none => (s, if !s.conn || s.peerDisconnected then .connClose else .wantRead)

/-- The next step of the main thread: it leaves the session, or goes on with the preparations for
the next one. -/
def mainStep (s : Rx) : Rx :=
  match s.main with
  | .session => { s with main := .completeCurrent }
  | .completeCurrent =>
      { s with
        completed := s.completed ++ s.current.toList.map NetBuf.id
        current := none
        main := .getFifo }
  | .getFifo =>
      match s.fifo with
      | b :: fifo => { s with fifo := fifo, main := .completePending b }
      | [] => { s with main := .setCounter }
  | .completePending b => { s with completed := s.completed ++ [b.id], main := .getFifo }
  | .setCounter => { s with queuedBytes := 0, main := .resetFlags, sdus := [], returned := [] }
  | .resetFlags =>
      { s with selected := none, peerDisconnected := false, overflow := false, main := .session }

/-- What can happen. -/
inductive Op where
  /-- An SDU arrives. -/
  | recv (data : Bytes)
  /-- wolfSSL asks for at most this many bytes. -/
  | read (size : ℕ)
  /-- `l2cap_connected`. -/
  | connected
  /-- `l2cap_disconnected`. -/
  | disconnected
  /-- `bt_disconnected`. -/
  | aclDisconnected
  /-- The main thread goes on. -/
  | main
deriving DecidableEq

/-- One operation.  wolfSSL reads in a session only. -/
def step (s : Rx) : Op → Rx
  | .recv data => s.l2capRecv data
  | .read size => if s.main = .session then (s.l2capWolfsslRecv size).1 else s
  | .connected => { s with conn := true, peerDisconnected := false, overflow := false }
  | .disconnected => { s with conn := false, peerDisconnected := true }
  | .aclDisconnected => { s with peerDisconnected := true }
  | .main => s.mainStep

/-- The state after these operations, from the start of the firmware. -/
def run (ops : List Op) : Rx := lives step {} ops

/-! ## The abstract receiver -/

/-- The receiver without its bookkeeping. -/
def receiver (s : Rx) : Receiver where
  fifo := s.fifo.map NetBuf.data
  current := s.current.map NetBuf.data
  overflow := s.overflow
  lost := !s.conn || s.peerDisconnected
  selected := s.selected
  delivered := s.returned

theorem receiver_l2capRecv (s : Rx) (data : Bytes) :
    (s.l2capRecv data).receiver = s.receiver.l2capRecv data := by
  rw [l2capRecv, Receiver.l2capRecv]
  split
  case isTrue => cases scanSelect.run ((data.drop controlHeaderSize).take 159) <;> rfl
  case isFalse =>
    simp only [receiver, List.map_append]
    rfl

theorem receiver_takeCurrent_next (s : Rx) :
    s.receiver.next = s.takeCurrent.current.map fun b ↦
      (b.data, { s.takeCurrent.receiver with current := s.receiver.current }) := by
  obtain ⟨fifo, current⟩ := s
  cases current with
  | some b => rfl
  | none => cases fifo <;> rfl

theorem receiver_pull (s : Rx) (size : ℕ) (b : NetBuf) :
    (s.pull size b).receiver = { s.receiver with
      current := if b.data.drop (min size b.data.length) = [] then none
        else some (b.data.drop (min size b.data.length))
      delivered := s.returned ++ b.data.take (min size b.data.length) } := by
  rw [pull]
  dsimp only
  split <;> rfl

theorem takeCurrent_of_none {s : Rx} (h : s.takeCurrent.current = none) : s.takeCurrent = s := by
  obtain ⟨fifo, current⟩ := s
  cases current with
  | some b => rfl
  | none =>
      cases fifo with
      | nil => rfl
      | cons b fifo => exact absurd h (Option.some_ne_none _)

theorem l2capWolfsslRecv_some {s : Rx} {b : NetBuf} (hoverflow : ¬ s.overflow = true)
    (hb : s.takeCurrent.current = some b) (size : ℕ) :
    s.l2capWolfsslRecv size = (s.takeCurrent.pull size b, .received (min size b.data.length)) := by
  rw [l2capWolfsslRecv, if_neg hoverflow]
  simp only [hb]

theorem l2capWolfsslRecv_none {s : Rx} (hoverflow : ¬ s.overflow = true)
    (hnone : s.takeCurrent.current = none) (size : ℕ) :
    s.l2capWolfsslRecv size =
      (s, if !s.conn || s.peerDisconnected then .connClose else .wantRead) := by
  have hsame := takeCurrent_of_none hnone
  rw [hsame] at hnone
  rw [l2capWolfsslRecv, if_neg hoverflow, hsame]
  simp only [hnone]

theorem receiver_l2capWolfsslRecv (s : Rx) (size : ℕ) :
    s.receiver.l2capWolfsslRecv size =
      ((s.l2capWolfsslRecv size).1.receiver, (s.l2capWolfsslRecv size).2) := by
  have hoverflow : s.receiver.overflow = s.overflow := rfl
  rw [Receiver.l2capWolfsslRecv, hoverflow, receiver_takeCurrent_next]
  by_cases h : s.overflow = true
  · rw [if_pos h, l2capWolfsslRecv, if_pos h]
  · rw [if_neg h]
    cases hcurrent : s.takeCurrent.current with
    | some b =>
        rw [l2capWolfsslRecv_some h hcurrent, receiver_pull]
        rfl
    | none =>
        rw [l2capWolfsslRecv_none h hcurrent]
        rfl

/-! ## What is kept -/

/-- What holds at all times. -/
structure Kept (s : Rx) : Prop where
  /-- The SDUs are completed in order, and each once. -/
  ids : s.completed ++ s.waiting.map NetBuf.id = List.range s.arrived
  returned_prefix : s.returned <+: s.sdus.flatten
  /-- While nothing is being thrown away, every byte has been returned or is there and counted. -/
  settled : s.main = .session ∨ s.main = .completeCurrent ∨ s.main = .resetFlags →
    s.queuedBytes = s.unread.length ∧ s.returned ++ s.unread = s.sdus.flatten
  cleared : s.main = .session ∨ s.main = .completeCurrent ∨ s.current = none
  emptied : s.main = .setCounter → s.unread = []

theorem kept_start : Kept {} where
  ids := rfl
  returned_prefix := List.prefix_rfl
  settled _ := ⟨rfl, rfl⟩
  cleared := .inr (.inl rfl)
  emptied h := MainPoint.noConfusion h

/-- The arrival of an SDU does no harm: it is a control frame, or has no bytes, or the main thread
is not about to reset the counter. -/
def Harmless (s : Rx) : Op → Prop
  | .recv data => s.main = .setCounter → IsControl data ∨ data = []
  | _ => True

theorem unread_l2capRecv (s : Rx) {data : Bytes} (h : ¬ IsControl data) :
    (s.l2capRecv data).unread = s.unread ++ data := by
  rw [l2capRecv, if_neg h]
  simp only [unread, List.flatMap_append, List.flatMap_singleton, List.append_assoc]

theorem Kept.recv {s : Rx} (hs : Kept s) {data : Bytes} (h : Harmless s (.recv data)) :
    Kept (s.l2capRecv data) := by
  by_cases hcontrol : IsControl data
  · rw [l2capRecv, if_pos hcontrol]
    split
    · exact ⟨hs.ids, hs.returned_prefix, hs.settled, hs.cleared, hs.emptied⟩
    · exact hs
  · have hunread := s.unread_l2capRecv hcontrol
    rw [l2capRecv, if_neg hcontrol] at hunread ⊢
    constructor
    · have hwaiting : (s.completed ++ s.waiting.map NetBuf.id) ++ [s.arrived] =
          List.range (s.arrived + 1) := by rw [hs.ids, List.range_succ]
      rw [← hwaiting, List.append_assoc]
      refine congrArg (s.completed ++ ·) ?_
      simp only [waiting, pending, List.map_append, List.map_cons, List.map_nil, List.append_assoc]
    · rw [List.flatten_append]
      exact hs.returned_prefix.trans (List.prefix_append _ _)
    · intro hmain
      obtain ⟨hcount, hbytes⟩ := hs.settled hmain
      rw [hunread, List.length_append, Nat.cast_add, hcount, List.flatten_append,
        List.flatten_singleton, ← hbytes, List.append_assoc]
      exact ⟨rfl, rfl⟩
    · exact hs.cleared
    · intro hmain
      rw [hunread, hs.emptied hmain, (h hmain).resolve_left hcontrol]
      rfl

theorem Kept.takeCurrent {s : Rx} (hs : Kept s) (hmain : s.main = .session) :
    Kept s.takeCurrent := by
  obtain ⟨fifo, current, queuedBytes, overflow, conn, peerDisconnected, selected, main, arrived,
    completed, sdus, returned⟩ := s
  obtain rfl : main = .session := hmain
  cases current with
  | some b => exact hs
  | none =>
      cases fifo with
      | nil => exact hs
      | cons b fifo => exact ⟨hs.ids, hs.returned_prefix, hs.settled, .inl rfl, hs.emptied⟩

/-- Pulling bytes out of the current buffer. -/
theorem Kept.pull {s : Rx} (hs : Kept s) (hmain : s.main = .session) {b : NetBuf}
    (hb : s.current = some b) (size : ℕ) : Kept (s.pull size b) := by
  obtain ⟨fifo, current, queuedBytes, overflow, conn, peerDisconnected, selected, main, arrived,
    completed, sdus, returned⟩ := s
  obtain rfl : main = .session := hmain
  obtain rfl : current = some b := hb
  obtain ⟨hcount, hbytes⟩ := hs.settled (.inl rfl)
  have hids : completed ++ b.id :: fifo.map NetBuf.id = List.range arrived := hs.ids
  have hle : min size b.data.length ≤ b.data.length := Nat.min_le_right _ _
  rw [Rx.pull]
  generalize min size b.data.length = n at hle ⊢
  -- the bytes that are returned were the first unread ones
  have hreturned : (returned ++ b.data.take n) ++ (b.data.drop n ++ fifo.flatMap NetBuf.data) =
      sdus.flatten := by
    rw [List.append_assoc, ← List.append_assoc (b.data.take n), List.take_append_drop]
    exact hbytes
  have hcounted : queuedBytes - n = (b.data.drop n ++ fifo.flatMap NetBuf.data).length := by
    have hlen : queuedBytes = (b.data ++ fifo.flatMap NetBuf.data).length := hcount
    rw [hlen, List.length_append, List.length_append, List.length_drop]
    omega
  dsimp only
  split
  case isTrue hempty =>
    rw [hempty, List.nil_append] at hreturned hcounted
    refine ⟨?_, ⟨_, hreturned⟩, fun _ ↦ ⟨hcounted, hreturned⟩, .inl rfl, nofun⟩
    rw [← hids, List.append_assoc]
    rfl
  case isFalse => exact ⟨hids, ⟨_, hreturned⟩, fun _ ↦ ⟨hcounted, hreturned⟩, .inl rfl, nofun⟩

theorem main_takeCurrent (s : Rx) : s.takeCurrent.main = s.main := by
  obtain ⟨fifo, current⟩ := s
  cases current with
  | some b => rfl
  | none => cases fifo <;> rfl

theorem Kept.read {s : Rx} (hs : Kept s) (hmain : s.main = .session) (size : ℕ) :
    Kept (s.l2capWolfsslRecv size).1 := by
  by_cases h : s.overflow = true
  · rw [l2capWolfsslRecv, if_pos h]
    exact hs
  · cases hcurrent : s.takeCurrent.current with
    | some b =>
        rw [l2capWolfsslRecv_some h hcurrent]
        exact (hs.takeCurrent hmain).pull (s.main_takeCurrent.trans hmain) hcurrent size
    | none =>
        rw [l2capWolfsslRecv_none h hcurrent]
        exact hs

/-- The steps of the main thread. -/
theorem Kept.mainStep {s : Rx} (hs : Kept s) : Kept s.mainStep := by
  obtain ⟨fifo, current, queuedBytes, overflow, conn, peerDisconnected, selected, main, arrived,
    completed, sdus, returned⟩ := s
  have hcleared : main ≠ .session → main ≠ .completeCurrent → current = none := fun h h' ↦
    (hs.cleared.resolve_left h).resolve_left h'
  cases main with
  | session => exact ⟨hs.ids, hs.returned_prefix, fun _ ↦ hs.settled (.inl rfl),
      .inr (.inl rfl), nofun⟩
  | completeCurrent =>
      refine ⟨Eq.trans ?_ hs.ids, hs.returned_prefix, nofun, .inr (.inr rfl), nofun⟩
      simp only [Rx.mainStep, waiting, pending, Option.toList_none, List.nil_append,
        List.append_nil, List.map_append, List.append_assoc]
  | getFifo =>
      obtain rfl := hcleared nofun nofun
      cases fifo with
      | nil => exact ⟨hs.ids, hs.returned_prefix, nofun, .inr (.inr rfl), fun _ ↦ rfl⟩
      | cons b fifo => exact ⟨hs.ids, hs.returned_prefix, nofun, .inr (.inr rfl), nofun⟩
  | completePending b =>
      obtain rfl := hcleared nofun nofun
      refine ⟨Eq.trans ?_ hs.ids, hs.returned_prefix, nofun, .inr (.inr rfl), nofun⟩
      exact List.append_assoc _ _ _
  | setCounter =>
      obtain rfl := hcleared nofun nofun
      have hempty := hs.emptied rfl
      refine ⟨hs.ids, List.prefix_rfl, fun _ ↦ ⟨?_, hempty⟩, .inr (.inr rfl), nofun⟩
      exact (congrArg (fun bs : Bytes ↦ (bs.length : ℤ)) hempty).symm
  | resetFlags =>
      exact ⟨hs.ids, hs.returned_prefix, fun _ ↦ hs.settled (.inr (.inr rfl)), .inl rfl, nofun⟩

theorem Kept.step {s : Rx} (hs : Kept s) {o : Op} (h : Harmless s o) : Kept (s.step o) := by
  cases o with
  | recv data => exact hs.recv h
  | read size =>
      rw [Rx.step]
      split
      case isTrue hmain => exact hs.read hmain size
      case isFalse => exact hs
  | connected => exact ⟨hs.ids, hs.returned_prefix, hs.settled, hs.cleared, hs.emptied⟩
  | disconnected => exact ⟨hs.ids, hs.returned_prefix, hs.settled, hs.cleared, hs.emptied⟩
  | aclDisconnected => exact ⟨hs.ids, hs.returned_prefix, hs.settled, hs.cleared, hs.emptied⟩
  | main => exact hs.mainStep

/-! ## Consistency -/

/-- The queue, the counter and the streams of a session agree. -/
structure Consistent (s : Rx) : Prop where
  returned_prefix : s.returned <+: s.sdus.flatten
  /-- wolfSSL is told that the connection is closed when there is nothing left to read. -/
  closed_last : ∀ size, (s.l2capWolfsslRecv size).2 = .connClose → s.unread = []
  /-- Every SDU is completed once, and in order, or still waits for that. -/
  completed_once : s.completed ++ s.waiting.map NetBuf.id = List.range s.arrived
  /-- When the main thread finds the queue empty, all have been completed. -/
  completed_all : s.main = .getFifo → s.fifo = [] → s.completed = List.range s.arrived
  counter : s.main = .session → s.queuedBytes = s.unread.length

theorem unread_of_connClose {s : Rx} {size : ℕ} (h : (s.l2capWolfsslRecv size).2 = .connClose) :
    s.unread = [] := by
  by_cases hoverflow : s.overflow = true
  · rw [l2capWolfsslRecv, if_pos hoverflow] at h
    cases h
  · cases hcurrent : s.takeCurrent.current with
    | some b =>
        rw [l2capWolfsslRecv_some hoverflow hcurrent] at h
        cases h
    | none =>
        obtain ⟨fifo, current⟩ := s
        cases current with
        | some b => cases hcurrent
        | none =>
            cases fifo with
            | nil => rfl
            | cons b fifo => cases hcurrent

theorem Kept.consistent {s : Rx} (hs : Kept s) : Consistent s where
  returned_prefix := hs.returned_prefix
  closed_last _ := unread_of_connClose
  completed_once := hs.ids
  completed_all hmain hfifo := by
    have hcurrent : s.current = none :=
      (hs.cleared.resolve_left (by rw [hmain]; nofun)).resolve_left (by rw [hmain]; nofun)
    have hids := hs.ids
    rw [waiting, pending, hmain, hcurrent, hfifo] at hids
    exact (List.append_nil _).symm.trans hids
  counter hmain := (hs.settled (.inl hmain)).1

/-- **The receive queue is consistent** in every state of every run in which no SDU that has bytes
arrives between the moment when the main thread finds the queue empty and the reset of the counter.
-/
theorem run_consistent (ops : List Op) (h : Along step Harmless {} ops) : Consistent (run ops) := by
  have hkept : Kept (run ops) :=
    lives_invariant (I := Kept) (fun _ _ hs h ↦ hs.step h) kept_start h
  exact hkept.consistent

/-- Two SDUs; one of them arrives during the preparations for a session. -/
theorem run_consistent_two :
    Consistent (run [.main, .recv [1], .main, .main, .main, .main, .main, .connected, .recv [2, 3],
      .read 1, .disconnected]) :=
  run_consistent _ ⟨trivial, nofun, trivial, trivial, trivial, trivial, trivial, trivial, nofun,
    trivial, trivial, trivial⟩

/-- The board waits in vain for a selection and goes round its loop, with the channel still open.  A
byte that arrives just before the counter is reset is in the queue, but not counted. -/
theorem not_consistent : ¬ Consistent (run [.main, .main, .main, .main, .connected, .main, .main,
    .main, .recv [1], .main, .main]) := by
  intro h
  exact absurd (h.counter rfl) (by decide)

end Rx

end PeripheralBench.Ble

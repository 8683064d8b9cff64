import PeripheralBench.Power.MeasuredSession

/-!
# What measured sessions leave behind

However a session goes, it leaves the markers down and the counters at zero
(`Environment.quiet_of_session`), so that the next session starts from there, and any number of them
leaves the board so (`Environment.quiet_of_sessions`).
-/

open PeripheralBench.Text PeripheralBench.Trace PeripheralBench.Mqtt
open PeripheralBench.Mqtt.Connack (Line Round)

namespace PeripheralBench.Power

/-! ## The markers -/

namespace Board

variable {b : Board}

/-- No call makes the markers unready. -/
theorem ready_call (b : Board) (c : Call) : (b.call c).markers.ready = b.markers.ready := by
  cases hready : b.markers.ready with
  | true =>
      cases c with
      | reset => rw [call, Markers.call, Markers.reset, if_pos hready]; exact hready
      | totalSet active => rw [call, Markers.call, Markers.totalSet, if_pos hready]; exact hready
      | handshakeSet active =>
          rw [call, Markers.call, Markers.handshakeSet, if_pos hready]
          exact hready
      | cryptoStart operation =>
          rw [call, Markers.call, Markers.cryptoStart_of_ready hready]
          cases operation.phase <;> exact hready
      | cryptoStop operation =>
          rw [call, Markers.call, Markers.cryptoStop_of_ready hready, Agrees.ready_stop]
          exact hready
  | false =>
      have hnot := hready ▸ Bool.false_ne_true
      cases c with
      | reset => rw [call, Markers.call, Markers.reset, if_neg hnot]; exact hready
      | totalSet active => rw [call, Markers.call, Markers.totalSet, if_neg hnot]; exact hready
      | handshakeSet active =>
          rw [call, Markers.call, Markers.handshakeSet, if_neg hnot]
          exact hready
      | cryptoStart operation =>
          rw [call, Markers.call, Markers.cryptoStart, if_neg hnot]
          exact hready
      | cryptoStop operation =>
          rw [call, Markers.call, Markers.cryptoStop, if_neg hnot]
          exact hready

/-- A reset needs nothing but that the markers are ready. -/
theorem agrees_reset (h : b.markers.ready = true) : Agrees (b.call .reset) fun _ ↦ 0 := by
  rw [call, Markers.call, Markers.reset, if_pos h]
  refine ⟨h, ?_, ?_, ?_⟩
  · rintro (_ | _ | _) <;> rfl
  · exact iff_of_false Bool.noConfusion (by simp)
  · exact iff_of_false Bool.noConfusion (by simp)

theorem pins_reset (h : b.markers.ready = true) : (b.call .reset).pins = {} := by
  rw [call, Markers.call, Markers.reset, if_pos h]
  rfl

end Board

/-! ## What is left alone -/

namespace Device

variable (d : Device) (stage : Stage) (c : Call) (ticksPerSecond : ℕ) (m : Mark Work)
  (marks : List (Mark Work))

@[simp] theorem board_into : (d.into stage c).board = d.board.call c := by
  rw [into]
  split <;> rfl

@[simp] theorem stage_into : (d.into stage c).current.stage = stage := by
  rw [into]
  split <;> rfl

@[simp] theorem recorder_into : (d.into stage c).recorder = d.recorder := by
  rw [into]
  split <;> rfl

@[simp] theorem board_call : (d.call c).board = d.board.call c := board_into d _ c

@[simp] theorem stage_call : (d.call c).current.stage = d.current.stage := stage_into d _ c

@[simp] theorem recorder_call : (d.call c).recorder = d.recorder := recorder_into d _ c

/-- What a mark does: something with the recorder, and perhaps the start or the stop of an
operation before that. -/
theorem mark_cases : d.mark ticksPerSecond m = d.record (·.mark ticksPerSecond m) ∨
    ∃ operation c, (c = .cryptoStart operation ∨ c = .cryptoStop operation) ∧
      d.mark ticksPerSecond m = (d.call c).record (·.mark ticksPerSecond m) := by
  cases m with
  | enter work =>
      cases work with
      | crypto operation interval => exact .inr ⟨operation, _, .inl rfl, rfl⟩
      | _ => exact .inl rfl
  | leave work =>
      cases work with
      | crypto operation interval => exact .inr ⟨operation, _, .inr rfl, rfl⟩
      | _ => exact .inl rfl

theorem recorder_mark : (d.mark ticksPerSecond m).recorder = d.recorder.mark ticksPerSecond m := by
  obtain h | ⟨_, c, -, h⟩ := mark_cases d ticksPerSecond m <;> rw [h]
  · rfl
  · exact congrArg (Recorder.mark ticksPerSecond · m) (recorder_call d c)

theorem ready_mark :
    (d.mark ticksPerSecond m).board.markers.ready = d.board.markers.ready := by
  obtain h | ⟨_, c, -, h⟩ := mark_cases d ticksPerSecond m <;> rw [h]
  · rfl
  · exact (congrArg (·.markers.ready) (board_call d c)).trans (Board.ready_call _ c)

@[simp] theorem recorder_follow :
    (d.follow ticksPerSecond marks).recorder = d.recorder.follow ticksPerSecond marks := by
  induction marks generalizing d with
  | nil => rfl
  | cons m marks ih =>
      rw [follow, List.foldl_cons, Recorder.follow, List.foldl_cons, ← recorder_mark]
      exact ih _

@[simp] theorem ready_follow :
    (d.follow ticksPerSecond marks).board.markers.ready = d.board.markers.ready := by
  induction marks generalizing d with
  | nil => rfl
  | cons m marks ih => exact (ih _).trans (ready_mark d _ m)

theorem ready_into : (d.into stage c).board.markers.ready = d.board.markers.ready := by
  rw [board_into, Board.ready_call]

@[simp] theorem recorder_resultOut (line : Line) (metrics : Option Metrics) :
    (d.resultOut line metrics).recorder = d.recorder := recorder_into d _ _

theorem ready_resultOut (line : Line) (metrics : Option Metrics) :
    (d.resultOut line metrics).board.markers.ready = d.board.markers.ready := ready_into d _ _

end Device

/-! ## The markers are down -/

/-- The device is idle, while operations are nested as deeply as this. -/
structure Device.Idle (depth : Phase → ℕ) (d : Device) : Prop where
  agrees : Agrees d.board depth
  total : d.board.pins.total = false
  handshake : d.board.pins.handshake = false
  stage : d.current.stage = .idle

/-- The device is idle, and all markers are down. -/
abbrev Device.Quiet (d : Device) : Prop := d.Idle fun _ ↦ 0

/-- A reset makes the device quiet. -/
theorem Device.quiet_reset {d : Device} (h : d.board.markers.ready = true) :
    (d.into .idle .reset).Quiet := by
  refine ⟨?_, ?_, ?_, stage_into d _ _⟩
  · rw [board_into]
    exact Board.agrees_reset h
  · rw [board_into, Board.pins_reset h]
  · rw [board_into, Board.pins_reset h]

namespace Device.Quiet

variable {d : Device}

theorem pins (h : d.Quiet) : d.board.pins = {} := by
  obtain ⟨⟨-, -, hkem, hsignature⟩, htotal, hhandshake, -⟩ := h
  have hk := Bool.eq_false_iff.mpr fun hup ↦ absurd (hkem.mp hup) (by simp)
  have hs := Bool.eq_false_iff.mpr fun hup ↦ absurd (hsignature.mp hup) (by simp)
  rw [show d.board.pins = ⟨d.board.pins.total, d.board.pins.handshake, d.board.pins.kem,
    d.board.pins.signature⟩ from rfl, hk, hs, htotal, hhandshake]

theorem counter (h : d.Quiet) (phase : Phase) : d.board.markers.counter phase = 0 := by
  rw [eq_zero_iff]
  exact h.agrees.counter phase

end Device.Quiet

/-- The work that the markers of a kind stand for. -/
def Work.isOf (phase : Phase) : Work → Bool
  | .crypto operation _ => operation.phase = phase
  | _ => false

/-- An access to the pins for cryptographic operations. -/
def PinWrite.IsCrypto (w : PinWrite) : Prop :=
  (∃ value, w = .setKem value) ∨ ∃ value, w = .setSignature value

/-- The pins that say what the session does are the same. -/
def Pins.SameStage (p q : Pins) : Prop := p.total = q.total ∧ p.handshake = q.handshake

theorem Pins.sameStage_write {w : PinWrite} (h : w.IsCrypto) (p : Pins) :
    (p.write w).SameStage p := by
  obtain ⟨value, rfl⟩ | ⟨value, rfl⟩ := h <;> exact ⟨rfl, rfl⟩

theorem Pins.sameStage_foldl {writes : List PinWrite} (h : ∀ w ∈ writes, w.IsCrypto) (p : Pins) :
    (writes.foldl Pins.write p).SameStage p := by
  induction writes generalizing p with
  | nil => exact ⟨rfl, rfl⟩
  | cons w writes ih =>
      obtain ⟨hw, hwrites⟩ := List.forall_mem_cons.mp h
      obtain ⟨htotal, hhandshake⟩ := ih hwrites (p.write w)
      obtain ⟨htotal', hhandshake'⟩ := sameStage_write hw p
      exact ⟨htotal.trans htotal', hhandshake.trans hhandshake'⟩

namespace Markers

theorem isCrypto_ite {P : Prop} [Decidable P] {writes : List PinWrite}
    (h : ∀ w ∈ writes, w.IsCrypto) : ∀ w ∈ (if P then writes else []), w.IsCrypto := by
  split
  · exact h
  · exact fun _ hw ↦ absurd hw List.not_mem_nil

theorem isCrypto_start (m : Markers) (phase : Phase) : ∀ w ∈ (m.start phase).2, w.IsCrypto := by
  cases phase with
  | mlkem => exact isCrypto_ite (by simp [PinWrite.IsCrypto])
  | classicalKex => exact isCrypto_ite (by simp [PinWrite.IsCrypto])
  | signature => exact isCrypto_ite (by simp [PinWrite.IsCrypto])

theorem isCrypto_stop (m : Markers) (phase : Phase) : ∀ w ∈ (m.stop phase).2, w.IsCrypto := by
  cases phase with
  | mlkem =>
      rw [stop, stopMlkem]
      split
      · exact isCrypto_ite (by simp [PinWrite.IsCrypto])
      · exact fun _ hw ↦ absurd hw List.not_mem_nil
  | classicalKex =>
      rw [stop, stopClassicalKex]
      split
      · refine isCrypto_ite fun w hw ↦ ?_
        rcases List.mem_append.mp hw with hw | hw
        · exact isCrypto_ite (by simp [PinWrite.IsCrypto]) w hw
        · exact isCrypto_ite (by simp [PinWrite.IsCrypto]) w hw
      · exact fun _ hw ↦ absurd hw List.not_mem_nil
  | signature =>
      rw [stop, stopSignature]
      split
      · exact isCrypto_ite (by simp [PinWrite.IsCrypto])
      · exact fun _ hw ↦ absurd hw List.not_mem_nil

/-- The start and the stop of an operation move no other pins. -/
theorem isCrypto_of_mem {m : Markers} {operation : CryptoOperation} {c : Call}
    (hc : c = .cryptoStart operation ∨ c = .cryptoStop operation) :
    ∀ w ∈ (m.call c).2, w.IsCrypto := by
  by_cases hready : m.ready = true
  · rcases hc with rfl | rfl
    · rw [call, cryptoStart_of_ready hready]
      exact isCrypto_start m _
    · rw [call, cryptoStop_of_ready hready]
      exact isCrypto_stop m _
  · rcases hc with rfl | rfl
    · rw [call, cryptoStart, if_neg hready]
      exact fun _ hw ↦ absurd hw List.not_mem_nil
    · rw [call, cryptoStop, if_neg hready]
      exact fun _ hw ↦ absurd hw List.not_mem_nil

end Markers

theorem Board.sameStage_call (b : Board) {operation : CryptoOperation} {c : Call}
    (hc : c = .cryptoStart operation ∨ c = .cryptoStop operation) :
    (b.call c).pins.SameStage b.pins := Pins.sameStage_foldl (Markers.isCrypto_of_mem hc) _

namespace Device

variable {d : Device} {depth : Phase → ℕ} {ticksPerSecond : ℕ}

theorem Idle.call (h : d.Idle depth) {operation : CryptoOperation} {c : Call}
    (hc : c = .cryptoStart operation ∨ c = .cryptoStop operation)
    (hlt : ∀ phase, nest phase (depth phase) c < 2 ^ 32) :
    (d.call c).Idle fun phase ↦ nest phase (depth phase) c := by
  obtain ⟨htotal, hhandshake⟩ := d.board.sameStage_call hc
  refine ⟨?_, ?_, ?_, (stage_call d c).trans h.stage⟩
  · rw [board_call]
    exact h.agrees.call hlt
  · rw [board_call, htotal, h.total]
  · rw [board_call, hhandshake, h.handshake]

theorem Idle.enter (h : d.Idle depth) {work : Work}
    (hlt : ∀ phase, Calls.deeper Work.isOf work depth phase ≤ 2 ^ 32 - 1) :
    (d.mark ticksPerSecond (.enter work)).Idle (Calls.deeper Work.isOf work depth) := by
  cases work with
  | crypto operation interval =>
      have hnest : ∀ phase, nest phase (depth phase) (.cryptoStart operation) =
          Calls.deeper Work.isOf (.crypto operation interval) depth phase := by
        intro phase
        rw [nest, Calls.deeper, Work.isOf]
        simp only [decide_eq_true_iff]
      have hcall := h.call (.inl rfl) (c := .cryptoStart operation) fun phase ↦ by
        rw [hnest]
        exact Nat.lt_of_le_pred (by norm_num) (hlt phase)
      rwa [funext hnest] at hcall
  | _ => exact h

/-- An operation that is left. -/
theorem Idle.leave {work : Work} (h : d.Idle (Calls.deeper Work.isOf work depth))
    (hlt : ∀ phase, Calls.deeper Work.isOf work depth phase ≤ 2 ^ 32 - 1) :
    (d.mark ticksPerSecond (.leave work)).Idle depth := by
  cases work with
  | crypto operation interval =>
      have hnest : ∀ phase, nest phase
          (Calls.deeper Work.isOf (.crypto operation interval) depth phase)
          (.cryptoStop operation) = depth phase := by
        intro phase
        rw [nest, Calls.deeper, Work.isOf]
        by_cases hphase : operation.phase = phase
        · rw [if_pos hphase, if_pos (decide_eq_true hphase), Nat.add_sub_cancel]
        · rw [if_neg hphase, if_neg (mt of_decide_eq_true hphase)]
      have hcall := h.call (.inr rfl) (c := .cryptoStop operation) fun phase ↦ by
        rw [hnest]
        exact Nat.lt_of_le_pred (by norm_num) ((by rw [Calls.deeper]; split <;> omega :
          depth phase ≤ _).trans (hlt phase))
      rw [funext hnest] at hcall
      exact ⟨hcall.agrees, hcall.total, hcall.handshake, hcall.stage⟩
  | _ => exact ⟨h.agrees, h.total, h.handshake, h.stage⟩

/-- Nested calls leave a quiet device quiet. -/
theorem Quiet.follow (h : d.Quiet) (calls : Calls Work)
    (hheight : ∀ phase, calls.height (Work.isOf phase) < 2 ^ 32) :
    (d.follow ticksPerSecond calls.marks).Quiet :=
  Calls.foldl_marks (p := Work.isOf) (2 ^ 32 - 1)
    (fun _ _ _ hlt h ↦ h.enter hlt) (fun _ _ _ hlt h ↦ h.leave hlt) calls
    (fun phase ↦ by have := hheight phase; omega) h

theorem Quiet.followAll (h : d.Quiet) {l : List (Calls Work)}
    (hheight : ∀ calls ∈ l, ∀ phase, calls.height (Work.isOf phase) < 2 ^ 32) :
    (l.foldl (fun d calls ↦ d.follow ticksPerSecond calls.marks) d).Quiet := by
  induction l generalizing d with
  | nil => exact h
  | cons calls l ih =>
      obtain ⟨hcalls, hl⟩ := List.forall_mem_cons.mp hheight
      exact ih (h.follow calls hcalls) hl

end Device

/-! ## How a session goes -/

/-- What comes of waiting for the answer to CONNECT. -/
inductive Answer where
  | connack
  /-- It has not come, and this is printed. -/
  | missing (line : Line)

/-- The lines after the handshake, as the model of the answer to CONNECT has them. -/
def Answer.lines (s : Connack.Session) (ret : ℤ) : Answer → List Line
  | connack => Connack.finish s ret
  | missing line => [line]

/-- The stages of the lines that are made of metrics. -/
def measuredStages : List String :=
  ["", "certificate_verify_mismatch", "mqtt_connack", "tls_handshake"]

/-- A line, with the metrics if it is made of them. -/
def withMetrics (m : Metrics) (line : Line) : Report where
  line := line
  metrics := if line.stage ∈ measuredStages then some m else none

theorem metrics_withMetrics {line : Line} (h : line.stage ∈ measuredStages) (m : Metrics) :
    (withMetrics m line).metrics = some m := if_pos h

theorem metrics_withMetrics_of_not {line : Line} (h : line.stage ∉ measuredStages) (m : Metrics) :
    (withMetrics m line).metrics = none := if_neg h

/-- What is seen while the answer is awaited, after this, and what comes of it. -/
def awaited (rx unread : Bytes) (seen : List (Mark Work)) :
    List (List (Mark Work) × Round) → List (Mark Work) × Answer
  | [] => (seen, .missing (Connack.timeoutLine rx))
  | (marks, round) :: rounds =>
      let chunk := round.chunk rx unread
      if Connack.isConnack (rx ++ chunk) then (seen ++ marks, .connack)
      else
        match round with
        | .read _ | .want => awaited (rx ++ chunk) (unread.drop chunk.length) (seen ++ marks) rounds
        | .error error => (seen ++ marks, .missing (Connack.errorLine "mqtt_read" error))

section

variable {rx unread : Bytes} {seen marks : List (Mark Work)} {round : Round}
  {rounds : List (List (Mark Work) × Round)}

theorem awaited_connack (h : Connack.isConnack (rx ++ round.chunk rx unread) = true) :
    awaited rx unread seen ((marks, round) :: rounds) = (seen ++ marks, .connack) := if_pos h

/-- Without a CONNACK there is an error, or another round. -/
theorem awaited_next (seen marks : List (Mark Work)) (rounds : List (List (Mark Work) × Round))
    (h : ¬ Connack.isConnack (rx ++ round.chunk rx unread) = true) :
    (∃ error, round = .error error ∧ awaited rx unread seen ((marks, round) :: rounds) =
      (seen ++ marks, .missing (Connack.errorLine "mqtt_read" error))) ∨
    (∀ error, round ≠ .error error) ∧ awaited rx unread seen ((marks, round) :: rounds) =
      awaited (rx ++ round.chunk rx unread) (unread.drop (round.chunk rx unread).length)
        (seen ++ marks) rounds := by
  cases round with
  | read count => exact .inr ⟨fun _ ↦ Round.noConfusion, if_neg h⟩
  | want => exact .inr ⟨fun _ ↦ Round.noConfusion, if_neg h⟩
  | error error => exact .inl ⟨error, rfl, if_neg h⟩

end

/-- The lines of the read loop. -/
theorem lines_awaited (s : Connack.Session) (ret : ℤ) (rx unread : Bytes) (seen : List (Mark Work))
    (rounds : List (List (Mark Work) × Round)) :
    Connack.readLoop s ret rx unread (rounds.map Prod.snd) =
      (awaited rx unread seen rounds).2.lines s ret := by
  induction rounds generalizing rx unread seen with
  | nil => rfl
  | cons r rounds ih =>
      obtain ⟨marks, round⟩ := r
      by_cases hconnack : Connack.isConnack (rx ++ round.chunk rx unread) = true
      · rw [awaited_connack hconnack]
        exact Connack.readLoop_connack hconnack
      · obtain ⟨error, rfl, hnext⟩ | ⟨hround, hnext⟩ :=
          awaited_next seen marks rounds hconnack <;> rw [hnext]
        · exact if_neg hconnack
        · rw [← ih]
          cases round with
          | error error => exact absurd rfl (hround error)
          | _ => exact if_neg hconnack

namespace Device

theorem follow_follow (d : Device) (ticksPerSecond : ℕ) (marks marks' : List (Mark Work)) :
    (d.follow ticksPerSecond marks).follow ticksPerSecond marks' =
      d.follow ticksPerSecond (marks ++ marks') := List.foldl_append.symm

theorem follow_flatten (d : Device) (ticksPerSecond : ℕ) (l : List (List (Mark Work))) :
    l.foldl (fun d marks ↦ d.follow ticksPerSecond marks) d =
    d.follow ticksPerSecond l.flatten := by
  induction l generalizing d with
  | nil => rfl
  | cons marks l ih =>
      rw [List.flatten_cons, ← follow_follow]
      exact ih _

end Device

namespace Environment

open Device

variable (e : Environment) (d : Device)

/-- What is seen from the end of the handshake until the answer to CONNECT, and what comes of it. -/
def answer : List (Mark Work) × Answer :=
  match e.writeError with
  | some error => (e.write, .missing (Connack.errorLine "mqtt_write" error))
  | none => awaited [] e.stream e.write e.rounds

theorem lines_answer (s : Connack.Session) :
    Connack.startSecureMqttSession s e.transfers.ret e.writeError e.stream (e.rounds.map Prod.snd) =
      e.answer.2.lines s e.transfers.ret := by
  rw [answer]
  cases e.writeError with
  | some error => rfl
  | none => exact lines_awaited s e.transfers.ret [] e.stream e.write e.rounds

/-- What is done with the answer. -/
def conclude (scheme : UInt16) (d : Device) : Answer → Device
  | .connack => e.finish scheme d
  | .missing line => d.resultOut line (withMetrics d.recorder.metrics line).metrics

theorem readLoop_eq (scheme : UInt16) (rx unread : Bytes) (seen : List (Mark Work))
    (rounds : List (List (Mark Work) × Round)) :
    e.readLoop scheme rx unread (d.follow e.ticksPerSecond seen) rounds =
      e.conclude scheme (d.follow e.ticksPerSecond (awaited rx unread seen rounds).1)
        (awaited rx unread seen rounds).2 := by
  induction rounds generalizing rx unread seen with
  | nil =>
      rw [awaited, conclude, metrics_withMetrics (show "mqtt_connack" ∈ measuredStages by decide)]
      rfl
  | cons r rounds ih =>
      obtain ⟨marks, round⟩ := r
      by_cases hconnack : Connack.isConnack (rx ++ round.chunk rx unread) = true
      · rw [awaited_connack hconnack, ← follow_follow]
        exact if_pos hconnack
      · obtain ⟨error, rfl, hnext⟩ | ⟨hround, hnext⟩ :=
          awaited_next seen marks rounds hconnack <;> rw [hnext]
        · rw [conclude, metrics_withMetrics_of_not (show "mqtt_read" ∉ measuredStages by decide),
            ← follow_follow]
          exact if_neg hconnack
        · rw [← ih, ← follow_follow]
          cases round with
          | error error => exact absurd rfl (hround error)
          | _ => exact if_neg hconnack

/-- From the end of the handshake to `cleanup`. -/
theorem connectMqtt_eq (scheme : UInt16) :
    e.connectMqtt scheme d =
      e.conclude scheme (d.follow e.ticksPerSecond e.answer.1) e.answer.2 := by
  rw [connectMqtt, answer]
  cases e.writeError with
  | some error =>
      simp only [conclude]
      rw [metrics_withMetrics_of_not (show "mqtt_write" ∉ measuredStages by decide)]
  | none => exact e.readLoop_eq d scheme [] e.stream e.write e.rounds

theorem handshake_eq : e.handshake d =
    ((((((d.record .reset).record (·.hardwareCountersStart e.cacheStart.1 e.cacheStart.2)).call
      (.handshakeSet true)).follow e.ticksPerSecond (e.connects.flatten ++ e.lastConnect)).record
        (·.hardwareCountersStop e.cacheStop.1 e.cacheStop.2)).call (.handshakeSet false)) := by
  rw [handshake]
  simp only [follow_flatten, follow_follow]

theorem cleanup_eq : e.cleanup d = ((d.record .stop).into .idle .reset).follow e.ticksPerSecond
    (e.shutdown.map Calls.marks).flatten := by
  rw [cleanup, ← follow_flatten, List.foldl_map]

theorem runAll_cons (ticksPerSecond number : ℕ) (op : Operation) (ops : List Operation) :
    Operation.runAll ticksPerSecond number d (op :: ops) =
      if (op.run ticksPerSecond number d).2 then
        Operation.runAll ticksPerSecond (number + 1) (op.run ticksPerSecond number d).1 ops
      else (op.run ticksPerSecond number d).1 := rfl

/-! ## Ready markers stay ready -/

theorem ready_runAll (ticksPerSecond number : ℕ) (ops : List Operation) :
    (Operation.runAll ticksPerSecond number d ops).board.markers.ready = d.board.markers.ready := by
  induction ops generalizing number d with
  | nil => rfl
  | cons op ops ih =>
      have hrun : (op.run ticksPerSecond number d).1.board.markers.ready =
          d.board.markers.ready := by
        rw [Operation.run]
        split <;> simp [Device.record, Board.ready_call]
      rw [runAll_cons]
      split
      · exact (ih _ _).trans hrun
      · exact hrun

theorem ready_finish (scheme : UInt16) :
    (e.finish scheme d).board.markers.ready = d.board.markers.ready := by
  have htransfers : ∀ d, (e.transfers.run e.ticksPerSecond d).board.markers.ready =
      d.board.markers.ready := by
    intro d
    rw [Transfers.run, ready_follow, ready_runAll, ready_follow]
  rw [finish]
  split
  · split
    · simp [ready_resultOut, htransfers, Device.record, Board.ready_call]
    · simp [ready_resultOut, Device.record, Board.ready_call]
  · simp [ready_resultOut, Device.record, Board.ready_call]

theorem ready_connectMqtt (scheme : UInt16) :
    (e.connectMqtt scheme d).board.markers.ready = d.board.markers.ready := by
  rw [connectMqtt_eq]
  cases e.answer.2 with
  | connack => exact (e.ready_finish _ scheme).trans (ready_follow d _ _)
  | missing line => exact (ready_resultOut _ _ _).trans (ready_follow d _ _)

theorem ready_handshake : (e.handshake d).board.markers.ready = d.board.markers.ready := by
  simp [handshake_eq, Device.record, Board.ready_call]

/-! ## What a session leaves -/

/-- The beginning of a session. -/
def begun : Device :=
  ((d.into .idle .reset).into .session (.totalSet true)).follow e.ticksPerSecond e.preparing

theorem ready_begun : (e.begun d).board.markers.ready = d.board.markers.ready := by
  rw [begun, ready_follow, ready_into, ready_into]

/-- However a session goes, it leaves all markers down and all counters at zero. -/
theorem quiet_of_session (h : d.board.markers.ready = true)
    (hshutdown : ∀ calls ∈ e.shutdown, ∀ phase, calls.height (Work.isOf phase) < 2 ^ 32) :
    (e.startSecureMqttSession d).Quiet := by
  have hbegun : (e.begun d).board.markers.ready = true := (e.ready_begun d).trans h
  have hprint : ∀ (d : Device) line metrics, d.board.markers.ready = true →
      (d.resultOut line metrics).Quiet := by
    intro d line metrics hready
    have hreset := quiet_reset hready
    exact ⟨hreset.agrees, hreset.total, hreset.handshake, hreset.stage⟩
  rw [startSecureMqttSession, ← begun]
  cases e.setup.prepare with
  | error failure =>
      obtain ⟨line, again⟩ := failure
      have hout := hprint _ line none hbegun
      cases again with
      | true => exact quiet_reset hout.agrees.ready
      | false => exact hout
  | ok scheme =>
      have hhandshake := (e.ready_handshake (e.begun d)).trans hbegun
      cases e.connectError with
      | some error => exact quiet_reset (hprint _ _ _ hhandshake).agrees.ready
      | none =>
          have hreset : ((e.connectMqtt scheme (e.handshake (e.begun d))).record
              Recorder.stop).board.markers.ready = true :=
            (e.ready_connectMqtt _ scheme).trans hhandshake
          exact (quiet_reset hreset).followAll hshutdown

/-- Session after session, the device is quiet in between. -/
theorem quiet_of_sessions (es : List Environment)
    (hshutdown : ∀ e ∈ es, ∀ calls ∈ e.shutdown, ∀ phase,
      calls.height (Work.isOf phase) < 2 ^ 32) (hquiet : d.Quiet) :
    (es.foldl (fun d e ↦ e.startSecureMqttSession d) d).Quiet := by
  induction es generalizing d with
  | nil => exact hquiet
  | cons e es ih =>
      obtain ⟨he, hes⟩ := List.forall_mem_cons.mp hshutdown
      exact ih _ hes (e.quiet_of_session d hquiet.agrees.ready he)

end Environment

/-- The board after `benchmark_power_markers_init`. -/
def Device.initial : Device where
  board := ({} : Board).after (({} : Markers).init true)

theorem Device.quiet_initial : Device.initial.Quiet := by
  refine ⟨⟨rfl, ?_, ?_, ?_⟩, rfl, rfl, rfl⟩
  · rintro (_ | _ | _) <;> rfl
  · exact iff_of_false Bool.noConfusion (by simp)
  · exact iff_of_false Bool.noConfusion (by simp)

/-- A session with a transfer, in which a signature is made while it is shut down. -/
def Environment.sample : Environment where
  ticksPerSecond := 32768
  transferMode := true
  setup := ⟨true, none, some 0x0403, 1, 1, none, true, 0⟩
  preparing := []
  connects := [[.enter (.crypto .kemKeygen ⟨0, 32768⟩), .leave (.crypto .kemKeygen ⟨0, 32768⟩)]]
  lastConnect := [.leave (.verifyScheme 0x0403)]
  connectError := none
  cacheStart := (5, 1)
  cacheStop := (9, 2)
  write := [.leave (.tx 43)]
  writeError := none
  stream := [0x20, 0x02, 0x00, 0x00]
  rounds := [([], .read 4)]
  transfers := ⟨[], [⟨[], true, [.leave (.rx 100 100)], (0, 0), (1, 1), [], true, true⟩], [], 0⟩
  shutdown := [.call (.crypto .mtlsSign ⟨0, 1⟩) .nil .nil]

theorem Environment.quiet_of_sessions_sample :
    ([sample, sample].foldl (fun d e ↦ e.startSecureMqttSession d) Device.initial).Quiet := by
  refine quiet_of_sessions Device.initial [sample, sample] (fun e he calls hcalls phase ↦ ?_)
    Device.quiet_initial
  obtain rfl : e = sample := by
    rcases List.mem_cons.mp he with rfl | he
    · rfl
    · exact List.mem_singleton.mp he
  rw [List.mem_singleton.mp hcalls]
  cases phase <;> decide

end PeripheralBench.Power

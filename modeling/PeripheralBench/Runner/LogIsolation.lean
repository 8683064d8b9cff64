import PeripheralBench.Runner.RoundAgreement

/-!
# What earlier sessions leave in the logs

`start_session` empties the logs on the gateway, but `collect_session_logs` appends them to the
local files, and the parsers read these from the beginning.  So what a row says about a session can
be what an earlier session has logged: it is when the session itself has logged nothing of the kind
(`not_isolated`).  Two runs that differ in what earlier sessions have left agree on a session if all
that its rows look for has been logged by the session itself, or by no earlier one (`isolated`).
-/

open PeripheralBench.Fold

namespace PeripheralBench.Runner

namespace RunJob

/-! ## What the rows look for -/

/-- What `wait_for_result` or the exception has left in `final`. -/
def Retry.outcome (r : Retry) : Values :=
  match r.result with
  | .ok values => values
  | .error error => SerialSession.startFailure error

/-- The broker log of the session, with that of the controller. -/
def Retry.brokerLog (r : Retry) : Str := r.remote.broker ++ r.remote.controller

/-- The keys that `run_job` takes from `parse_gateway_metrics`. -/
def gatewayKeys : List String := ["ble_l2cap_connect_ms", "gateway_tcp_connect_ms"]

/-- The keys that `run_job` takes from `parse_server_metrics`. -/
def serverKeys : List String := ["server_kem_encapsulation_us", "server_certificate_verify_sign_us"]

instance (text : Str) : Decidable (IsComplete text) :=
  decidable_of_iff (text.getLast?.all isLineBreak = true) (Option.all_eq_true _ _)

instance {ι β : Type} (put : ι → Option β) (l l' : List ι) : Decidable (Answered put l l') :=
  inferInstanceAs (Decidable (_ ∨ _))

/-- The text by which a failure to start is classified is in the log of the session, or in none. -/
def StartSeparated (old own : Str) : Prop :=
  IsDiscoveryFailure own ∨ ¬ IsDiscoveryFailure (old ++ own) ∧
    (IsChannelFailure own ∨ ¬ IsChannelFailure old ∧ (IsTcpFailure own ∨ ¬ IsTcpFailure old))

/-- The transfer rows of a session have nothing from these logs: each operation that an earlier line
of the device or of the server is about has such a line of the session, and the server's parser does
not raise at an earlier line. -/
structure RowsSeparated (b : Builtins) (job : Job) (r : Retry) (old : LocalLogs) : Prop where
  complete : IsComplete old.broker
  sequence : (∃ round, job = .round round) → ∀ line ∈ benchLines old.broker, HasSequence b line
  device : ∀ o ∈ job.operations,
    Answered (deviceAt b o.order) (benchLines old.broker) (benchLines r.brokerLog)
  server : ∀ o ∈ job.operations,
    Answered (serverAt b o.order) (benchLines old.broker) (benchLines r.brokerLog)

/-- The row of the attempt has nothing from these logs: the session has logged the metrics, the
handshake and the failure itself, or they are not there. -/
structure AttemptSeparated (job : Job) (r : Retry) (old : LocalLogs) : Prop where
  broker : IsComplete old.broker
  gateway : IsComplete old.gateway
  gatewayMetrics : ∀ key ∈ gatewayKeys, Answered (metricAt "GATEWAY".toList key.toList)
    (benchLines old.gateway) (benchLines r.remote.gateway)
  serverMetrics : ∀ key ∈ serverKeys, Answered (metricAt "SERVER".toList key.toList)
    (benchLines old.broker) (benchLines r.brokerLog)
  start : r.outcome.get? "stage".toList = some "gateway_start".toList →
    StartSeparated old.gateway r.remote.gateway
  /-- The handshake is looked for in the log if the board has not reported it. -/
  handshake : (∃ round, job = .round round) →
    latest (valuesOf "HANDSHAKE".toList) r.observations = none →
      Answered (valuesOf "HANDSHAKE".toList) (benchLines old.gateway) (benchLines r.remote.gateway)

/-! ## The result of the session -/

section

variable {b : Builtins} {job : Job} {r : Retry} {old old' : LocalLogs}

theorem final_eq (logs : LocalLogs) : r.final logs =
    if r.rearmed then
      SerialSession.classifyGatewayStartFailure r.outcome (startFailureStage logs.gateway r.outcome)
    else
      SerialSession.System.rearmFailed (SerialSession.classifyGatewayStartFailure r.outcome
        (startFailureStage logs.gateway r.outcome)) := rfl

theorem get?_classifyGatewayStartFailure {key : Str} (hkey : "stage".toList ≠ key) (final : Values)
    (stage : Option Str) :
    (SerialSession.classifyGatewayStartFailure final stage).get? key = final.get? key := by
  unfold SerialSession.classifyGatewayStartFailure
  split
  · rfl
  · cases stage with
    | none => rfl
    | some stage => exact Values.get?_set_of_ne hkey stage final

theorem get?_rearmFailed {final final' : Values} {key : Str}
    (hfatal : final.get? "fatal".toList = final'.get? "fatal".toList)
    (hkey : final.get? key = final'.get? key) :
    (SerialSession.System.rearmFailed final).get? key =
      (SerialSession.System.rearmFailed final').get? key := by
  have hiff : SerialSession.isFatal final ↔ SerialSession.isFatal final' := by
    rw [SerialSession.isFatal, SerialSession.isFatal, hfatal]
  unfold SerialSession.System.rearmFailed
  by_cases h : SerialSession.isFatal final
  · rw [if_pos h, if_pos (hiff.mp h), hkey]
  · rw [if_neg h, if_neg (hiff.not.mp h)]

/-- The log is looked at for the stage alone. -/
theorem get?_final {key : Str} (hkey : "stage".toList ≠ key) (logs logs' : LocalLogs) :
    (r.final logs).get? key = (r.final logs').get? key := by
  have hclassify : ∀ key, "stage".toList ≠ key →
      (SerialSession.classifyGatewayStartFailure r.outcome
        (startFailureStage logs.gateway r.outcome)).get? key =
      (SerialSession.classifyGatewayStartFailure r.outcome
        (startFailureStage logs'.gateway r.outcome)).get? key := by
    intro key hkey
    rw [get?_classifyGatewayStartFailure hkey, get?_classifyGatewayStartFailure hkey]
  rw [final_eq, final_eq]
  split
  · exact hclassify key hkey
  · exact get?_rearmFailed (hclassify _ (by decide)) (hclassify key hkey)

theorem succeeded_final_congr (logs logs' : LocalLogs) :
    SerialSession.succeeded (r.final logs) ↔ SerialSession.succeeded (r.final logs') := by
  rw [SerialSession.succeeded, SerialSession.succeeded, get?_final (by decide) logs logs']

theorem stops_congr (logs logs' : LocalLogs) (rest : List Retry) :
    r.Stops logs rest ↔ r.Stops logs' rest := by
  rw [Retry.Stops, Retry.Stops, succeeded_final_congr logs logs', SerialSession.isFatal,
    SerialSession.isFatal, get?_final (by decide) logs logs']

/-- The stage of a failure to start is that of the session's own text. -/
theorem startFailureStage_append_iff {old own : Str} (hold : IsComplete old) (final : Values) :
    startFailureStage (old ++ own) final = startFailureStage own final ↔
    StartSeparated old own := by
  have hdiscovery : IsDiscoveryFailure own → IsDiscoveryFailure (old ++ own) :=
    And.imp List.infix_append_of_infix_right List.infix_append_of_infix_right
  have hchannel : IsChannelFailure (old ++ own) ↔ IsChannelFailure old ∨ IsChannelFailure own :=
    infix_append_iff (List.forall_iff_forall_mem.mp (by decide)) hold
  have htcp : IsTcpFailure (old ++ own) ↔ IsTcpFailure old ∨ IsTcpFailure own :=
    infix_append_iff (List.forall_iff_forall_mem.mp (by decide)) hold
  rw [startFailureStage, startFailureStage, StartSeparated]
  by_cases hown : IsDiscoveryFailure own
  · rw [if_pos (hdiscovery hown), if_pos hown]
    exact iff_of_true rfl (.inl hown)
  rw [if_neg hown, or_iff_right hown]
  by_cases hboth : IsDiscoveryFailure (old ++ own)
  · rw [if_pos hboth]
    refine iff_of_false ?_ fun h ↦ h.1 hboth
    split_ifs <;> decide
  rw [if_neg hboth, and_iff_right hboth]
  by_cases hown : IsChannelFailure own
  · rw [if_pos (hchannel.mpr (.inr hown)), if_pos hown]
    exact iff_of_true rfl (.inl hown)
  rw [or_iff_left hown] at hchannel
  rw [if_neg hown, or_iff_right hown]
  by_cases hboth : IsChannelFailure old
  · rw [if_pos (hchannel.mpr hboth)]
    refine iff_of_false ?_ fun h ↦ h.1 hboth
    split_ifs <;> decide
  rw [if_neg (hchannel.not.mpr hboth), and_iff_right hboth]
  by_cases hown : IsTcpFailure own
  · rw [if_pos (htcp.mpr (.inr hown)), if_pos hown]
    exact iff_of_true rfl (.inl hown)
  rw [or_iff_left hown] at htcp
  rw [if_neg hown, or_iff_right hown]
  by_cases hboth : IsTcpFailure old
  · rw [if_pos (htcp.mpr hboth)]
    exact iff_of_false (by decide) fun h ↦ h hboth
  · rw [if_neg (htcp.not.mpr hboth)]
    exact iff_of_true rfl hboth

theorem final_collect (h : AttemptSeparated job r old) :
    r.final (collectSessionLogs old r.remote) = r.final (collectSessionLogs ⟨[], []⟩ r.remote) := by
  have hclassify : SerialSession.classifyGatewayStartFailure r.outcome
        (startFailureStage (old.gateway ++ r.remote.gateway) r.outcome) =
      SerialSession.classifyGatewayStartFailure r.outcome
        (startFailureStage r.remote.gateway r.outcome) := by
    by_cases hstage : r.outcome.get? "stage".toList = some "gateway_start".toList
    · rw [(startFailureStage_append_iff h.gateway r.outcome).mpr (h.start hstage)]
    · unfold SerialSession.classifyGatewayStartFailure
      rw [if_pos hstage, if_pos hstage]
  rw [final_eq, final_eq]
  exact congrArg (fun final ↦
    if r.rearmed then final else SerialSession.System.rearmFailed final) hclassify

/-! ## The rows of the session -/

/-- The rows are those of a session that has been collected alone, and are not made if those are
not. -/
theorem transferRowsForRound_collect {round : TransferRound}
    (h : RowsSeparated b (.round round) r old)
    (attemptIndex retry : ℕ) (roundStatus : Str) :
    transferRowsForRound b round r.observations (old.broker ++ r.brokerLog) attemptIndex retry
        roundStatus r.powerWindows =
      transferRowsForRound b round r.observations r.brokerLog attemptIndex retry roundStatus
        r.powerWindows := by
  have hlines := benchLines_append h.complete r.brokerLog
  rw [transferRowsForRound, transferRowsForRound]
  cases hown : parseTransferServerMetrics b r.brokerLog with
  | none =>
      have hraises : parseTransferServerMetrics b (old.broker ++ r.brokerLog) = none := by
        rw [← Option.not_isSome_iff_eq_none, isSome_parseTransferServerMetrics] at hown ⊢
        rw [hlines]
        exact fun hall ↦ hown fun line hline ↦ hall line (List.mem_append_right _ hline)
      rw [hraises]
      rfl
  | some own =>
      have hreturns : (parseTransferServerMetrics b (old.broker ++ r.brokerLog)).isSome := by
        rw [isSome_parseTransferServerMetrics, hlines, List.forall_mem_append]
        exact ⟨h.sequence ⟨round, rfl⟩,
          (isSome_parseTransferServerMetrics b _).mp (Option.isSome_of_eq_some hown)⟩
      obtain ⟨server, hserver⟩ := Option.isSome_iff_exists.mp hreturns
      rw [hserver]
      refine mapM_congr fun o ho ↦ ?_
      have hboard : boardValues b r.observations (old.broker ++ r.brokerLog) o.order =
          boardValues b r.observations r.brokerLog o.order := by
        rw [boardValues, boardValues, parseTransferDeviceMetrics_apply,
          parseTransferDeviceMetrics_apply, hlines, latest_append_eq_iff.mpr (h.device o ho)]
      rw [hboard, parseTransferServerMetrics_apply hserver, parseTransferServerMetrics_apply hown,
        hlines, latest_append_eq_iff.mpr (h.server o ho)]

/-- The rows of the session do not depend on what has been left. -/
theorem retryRows_collect (h : RowsSeparated b job r old) (attemptIndex retry : ℕ) :
    retryRows b job attemptIndex retry r (collectSessionLogs old r.remote) =
      retryRows b job attemptIndex retry r (collectSessionLogs ⟨[], []⟩ r.remote) := by
  cases job with
  | session _ => rfl
  | round round =>
      have hstatus : (r.final (collectSessionLogs old r.remote)).get "status".toList =
          (r.final (collectSessionLogs ⟨[], []⟩ r.remote)).get "status".toList := by
        funext default
        rw [Values.get, Values.get, get?_final (by decide)]
      have hmarked : roundRows retry (r.final (collectSessionLogs old r.remote)) =
          roundRows retry (r.final (collectSessionLogs ⟨[], []⟩ r.remote)) := by
        funext rows
        rw [roundRows, roundRows]
        simp only [succeeded_final_congr (collectSessionLogs old r.remote)
          (collectSessionLogs ⟨[], []⟩ r.remote)]
      rw [retryRows, retryRows, hstatus, hmarked]
      exact congrArg (Option.bind · _) (transferRowsForRound_collect h attemptIndex retry _)

/-! ## The row of the attempt -/

/-- What the row of the attempt says beside the transfers. -/
def AttemptRow.columns (row : AttemptRow) : AttemptRow := { row with transmissions := [] }

theorem field_parseGatewayMetrics (h : AttemptSeparated job r old) (key : String)
    (hkey : key ∈ gatewayKeys) :
    field (parseGatewayMetrics (collectSessionLogs old r.remote).gateway) key =
      field (parseGatewayMetrics (collectSessionLogs ⟨[], []⟩ r.remote).gateway) key := by
  rw [field, field, Values.get, Values.get, get?_parseGatewayMetrics, get?_parseGatewayMetrics,
    collectSessionLogs, benchLines_append h.gateway,
    latest_append_eq_iff.mpr (h.gatewayMetrics key hkey)]
  rfl

theorem microsecondsAsMilliseconds_parseServerMetrics (h : AttemptSeparated job r old)
    (key : String) (hkey : key ∈ serverKeys) :
    microsecondsAsMilliseconds b (parseServerMetrics (collectSessionLogs old r.remote).broker) key =
      microsecondsAsMilliseconds b
        (parseServerMetrics (collectSessionLogs ⟨[], []⟩ r.remote).broker) key := by
  have hget : (parseServerMetrics (collectSessionLogs old r.remote).broker).get? key.toList =
      (parseServerMetrics (collectSessionLogs ⟨[], []⟩ r.remote).broker).get? key.toList := by
    rw [get?_parseServerMetrics, get?_parseServerMetrics, collectSessionLogs,
      benchLines_append h.broker]
    exact latest_append_eq_iff.mpr (h.serverMetrics key hkey)
  rw [microsecondsAsMilliseconds, microsecondsAsMilliseconds, number, number, hget]

/-- The values of the row are those of a session that has been collected alone. -/
theorem rowFinal_collect {s : Attempt} (h : AttemptSeparated job r old)
    (hlogs : s.logs = collectSessionLogs old r.remote)
    (hobservations : s.observations = r.observations) :
    rowFinal job s = rowFinal job { s with logs := collectSessionLogs ⟨[], []⟩ r.remote } := by
  cases job with
  | session _ => rfl
  | round round =>
      have hhandshake : lastHandshake (withHandshake (.round round) s) =
          lastHandshake (withHandshake (.round round)
            { s with logs := collectSessionLogs ⟨[], []⟩ r.remote }) := by
        rw [lastHandshake_withHandshake, lastHandshake_withHandshake, hobservations, hlogs]
        cases hboard : latest (valuesOf "HANDSHAKE".toList) r.observations with
        | some handshake => rfl
        | none =>
            rw [Option.none_or, Option.none_or, latestBenchmarkObservation_eq,
              latestBenchmarkObservation_eq, collectSessionLogs, benchLines_append h.gateway,
              latest_append_eq_iff.mpr (h.handshake ⟨round, rfl⟩ hboard)]
            rfl
      unfold rowFinal
      rw [hhandshake]

/-- So is the row, but for the transfers. -/
theorem columns_attemptRowOf {expectedScheme : Str} {attemptIndex : ℕ} {s : Attempt}
    (h : AttemptSeparated job r old) (hlogs : s.logs = collectSessionLogs old r.remote)
    (hobservations : s.observations = r.observations) :
    (attemptRowOf b expectedScheme job attemptIndex s).columns =
      (attemptRowOf b expectedScheme job attemptIndex
        { s with logs := collectSessionLogs ⟨[], []⟩ r.remote }).columns := by
  rw [AttemptRow.columns, AttemptRow.columns, attemptRowOf, attemptRowOf,
    rowFinal_collect h hlogs hobservations]
  dsimp only
  rw [hlogs, field_parseGatewayMetrics h "ble_l2cap_connect_ms" (by decide),
    field_parseGatewayMetrics h "gateway_tcp_connect_ms" (by decide),
    microsecondsAsMilliseconds_parseServerMetrics h "server_kem_encapsulation_us" (by decide),
    microsecondsAsMilliseconds_parseServerMetrics h "server_certificate_verify_sign_us" (by decide)]

/-! ## The runs -/

/-- The local logs when the sessions of these retries have been collected. -/
def logsAfter (logs : LocalLogs) (before : List Retry) : LocalLogs :=
  before.foldl (fun logs r ↦ collectSessionLogs logs r.remote) logs

/-- The loop comes to the session that follows these retries, none of which has raised. -/
structure Made (b : Builtins) (job : Job) (attemptIndex retry : ℕ) (logs : LocalLogs)
    (before : List Retry) (r : Retry) (rest : List Retry) : Prop where
  made : retry + before.length ∈
    (sessions retry logs (before ++ r :: rest)).map Session.retryIndex
  earlier : ∀ x ∈ sessions retry logs (before ++ r :: rest), x.retryIndex < retry + before.length →
    (x.rows b job attemptIndex).isSome

/-- No session follows. -/
def Retry.IsLast (r : Retry) (rest : List Retry) : Prop :=
  r.Stops ⟨[], []⟩ rest ∨ ∃ next ∈ rest.head?, next.expired = true

/-- `final` after the loop, when no session follows. -/
def Retry.closing (r : Retry) (rest : List Retry) (logs : LocalLogs) : Values :=
  if r.Stops logs rest ∧ (r.late = true → SerialSession.succeeded (r.final logs)) then r.final logs
  else SerialSession.timeout "case_deadline"

/-- The transfer rows that are built for the session that follows these retries, unless this
raises. -/
def sessionRows (b : Builtins) (job : Job) (attemptIndex : ℕ) (logs : LocalLogs)
    (before : List Retry) (r : Retry) : Option (List RoundRow) :=
  retryRows b job attemptIndex before.length r
    (collectSessionLogs (logsAfter logs before) r.remote)

/-- The transfer rows of the session with this index. -/
def AttemptRow.rowsOf (row : AttemptRow) (retry : ℕ) : List RoundRow :=
  row.transmissions.filter fun r ↦ r.roundTry = retry + 1

variable {attemptIndex retry : ℕ} {logs : LocalLogs} {before rest : List Retry} {x : Session}

theorem le_retryIndex {retries : List Retry} (h : x ∈ sessions retry logs retries) :
    retry ≤ x.retryIndex := by
  induction retries generalizing retry logs with
  | nil => cases h
  | cons r rest ih =>
      rw [sessions] at h
      split at h
      · cases h
      rcases List.mem_cons.mp h with rfl | h
      · exact le_rfl
      · split at h
        · cases h
        · exact Nat.le_of_succ_le (ih h)

theorem pairwise_retryIndex (retry : ℕ) (logs : LocalLogs) (retries : List Retry) :
    (sessions retry logs retries).Pairwise fun x y ↦ x.retryIndex < y.retryIndex := by
  induction retries generalizing retry logs with
  | nil => exact .nil
  | cons r rest ih =>
      rw [sessions]
      split
      · exact .nil
      dsimp only
      split
      · exact List.pairwise_singleton _ _
      · exact .cons (fun y hy ↦ le_retryIndex hy) (ih _ _)

/-- The session with this index is the one that follows the earlier retries. -/
theorem eq_of_mem_sessions (h : x ∈ sessions retry logs (before ++ r :: rest))
    (hx : x.retryIndex = retry + before.length) :
    x = ⟨retry + before.length, r, collectSessionLogs (logsAfter logs before) r.remote⟩ := by
  induction before generalizing retry logs with
  | nil =>
      rw [List.nil_append, sessions] at h
      split at h
      · cases h
      rcases List.mem_cons.mp h with rfl | h
      · rfl
      · split at h
        · cases h
        · have := le_retryIndex h
          rw [hx, List.length_nil] at this
          omega
  | cons r₀ before ih =>
      rw [List.length_cons, ← Nat.add_assoc, Nat.add_right_comm] at hx ⊢
      rw [List.cons_append, sessions] at h
      split at h
      · cases h
      rcases List.mem_cons.mp h with rfl | h
      · dsimp only at hx
        omega
      · split at h
        · cases h
        · exact ih h hx

theorem roundTry_of_mem_rows {added : List RoundRow} (h : x.rows b job attemptIndex = some added) :
    ∀ row ∈ added, row.roundTry = x.retryIndex + 1 := by
  cases job with
  | session _ =>
      cases h
      nofun
  | round round =>
      obtain ⟨rows, -, h⟩ := Option.bind_eq_some_iff.mp h
      cases h
      intro row hrow
      obtain ⟨_, -, rfl⟩ := List.mem_map.mp hrow
      rfl

theorem exists_of_mem_flatten {l : List Session} {made : List (List RoundRow)}
    (hmade : l.mapM (Session.rows b job attemptIndex) = some made) {row : RoundRow}
    (hrow : row ∈ made.flatten) : ∃ y ∈ l, row.roundTry = y.retryIndex + 1 := by
  obtain ⟨added, hadded, hrow⟩ := List.mem_flatten.mp hrow
  obtain ⟨y, hy, hrows⟩ := (exists_of_mem_mapM hmade).2 added hadded
  exact ⟨y, hy, roundTry_of_mem_rows hrows row hrow⟩

/-- The number of the try tells the rows of the sessions apart. -/
theorem rows_eq_filter_flatten {l : List Session} {made : List (List RoundRow)}
    (hmade : l.mapM (Session.rows b job attemptIndex) = some made)
    (hl : l.Pairwise fun x y ↦ x.retryIndex < y.retryIndex) (hx : x ∈ l) :
    x.rows b job attemptIndex =
      some (made.flatten.filter fun row ↦ row.roundTry = x.retryIndex + 1) := by
  induction l generalizing made with
  | nil => cases hx
  | cons y l ih =>
      obtain ⟨hy, hl⟩ := List.pairwise_cons.mp hl
      rw [List.mapM_cons] at hmade
      obtain ⟨added, hadded, hmade⟩ := Option.bind_eq_some_iff.mp hmade
      obtain ⟨made', hmade', hmade⟩ := Option.bind_eq_some_iff.mp hmade
      cases hmade
      rw [List.flatten_cons, List.filter_append]
      rcases List.mem_cons.mp hx with rfl | hx
      · have hothers : (made'.flatten.filter fun row ↦ row.roundTry = x.retryIndex + 1) = [] := by
          rw [List.filter_eq_nil_iff]
          intro row hrow htry
          obtain ⟨z, hz, hrow⟩ := exists_of_mem_flatten hmade' hrow
          have := hy z hz
          have := of_decide_eq_true htry
          omega
        rw [hothers, List.append_nil, List.filter_eq_self.mpr]
        · exact hadded
        · exact fun row hrow ↦ decide_eq_true (roundTry_of_mem_rows hadded row hrow)
      · have hothers : (added.filter fun row ↦ row.roundTry = x.retryIndex + 1) = [] := by
          rw [List.filter_eq_nil_iff]
          intro row hrow htry
          have := roundTry_of_mem_rows hadded row hrow
          have := hy x hx
          have := of_decide_eq_true htry
          omega
        rw [hothers, List.nil_append]
        exact ih hmade' hl hx

/-- The retry after the first has a session, and so the first was not the last. -/
theorem Made.tail {r₀ : Retry}
    (h : Made b job attemptIndex retry logs (r₀ :: before) r rest) :
    r₀.expired = false ∧ ¬ r₀.Stops (collectSessionLogs logs r₀.remote) (before ++ r :: rest) ∧
      (retryRows b job attemptIndex retry r₀ (collectSessionLogs logs r₀.remote)).isSome ∧
      Made b job attemptIndex (retry + 1) (collectSessionLogs logs r₀.remote) before r rest := by
  obtain ⟨hmade, hearlier⟩ := h
  have hindex : retry + (before.length + 1) = retry + 1 + before.length := by omega
  rw [List.cons_append, List.length_cons, hindex, sessions] at hmade hearlier
  by_cases hexpired : r₀.expired = true
  · rw [if_pos hexpired] at hmade
    cases hmade
  rw [if_neg hexpired] at hmade hearlier
  dsimp only at hmade hearlier
  have hne : retry + 1 + before.length ≠ retry := by omega
  rw [List.map_cons, List.mem_cons, or_iff_right hne] at hmade
  rw [List.forall_mem_cons] at hearlier
  by_cases hstops : r₀.Stops (collectSessionLogs logs r₀.remote) (before ++ r :: rest)
  · rw [if_pos hstops] at hmade
    cases hmade
  rw [if_neg hstops] at hmade hearlier
  refine ⟨Bool.eq_false_iff.mpr hexpired, hstops, hearlier.1 ?_, hmade, hearlier.2⟩
  dsimp only
  omega

/-- What the loop leaves when no session follows, unless it raises at the last one. -/
theorem runRetries_last (hmade : Made b job attemptIndex retry s.logs before r rest)
    (hlast : r.IsLast rest) : ∃ earlier : List RoundRow,
    runRetries b job attemptIndex retry s (before ++ r :: rest) =
      (retryRows b job attemptIndex (retry + before.length) r
        (collectSessionLogs (logsAfter s.logs before) r.remote)).map fun rows ↦
          ⟨r.closing rest (collectSessionLogs (logsAfter s.logs before) r.remote),
            retry + before.length, r.observations,
            collectSessionLogs (logsAfter s.logs before) r.remote, earlier ++ rows⟩ := by
  induction before generalizing retry s with
  | nil =>
      refine ⟨s.transferRows, ?_⟩
      obtain ⟨hmade, -⟩ := hmade
      rw [List.nil_append, sessions] at hmade
      split at hmade
      · cases hmade
      case isFalse hexpired =>
        rw [List.nil_append, runRetries, if_neg hexpired, Option.map_eq_bind]
        refine congrArg (Option.bind _) (funext fun rows ↦ ?_)
        dsimp only
        rw [Retry.closing]
        by_cases hstops : r.Stops (collectSessionLogs s.logs r.remote) rest
        · rw [if_pos hstops]
          by_cases hlate : r.late = true ∧
              ¬ SerialSession.succeeded (r.final (collectSessionLogs s.logs r.remote))
          · rw [if_pos hlate]
            have hclosing : ¬ (r.Stops (collectSessionLogs s.logs r.remote) rest ∧
                (r.late = true →
                  SerialSession.succeeded (r.final (collectSessionLogs s.logs r.remote)))) :=
              fun h ↦ hlate.2 (h.2 hlate.1)
            exact congrArg some (congrArg (Attempt.mk · _ _ _ _) (if_neg hclosing).symm)
          · rw [if_neg hlate]
            have hclosing : r.Stops (collectSessionLogs s.logs r.remote) rest ∧
                (r.late = true →
                  SerialSession.succeeded (r.final (collectSessionLogs s.logs r.remote))) :=
              ⟨hstops, fun h ↦ not_not.mp fun hfinal ↦ hlate ⟨h, hfinal⟩⟩
            exact congrArg some (congrArg (Attempt.mk · _ _ _ _) (if_pos hclosing).symm)
        · rw [if_neg hstops]
          rw [Retry.IsLast, stops_congr _ (collectSessionLogs s.logs r.remote),
            or_iff_right hstops] at hlast
          obtain ⟨next, hnext, hexpired⟩ := hlast
          obtain ⟨rest, rfl⟩ := List.head?_eq_some_iff.mp hnext
          rw [runRetries, if_pos hexpired]
          exact congrArg some (congrArg (Attempt.mk · _ _ _ _) (if_neg fun h ↦ hstops h.1).symm)
  | cons r₀ before ih =>
      obtain ⟨hexpired, hstops, hrows, hmade⟩ := hmade.tail
      obtain ⟨rows, hrows⟩ := Option.isSome_iff_exists.mp hrows
      have hindex : retry + (before.length + 1) = retry + 1 + before.length := by omega
      rw [List.cons_append, runRetries, if_neg (Bool.eq_false_iff.mp hexpired), List.length_cons,
        hindex]
      dsimp only
      rw [hrows, Option.bind_eq_bind, Option.bind_some, if_neg hstops]
      exact ih hmade

theorem closing_collect (h : AttemptSeparated job r old) :
    r.closing rest (collectSessionLogs old r.remote) =
      r.closing rest (collectSessionLogs ⟨[], []⟩ r.remote) := by
  simp only [Retry.closing, final_collect h,
    stops_congr (collectSessionLogs old r.remote) (collectSessionLogs ⟨[], []⟩ r.remote)]

/-- What `run_job` returns has the rows that have been built for the session. -/
theorem sessionRows_of_runJob {expectedScheme : Str} {row : AttemptRow}
    (hmade : Made b job attemptIndex 0 logs before r rest)
    (h : runJob b expectedScheme job attemptIndex logs (before ++ r :: rest) = some row) :
    sessionRows b job attemptIndex logs before r = some (row.rowsOf before.length) := by
  obtain ⟨x, hx, hindex⟩ := List.mem_map.mp hmade.made
  obtain ⟨s, hs, rfl⟩ := Option.map_eq_some_iff.mp h
  obtain ⟨⟨made, hmapM, htransfers⟩, -⟩ := runRetries_spec hs
  have hrows := rows_eq_filter_flatten hmapM (pairwise_retryIndex ..) hx
  rw [eq_of_mem_sessions hx hindex, Nat.zero_add] at hrows
  have htransmissions : (attemptRowOf b expectedScheme job attemptIndex s).transmissions =
      made.flatten := htransfers
  rw [AttemptRow.rowsOf, htransmissions]
  exact hrows

/-- The row of the attempt, if the last session is separated from the earlier ones. -/
theorem map_columns_runJob {expectedScheme : Str}
    (hmade : Made b job attemptIndex 0 logs before r rest) (hlast : r.IsLast rest)
    (hold : AttemptSeparated job r (logsAfter logs before)) :
    (runJob b expectedScheme job attemptIndex logs (before ++ r :: rest)).map AttemptRow.columns =
      (sessionRows b job attemptIndex logs before r).map fun _ ↦
        (attemptRowOf b expectedScheme job attemptIndex
          ⟨r.closing rest (collectSessionLogs ⟨[], []⟩ r.remote), before.length, r.observations,
            collectSessionLogs ⟨[], []⟩ r.remote, []⟩).columns := by
  obtain ⟨earlier, hruns⟩ := runRetries_last (s := ⟨[], 0, [], logs, []⟩) hmade hlast
  rw [Nat.zero_add] at hruns
  rw [runJob, hruns, Option.map_map, Option.map_map, sessionRows]
  refine congrArg (Option.map · _) (funext fun rows ↦ ?_)
  dsimp only [Function.comp_apply]
  rw [columns_attemptRowOf hold rfl rfl, closing_collect hold]
  rfl

/-- **Two runs that differ in what earlier sessions have left** agree on the rows that are built for
a session, and on the row of the attempt if the session is the last one, provided that all that
these look for is in the logs of the session or in no earlier ones.  If one of them raises at the
session, so does the other. -/
theorem isolated (expectedScheme : Str) {logs' : LocalLogs} {before' : List Retry}
    (hlength : before.length = before'.length)
    (hmade : Made b job attemptIndex 0 logs before r rest)
    (hmade' : Made b job attemptIndex 0 logs' before' r rest)
    (hold : RowsSeparated b job r (logsAfter logs before))
    (hold' : RowsSeparated b job r (logsAfter logs' before')) :
    sessionRows b job attemptIndex logs before r = sessionRows b job attemptIndex logs' before' r ∧
    (∀ row row',
      runJob b expectedScheme job attemptIndex logs (before ++ r :: rest) = some row →
      runJob b expectedScheme job attemptIndex logs' (before' ++ r :: rest) = some row' →
        row.rowsOf before.length = row'.rowsOf before.length) ∧
    (r.IsLast rest → AttemptSeparated job r (logsAfter logs before) →
      AttemptSeparated job r (logsAfter logs' before') →
        (runJob b expectedScheme job attemptIndex logs (before ++ r :: rest)).map
            AttemptRow.columns =
          (runJob b expectedScheme job attemptIndex logs' (before' ++ r :: rest)).map
            AttemptRow.columns) := by
  have hrows : sessionRows b job attemptIndex logs before r =
      sessionRows b job attemptIndex logs' before' r := by
    rw [sessionRows, sessionRows, retryRows_collect hold, retryRows_collect hold', hlength]
  refine ⟨hrows, fun row row' h h' ↦ ?_, fun hlast hattempt hattempt' ↦ ?_⟩
  · rw [sessionRows_of_runJob hmade h, sessionRows_of_runJob hmade' h', Option.some_inj] at hrows
    rw [hrows, hlength]
  · rw [map_columns_runJob hmade hlast hattempt, map_columns_runJob hmade' hlast hattempt', hrows,
      hlength]

end

/-! ## A connection of an earlier session -/

/-- A session that has not started, with this log of the gateway. -/
def failedRetry (gateway : String) : Retry where
  expired := false
  observations := []
  result := .error "CalledProcessError".toList
  remote := ⟨[], [], gateway.toList⟩
  rearmed := true
  powerWindows := none
  late := false

/-- The log of a gateway that has connected to the board, but not to the server. -/
def connectedLog : String := "[BENCH_GATEWAY] ble_l2cap_connect_ms=12.345\n[-] TCP connect failed\n"

/-- The log of a gateway that has not found the board. -/
def notFoundLog : String := "[-] Device named 'board' was not found\n"

/-- The only session of a case. -/
def sampleSession : Job := .session ⟨1, "case", 1, 1, 0, 1⟩

/-- The session of a round that is a success, with the metrics of the gateway. -/
def measuredRetry : Retry :=
  { sampleRetry [sampleHandshake] with
    remote := ⟨[], [], ("[BENCH_GATEWAY] ble_l2cap_connect_ms=11.000\n" ++
      "[BENCH_GATEWAY] gateway_tcp_connect_ms=2.000\n").toList⟩ }

/-- The rows of this session are the same, whether an earlier one has connected to the board or has
not found it. -/
theorem isolated_measuredRetry :
    ∃ row row',
      runJob exactBuiltins sampleScheme (.round sampleRound) 1 ⟨[], []⟩
        [failedRetry connectedLog, measuredRetry] = some row ∧
      runJob exactBuiltins sampleScheme (.round sampleRound) 1 ⟨[], []⟩
        [failedRetry notFoundLog, measuredRetry] = some row' ∧
      row.rowsOf 1 = row'.rowsOf 1 ∧ row.columns = row'.columns := by
  have hsome : ∀ log ∈ [connectedLog, notFoundLog],
      (runJob exactBuiltins sampleScheme (.round sampleRound) 1 ⟨[], []⟩
        [failedRetry log, measuredRetry]).isSome := by
    decide +kernel
  have hmade : ∀ log ∈ [connectedLog, notFoundLog],
      Made exactBuiltins (.round sampleRound) 1 0 ⟨[], []⟩ [failedRetry log] measuredRetry [] := by
    intro log hlog
    constructor <;> revert log <;> decide +kernel
  have hrows : ∀ log ∈ [connectedLog, notFoundLog], RowsSeparated exactBuiltins (.round sampleRound)
      measuredRetry (logsAfter ⟨[], []⟩ [failedRetry log]) := by
    intro log hlog
    constructor
    case sequence =>
      intro _
      revert log
      unfold HasSequence
      decide +kernel
    all_goals revert log; decide +kernel
  have hattempt : ∀ log ∈ [connectedLog, notFoundLog], AttemptSeparated (.round sampleRound)
      measuredRetry (logsAfter ⟨[], []⟩ [failedRetry log]) := by
    intro log hlog
    constructor
    case start => exact fun h ↦ absurd h (by decide +kernel)
    case handshake => exact fun _ h ↦ absurd h (by decide +kernel)
    all_goals revert log; decide +kernel
  obtain ⟨row, hrow⟩ := Option.isSome_iff_exists.mp (hsome connectedLog (by decide))
  obtain ⟨row', hrow'⟩ := Option.isSome_iff_exists.mp (hsome notFoundLog (by decide))
  have hconnected : connectedLog ∈ [connectedLog, notFoundLog] := .head _
  have hnotFound : notFoundLog ∈ [connectedLog, notFoundLog] := .tail _ (.head _)
  have hlength : [failedRetry connectedLog].length = [failedRetry notFoundLog].length :=
    List.length_singleton.trans List.length_singleton.symm
  obtain ⟨-, hrowsOf, hcolumns⟩ := isolated sampleScheme hlength
    (hmade _ hconnected) (hmade _ hnotFound) (hrows _ hconnected) (hrows _ hnotFound)
  have hsame := hcolumns (.inl (by decide +kernel)) (hattempt _ hconnected) (hattempt _ hnotFound)
  rw [List.singleton_append, List.singleton_append, hrow, hrow'] at hsame
  exact ⟨row, row', hrow, hrow', hrowsOf row row' hrow hrow', Option.some_inj.mp hsame⟩

/-- The board has not been found, and the row has the time of a connection that an earlier session
has made. -/
theorem not_isolated :
    ∃ row row',
      Made exactBuiltins sampleSession 1 0 ⟨[], []⟩ [failedRetry connectedLog]
        (failedRetry notFoundLog) [] ∧
      Made exactBuiltins sampleSession 1 0 ⟨[], []⟩ [failedRetry notFoundLog]
        (failedRetry notFoundLog) [] ∧
      (failedRetry notFoundLog).IsLast [] ∧
      runJob exactBuiltins sampleScheme sampleSession 1 ⟨[], []⟩
        [failedRetry connectedLog, failedRetry notFoundLog] = some row ∧
      runJob exactBuiltins sampleScheme sampleSession 1 ⟨[], []⟩
        [failedRetry notFoundLog, failedRetry notFoundLog] = some row' ∧
      row.columns ≠ row'.columns := by
  have hmade : ∀ log ∈ [connectedLog, notFoundLog],
      Made exactBuiltins sampleSession 1 0 ⟨[], []⟩ [failedRetry log]
        (failedRetry notFoundLog) [] := by
    intro log hlog
    constructor <;> revert log <;> decide +kernel
  have hconnected : (runJob exactBuiltins sampleScheme sampleSession 1 ⟨[], []⟩
      [failedRetry connectedLog, failedRetry notFoundLog]).map
        (fun row ↦ row.columns.bleL2capConnectMs) = some "12.345".toList := by
    decide +kernel
  have hnotFound : (runJob exactBuiltins sampleScheme sampleSession 1 ⟨[], []⟩
      [failedRetry notFoundLog, failedRetry notFoundLog]).map
        (fun row ↦ row.columns.bleL2capConnectMs) = some [] := by
    decide +kernel
  obtain ⟨row, hrow, htime⟩ := Option.map_eq_some_iff.mp hconnected
  obtain ⟨row', hrow', htime'⟩ := Option.map_eq_some_iff.mp hnotFound
  refine ⟨row, row', hmade _ (.head _), hmade _ (.tail _ (.head _)), .inl (by decide +kernel), hrow,
    hrow', fun hcolumns ↦ ?_⟩
  rw [hcolumns, htime'] at htime
  cases htime

end RunJob

end PeripheralBench.Runner

import PeripheralBench.Power.Profiler
import PeripheralBench.Runner.RunJob

/-!
# The attempt and its transfers

A transfer row enters the summary of the transfers if it is a success and its round is complete.
Whether the round is complete is settled inside of the loop of `run_job`, by the result of the
session and the rows of the operations, and what comes after the loop leaves it as it is.  There the
attempt still becomes a failure if the handshake has not used the signature scheme of the case, or
if there is no record of the handshake.

So a complete round can belong to an attempt that has failed (`not_agrees_lostHandshake`).  It does
not if the records of every session that completes the round name the scheme (`agrees_iff`).
-/

open PeripheralBench.Fold

namespace PeripheralBench.Runner

namespace RunJob

/-! ## The sessions of an attempt -/

/-- A session that `run_job` has made, with the logs that have been collected up to its end. -/
structure Session where
  retryIndex : ℕ
  retry : Retry
  logs : LocalLogs

/-- The sessions of an attempt. -/
def sessions : ℕ → LocalLogs → List Retry → List Session
  | _, _, [] => []
  | retry, logs, r :: rest =>
      if r.expired then []
      else
        let logs := collectSessionLogs logs r.remote
        ⟨retry, r, logs⟩ :: if r.Stops logs rest then [] else sessions (retry + 1) logs rest

namespace Session

/-- `final` at the end of the session. -/
def final (x : Session) : Values := x.retry.final x.logs

/-- The record of the handshake: the last one of the board, or else the last one in `gateway.log`.
-/
def handshake (x : Session) : Option Values :=
  (latest (valuesOf "HANDSHAKE".toList) x.retry.observations).or
    (latestBenchmarkObservation x.logs.gateway "HANDSHAKE".toList)

/-- The signature scheme that the record of the handshake names, or else the result. -/
def scheme (x : Session) : Str := field (x.handshake.getD x.final) "certificate_verify_alg"

section

variable (b : Builtins)

/-- The board, or the server where the board has said nothing, confirms the transfer with this
number. -/
def Confirms (x : Session) (n : ℕ) : Prop :=
  let board := (boardValues b x.retry.observations x.logs.broker n).getD []
  let server := (latest (serverAt b n) (benchLines x.logs.broker)).getD []
  board.get? "status".toList = some "success".toList ∨
    board = [] ∧ server.get? "status".toList = some "success".toList

/-- The rows that the session adds. -/
def rows (job : Job) (attemptIndex : ℕ) (x : Session) : Option (List RoundRow) :=
  retryRows b job attemptIndex x.retryIndex x.retry x.logs

/-- The session is a success, and so are all transfers of the round. -/
def Completes (round : TransferRound) (x : Session) : Prop :=
  SerialSession.succeeded x.final ∧ round.operations ≠ [] ∧
    ∀ o ∈ round.operations, x.Confirms b o.order

end

end Session

/-- If a row of the attempt enters the summary of the transfers the attempt is a success, and no
operation has two such rows. -/
def AttemptRow.Agrees (row : AttemptRow) (round : TransferRound) : Prop :=
  ((∃ r ∈ row.transmissions, r.IsAggregated) → row.status = "success".toList) ∧
    ∀ o ∈ round.operations, (row.transmissions.filter fun r ↦
      decide (r.IsAggregated ∧ r.row.transferOrder = o.order)).length ≤ 1

/-! ## What a session adds -/

section

variable {b : Builtins} {job : Job} {round : TransferRound} {attemptIndex : ℕ} {x : Session}
  {added : List RoundRow}

theorem map_order_rows (h : x.rows b (.round round) attemptIndex = some added) :
    added.map (fun r ↦ r.row.transferOrder) = round.operations.map TransferOperation.order := by
  obtain ⟨made, hmade, h⟩ := Option.bind_eq_some_iff.mp h
  cases h
  rw [roundRows, List.map_map]
  exact map_order_transferRowsForRound hmade

theorem succeeded_get {final : Values} (h : SerialSession.succeeded final) (default : Str) :
    final.get "status".toList default = "success".toList := by
  rw [Values.get, h, Option.getD_some]

/-- A session adds rows that enter the summary if it completes the round. -/
theorem exists_isAggregated_rows_iff (h : x.rows b (.round round) attemptIndex = some added) :
    (∃ r ∈ added, r.IsAggregated) ↔ x.Completes b round := by
  obtain ⟨made, hmade, h⟩ := Option.bind_eq_some_iff.mp h
  cases h
  have hstatus : SerialSession.succeeded x.final →
      ((∀ row ∈ made, row.status = "success".toList) ↔
        ∀ o ∈ round.operations, x.Confirms b o.order) := by
    intro hfinal
    have hmap := map_status_transferRowsForRound hmade
    rw [show (x.retry.final x.logs).get "status".toList "fail".toList = "success".toList from
      succeeded_get hfinal _] at hmap
    rw [← List.forall_mem_map (f := TransferRow.status) (P := (· = "success".toList)), hmap,
      List.forall_mem_map]
    exact forall₂_congr fun o _ ↦ operationStatus_eq_success_iff
  have hnil : made ≠ [] ↔ round.operations ≠ [] := by
    rw [ne_eq, ← List.map_eq_nil_iff (f := TransferRow.transferOrder),
      map_order_transferRowsForRound hmade, List.map_eq_nil_iff]
  constructor
  · rintro ⟨r, hr, -, hcomplete⟩
    obtain ⟨row, hrow, rfl⟩ := List.mem_map.mp hr
    obtain ⟨hfinal, hrows⟩ := of_decide_eq_true hcomplete
    exact ⟨hfinal, hnil.mp (List.ne_nil_of_mem hrow), (hstatus hfinal).mp hrows⟩
  · rintro ⟨hfinal, hoperations, hconfirms⟩
    have hrows := (hstatus hfinal).mpr hconfirms
    obtain ⟨row, hrow⟩ := List.exists_mem_of_ne_nil made (hnil.mpr hoperations)
    exact ⟨_, List.mem_map_of_mem hrow, hrows row hrow, decide_eq_true ⟨hfinal, hrows⟩⟩

/-- No two rows of a session are of one operation. -/
theorem length_filter_rows_le_one (h : x.rows b (.round round) attemptIndex = some added)
    (hround : (round.operations.map TransferOperation.order).Nodup) (n : ℕ) :
    (added.filter fun r ↦ decide (r.IsAggregated ∧ r.row.transferOrder = n)).length ≤ 1 := by
  rw [← map_order_rows h, List.nodup_iff_count_le_one] at hround
  refine le_trans ?_ (hround n)
  rw [List.count_eq_countP, List.countP_map, ← List.countP_eq_length_filter]
  refine List.countP_mono_left fun r _ hr ↦ ?_
  exact beq_iff_eq.mpr (of_decide_eq_true hr).2

/-! ## What the loop leaves -/

/-- No session follows one that is a success. -/
theorem pairwise_sessions (retry : ℕ) (logs : LocalLogs) (retries : List Retry) :
    (sessions retry logs retries).Pairwise fun x _ ↦ ¬ SerialSession.succeeded x.final := by
  induction retries generalizing retry logs with
  | nil => exact .nil
  | cons r rest ih =>
      rw [sessions]
      split
      · exact .nil
      dsimp only
      split
      · exact List.pairwise_singleton _ _
      case isFalse hstops => exact .cons (fun _ _ h ↦ hstops (.inl h)) (ih _ _)

/-- The loop leaves the rows of all sessions and, if one of them is a success, what this one has
brought. -/
theorem runRetries_spec {retry : ℕ} {s s' : Attempt} {retries : List Retry}
    (h : runRetries b job attemptIndex retry s retries = some s') :
    (∃ made, (sessions retry s.logs retries).mapM (Session.rows b job attemptIndex) = some made ∧
      s'.transferRows = s.transferRows ++ made.flatten) ∧
    ∀ x ∈ sessions retry s.logs retries, SerialSession.succeeded x.final →
      s'.final = x.final ∧ s'.observations = x.retry.observations ∧ s'.logs = x.logs := by
  induction retries generalizing retry s with
  | nil =>
      cases h
      exact ⟨⟨[], rfl, (List.append_nil _).symm⟩, nofun⟩
  | cons r rest ih =>
      rw [runRetries] at h
      rw [sessions]
      split at h
      case isTrue hexpired =>
        cases h
        rw [if_pos hexpired]
        exact ⟨⟨[], rfl, (List.append_nil _).symm⟩, nofun⟩
      case isFalse hexpired =>
        rw [if_neg hexpired]
        obtain ⟨rows, hrows, h⟩ := Option.bind_eq_some_iff.mp h
        dsimp only at h ⊢
        by_cases hstops : r.Stops (collectSessionLogs s.logs r.remote) rest
        · rw [if_pos hstops] at h ⊢
          cases h
          refine ⟨⟨[rows], ?_, ?_⟩, ?_⟩
          · rw [List.mapM_cons, Session.rows, hrows]
            rfl
          · rw [List.flatten_singleton]
          · rw [List.forall_mem_singleton]
            intro hfinal
            exact ⟨if_neg fun h ↦ h.2 hfinal, rfl, rfl⟩
        · rw [if_neg hstops] at h ⊢
          obtain ⟨⟨made, hmade, htransfer⟩, hlast⟩ := ih h
          refine ⟨⟨rows :: made, ?_, ?_⟩, ?_⟩
          · rw [List.mapM_cons, Session.rows, hrows, hmade]
            rfl
          · rw [htransfer, List.flatten_cons, List.append_assoc]
          · rw [List.forall_mem_cons]
            exact ⟨fun hfinal ↦ absurd (.inl hfinal) hstops, hlast⟩

/-! ## What the row of the attempt says -/

variable {s : Attempt}

theorem succeeded_rowFinal (h : SerialSession.succeeded s.final) :
    SerialSession.succeeded (rowFinal job s) := by
  unfold rowFinal
  split
  · rw [SerialSession.succeeded, Values.get?_set_of_ne (by decide),
      Values.get?_set_of_ne (by decide), Values.get?_set_self, succeeded_get h]
  · exact h

/-- The handshake that the row is made from is the one on record. -/
theorem lastHandshake_withHandshake :
    lastHandshake (withHandshake (.round round) s) =
      (latest (valuesOf "HANDSHAKE".toList) s.observations).or
        (latestBenchmarkObservation s.logs.gateway "HANDSHAKE".toList) := by
  have hsome : (latest (valuesOf "HANDSHAKE".toList) s.observations).isSome ↔
      ∃ observation ∈ s.observations, observation.1 = "HANDSHAKE".toList := by
    rw [isSome_latest_iff]
    refine exists_congr fun observation ↦ and_congr_right fun _ ↦ ?_
    rw [valuesOf]
    split
    case isTrue h => exact iff_of_true rfl h
    case isFalse h => exact iff_of_false Bool.false_ne_true h
  rw [lastHandshake, withHandshake]
  split
  case isTrue h => exact (Option.or_of_isSome (hsome.mpr h)).symm
  case isFalse h =>
    rw [← hsome, Option.not_isSome_iff_eq_none] at h
    cases latestBenchmarkObservation s.logs.gateway "HANDSHAKE".toList with
    | none => exact Option.or_none.symm
    | some handshake =>
        dsimp only
        rw [h, latest_append, h, Option.or_none, Option.none_or]
        rfl

/-- The scheme of the row is the one that is named by the session that the loop has ended with. -/
theorem scheme_rowFinal (hfinal : s.final = x.final)
    (hobservations : s.observations = x.retry.observations)
    (hlogs : s.logs = x.logs) :
    field (rowFinal (.round round) s) "certificate_verify_alg" = x.scheme := by
  have hhandshake : lastHandshake (withHandshake (.round round) s) = x.handshake := by
    rw [lastHandshake_withHandshake, hobservations, hlogs, Session.handshake]
  rw [Session.scheme, ← hhandshake, ← hfinal]
  unfold rowFinal
  cases lastHandshake (withHandshake (.round round) s) with
  | none => rfl
  | some handshake =>
      dsimp only
      rw [field, Values.get, Values.get?_set_of_ne (by decide), Values.get?_set_of_ne (by decide),
        Values.get?_set_of_ne (by decide)]
      rfl

/-- An attempt with a success at the end of the loop is one if the scheme is right. -/
theorem status_attemptRowOf {expectedScheme : Str} (hfinal : SerialSession.succeeded s.final) :
    (attemptRowOf b expectedScheme job attemptIndex s).status = "success".toList ↔
      field (rowFinal job s) "certificate_verify_alg" = expectedScheme := by
  have hstatus : ((rowFinal job s).get "status".toList "fail".toList).map Char.toLower =
      "success".toList := by
    rw [succeeded_get (succeeded_rowFinal hfinal)]
    decide
  rw [attemptRowOf]
  dsimp only
  rw [hstatus]
  by_cases hscheme : field (rowFinal job s) "certificate_verify_alg" = expectedScheme
  · rw [if_neg fun h ↦ h.2 hscheme]
    exact iff_of_true rfl hscheme
  · rw [if_pos ⟨rfl, hscheme⟩]
    exact iff_of_false (by decide) hscheme

/-! ## The summary of the transfers -/

variable {made : List (List RoundRow)} {l : List Session}

/-- A row enters the summary if a session completes the round. -/
theorem exists_isAggregated_flatten_iff
    (hmade : l.mapM (Session.rows b (.round round) attemptIndex) = some made) :
    (∃ r ∈ made.flatten, r.IsAggregated) ↔ ∃ x ∈ l, x.Completes b round := by
  obtain ⟨hleft, hright⟩ := exists_of_mem_mapM hmade
  constructor
  · rintro ⟨r, hr, haggregated⟩
    obtain ⟨added, hadded, hr⟩ := List.mem_flatten.mp hr
    obtain ⟨x, hx, hrows⟩ := hright added hadded
    exact ⟨x, hx, (exists_isAggregated_rows_iff hrows).mp ⟨r, hr, haggregated⟩⟩
  · rintro ⟨x, hx, hcompletes⟩
    obtain ⟨added, hadded, hrows⟩ := hleft x hx
    obtain ⟨r, hr, haggregated⟩ := (exists_isAggregated_rows_iff hrows).mpr hcompletes
    exact ⟨r, List.mem_flatten_of_mem hadded hr, haggregated⟩

/-- No two rows in the summary are of one operation. -/
theorem length_filter_flatten_le_one
    (hmade : l.mapM (Session.rows b (.round round) attemptIndex) = some made)
    (hl : l.Pairwise fun x _ ↦ ¬ SerialSession.succeeded x.final)
    (hround : (round.operations.map TransferOperation.order).Nodup) (n : ℕ) :
    (made.flatten.filter fun r ↦
      decide (r.IsAggregated ∧ r.row.transferOrder = n)).length ≤ 1 := by
  have hforall := forall₂_mapM hmade
  clear hmade
  induction hforall with
  | nil => exact Nat.zero_le 1
  | @cons x added l made hrows hrest ih =>
      obtain ⟨hx, hl⟩ := List.pairwise_cons.mp hl
      by_cases hfinal : SerialSession.succeeded x.final
      · cases hrest with
        | nil =>
            rw [List.flatten_singleton]
            exact length_filter_rows_le_one hrows hround n
        | @cons y _ _ _ _ _ => exact absurd hfinal (hx y (List.mem_cons_self ..))
      · have hnone : (added.filter fun r ↦
            decide (r.IsAggregated ∧ r.row.transferOrder = n)) = [] := by
          rw [List.filter_eq_nil_iff]
          intro r hr haggregated
          have hcompletes := (exists_isAggregated_rows_iff hrows).mp
            ⟨r, hr, (of_decide_eq_true haggregated).1⟩
          exact hfinal hcompletes.1
        rw [List.flatten_cons, List.filter_append, hnone, List.nil_append]
        exact ih hl

/-- **The attempt and its transfers agree** exactly if the records of every session that completes
the round name the signature scheme of the case. -/
theorem agrees_iff {schedule : Schedule} (hround : .round round ∈ schedule.jobs)
    {expectedScheme : Str} {logs : LocalLogs} {retries : List Retry} {row : AttemptRow}
    (h : runJob b expectedScheme (.round round) attemptIndex logs retries = some row) :
    row.Agrees round ↔
      ∀ x ∈ sessions 0 logs retries, x.Completes b round → x.scheme = expectedScheme := by
  obtain ⟨s, hs, rfl⟩ := Option.map_eq_some_iff.mp h
  obtain ⟨⟨made, hmade, htransfers⟩, hlast⟩ := runRetries_spec hs
  have hsuccess : ∀ x ∈ sessions 0 logs retries, x.Completes b round →
      ((attemptRowOf b expectedScheme (.round round) attemptIndex s).status = "success".toList ↔
        x.scheme = expectedScheme) := by
    intro x hx hcompletes
    obtain ⟨hfinal, hobservations, hlogs⟩ := hlast x hx hcompletes.1
    rw [← scheme_rowFinal hfinal hobservations hlogs]
    exact status_attemptRowOf (hfinal.symm ▸ hcompletes.1)
  have hrows : (attemptRowOf b expectedScheme (.round round) attemptIndex s).transmissions =
      made.flatten := htransfers
  have hunique := length_filter_flatten_le_one hmade (pairwise_sessions ..)
    (schedule.nodup_order _ hround)
  rw [AttemptRow.Agrees, hrows, exists_isAggregated_flatten_iff hmade]
  refine (and_iff_left fun (o : TransferOperation) _ ↦ hunique o.order).trans ?_
  constructor
  · intro hagrees x hx hcompletes
    exact (hsuccess x hx hcompletes).mp (hagrees ⟨x, hx, hcompletes⟩)
  · rintro hscheme ⟨x, hx, hcompletes⟩
    exact (hsuccess x hx hcompletes).mpr (hscheme x hx hcompletes)

end

/-! ## A handshake that is not on record -/

/-- Exact arithmetic, and a hash of zeros. -/
def exactBuiltins : Builtins where
  int text :=
    if text ≠ [] ∧ text.all (fun c ↦ '0' ≤ c ∧ c ≤ '9') then
      some (text.foldl (fun n c ↦ 10 * n + (c.toNat - 48 : ℕ)) 0)
    else none
  Number := ℚ
  float text :=
    if text ≠ [] ∧ text.all (fun c ↦ '0' ≤ c ∧ c ≤ '9') then
      some (text.foldl (fun n c ↦ 10 * n + (c.toNat - 48 : ℕ)) 0)
    else none
  literal n := n
  add x y := x + y
  mul x y := x * y
  div x y := x / y
  truth x := decide (x ≠ 0)
  fixed digits x := (Power.fixed digits x).toList
  payloadSha256 _ _ := List.replicate 64 '0'

/-- The round of a case with one iteration, whose operations are not shuffled. -/
def sampleRounds : Schedule :=
  buildTransferRounds (fun _ ↦ ⟨fun _ l ↦ l, fun _ l ↦ .refl l⟩) (fun _ _ _ ↦ 0) 1
    [⟨"case", 0, 1, ""⟩]

/-- The round. -/
def sampleRound : TransferRound where
  sequence := 1
  caseId := "case"
  roundIndex := 1
  operations := operationsForCase (fun _ ↦ ⟨fun _ l ↦ l, fun _ l ↦ .refl l⟩)
    (fun _ _ _ ↦ 0) 1 "case" 1

/-- What the board reports about a transfer, up to the status. -/
def transferResult (operation : TransferOperation) : Str × Values :=
  ("TRANSFER_RESULT".toList,
    [("sequence".toList, (toString operation.order).toList),
      ("direction".toList, operation.direction.toList),
      ("payload_bytes".toList, (toString operation.payloadBytes).toList),
      ("status".toList, "success".toList)])

/-- What the board reports at the end. -/
def transferComplete : Values :=
  [("status".toList, "success".toList), ("stage".toList, "transfer_complete".toList),
    ("error".toList, "0".toList)]

/-- A session in which all transfers are a success, with these observations before them. -/
def sampleRetry (observations : List (Str × Values)) : Retry where
  expired := false
  observations := observations ++ sampleRound.operations.map transferResult ++
    [("RESULT".toList, transferComplete)]
  result := .ok transferComplete
  remote := ⟨[], [], []⟩
  rearmed := true
  powerWindows := none
  late := false

/-- The scheme that a case with ECDSA expects. -/
def sampleScheme : Str := "ecdsa_secp256r1_sha256".toList

/-- What the board reports about the handshake, up to the signature scheme. -/
def sampleHandshake : Str × Values :=
  ("HANDSHAKE".toList,
    [("status".toList, "success".toList), ("certificate_verify_alg".toList, sampleScheme)])

theorem sampleRound_mem : .round sampleRound ∈ sampleRounds.jobs := List.mem_singleton_self _

/-- With the report about the handshake the attempt is a success. -/
theorem agrees_iff_handshake :
    ∃ row, runJob exactBuiltins sampleScheme (.round sampleRound) 1 ⟨[], []⟩
        [sampleRetry [sampleHandshake]] = some row ∧ row.Agrees sampleRound := by
  have hsome : (runJob exactBuiltins sampleScheme (.round sampleRound) 1 ⟨[], []⟩
      [sampleRetry [sampleHandshake]]).isSome := by decide +kernel
  have hscheme : ∀ x ∈ sessions 0 ⟨[], []⟩ [sampleRetry [sampleHandshake]],
      x.scheme = sampleScheme := by decide +kernel
  obtain ⟨row, hrow⟩ := Option.isSome_iff_exists.mp hsome
  exact ⟨row, hrow, (agrees_iff sampleRound_mem hrow).mpr fun x hx _ ↦ hscheme x hx⟩

/-- The report about the handshake has been lost: the attempt fails, and all of its transfers are in
the summary. -/
theorem not_agrees_lostHandshake :
    ∃ row, runJob exactBuiltins sampleScheme (.round sampleRound) 1 ⟨[], []⟩ [sampleRetry []] =
        some row ∧ ¬ row.Agrees sampleRound := by
  have hrun : (runJob exactBuiltins sampleScheme (.round sampleRound) 1
      ⟨[], []⟩ [sampleRetry []]).map
      (fun row ↦ (row.status, row.transmissions.map fun r ↦ decide r.IsAggregated)) =
        some ("fail".toList, List.replicate 12 true) := by
    decide +kernel
  obtain ⟨row, hrow, hvalues⟩ := Option.map_eq_some_iff.mp hrun
  obtain ⟨hstatus, hrows⟩ := Prod.mk.inj hvalues
  have hmem : true ∈ row.transmissions.map fun r ↦ decide r.IsAggregated := by
    rw [hrows]
    exact List.mem_cons_self ..
  obtain ⟨r, hr, haggregated⟩ := List.mem_map.mp hmem
  refine ⟨row, hrow, fun hagrees ↦ ?_⟩
  have hsuccess := hagrees.1 ⟨r, hr, of_decide_eq_true haggregated⟩
  rw [hstatus] at hsuccess
  exact absurd hsuccess (by decide)

end RunJob

end PeripheralBench.Runner

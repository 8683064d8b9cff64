import Mathlib.Data.List.AList
import PeripheralBench.Fold.Overwrite
import PeripheralBench.Runner.CaseFile
import PeripheralBench.Runner.Coverage

/-!
# What the checker of a run directory says

`check_results.py` looks at two kinds of files: at `run_manifest.csv`, for the cases of the run, and
at the `attempts.csv` of each case, for the rows that have been recorded.  It does not look at the
schedule, nor at the checkpoint.  So a pass says that each case has a row and that all recorded rows
are a success, and no more: a run that has been interrupted after its first attempt passes
(`not_check_all`).  Together with the checkpoint it says more, as long as no rows have been lost
(`check_sound`).

The runner writes these files at different times.  `LeftBehind` is about the run directory at any
point of a run, from the moment it has been made.
-/

open PeripheralBench.Durable PeripheralBench.Fold

namespace PeripheralBench.Runner

namespace CheckResults

/-! ## The files -/

/-- `POWER_ATTEMPT_FIELDS`. -/
def powerAttemptFields : List String :=
  ["client_kem", "mlkem", "classical_kex", "client_signature", "handshake",
    "total_execution"].flatMap
    fun window ↦ ["duration_ms", "charge_uc", "energy_uj", "avg_current_ua", "peak_current_ua"].map
      fun metric ↦ window ++ "_" ++ metric

/-- `ATTEMPT_FIELDS`. -/
def attemptFields : List String :=
  ["attempt_index", "schedule_index", "session", "attempt_in_session", "warmup",
    "status", "reconnect_count", "mtls_mode", "mlkem_backend", "rsa_profile",
    "firmware_profile", "pki_chain_id", "pki_kind", "root_sig_alg",
    "intermediate_sig_alg", "leaf_sig_alg", "root_cert_der_bytes",
    "intermediate_cert_der_bytes", "leaf_cert_der_bytes", "server_chain_bytes",
    "kex_group", "kex_nist_level",
    "kex_public_key_bytes", "kex_ciphertext_bytes", "kex_shared_secret_bytes",
    "cert_sig_alg", "sig_nist_level", "sig_public_key_bytes",
    "sig_private_key_bytes", "sig_signature_bytes",
    "certificate_verify_alg", "certificate_verify_scheme_id",
    "expected_certificate_verify_alg", "client_certificate_verify_alg",
    "client_identity_id", "certificate_verify_match",
    "ble_l2cap_connect_ms", "gateway_tcp_connect_ms", "tls_setup_ms",
    "raw_handshake_ms", "mqtt_connect_ms", "full_connect_ms", "end_to_end_ms",
    "communication_overhead_ms", "kem_keygen_ms", "kem_encapsulation_ms",
    "kem_decapsulation_ms", "classical_kex_keygen_ms",
    "classical_kex_shared_secret_ms", "kem_client_total_ms",
    "certificate_signature_verify_ms", "x509_chain_signature_verify_ms",
    "tls_certificate_verify_signature_verify_ms",
    "mtls_signature_generate_ms", "client_signature_total_ms",
    "server_kem_encapsulation_ms", "server_certificate_verify_sign_ms",
    "l2cap_tx_packets", "l2cap_tx_bytes", "l2cap_rx_packets", "l2cap_rx_bytes",
    "l2cap_tx_retries", "l2cap_tx_wait_ms", "l2cap_rx_overflows",
    "client_cpu_cycles", "client_cycle_hz", "client_cpu_ms",
    "client_cpu_usage_percent", "system_cpu_usage_percent",
    "average_cpu_usage_percent", "peak_cpu_usage_percent",
    "client_icache_hits", "client_icache_misses", "client_icache_requests",
    "client_icache_hit_percent", "client_icache_miss_percent",
    "client_memory_access_counters_supported",
    "dwt_cycle_counter_supported", "dwt_event_counters_supported",
    "dwt_cyccnt", "dwt_cpicnt", "dwt_exccnt", "dwt_sleepcnt",
    "dwt_lsucnt", "dwt_foldcnt", "dwt_cycle_counter_width_bits",
    "dwt_event_counter_width_bits", "dwt_counts_are_modulo",
    "client_heap_current_bytes", "client_heap_peak_bytes",
    "client_heap_free_bytes", "client_heap_capacity_bytes",
    "client_heap_peak_usage_percent",
    "firmware_flash_used_bytes", "firmware_flash_capacity_bytes",
    "firmware_flash_usage_percent",
    "firmware_static_ram_used_bytes", "firmware_ram_capacity_bytes",
    "firmware_static_ram_usage_percent",
    "thread_stack_used_bytes", "thread_stack_capacity_bytes",
    "thread_stack_peak_percent",
    "l2cap_rx_ring_peak_bytes", "l2cap_rx_ring_capacity_bytes",
    "l2cap_rx_ring_peak_percent"] ++
  powerAttemptFields ++
  ["power_status", "power_profiler_sample_count",
    "power_profiler_window_count", "power_profiler_vdd_mv",
    "power_profiler_output_samples_per_second",
    "error_code", "message"]

/-- What `write_csv` writes into a column. -/
def cell (row : AttemptRow) (field : String) : String :=
  if field = "attempt_index" then toString row.attemptIndex
  else if field = "schedule_index" then toString row.scheduleIndex
  else if field = "session" then toString row.session
  else if field = "attempt_in_session" then toString row.attemptInSession
  else if field = "warmup" then toString row.warmup
  else if field = "status" then row.status
  else (row.columns.lookup field).getD ""

/-- The row that `csv.DictReader` makes of it. -/
def dictRow (row : AttemptRow) : Columns := attemptFields.map fun field ↦ (field, cell row field)

/-- An `attempts.csv`. -/
structure AttemptsFile where
  /-- The name of its directory. -/
  directory : String
  /-- The rows that `csv.DictReader` makes of it. -/
  rows : List Columns

/-- What `check_results.py` reads of a run directory. -/
structure RunDirectory where
  /-- `row.get("case_id")` for the rows of `run_manifest.csv`.  A row without it reads like one
  where it is empty, and a file that is not there like an empty one. -/
  runManifest : List String
  /-- The `attempts.csv` in the directories below `cases`. -/
  files : List AttemptsFile

/-- `name.split("_", 1)[-1]`. -/
def afterUnderscore (name : String) : String :=
  match name.toList.dropWhile fun c ↦ decide (c ≠ '_') with
  | [] => name
  | _ :: rest => String.ofList rest

/-- `case_id` of `attempts_by_case`. -/
def AttemptsFile.caseId (f : AttemptsFile) : String :=
  let named := match f.rows with
    | [] => ""
    | row :: _ => (row.lookup "case_id").getD ""
  if named = "" then afterUnderscore f.directory else named

/-- `*` stands for the name of one directory. -/
def AttemptsFile.IsGlobbed (f : AttemptsFile) : Prop := '/' ∉ f.directory.toList

instance (f : AttemptsFile) : Decidable f.IsGlobbed := inferInstanceAs (Decidable (¬ _))

namespace RunDirectory

/-- `sorted((run_dir / "cases").glob("*/attempts.csv"))`. -/
def globbed (dir : RunDirectory) : List AttemptsFile :=
  (dir.files.filter fun f ↦ decide f.IsGlobbed).mergeSort fun f g ↦
    decide (f.directory ≤ g.directory)

/-- `attempts_by_case`. -/
def attemptsByCase (dir : RunDirectory) : AList fun _ : String ↦ List Columns :=
  dir.globbed.foldl (fun result f ↦ result.insert f.caseId f.rows) ∅

/-- `expected_case_ids`. -/
def expectedCaseIds (dir : RunDirectory) : List String :=
  dir.runManifest.filter fun caseId ↦ decide (caseId ≠ "")

/-- `case_ids`. -/
def caseIds (dir : RunDirectory) : List String :=
  if dir.expectedCaseIds = [] then dir.attemptsByCase.keys.mergeSort fun a b ↦ decide (a ≤ b)
  else dir.expectedCaseIds

/-- `attempts.get(case_id, [])`. -/
def rows (dir : RunDirectory) (caseId : String) : List Columns :=
  (dir.attemptsByCase.lookup caseId).getD []

end RunDirectory

/-! ## The verdict -/

/-- `successes`. -/
def successes (rows : List Columns) : ℕ :=
  rows.countP fun row ↦ decide (row.lookup "status" = some "success")

/-- `rows and successes == len(rows)`. -/
def Passes (rows : List Columns) : Prop := rows ≠ [] ∧ successes rows = rows.length

instance (rows : List Columns) : Decidable (Passes rows) := inferInstanceAs (Decidable (_ ∧ _))

/-- `row.get("status") or "missing_status"`. -/
def statusOf (row : Columns) : String :=
  let status := (row.lookup "status").getD ""
  if status = "" then "missing_status" else status

/-- `detail`. -/
def detail (rows : List Columns) : String :=
  let statuses := rows.map statusOf
  let counts := (statuses.dedup.mergeSort fun a b ↦ decide (a ≤ b)).map fun status ↦
    status ++ "=" ++ toString (statuses.count status)
  if counts = [] then "no_attempts" else ",".intercalate counts

/-- The line about a case. -/
def verdict (caseId : String) (rows : List Columns) : String :=
  let ratio := toString (successes rows) ++ "/" ++ toString rows.length
  if Passes rows then "PASS " ++ caseId ++ " (" ++ ratio ++ ")"
  else "FAIL " ++ caseId ++ " (" ++ ratio ++ "; " ++ detail rows ++ ")"

namespace RunDirectory

/-- The cases that are not skipped. -/
def checked (ongoing : Bool) (dir : RunDirectory) : List String :=
  dir.caseIds.filter fun caseId ↦ !(ongoing && decide (dir.rows caseId = []))

/-- What `main` prints. -/
def report (ongoing : Bool) (dir : RunDirectory) : List String :=
  (dir.checked ongoing).map fun caseId ↦ verdict caseId (dir.rows caseId)

/-- What `main` returns. -/
def exitStatus (ongoing : Bool) (dir : RunDirectory) : ℕ :=
  if ∀ caseId ∈ dir.checked ongoing, Passes (dir.rows caseId) then 0 else 1

end RunDirectory

/-! ## Whose rows are found -/

/-- The file has the rows of this case. -/
def rowsAt (id : String) (f : AttemptsFile) : Option (List Columns) :=
  if f.caseId = id then some f.rows else none

theorem overwrites_insert (id : String) :
    Overwrites (fun (result : AList fun _ : String ↦ List Columns) (f : AttemptsFile) ↦
      result.insert f.caseId f.rows) (fun result ↦ result.lookup id) (rowsAt id) := by
  intro result f
  dsimp only
  rw [rowsAt]
  by_cases h : f.caseId = id
  · rw [if_pos h, h, AList.lookup_insert, Option.some_or]
  · rw [if_neg h, AList.lookup_insert_ne (Ne.symm h), Option.none_or]

namespace RunDirectory

variable {dir : RunDirectory} {id : String}

theorem mem_globbed {f : AttemptsFile} : f ∈ dir.globbed ↔ f ∈ dir.files ∧ f.IsGlobbed := by
  rw [globbed, List.mem_mergeSort, List.mem_filter, decide_eq_true_iff]

theorem lookup_attemptsByCase : dir.attemptsByCase.lookup id = latest (rowsAt id) dir.globbed :=
  ((overwrites_insert id).look_foldl ∅ dir.globbed).trans Option.or_none

/-- The rows of a case are those of one of its files. -/
theorem exists_file_of_rows_ne_nil (h : dir.rows id ≠ []) :
    ∃ f ∈ dir.files, f.caseId = id ∧ dir.rows id = f.rows := by
  rw [rows, lookup_attemptsByCase] at h ⊢
  cases hlatest : latest (rowsAt id) dir.globbed with
  | none =>
      rw [hlatest] at h
      exact absurd rfl h
  | some found =>
      obtain ⟨f, hf, hrows⟩ := exists_of_latest_eq_some hlatest
      obtain ⟨hid, hrows⟩ := Option.ite_none_right_eq_some.mp hrows
      exact ⟨f, (mem_globbed.mp hf).1, hid, (Option.some.inj hrows).symm⟩

/-- A case with one file has its rows. -/
theorem rows_of_mem {f : AttemptsFile} (hf : f ∈ dir.files) (hglobbed : f.IsGlobbed)
    (hid : ∀ g ∈ dir.files, g.caseId = f.caseId → g = f) : dir.rows f.caseId = f.rows := by
  have hmem : f ∈ dir.globbed := mem_globbed.mpr ⟨hf, hglobbed⟩
  have hsome : (latest (rowsAt f.caseId) dir.globbed).isSome :=
    isSome_latest_iff.mpr ⟨f, hmem, by rw [rowsAt, if_pos rfl]; rfl⟩
  obtain ⟨found, hlatest⟩ := Option.isSome_iff_exists.mp hsome
  obtain ⟨g, hg, hrows⟩ := exists_of_latest_eq_some hlatest
  obtain ⟨hcase, hrows⟩ := Option.ite_none_right_eq_some.mp hrows
  rw [hid g (mem_globbed.mp hg).1 hcase] at hrows
  rw [rows, lookup_attemptsByCase, hlatest, ← hrows, Option.getD_some]

/-- `main` returns 0 if all cases that are not skipped pass. -/
theorem exitStatus_eq_zero_iff {ongoing : Bool} :
    dir.exitStatus ongoing = 0 ↔ ∀ id ∈ dir.checked ongoing, Passes (dir.rows id) := by
  rw [exitStatus]
  split
  case isTrue h => exact iff_of_true rfl h
  case isFalse h => exact iff_of_false Nat.one_ne_zero h

theorem checked_false : dir.checked false = dir.caseIds := List.filter_eq_self.mpr fun _ _ ↦ rfl

end RunDirectory

/-! ## The files of the runner -/

/-- The name of the directory of a case. -/
def directoryName (p : String × ℕ) : String :=
  String.ofList (List.replicate (3 - (toString p.2).length) '0') ++ toString p.2 ++ "_" ++ p.1

/-- The `attempts.csv` of a case. -/
def attemptsFile (d : Disk) (p : String × ℕ) : AttemptsFile :=
  ⟨directoryName p, (d.attempts p.1).map dictRow⟩

/-- The number of a case has no underscore. -/
theorem afterUnderscore_directoryName (p : String × ℕ) :
    afterUnderscore (directoryName p) = p.1 := by
  have hnumber : ∀ c ∈ List.replicate (3 - (toString p.2).length) '0' ++ (toString p.2).toList,
      decide (c ≠ '_') = true := by
    intro c hc
    refine decide_eq_true ?_
    rintro rfl
    rcases List.mem_append.mp hc with hc | hc
    · exact absurd (List.eq_of_mem_replicate hc) (by decide)
    · exact absurd hc (by simp)
  have hname : (directoryName p).toList =
      (List.replicate (3 - (toString p.2).length) '0' ++ (toString p.2).toList) ++
        '_' :: p.1.toList := by
    simp only [directoryName, String.toList_append, String.toList_ofList, List.append_assoc]
    rfl
  rw [afterUnderscore, hname, List.dropWhile_append_of_pos hnumber,
    List.dropWhile_cons_of_neg (by decide)]
  exact String.ofList_toList

theorem lookup_dictRow (row : AttemptRow) (field : String) :
    (dictRow row).lookup field = if field ∈ attemptFields then some (cell row field) else none := by
  split
  case isTrue h => exact List.lookup_graph (cell row) h
  case isFalse h =>
    refine List.lookup_eq_none_iff.mpr fun entry hentry ↦ bne_iff_ne.mpr ?_
    rintro rfl
    obtain ⟨field, hfield, rfl⟩ := List.mem_map.mp hentry
    exact h hfield

theorem lookup_status_dictRow (row : AttemptRow) :
    (dictRow row).lookup "status" = some row.status := by
  rw [lookup_dictRow, if_pos (by decide)]
  rfl

/-- The rows do not name their case, and so its directory does. -/
theorem caseId_attemptsFile (d : Disk) (p : String × ℕ) : (attemptsFile d p).caseId = p.1 := by
  have hnamed : (match (d.attempts p.1).map dictRow with
      | [] => ""
      | row :: _ => (row.lookup "case_id").getD "") = "" := by
    cases d.attempts p.1 with
    | nil => rfl
    | cons row rows =>
        rw [List.map_cons]
        dsimp only
        rw [lookup_dictRow, if_neg (by decide), Option.getD_none]
  rw [AttemptsFile.caseId, attemptsFile]
  dsimp only
  rw [hnamed, if_pos rfl, afterUnderscore_directoryName]

/-- All rows of the case are a success, and there is one. -/
theorem passes_map_dictRow_iff {rows : List AttemptRow} :
    Passes (rows.map dictRow) ↔ rows ≠ [] ∧ ∀ row ∈ rows, row.status = "success" := by
  rw [Passes, ne_eq, List.map_eq_nil_iff, successes, List.countP_eq_length, List.forall_mem_map]
  refine and_congr_right fun _ ↦ forall₂_congr fun row _ ↦ ?_
  rw [decide_eq_true_iff, lookup_status_dictRow, Option.some_inj]

/-! ## What a run leaves behind -/

/-- The cases of a run, by their ids and in their order. -/
structure Selection where
  ids : List String
  ne_nil : ids ≠ []
  nodup : ids.Nodup
  not_mem : "" ∉ ids

/-- What `main` selects of the cases that `read_cases` returns. -/
def Selection.ofReadCases {int : String → Option ℤ} {fieldnames : List String}
    {rows cases selected : List CaseRow} (h : readCases int fieldnames rows = some cases)
    (hselected : selected.Subperm cases) (hne : selected ≠ []) : Selection where
  ids := selected.map CaseRow.caseId
  ne_nil := fun hnil ↦ hne (List.map_eq_nil_iff.mp hnil)
  nodup := by
    obtain ⟨l, hperm, hsublist⟩ := hselected
    exact (hperm.map _).nodup_iff.mp ((caseIds_of_readCases h).1.sublist (hsublist.map _))
  not_mem := by
    intro hmem
    obtain ⟨row, hrow, hid⟩ := List.mem_map.mp hmem
    exact (caseIds_of_readCases h).2 (hid ▸ List.mem_map_of_mem (hselected.subset hrow))

/-- `case_sequence`. -/
def Selection.numbered (cases : Selection) : List (String × ℕ) := cases.ids.zipIdx 1

/-- A life of the runner gets to the loop if there are no other cases in the schedule;
`case_by_id[job.case_id]` raises for these. -/
def Knows (cases : Selection) (w : World) (l : Life) : Prop :=
  (∃ n k f, l.stop = .loop n k f) → ∀ job ∈ w.disk.manifest, job.caseId ∈ cases.ids

/-- What there is after the lives of a run: the schedule with the rows and the checkpoint, and what
the checker reads. -/
inductive LeftBehind (transferMode : Bool) (cases : Selection) (schedule : Schedule) :
    List Life → Disk → RunDirectory → Prop
  /-- The run has been stopped before it has written `run_manifest.csv`, or while it has done so. -/
  | selecting (runManifest : List String) :
      LeftBehind transferMode cases schedule [] { (fresh schedule).disk with manifest := [] }
        ⟨runManifest, []⟩
  /-- The run has been stopped before it has written the schedule and the checkpoint. -/
  | scheduling (manifest : List Job) :
      LeftBehind transferMode cases schedule [] { (fresh schedule).disk with manifest := manifest }
        ⟨cases.ids, []⟩
  /-- The run has been stopped later on, and resumed, any number of times.  These are the cases with
  an `attempts.csv`. -/
  | running (lives : List Life) (written : List (String × ℕ))
      (hlives : Along (live transferMode) (Knows cases) (fresh schedule) lives)
      (hwritten : written.Sublist cases.numbered)
      (habsent : ∀ p ∈ cases.numbered, p ∉ written →
        (runs transferMode schedule lives).disk.attempts p.1 = []) :
      LeftBehind transferMode cases schedule lives (runs transferMode schedule lives).disk
        ⟨cases.ids, written.map (attemptsFile (runs transferMode schedule lives).disk)⟩

/-- An execution has a row that is a success. -/
def HasSuccess (d : Disk) (p : ℕ × Job) : Prop :=
  ∃ row ∈ d.attempts p.2.caseId, row.scheduleIndex = p.2.sequence ∧ row.status = "success"

section

variable {transferMode : Bool} {cases : Selection} {schedule : Schedule} {ls : List Life} {d : Disk}
  {dir : RunDirectory}

/-- The checker finds files of the runner only. -/
theorem LeftBehind.exists_attemptsFile (h : LeftBehind transferMode cases schedule ls d dir) :
    ∀ f ∈ dir.files, ∃ p, f = attemptsFile d p := by
  cases h with
  | selecting runManifest => exact nofun
  | scheduling manifest => exact nofun
  | running lives written hlives hwritten habsent =>
      intro f hf
      obtain ⟨p, -, rfl⟩ := List.mem_map.mp hf
      exact ⟨p, rfl⟩

/-- A case passes if it has a row, and all of its rows are a success. -/
theorem LeftBehind.attempts_of_passes (h : LeftBehind transferMode cases schedule ls d dir)
    {id : String} (hpasses : Passes (dir.rows id)) :
    d.attempts id ≠ [] ∧ ∀ row ∈ d.attempts id, row.status = "success" := by
  obtain ⟨f, hf, hid, hrows⟩ := RunDirectory.exists_file_of_rows_ne_nil hpasses.1
  obtain ⟨p, rfl⟩ := h.exists_attemptsFile f hf
  rw [caseId_attemptsFile] at hid
  subst hid
  rw [hrows] at hpasses
  exact passes_map_dictRow_iff.mp hpasses

theorem LeftBehind.attempts_of_exitStatus (h : LeftBehind transferMode cases schedule ls d dir)
    (hexit : dir.exitStatus false = 0) :
    ∀ id ∈ dir.expectedCaseIds,
      d.attempts id ≠ [] ∧ ∀ row ∈ d.attempts id, row.status = "success" := by
  intro id hid
  rw [RunDirectory.exitStatus_eq_zero_iff, RunDirectory.checked_false, RunDirectory.caseIds,
    if_neg (List.ne_nil_of_mem hid)] at hexit
  exact h.attempts_of_passes (hexit id hid)

theorem expectedCaseIds_ids (cases : Selection) (files : List AttemptsFile) :
    RunDirectory.expectedCaseIds ⟨cases.ids, files⟩ = cases.ids := by
  refine List.filter_eq_self.mpr fun id hid ↦ decide_eq_true ?_
  rintro rfl
  exact cases.not_mem hid

/-- When something has been completed the checker expects all cases of the schedule. -/
theorem caseId_mem_of_along {w : World}
    (hw : canReplan w.disk ∨ ∀ job ∈ w.disk.manifest, job.caseId ∈ cases.ids)
    (h : Along (live transferMode) (Knows cases) w ls) :
    canReplan (lives (live transferMode) w ls).disk ∨
      ∀ job ∈ (lives (live transferMode) w ls).disk.manifest, job.caseId ∈ cases.ids := by
  refine lives_invariant (I := fun w ↦ canReplan w.disk ∨
    ∀ job ∈ w.disk.manifest, job.caseId ∈ cases.ids) ?_ hw h
  rintro w ⟨bench, stop⟩ hw hknows
  cases stop with
  | planning manifest =>
      rw [live]
      dsimp only
      split
      case isTrue hlast => exact .inl hlast
      case isFalse => exact hw
  | loop n k f =>
      right
      have hmanifest := hknows ⟨n, k, f, rfl⟩
      rw [live]
      dsimp only
      rw [attemptLoop_manifest, plan]
      split
      · intro job hjob
        exact hmanifest job ((groupJobsByFirmwareProfile_perm ..).mem_iff.mp hjob)
      · exact hmanifest

/-- The rows of the completed executions are there, and the checker looks at them. -/
theorem LeftBehind.completed (h : LeftBehind transferMode cases schedule ls d dir)
    (hspares : Along (live transferMode) (Spares transferMode) (fresh schedule) ls)
    (hdone : ¬ canReplan d) : ∀ p ∈ enumerate d.manifest, p.1 ≤ d.last →
      p.2.caseId ∈ dir.expectedCaseIds ∧ ∃ row ∈ d.attempts p.2.caseId,
        row.scheduleIndex = p.2.sequence := by
  cases h with
  | selecting runManifest => exact absurd rfl hdone
  | scheduling manifest => exact absurd rfl hdone
  | running lives written hlives hwritten habsent =>
      have hkept := lives_invariant (fun _ _ hw hl ↦ Kept.live hw hl) (kept_fresh schedule) hspares
      have hcases :=
        (caseId_mem_of_along (w := fresh schedule) (.inl rfl) hlives).resolve_left hdone
      intro p hp hlast
      obtain ⟨e, -, -, -, -, hindex, hrow⟩ := hkept.durable.2 p hp hlast
      rw [expectedCaseIds_ids]
      exact ⟨hcases p.2 (mem_of_mem_enumerate hp), e.row, hrow, hindex⟩

/-- **What a pass says.** -/
theorem check_sound (h : LeftBehind transferMode cases schedule ls d dir)
    (hexit : dir.exitStatus false = 0) :
    (∀ id ∈ dir.expectedCaseIds,
      d.attempts id ≠ [] ∧ ∀ row ∈ d.attempts id, row.status = "success") ∧
    (Along (live transferMode) (Spares transferMode) (fresh schedule) ls →
      (∀ p ∈ enumerate d.manifest, p.1 ≤ d.last → HasSuccess d p) ∧
      (scheduledJobs d = [] → ∀ p ∈ enumerate d.manifest, HasSuccess d p)) := by
  have hattempts := h.attempts_of_exitStatus hexit
  refine ⟨hattempts, fun hspares ↦ ?_⟩
  have hcompleted : ∀ p ∈ enumerate d.manifest, p.1 ≤ d.last → HasSuccess d p := by
    intro p hp hlast
    have hdone : ¬ canReplan d := fun h ↦
      absurd (hlast.trans_eq h) (Nat.not_le_of_lt (one_le_of_mem_enumerate hp))
    obtain ⟨hcase, row, hrow, hindex⟩ := h.completed hspares hdone p hp hlast
    exact ⟨row, hrow, hindex, (hattempts _ hcase).2 row hrow⟩
  refine ⟨hcompleted, fun hdone p hp ↦ hcompleted p hp ?_⟩
  rw [scheduledJobs, List.filter_eq_nil_iff] at hdone
  exact Nat.le_of_not_lt fun hlt ↦ hdone p hp (decide_eq_true hlt)

/-! ## Runs that pass -/

theorem isGlobbed_attemptsFile (d : Disk) {p : String × ℕ} (h : '/' ∉ p.1.toList) :
    (attemptsFile d p).IsGlobbed := by
  have hnumber : '/' ∉ (toString p.2).toList := by
    intro hmem
    rw [Nat.toString_eq_repr, Nat.repr, String.toList_ofList] at hmem
    exact absurd (Nat.isDigit_of_mem_toDigits (by decide) (by decide) hmem) (by decide)
  rw [AttemptsFile.IsGlobbed, attemptsFile, directoryName]
  simp only [String.toList_append, String.toList_ofList, List.mem_append, not_or]
  exact ⟨⟨⟨fun hmem ↦ absurd (List.eq_of_mem_replicate hmem) (by decide), hnumber⟩, by decide⟩, h⟩

/-- The checker finds the rows of a case. -/
theorem rows_attemptsFile (d : Disk) {written : List (String × ℕ)}
    (hwritten : written.Sublist cases.numbered) {p : String × ℕ} (hp : p ∈ written)
    (hslash : '/' ∉ p.1.toList) :
    RunDirectory.rows ⟨cases.ids, written.map (attemptsFile d)⟩ p.1 =
      (d.attempts p.1).map dictRow := by
  have hnodup : (cases.numbered.map Prod.fst).Nodup := by
    rw [Selection.numbered, List.zipIdx_map_fst]
    exact cases.nodup
  have hunique : ∀ g ∈ written.map (attemptsFile d), g.caseId = (attemptsFile d p).caseId →
      g = attemptsFile d p := by
    intro g hg hid
    obtain ⟨q, hq, rfl⟩ := List.mem_map.mp hg
    rw [caseId_attemptsFile, caseId_attemptsFile] at hid
    rw [List.inj_on_of_nodup_map hnodup (hwritten.subset hq) (hwritten.subset hp) hid]
  have hrows : RunDirectory.rows ⟨cases.ids, written.map (attemptsFile d)⟩
      (attemptsFile d p).caseId = (attemptsFile d p).rows :=
    RunDirectory.rows_of_mem (List.mem_map_of_mem hp) (isGlobbed_attemptsFile d hslash) hunique
  rwa [caseId_attemptsFile] at hrows

/-- The checker passes a run whose cases all have rows, and only such that are a success. -/
theorem exitStatus_eq_zero (d : Disk) (hslash : ∀ id ∈ cases.ids, '/' ∉ id.toList)
    (hpasses : ∀ id ∈ cases.ids,
      d.attempts id ≠ [] ∧ ∀ row ∈ d.attempts id, row.status = "success") :
    RunDirectory.exitStatus false ⟨cases.ids, cases.numbered.map (attemptsFile d)⟩ = 0 := by
  rw [RunDirectory.exitStatus_eq_zero_iff, RunDirectory.checked_false, RunDirectory.caseIds,
    expectedCaseIds_ids, if_neg cases.ne_nil]
  intro id hid
  have hmem : id ∈ cases.numbered.map Prod.fst := by
    rwa [Selection.numbered, List.zipIdx_map_fst]
  obtain ⟨p, hp, rfl⟩ := List.mem_map.mp hmem
  rw [rows_attemptsFile d (.refl _) hp (hslash _ hid)]
  exact passes_map_dictRow_iff.mpr (hpasses _ hid)

end

/-- One case. -/
def Selection.one : Selection where
  ids := ["case"]
  ne_nil := List.cons_ne_nil _ _
  nodup := List.nodup_singleton _
  not_mem := by decide

/-- Three attempts of one case. -/
def threeAttempts : Schedule where
  jobs := [.session ⟨1, "case", 1, 1, 0, 1⟩, .session ⟨2, "case", 1, 2, 0, 2⟩,
    .session ⟨3, "case", 1, 3, 0, 3⟩]
  nodup_sequence := by decide
  nodup_order := by
    intro job hjob
    simp only [List.mem_cons, List.not_mem_nil, or_false] at hjob
    rcases hjob with rfl | rfl | rfl <;> exact List.nodup_nil

/-- The run directory of one case, with its `attempts.csv`. -/
def oneCase (d : Disk) : RunDirectory :=
  ⟨Selection.one.ids, Selection.one.numbered.map (attemptsFile d)⟩

theorem leftBehind_oneCase {schedule : Schedule} {ls : List Life}
    (h : Along (live false) (Knows .one) (fresh schedule) ls) :
    LeftBehind false .one schedule ls (runs false schedule ls).disk
      (oneCase (runs false schedule ls).disk) :=
  .running ls Selection.one.numbered h (.refl _) fun _ hp hnot ↦ absurd hp hnot

theorem exitStatus_oneCase {d : Disk}
    (h : d.attempts "case" ≠ [] ∧ ∀ row ∈ d.attempts "case", row.status = "success") :
    (oneCase d).exitStatus false = 0 := by
  refine exitStatus_eq_zero d ?_ ?_
  · intro id hid
    rw [List.mem_singleton.mp hid]
    decide
  · intro id hid
    rw [List.mem_singleton.mp hid]
    exact h

/-- Both attempts have been made, and the run passes. -/
theorem check_sound_two :
    (oneCase (runs false .twoAttempts [.steady 2 0]).disk).exitStatus false = 0 ∧
      ∀ p ∈ enumerate (runs false .twoAttempts [.steady 2 0]).disk.manifest,
        HasSuccess (runs false .twoAttempts [.steady 2 0]).disk p := by
  have hleft : LeftBehind false .one .twoAttempts [.steady 2 0]
      (runs false .twoAttempts [.steady 2 0]).disk
      (oneCase (runs false .twoAttempts [.steady 2 0]).disk) :=
    leftBehind_oneCase ⟨fun _ ↦ by decide, trivial⟩
  have hrows : (runs false .twoAttempts [.steady 2 0]).disk.attempts "case" =
      [⟨1, 1, 1, 1, 0, "success", []⟩, ⟨2, 2, 1, 2, 0, "success", []⟩] := rfl
  have hexit : (oneCase (runs false .twoAttempts [.steady 2 0]).disk).exitStatus false = 0 := by
    refine exitStatus_oneCase ?_
    rw [hrows]
    decide
  exact ⟨hexit, ((check_sound hleft hexit).2 ⟨fun _ _ h ↦ absurd h (by decide), trivial⟩).2 rfl⟩

/-- With the row of the first attempt alone the run passes, and there is none of the second. -/
theorem exitStatus_first {d : Disk} (h : d.attempts "case" = [⟨1, 1, 1, 1, 0, "success", []⟩]) :
    (oneCase d).exitStatus false = 0 ∧ ¬ HasSuccess d (2, .session ⟨2, "case", 1, 2, 0, 2⟩) := by
  constructor
  · refine exitStatus_oneCase ?_
    rw [h]
    decide
  · rintro ⟨row, hrow, hindex, -⟩
    have hrow : row ∈ d.attempts "case" := hrow
    rw [h, List.mem_singleton] at hrow
    rw [hrow] at hindex
    exact absurd hindex (by decide)

/-- A run that has been interrupted after the first of two attempts passes.  So does one that has
been killed while it put back the rows of two attempts, with the first of them. -/
theorem not_check_all :
    ¬ (∀ (schedule : Schedule) (ls : List Life) (d : Disk) (dir : RunDirectory),
      LeftBehind false .one schedule ls d dir → dir.exitStatus false = 0 →
        ∀ p ∈ enumerate d.manifest, HasSuccess d p) ∧
    ¬ (∀ (schedule : Schedule) (ls : List Life) (d : Disk) (dir : RunDirectory),
      LeftBehind false .one schedule ls d dir → dir.exitStatus false = 0 →
        ∀ p ∈ enumerate d.manifest, p.1 ≤ d.last → HasSuccess d p) := by
  constructor
  · intro hall
    have hrows : (runs false .twoAttempts [.steady 1 0]).disk.attempts "case" =
        [⟨1, 1, 1, 1, 0, "success", []⟩] := rfl
    have hleft : LeftBehind false .one .twoAttempts [.steady 1 0] _ _ :=
      leftBehind_oneCase ⟨fun _ ↦ by decide, trivial⟩
    obtain ⟨hexit, hnot⟩ := exitStatus_first hrows
    exact hnot (hall _ _ _ _ hleft hexit _ (.tail _ (.head _)))
  · intro hall
    have hrows : (runs false threeAttempts [.steady 2 0, .steady 0 3]).disk.attempts "case" =
        [⟨1, 1, 1, 1, 0, "success", []⟩] := rfl
    have hleft : LeftBehind false .one threeAttempts [.steady 2 0, .steady 0 3] _ _ :=
      leftBehind_oneCase ⟨fun _ ↦ by decide, fun _ ↦ by decide, trivial⟩
    obtain ⟨hexit, hnot⟩ := exitStatus_first hrows
    exact hnot (hall _ _ _ _ hleft hexit _ (.tail _ (.head _)) (by decide))

end CheckResults

end PeripheralBench.Runner

import PeripheralBench.Runner.AttemptLoop

/-!
# The counts in the KEM summary

`summarize` of `run_kem_benchmarks.py` counts the rows of each algorithm by four statuses.  The
firmware has a fifth: it answers `unsupported` to an algorithm that it does not know.  The counts
add up to the number of rows as long as no row has it (`attempts_covered_iff`).

The columns with the statistics of the times, cycles and heaps are left out.
-/

namespace PeripheralBench.Runner

namespace BoardCommands

/-! ## The summary -/

/-- A row of `summary.csv`: the columns about the outcome. -/
structure KemSummary where
  kexGroup : String
  status : Str
  successCount : ℕ
  failCount : ℕ
  timeoutCount : ℕ
  cancelledCount : ℕ
deriving DecidableEq

/-- `sum(row["status"] == status for row in items)`. -/
def countStatus (status : String) (items : List (Row Kem)) : ℕ :=
  items.countP fun row ↦ row.status == status.toList

/-- The rows of a group. -/
def groupRows (rows : List (Row Kem)) (group : String) : List (Row Kem) :=
  rows.filter fun row ↦ row.job.algorithm.name == group

/-- The summary of a group with these rows. -/
def summarizeGroup (group : String) (items : List (Row Kem)) : KemSummary where
  kexGroup := group
  status :=
    if countStatus "success" items = items.length then "success".toList else "fail".toList
  successCount := countStatus "success" items
  failCount := countStatus "fail" items
  timeoutCount := countStatus "timeout" items
  cancelledCount := countStatus "cancelled" items

/-- `summarize`. -/
def summarize (rows : List (Row Kem)) : List KemSummary :=
  let groups := (rows.map fun row ↦ row.job.algorithm.name).dedup.mergeSort fun a b ↦ decide (a ≤ b)
  groups.map fun group ↦ summarizeGroup group (groupRows rows group)

/-- Every algorithm with rows is in the summary, and its counts add up to the number of its rows. -/
structure AddsUp (rows : List (Row Kem)) : Prop where
  groups : ∀ row ∈ rows, ∃ s ∈ summarize rows, s.kexGroup = row.job.algorithm.name
  counts : ∀ s ∈ summarize rows,
    s.successCount + s.failCount + s.timeoutCount + s.cancelledCount =
      (groupRows rows s.kexGroup).length

theorem mem_summarize {rows : List (Row Kem)} {s : KemSummary} :
    s ∈ summarize rows ↔ ∃ row ∈ rows,
      summarizeGroup row.job.algorithm.name (groupRows rows row.job.algorithm.name) = s := by
  have hmem : ∀ group, group ∈ (rows.map fun row ↦ row.job.algorithm.name).dedup.mergeSort
      (fun a b ↦ decide (a ≤ b)) ↔ ∃ row ∈ rows, row.job.algorithm.name = group := by
    intro group
    rw [(List.mergeSort_perm _ _).mem_iff, List.mem_dedup, List.mem_map]
  rw [summarize, List.mem_map]
  constructor
  · rintro ⟨group, hgroup, rfl⟩
    obtain ⟨row, hrow, rfl⟩ := (hmem group).mp hgroup
    exact ⟨row, hrow, rfl⟩
  · rintro ⟨row, hrow, rfl⟩
    exact ⟨row.job.algorithm.name, (hmem _).mpr ⟨row, hrow, rfl⟩, rfl⟩

/-! ## Statuses -/

/-- The statuses that are counted. -/
def countedStatuses : List Str := ["success", "fail", "timeout", "cancelled"].map String.toList

/-- A status is one of them, or another one. -/
theorem counted_add (status : Str) :
    (if status == "success".toList then 1 else 0) + (if status == "fail".toList then 1 else 0) +
      (if status == "timeout".toList then 1 else 0) +
      (if status == "cancelled".toList then 1 else 0) +
      (if !countedStatuses.contains status then 1 else 0) = 1 := by
  by_cases hcounted : status ∈ countedStatuses
  · obtain ⟨word, hword, rfl⟩ := List.mem_map.mp hcounted
    simp only [List.mem_cons, List.not_mem_nil, or_false] at hword
    rcases hword with rfl | rfl | rfl | rfl <;> rfl
  · have hne : ∀ word ∈ ["success", "fail", "timeout", "cancelled"],
        (status == String.toList word) = false := fun word hword ↦
      beq_false_of_ne fun heq ↦ hcounted (heq ▸ List.mem_map_of_mem hword)
    rw [hne _ (by simp), hne _ (by simp), hne _ (by simp), hne _ (by simp),
      List.contains_eq_mem, decide_eq_false hcounted]
    rfl

/-- The counts of some rows, together with those that have another status. -/
theorem countStatus_add (items : List (Row Kem)) :
    countStatus "success" items + countStatus "fail" items + countStatus "timeout" items +
      countStatus "cancelled" items +
      (items.countP fun row ↦ !countedStatuses.contains row.status) = items.length := by
  induction items with
  | nil => rfl
  | cons row items ih =>
      have hrow := counted_add row.status
      simp only [countStatus, List.countP_cons, List.length_cons] at ih ⊢
      omega

theorem counts_eq_iff (items : List (Row Kem)) :
    countStatus "success" items + countStatus "fail" items + countStatus "timeout" items +
      countStatus "cancelled" items = items.length ↔
        ∀ row ∈ items, row.status ∈ countedStatuses := by
  have hadd := countStatus_add items
  have hzero : (items.countP fun row ↦ !countedStatuses.contains row.status) = 0 ↔
      ∀ row ∈ items, row.status ∈ countedStatuses := by
    rw [List.countP_eq_zero]
    exact forall₂_congr fun row _ ↦ by simp
  rw [← hzero]
  omega

/-- The counts add up if and only if each row has a status that is counted. -/
theorem addsUp_iff (rows : List (Row Kem)) :
    AddsUp rows ↔ ∀ row ∈ rows, row.status ∈ countedStatuses := by
  constructor
  · intro h row hrow
    have hsummary := h.counts _ (mem_summarize.mpr ⟨row, hrow, rfl⟩)
    exact (counts_eq_iff _).mp hsummary row (List.mem_filter.mpr ⟨hrow, beq_self_eq_true _⟩)
  · intro h
    constructor
    · exact fun row hrow ↦ ⟨_, mem_summarize.mpr ⟨row, hrow, rfl⟩, rfl⟩
    · intro s hs
      obtain ⟨row, -, rfl⟩ := mem_summarize.mp hs
      exact (counts_eq_iff _).mpr fun row' hrow' ↦ h row' (List.mem_filter.mp hrow').1

/-! ## The board's answers -/

section

variable {int : Str → Option ℤ}

/-- No attempt of the algorithms that is not cancelled has been answered with `unsupported`. -/
def AllSupported (iterations : ℕ) (kems : List Kem) (outcome : ℕ → ℕ → Outcome int kemBench) :
    Prop :=
  ∀ case ∈ enumerateCases kems, ∀ attempt, 1 ≤ attempt → attempt ≤ iterations →
    ¬ Cancelled (outcome case.1) attempt → ¬ (outcome case.1 attempt).IsUnsupported

/-- The status of a row is counted unless the board does not know the algorithm. -/
theorem Records.counted_iff {outcome : ℕ → Outcome int kemBench} {row : Row Kem}
    (h : Records outcome row) : row.status ∈ countedStatuses ↔
      ¬ (¬ Cancelled outcome row.job.attempt ∧ (outcome row.job.attempt).IsUnsupported) := by
  have hcounted : ∀ word ∈ ["success", "fail", "timeout", "cancelled"],
      String.toList word ∈ countedStatuses := fun word hword ↦ List.mem_map_of_mem hword
  by_cases hcancelled : Cancelled outcome row.job.attempt
  · rw [h.cancelled hcancelled]
    exact iff_of_true (hcounted _ (by simp)) fun h ↦ h.1 hcancelled
  · rw [and_iff_right hcancelled]
    cases houtcome : outcome row.job.attempt with
    | timeout progress hnumeric =>
        rw [h.timeout hcancelled (houtcome ▸ trivial)]
        exact iff_of_true (hcounted _ (by simp)) not_false
    | result r =>
        have hstatus := (h.result hcancelled r houtcome).2
        change _ ↔ ¬ r.status = .unsupported
        cases hr : r.status with
        | success =>
            rw [hr] at hstatus
            refine iff_of_true ?_ nofun
            rcases hstatus with hstatus | ⟨-, hstatus⟩ <;> rw [hstatus]
            · exact hcounted "success" (by simp)
            · exact hcounted _ (by simp)
        | fail =>
            rw [hr] at hstatus
            rw [hstatus.resolve_right nofun]
            exact iff_of_true (hcounted "fail" (by simp)) nofun
        | unsupported =>
            rw [hr] at hstatus
            rw [hstatus.resolve_right nofun]
            exact iff_of_false (by decide) fun h ↦ h rfl

theorem CoversAlgorithm.counted_iff {iterations : ℕ} {case : ℕ × Kem}
    {outcome : ℕ → Outcome int kemBench} {rows : List (Row Kem)}
    (h : CoversAlgorithm iterations case outcome rows) :
    (∀ row ∈ rows, row.status ∈ countedStatuses) ↔ ∀ attempt, 1 ≤ attempt → attempt ≤ iterations →
      ¬ Cancelled outcome attempt → ¬ (outcome attempt).IsUnsupported := by
  have hrange : ∀ attempt, attempt ∈ List.range' 1 iterations ↔
      1 ≤ attempt ∧ attempt ≤ iterations := by
    intro attempt
    rw [List.mem_range'_1, Nat.add_comm, Nat.lt_succ_iff]
  constructor
  · intro hcounted attempt hone hle hcancelled
    have hjob : (⟨case.1, case.2, attempt⟩ : Job Kem) ∈ rows.map Row.job := by
      rw [h.jobs]
      exact List.mem_map.mpr ⟨attempt, (hrange attempt).mpr ⟨hone, hle⟩, rfl⟩
    obtain ⟨row, hrow, hjob⟩ := List.mem_map.mp hjob
    have hnot := (h.records row hrow).counted_iff.mp (hcounted row hrow)
    rw [hjob] at hnot
    exact fun hunsupported ↦ hnot ⟨hcancelled, hunsupported⟩
  · intro hsupported row hrow
    have hjob : row.job ∈ rows.map Row.job := List.mem_map_of_mem hrow
    rw [h.jobs] at hjob
    obtain ⟨attempt, hattempt, hjob⟩ := List.mem_map.mp hjob
    obtain ⟨hone, hle⟩ := (hrange attempt).mp hattempt
    rw [(h.records row hrow).counted_iff, ← hjob]
    exact fun hbad ↦ hsupported attempt hone hle hbad.1 hbad.2

/-- The rows that cover the attempts have statuses that are counted if the board knows what it is
asked for. -/
theorem Covers.counted_iff {iterations : ℕ} {kems : List Kem}
    {outcome : ℕ → ℕ → Outcome int kemBench} {rows : List (Row Kem)}
    (h : Covers iterations kems outcome rows) :
    (∀ row ∈ rows, row.status ∈ countedStatuses) ↔ AllSupported iterations kems outcome := by
  obtain ⟨blocks, rfl, hblocks⟩ := h
  rw [AllSupported]
  generalize enumerateCases kems = cases at hblocks ⊢
  induction hblocks with
  | nil => exact iff_of_true nofun nofun
  | cons hblock _ ih =>
      rw [List.flatten_cons, List.forall_mem_append, List.forall_mem_cons, ih, hblock.counted_iff]

end

/-! ## Both runners -/

/-- What is written for these algorithms and outcomes. -/
structure AttemptsCovered (int : Str → Option ℤ) (iterations : ℕ) (kems : List Kem)
    (signatures : List Signature) (kemOutcome : ℕ → ℕ → Outcome int kemBench)
    (certificateOutcome : ℕ → ℕ → Outcome int certificateBench) : Prop where
  kem : ∃ rows, runAttempts int kemBench iterations kems
    (fun sequence i ↦ (kemOutcome sequence i).values) = some rows ∧
      Covers iterations kems kemOutcome rows ∧ AddsUp rows
  certificate : ∃ rows, runAttempts int certificateBench iterations signatures
    (fun sequence i ↦ (certificateOutcome sequence i).values) = some rows ∧
      Covers iterations signatures certificateOutcome rows

theorem numeric_cancelledValues {int : Str → Option ℤ} (hint : int "0".toList = some 0) :
    Numeric int kemBench cancelledValues ∧ Numeric int certificateBench cancelledValues := by
  constructor
  · refine List.forall_iff_forall_mem.mp ⟨?_, ?_, ?_, ?_, ?_, ?_⟩ <;> exact ⟨0, hint⟩
  · refine List.forall_iff_forall_mem.mp ⟨?_, ?_, ?_, ?_, ?_, ?_, ?_, ?_⟩ <;> exact ⟨0, hint⟩

/-- Each attempt has its row, whatever the boards answer, and the counts in the summary of the KEM
benchmark add up if and only if no row is `unsupported`. -/
theorem attempts_covered_iff (int : Str → Option ℤ) (hint : int "0".toList = some 0)
    (iterations : ℕ) (kems : List Kem) (signatures : List Signature)
    (kemOutcome : ℕ → ℕ → Outcome int kemBench)
    (certificateOutcome : ℕ → ℕ → Outcome int certificateBench) :
    AttemptsCovered int iterations kems signatures kemOutcome certificateOutcome ↔
      AllSupported iterations kems kemOutcome := by
  obtain ⟨hkem, hcertificate⟩ := numeric_cancelledValues hint
  obtain ⟨rows, hrows, hcovers⟩ := runAttempts_covers hkem iterations kems kemOutcome
  constructor
  · rintro ⟨⟨rows', hrows', hcovers', hadds⟩, -⟩
    exact hcovers'.counted_iff.mp ((addsUp_iff rows').mp hadds)
  · intro hsupported
    refine ⟨⟨rows, hrows, hcovers, (addsUp_iff rows).mpr (hcovers.counted_iff.mpr hsupported)⟩, ?_⟩
    exact runAttempts_covers hcertificate iterations signatures certificateOutcome

/-- The line of a firmware that does not know the algorithm. -/
def unknownAlgorithm : BoardResult System.intOfDigits kemBench where
  progress := {}
  values := [("status", "unsupported"), ("stage", "algorithm"), ("error", "-173"),
    ("kex_group", "unknown"), ("kex_public_key_bytes", "0"), ("kex_private_key_bytes", "0"),
    ("kex_ciphertext_bytes", "0"), ("kex_shared_secret_bytes", "0"), ("secrets_match", "0"),
    ("client_cpu_cycles", "0"), ("client_cycle_hz", "32768")].map
      fun entry ↦ (entry.1.toList, entry.2.toList)
  status := .unsupported
  status_eq := rfl
  numeric := List.forall_iff_forall_mem.mp
    ⟨⟨0, rfl⟩, ⟨0, rfl⟩, ⟨0, rfl⟩, ⟨0, rfl⟩, ⟨32768, rfl⟩, ⟨0, rfl⟩⟩

/-- A certificate that is not finished in time, without progress. -/
def noCertificate : Outcome System.intOfDigits certificateBench :=
  .timeout {} (List.forall_iff_forall_mem.mp
    ⟨⟨0, rfl⟩, ⟨0, rfl⟩, ⟨0, rfl⟩, ⟨0, rfl⟩, ⟨0, rfl⟩, ⟨0, rfl⟩, ⟨0, rfl⟩, ⟨0, rfl⟩⟩)

theorem attempts_covered_iff_unknown :
    AttemptsCovered System.intOfDigits 3 [⟨"MLKEM512", 800, 768, 32⟩] [⟨"ECDSA-P-256", 65, 32, 72⟩]
        (fun _ _ ↦ .result unknownAlgorithm) (fun _ _ ↦ noCertificate) ↔
      AllSupported 3 [⟨"MLKEM512", 800, 768, 32⟩] fun _ _ ↦ .result unknownAlgorithm :=
  attempts_covered_iff System.intOfDigits rfl 3 [⟨"MLKEM512", 800, 768, 32⟩]
    [⟨"ECDSA-P-256", 65, 32, 72⟩] (fun _ _ ↦ .result unknownAlgorithm) fun _ _ ↦ noCertificate

/-- The one row is not counted. -/
theorem not_attemptsCovered :
    ¬ AttemptsCovered System.intOfDigits 1 [⟨"MLKEM512", 800, 768, 32⟩] []
      (fun _ _ ↦ .result unknownAlgorithm) fun _ _ ↦ noCertificate := by
  rintro ⟨⟨rows, -, hcovers, hadds⟩, -⟩
  have hsupported := hcovers.counted_iff.mp ((addsUp_iff rows).mp hadds)
  refine hsupported (1, ⟨"MLKEM512", 800, 768, 32⟩) List.mem_cons_self 1 le_rfl le_rfl ?_ rfl
  rintro ⟨i, hone, hlt, -⟩
  exact Nat.not_lt_of_le hone hlt

end BoardCommands

end PeripheralBench.Runner

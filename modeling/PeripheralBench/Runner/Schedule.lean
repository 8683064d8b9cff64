import Mathlib.Data.List.Basic
import Mathlib.Data.List.Dedup
import Mathlib.Data.List.Range
import Mathlib.Data.String.Basic
import Mathlib.Tactic

/-!
# The schedule of a benchmark run

`benchmarklib/scheduler.py`, the part of `benchmarklib/transfer.py` that builds the transfer rounds,
and `group_jobs_by_firmware_profile` of `run_benchmarks.py`.  A schedule is a list of jobs, and the
execution order of a job is its place in that list, counted from one.  What tells two jobs apart is
their `sequence`, which ends up in the result rows as `schedule_index`.

The pseudorandom generator and the seeds derived with SHA-256 are parameters.
-/

namespace PeripheralBench.Runner

/-! ## Jobs -/

/-- The fields of a case that the schedule depends on. -/
structure Case where
  caseId : String
  warmupIterations : ℕ
  iterations : ℕ
  expectedSupport : String

/-- `SessionJob`. -/
structure SessionJob where
  sequence : ℕ
  caseId : String
  session : ℕ
  attemptInSession : ℕ
  warmup : ℕ
  measuredIndex : ℕ
deriving DecidableEq

/-- `TransferOperation`. -/
structure TransferOperation where
  order : ℕ
  iteration : ℕ
  direction : String
  payloadBytes : ℕ
  payloadSeed : ℕ
deriving DecidableEq

/-- `TransferRound`. -/
structure TransferRound where
  sequence : ℕ
  caseId : String
  roundIndex : ℕ
  operations : List TransferOperation
deriving DecidableEq

/-- `SessionJob | TransferRound`. -/
inductive Job where
  | session (job : SessionJob)
  | round (job : TransferRound)
deriving DecidableEq

namespace Job

/-- `job.sequence`. -/
def sequence : Job → ℕ
  | session job => job.sequence
  | round job => job.sequence

/-- `job.case_id`. -/
def caseId : Job → String
  | session job => job.caseId
  | round job => job.caseId

/-- `job.session`, which is the index of the round in a transfer round. -/
def sessionIndex : Job → ℕ
  | session job => job.session
  | round job => job.roundIndex

/-- `job.attempt_in_session`. -/
def attemptInSession : Job → ℕ
  | session job => job.attemptInSession
  | round _ => 1

/-- `job.warmup`. -/
def warmup : Job → ℕ
  | session job => job.warmup
  | round _ => 0

/-- The transfers of a job. -/
def operations : Job → List TransferOperation
  | session _ => []
  | round job => job.operations

end Job

/-- A list of jobs that can be told apart, and so can the transfers within each of them. -/
structure Schedule where
  /-- The jobs in execution order. -/
  jobs : List Job
  nodup_sequence : (jobs.map Job.sequence).Nodup
  nodup_order : ∀ job ∈ jobs, (job.operations.map TransferOperation.order).Nodup

/-! ## Building the schedule -/

/-- `random.Random`: its `i`-th call of `shuffle` puts a list in another order. -/
structure Random where
  shuffle {α : Type} (i : ℕ) (l : List α) : List α
  shuffle_perm {α : Type} (i : ℕ) (l : List α) : (shuffle i l).Perm l

/-- The jobs of one case in `build_jobs`, after `sequence` others. -/
def caseJobs (sessionsPerCase : ℕ) (case : Case) (sequence : ℕ) : List SessionJob :=
  let slots := (List.range' 1 sessionsPerCase).flatMap fun session ↦
    (List.range' 1 (case.warmupIterations + case.iterations)).map fun attempt ↦ (session, attempt)
  (slots.zipIdx (sequence + 1)).map fun ((session, attempt), sequence) ↦
    { sequence := sequence
      caseId := case.caseId
      session := session
      attemptInSession := attempt
      warmup := if attempt ≤ case.warmupIterations then 1 else 0
      measuredIndex :=
        if attempt ≤ case.warmupIterations then 0 else attempt - case.warmupIterations }

/-- The loop of `build_jobs`: `normal_jobs` and `deferred_groups`. -/
def splitJobs (sessionsPerCase : ℕ) : List Case → ℕ → List SessionJob × List (List SessionJob)
  | [], _ => ([], [])
  | case :: cases, sequence =>
      let jobs := caseJobs sessionsPerCase case sequence
      let rest := splitJobs sessionsPerCase cases (sequence + jobs.length)
      if case.expectedSupport = "known_unsupported" then (rest.1, jobs :: rest.2)
      else (jobs ++ rest.1, rest.2)

/-- The list that `build_jobs` returns. -/
def shuffledJobs (rng : Random) (sessionsPerCase : ℕ) (cases : List Case) : List SessionJob :=
  let jobs := splitJobs sessionsPerCase cases 0
  rng.shuffle 0 jobs.1 ++ (rng.shuffle 1 jobs.2).flatten

theorem map_sequence_caseJobs (sessionsPerCase : ℕ) (case : Case) (sequence : ℕ) :
    (caseJobs sessionsPerCase case sequence).map SessionJob.sequence =
      List.range' (sequence + 1) (caseJobs sessionsPerCase case sequence).length := by
  simp only [caseJobs, List.map_map, List.length_map, List.length_zipIdx]
  exact List.zipIdx_map_snd _ _

theorem map_sequence_splitJobs (sessionsPerCase : ℕ) (cases : List Case) (sequence : ℕ) :
    ∃ n, ((((splitJobs sessionsPerCase cases sequence).1 ++
      (splitJobs sessionsPerCase cases sequence).2.flatten)).map SessionJob.sequence).Perm
        (List.range' (sequence + 1) n) := by
  induction cases generalizing sequence with
  | nil => exact ⟨0, .refl _⟩
  | cons case cases ih =>
      obtain ⟨n, hn⟩ := ih (sequence + (caseJobs sessionsPerCase case sequence).length)
      refine ⟨(caseJobs sessionsPerCase case sequence).length + n, ?_⟩
      rw [← List.range'_append_1, ← map_sequence_caseJobs,
        show ∀ k, sequence + 1 + k = sequence + k + 1 from fun k ↦ Nat.add_right_comm _ _ _]
      refine List.Perm.trans ?_ (hn.append_left _)
      rw [← List.map_append]
      refine List.Perm.map _ ?_
      simp only [splitJobs]
      split
      · rw [List.flatten_cons]
        exact List.perm_append_comm_assoc _ _ _
      · exact .of_eq (List.append_assoc _ _ _)

/-- `build_jobs`. -/
def buildJobs (rng : Random) (sessionsPerCase : ℕ) (cases : List Case) : Schedule where
  jobs := (shuffledJobs rng sessionsPerCase cases).map .session
  nodup_sequence := by
    obtain ⟨n, hn⟩ := map_sequence_splitJobs sessionsPerCase cases 0
    have hperm : (shuffledJobs rng sessionsPerCase cases).Perm
        ((splitJobs sessionsPerCase cases 0).1 ++ (splitJobs sessionsPerCase cases 0).2.flatten) :=
      (rng.shuffle_perm 0 _).append (rng.shuffle_perm 1 _).flatten
    rw [List.map_map]
    exact ((hperm.map _).trans hn).nodup_iff.mpr List.nodup_range'
  nodup_order := by
    intro job hjob
    obtain ⟨j, -, rfl⟩ := List.mem_map.mp hjob
    exact List.nodup_nil

/-- `PAYLOAD_SIZES`. -/
def payloadSizes : List ℕ := [128, 1024, 8 * 1024, 16 * 1024, 32 * 1024, 64 * 1024]

/-- `DIRECTIONS`. -/
def directions : List String := ["server_to_device", "device_to_server"]

section Transfers

variable (random : ℕ → Random) (derivedSeed : ℕ → String → ℕ → ℕ)

/-- `operations_for_case`. -/
def operationsForCase (seed : ℕ) (caseId : String) (iterations : ℕ) : List TransferOperation :=
  let operations : List TransferOperation := (List.range' 1 iterations).flatMap fun iteration ↦
    payloadSizes.flatMap fun size ↦ directions.map fun direction ↦
      { order := 0
        iteration := iteration
        direction := direction
        payloadBytes := size
        payloadSeed := derivedSeed (derivedSeed seed caseId iteration) direction size }
  (((random (derivedSeed seed caseId iterations)).shuffle 0 operations).zipIdx 1).map
    fun (operation, order) ↦ { operation with order := order }

theorem nodup_order_operationsForCase (seed : ℕ) (caseId : String) (iterations : ℕ) :
    ((operationsForCase random derivedSeed seed caseId iterations).map
      TransferOperation.order).Nodup := by
  simp only [operationsForCase, List.map_map]
  refine (List.zipIdx_map_snd 1 _).symm ▸ ?_
  exact List.nodup_range'

/-- The rounds of `build_transfer_rounds` before they are shuffled. -/
def transferRounds (seed : ℕ) (cases : List Case) : List TransferRound :=
  (cases.zipIdx 1).map fun (case, sequence) ↦
    { sequence := sequence
      caseId := case.caseId
      roundIndex := 1
      operations := operationsForCase random derivedSeed seed case.caseId case.iterations }

/-- `build_transfer_rounds`. -/
def buildTransferRounds (seed : ℕ) (cases : List Case) : Schedule where
  jobs := ((random seed).shuffle 0 (transferRounds random derivedSeed seed cases)).map .round
  nodup_sequence := by
    rw [List.map_map]
    refine (((random seed).shuffle_perm 0 _).map _).nodup_iff.mpr ?_
    simp only [transferRounds, List.map_map]
    refine (List.zipIdx_map_snd 1 cases).symm ▸ ?_
    exact List.nodup_range'
  nodup_order := by
    intro job hjob
    obtain ⟨j, hj, rfl⟩ := List.mem_map.mp hjob
    obtain ⟨c, -, rfl⟩ := List.mem_map.mp (((random seed).shuffle_perm 0 _).mem_iff.mp hj)
    exact nodup_order_operationsForCase random derivedSeed seed _ _

/-- `jobs` of `main`, for a run that is not resumed. -/
def buildSchedule (transferMode : Bool) (seed sessionsPerCase : ℕ) (cases : List Case) : Schedule :=
  if transferMode then buildTransferRounds random derivedSeed seed cases
  else buildJobs (random seed) sessionsPerCase cases

end Transfers

/-! ## Firmware profiles -/

/-- `group_jobs_by_firmware_profile`. -/
def groupJobsByFirmwareProfile (rng : Random) (firmwareProfile : String → String)
    (jobs : List Job) : List Job :=
  let grouped := (jobs.map fun job ↦ firmwareProfile job.caseId).dedup
  if grouped.length = 1 then jobs
  else
    ((rng.shuffle 0 (grouped.mergeSort fun a b ↦ decide (a ≤ b))).zipIdx 1).flatMap
      fun (profile, i) ↦
        rng.shuffle i (jobs.filter fun job ↦ firmwareProfile job.caseId = profile)

/-- Grouping a list by the value of a function rearranges it. -/
theorem flatMap_filter_perm {α β : Type} [DecidableEq β] (key : α → β)
    (rearrange : ℕ → List α → List α)
    (hrearrange : ∀ i l, (rearrange i l).Perm l) (keys : List (β × ℕ)) (l : List α)
    (hkeys : (keys.map Prod.fst).Nodup) (hl : ∀ x ∈ l, key x ∈ keys.map Prod.fst) :
    (keys.flatMap fun (k, i) ↦ rearrange i (l.filter fun x ↦ key x = k)).Perm l := by
  induction keys generalizing l with
  | nil =>
      rw [List.eq_nil_iff_forall_not_mem.mpr fun x hx ↦ List.not_mem_nil (hl x hx)]
      exact .refl _
  | cons k keys ih =>
      obtain ⟨k, i⟩ := k
      rw [List.map_cons, List.nodup_cons] at hkeys
      have hrest : (keys.flatMap fun (k', i) ↦ rearrange i (l.filter fun x ↦ key x = k')) =
          keys.flatMap fun (k', i) ↦
            rearrange i ((l.filter fun x ↦ !decide (key x = k)).filter fun x ↦ key x = k') := by
        refine List.flatMap_congr fun p hp ↦ ?_
        have hne : p.1 ≠ k := fun h ↦ hkeys.1 (List.mem_map.mpr ⟨p, hp, h⟩)
        simp only [List.filter_filter]
        congr 1
        refine List.filter_congr fun x _ ↦ ?_
        by_cases hx : key x = p.1
        · simp [hx, hne]
        · simp [hx]
      rw [List.flatMap_cons, hrest]
      refine List.Perm.trans ((hrearrange i _).append (ih _ hkeys.2 ?_))
        (List.filter_append_perm _ l)
      intro x hx
      obtain ⟨hx, hk⟩ := List.mem_filter.mp hx
      rcases List.mem_cons.mp (hl x hx) with h | h
      · simp [h] at hk
      · exact h

theorem groupJobsByFirmwareProfile_perm (rng : Random) (firmwareProfile : String → String)
    (jobs : List Job) : (groupJobsByFirmwareProfile rng firmwareProfile jobs).Perm jobs := by
  simp only [groupJobsByFirmwareProfile]
  split
  · exact .refl _
  have hkeys : ∀ l : List String,
      ((rng.shuffle 0 (l.mergeSort fun a b ↦ decide (a ≤ b))).zipIdx 1).map
      Prod.fst = rng.shuffle 0 (l.mergeSort fun a b ↦ decide (a ≤ b)) := fun l ↦
    List.zipIdx_map_fst _ _
  have hperm := fun l : List String ↦
    (rng.shuffle_perm 0 (l.mergeSort fun a b ↦ decide (a ≤ b))).trans (List.mergeSort_perm l _)
  apply flatMap_filter_perm (fun job : Job ↦ firmwareProfile job.caseId) (fun i l ↦ rng.shuffle i l)
    rng.shuffle_perm
  · rw [hkeys]
    exact (hperm _).nodup_iff.mpr (List.nodup_dedup _)
  · intro job hjob
    rw [hkeys, (hperm _).mem_iff, List.mem_dedup]
    exact List.mem_map_of_mem hjob

end PeripheralBench.Runner

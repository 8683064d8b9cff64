import PeripheralBench.Runner.Durability

/-!
# The manifests

`session_manifest.csv`, `round_manifest.csv` and `transfer_manifest.csv`, as `main` of
`run_benchmarks.py` writes them, and `load_session_jobs` and `load_transfer_rounds`, which read them
back.  The last two files go together: the operations of a round are found by its execution order
and its case.
-/

namespace PeripheralBench.Runner

/-! ## Rows -/

namespace Job

/-- `job.measured_index`. -/
def measuredIndex : Job → ℕ
  | session job => job.measuredIndex
  | round job => job.roundIndex

/-- `isinstance(job, TransferRound)`. -/
def isRound : Job → Bool
  | session _ => false
  | round _ => true

end Job

/-- A row of `session_manifest.csv`. -/
structure SessionRow where
  executionOrder : ℕ
  sourceSequence : ℕ
  caseId : String
  session : ℕ
  attemptInSession : ℕ
  warmup : ℕ
  measuredIndex : ℕ
  firmwareProfile : String
  seed : ℕ

/-- A row of `round_manifest.csv`. -/
structure RoundRow where
  executionOrder : ℕ
  sourceSequence : ℕ
  caseId : String
  roundIndex : ℕ
  firmwareProfile : String
  seed : ℕ

/-- A row of `transfer_manifest.csv`. -/
structure OperationRow where
  executionOrder : ℕ
  caseId : String
  roundIndex : ℕ
  transferOrder : ℕ
  iteration : ℕ
  direction : String
  payloadBytes : ℕ
  payloadSeed : ℕ
  expectedSha256 : String

/-! ## Writing -/

section Write

variable (firmwareProfile : String → String) (seed : ℕ) (payloadSha256 : ℕ → ℕ → String)

/-- A row of `session_manifest.csv` for a job. -/
def sessionRow (p : ℕ × Job) : SessionRow where
  executionOrder := p.1
  sourceSequence := p.2.sequence
  caseId := p.2.caseId
  session := p.2.sessionIndex
  attemptInSession := p.2.attemptInSession
  warmup := p.2.warmup
  measuredIndex := p.2.measuredIndex
  firmwareProfile := firmwareProfile p.2.caseId
  seed := seed

/-- A row of `round_manifest.csv` for a job. -/
def roundRow (p : ℕ × Job) : RoundRow where
  executionOrder := p.1
  sourceSequence := p.2.sequence
  caseId := p.2.caseId
  roundIndex := p.2.sessionIndex
  firmwareProfile := firmwareProfile p.2.caseId
  seed := seed

/-- The rows of `transfer_manifest.csv` for a job. -/
def jobOperationRows (p : ℕ × Job) : List OperationRow :=
  p.2.operations.map fun operation ↦
    { executionOrder := p.1
      caseId := p.2.caseId
      roundIndex := p.2.sessionIndex
      transferOrder := operation.order
      iteration := operation.iteration
      direction := operation.direction
      payloadBytes := operation.payloadBytes
      payloadSeed := operation.payloadSeed
      expectedSha256 := payloadSha256 operation.payloadSeed operation.payloadBytes }

/-- The contents of `session_manifest.csv`. -/
def sessionRows (jobs : List Job) : List SessionRow :=
  (enumerate jobs).map (sessionRow firmwareProfile seed)

/-- The contents of `round_manifest.csv`. -/
def roundRows (jobs : List Job) : List RoundRow :=
  (enumerate jobs).map (roundRow firmwareProfile seed)

/-- The contents of `transfer_manifest.csv`. -/
def operationRows (jobs : List Job) : List OperationRow :=
  (enumerate jobs).flatMap (jobOperationRows payloadSha256)

end Write

/-! ## Loading -/

/-- The job that a row of `session_manifest.csv` describes. -/
def SessionRow.job (row : SessionRow) : Job :=
  .session
    { sequence := row.sourceSequence
      caseId := row.caseId
      session := row.session
      attemptInSession := row.attemptInSession
      warmup := row.warmup
      measuredIndex := row.measuredIndex }

/-- The operation that a row of `transfer_manifest.csv` describes. -/
def OperationRow.operation (row : OperationRow) : TransferOperation where
  order := row.transferOrder
  iteration := row.iteration
  direction := row.direction
  payloadBytes := row.payloadBytes
  payloadSeed := row.payloadSeed

/-- The key under which the operations of a round are found. -/
def OperationRow.key (row : OperationRow) : ℕ × String := (row.executionOrder, row.caseId)

/-- The key under which a round finds its operations. -/
def RoundRow.key (row : RoundRow) : ℕ × String := (row.executionOrder, row.caseId)

/-- `operations[key]`, sorted by their order. -/
def operationsFor (operations : List OperationRow) (key : ℕ × String) : List TransferOperation :=
  ((operations.filter fun row ↦ decide (row.key = key)).map OperationRow.operation).mergeSort
    fun a b ↦ decide (a.order ≤ b.order)

/-- The round that a row of `round_manifest.csv` describes. -/
def RoundRow.job (operations : List OperationRow) (row : RoundRow) : Job :=
  .round
    { sequence := row.sourceSequence
      caseId := row.caseId
      roundIndex := row.roundIndex
      operations := operationsFor operations row.key }

/-- `load_session_jobs`. -/
def loadSessionJobs (rows : List SessionRow) : List Job :=
  (rows.mergeSort fun a b ↦ decide (a.executionOrder ≤ b.executionOrder)).map SessionRow.job

/-- `load_transfer_rounds`. -/
def loadTransferRounds (rows : List RoundRow) (operations : List OperationRow) : List Job :=
  (rows.mergeSort fun a b ↦ decide (a.executionOrder ≤ b.executionOrder)).map
    (RoundRow.job operations)

/-! ## The manifests together -/

/-- The manifests of a run directory. -/
structure Manifests where
  session : List SessionRow
  round : List RoundRow
  operation : List OperationRow

/-- The manifests of a schedule. -/
def writeManifests (firmwareProfile : String → String) (seed : ℕ) (payloadSha256 : ℕ → ℕ → String)
    (jobs : List Job) : Manifests where
  session := sessionRows firmwareProfile seed jobs
  round := roundRows firmwareProfile seed jobs
  operation := operationRows payloadSha256 jobs

/-- The schedule that a resumed run loads. -/
def loadJobs (transferMode : Bool) (m : Manifests) : List Job :=
  if transferMode then loadTransferRounds m.round m.operation else loadSessionJobs m.session

/-! ## Loading what was written -/

theorem enumerate_map_fst (jobs : List Job) :
    (enumerate jobs).map Prod.fst = List.range' 1 jobs.length := by
  rw [enumerate, List.map_map]
  exact List.zipIdx_map_snd 1 jobs

/-- Execution orders are counted from one. -/
theorem one_le_of_mem_enumerate {jobs : List Job} {p : ℕ × Job} (h : p ∈ enumerate jobs) :
    1 ≤ p.1 := by
  have hmem := List.mem_map_of_mem (f := Prod.fst) h
  rw [enumerate_map_fst] at hmem
  exact (List.mem_range'_1.mp hmem).1

theorem enumerate_map_snd (jobs : List Job) : (enumerate jobs).map Prod.snd = jobs := by
  rw [enumerate, List.map_map]
  exact List.zipIdx_map_fst 1 jobs

theorem pairwise_enumerate (jobs : List Job) :
    (enumerate jobs).Pairwise fun p q ↦ p.1 < q.1 := by
  rw [← List.pairwise_map (f := Prod.fst) (R := fun a b ↦ a < b), enumerate_map_fst]
  exact List.pairwise_lt_range'

/-- Rows that are written in execution order are sorted already. -/
theorem mergeSort_map_enumerate {α : Type} (row : ℕ × Job → α) (order : α → ℕ)
    (h : ∀ p, order (row p) = p.1) (jobs : List Job) :
    ((enumerate jobs).map row).mergeSort (fun a b ↦ decide (order a ≤ order b)) =
      (enumerate jobs).map row := by
  refine List.mergeSort_of_pairwise (List.pairwise_map.mpr ?_)
  refine (pairwise_enumerate jobs).imp fun {p q} hpq ↦ ?_
  rw [h, h]
  exact decide_eq_true hpq.le

theorem loadSessionJobs_sessionRows (firmwareProfile : String → String) (seed : ℕ) {jobs : List Job}
    (hjobs : ∀ job ∈ jobs, job.isRound = false) :
    loadSessionJobs (sessionRows firmwareProfile seed jobs) = jobs := by
  rw [loadSessionJobs, sessionRows, mergeSort_map_enumerate _ SessionRow.executionOrder fun _ ↦ rfl,
    List.map_map]
  refine Eq.trans (List.map_congr_left fun p hp ↦ ?_) (enumerate_map_snd jobs)
  have hjob := hjobs p.2 (enumerate_map_snd jobs ▸ List.mem_map_of_mem hp)
  obtain ⟨order, job | job⟩ := p
  · rfl
  · exact absurd hjob Bool.noConfusion

/-- What is filed under one of several keys. -/
theorem filter_flatMap_of_nodup {α β γ : Type} [DecidableEq β] (key : α → β) (tag : γ → β)
    {f : α → List γ} {l : List α} (hnodup : (l.map key).Nodup)
    (htag : ∀ x ∈ l, ∀ y ∈ f x, tag y = key x) {x : α} (hx : x ∈ l) :
    (l.flatMap f).filter (fun y ↦ decide (tag y = key x)) = f x := by
  induction l with
  | nil => exact absurd hx List.not_mem_nil
  | cons a l ih =>
      rw [List.map_cons, List.nodup_cons] at hnodup
      rw [List.flatMap_cons, List.filter_append]
      have hall : ∀ z ∈ a :: l, key z = key x →
          (f z).filter (fun y ↦ decide (tag y = key x)) = f z :=
        fun z hz hzx ↦ List.filter_eq_self.mpr fun y hy ↦
          decide_eq_true ((htag z hz y hy).trans hzx)
      have hnone : ∀ z ∈ a :: l, key z ≠ key x →
          (f z).filter (fun y ↦ decide (tag y = key x)) = [] :=
        fun z hz hzx ↦ List.filter_eq_nil_iff.mpr fun y hy h ↦
          hzx ((htag z hz y hy).symm.trans (of_decide_eq_true h))
      by_cases hax : key a = key x
      · have hxa : x = a := by
          rcases List.mem_cons.mp hx with rfl | hx
          · rfl
          · exact absurd (hax ▸ List.mem_map_of_mem hx) hnodup.1
        have hrest : (l.flatMap f).filter (fun y ↦ decide (tag y = key x)) = [] := by
          refine List.filter_eq_nil_iff.mpr fun y hy h ↦ ?_
          obtain ⟨z, hz, hy⟩ := List.mem_flatMap.mp hy
          refine hnodup.1 (List.mem_map.mpr ⟨z, hz, ?_⟩)
          rw [← htag z (.tail _ hz) y hy, of_decide_eq_true h, hax]
        rw [hrest, List.append_nil, hall a (.head _) hax, hxa]
      · have hx : x ∈ l := (List.mem_cons.mp hx).resolve_left fun h ↦ hax (h ▸ rfl)
        rw [hnone a (.head _) hax, List.nil_append]
        exact ih hnodup.2 (fun z hz ↦ htag z (.tail _ hz)) hx

theorem nodup_enumerate_key (jobs : List Job) :
    ((enumerate jobs).map fun p ↦ (p.1, p.2.caseId)).Nodup := by
  refine List.Nodup.of_map Prod.fst ?_
  rw [List.map_map]
  change ((enumerate jobs).map Prod.fst).Nodup
  rw [enumerate_map_fst]
  exact List.nodup_range'

theorem key_of_mem_jobOperationRows {payloadSha256 : ℕ → ℕ → String} {p : ℕ × Job}
    {row : OperationRow} (h : row ∈ jobOperationRows payloadSha256 p) :
    row.key = (p.1, p.2.caseId) := by
  obtain ⟨operation, -, rfl⟩ := List.mem_map.mp h
  rfl

theorem map_operation_jobOperationRows (payloadSha256 : ℕ → ℕ → String) (p : ℕ × Job) :
    (jobOperationRows payloadSha256 p).map OperationRow.operation = p.2.operations := by
  rw [jobOperationRows, List.map_map]
  exact List.map_id _

/-- A round finds the operations that were written for it. -/
theorem operationsFor_operationRows (payloadSha256 : ℕ → ℕ → String) {jobs : List Job}
    {p : ℕ × Job} (hp : p ∈ enumerate jobs)
    (hsorted : p.2.operations.Pairwise fun a b ↦ a.order ≤ b.order) :
    operationsFor (operationRows payloadSha256 jobs) (p.1, p.2.caseId) = p.2.operations := by
  rw [operationsFor, operationRows, filter_flatMap_of_nodup (fun p : ℕ × Job ↦ (p.1, p.2.caseId))
    OperationRow.key (nodup_enumerate_key jobs) (fun _ _ _ ↦ key_of_mem_jobOperationRows) hp,
    map_operation_jobOperationRows]
  exact List.mergeSort_of_pairwise (hsorted.imp fun h ↦ decide_eq_true h)

theorem loadTransferRounds_rows (firmwareProfile : String → String) (seed : ℕ)
    (payloadSha256 : ℕ → ℕ → String) {jobs : List Job} (hjobs : ∀ job ∈ jobs, job.isRound = true)
    (hsorted : ∀ job ∈ jobs, job.operations.Pairwise fun a b ↦ a.order ≤ b.order) :
    loadTransferRounds (roundRows firmwareProfile seed jobs) (operationRows payloadSha256 jobs) =
      jobs := by
  rw [loadTransferRounds, roundRows, mergeSort_map_enumerate _ RoundRow.executionOrder fun _ ↦ rfl,
    List.map_map]
  refine Eq.trans (List.map_congr_left fun p hp ↦ ?_) (enumerate_map_snd jobs)
  have hmem : p.2 ∈ jobs := enumerate_map_snd jobs ▸ List.mem_map_of_mem hp
  have hfor := operationsFor_operationRows payloadSha256 hp (hsorted p.2 hmem)
  obtain ⟨order, job | job⟩ := p
  · exact absurd (hjobs _ hmem) Bool.noConfusion
  · exact congrArg (fun operations ↦ Job.round { job with operations := operations }) hfor

/-- A schedule of one mode, as it is built. -/
structure Planned (transferMode : Bool) (jobs : List Job) : Prop where
  mode : ∀ job ∈ jobs, job.isRound = transferMode
  sorted : ∀ job ∈ jobs, job.operations.Pairwise fun a b ↦ a.order ≤ b.order

theorem loadJobs_writeManifests {transferMode : Bool} (firmwareProfile : String → String) (seed : ℕ)
    (payloadSha256 : ℕ → ℕ → String) {jobs : List Job} (hjobs : Planned transferMode jobs) :
    loadJobs transferMode (writeManifests firmwareProfile seed payloadSha256 jobs) = jobs := by
  cases transferMode with
  | false => exact loadSessionJobs_sessionRows firmwareProfile seed hjobs.mode
  | true => exact loadTransferRounds_rows firmwareProfile seed payloadSha256 hjobs.mode hjobs.sorted

theorem Planned.perm {transferMode : Bool} {jobs jobs' : List Job} (h : Planned transferMode jobs)
    (hperm : jobs'.Perm jobs) : Planned transferMode jobs' where
  mode job hjob := h.mode job (hperm.mem_iff.mp hjob)
  sorted job hjob := h.sorted job (hperm.mem_iff.mp hjob)

theorem planned_buildJobs (rng : Random) (sessionsPerCase : ℕ) (cases : List Case) :
    Planned false (buildJobs rng sessionsPerCase cases).jobs where
  mode job hjob := by
    obtain ⟨j, -, rfl⟩ := List.mem_map.mp hjob
    rfl
  sorted job hjob := by
    obtain ⟨j, -, rfl⟩ := List.mem_map.mp hjob
    exact .nil

theorem planned_buildTransferRounds (random : ℕ → Random) (derivedSeed : ℕ → String → ℕ → ℕ)
    (seed : ℕ) (cases : List Case) :
    Planned true (buildTransferRounds random derivedSeed seed cases).jobs where
  mode job hjob := by
    obtain ⟨j, -, rfl⟩ := List.mem_map.mp hjob
    rfl
  sorted job hjob := by
    obtain ⟨j, hj, rfl⟩ := List.mem_map.mp hjob
    obtain ⟨c, -, rfl⟩ := List.mem_map.mp (((random seed).shuffle_perm 0 _).mem_iff.mp hj)
    change (operationsForCase random derivedSeed seed c.1.caseId c.1.iterations).Pairwise _
    rw [← List.pairwise_map (f := TransferOperation.order) (R := fun a b ↦ a ≤ b)]
    simp only [operationsForCase, List.map_map]
    refine (List.zipIdx_map_snd 1 _).symm ▸ ?_
    exact List.pairwise_le_range'

end PeripheralBench.Runner

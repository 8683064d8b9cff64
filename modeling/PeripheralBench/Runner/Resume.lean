import PeripheralBench.Durable.Rewrite
import PeripheralBench.Runner.Schedule

/-!
# The attempt loop of the runner, and what it leaves on disk

`main` of `run_benchmarks.py` from the point where the schedule is known: the loop over the
scheduled jobs, `write_csv`, `write_checkpoint`, and what a resumed run loads.  One call of `main`
is a *life* of the runner.  It ends when the schedule is finished, when something raises an
exception, or when the process is killed: between two operations on a file, or in the middle of one.

What happens on the bench in a life is its `Bench`, arbitrary.  Of the files in the run directory
the model has those that the loop writes and the manifests, which are one list of jobs here.  The
time stamps are left out.
-/

open PeripheralBench.Durable

namespace PeripheralBench.Runner

/-! ## Rows -/

/-- The columns of a row that are not looked at here. -/
abbrev Columns : Type := List (String × String)

/-- A row of `attempts.csv` and of `handshakes.csv`. -/
structure AttemptRow where
  attemptIndex : ℕ
  scheduleIndex : ℕ
  session : ℕ
  attemptInSession : ℕ
  warmup : ℕ
  status : String
  columns : Columns
deriving DecidableEq

/-- A row of `transmissions.csv`. -/
structure TransferRow where
  caseId : String
  roundIndex : ℕ
  attemptIndex : ℕ
  scheduleIndex : ℕ
  transferOrder : ℕ
  iteration : ℕ
  direction : String
  payloadBytes : ℕ
  status : String
  roundTry : ℕ
  roundComplete : ℕ
  columns : Columns
deriving DecidableEq

/-- What is found out about the transfers of a round in one try. -/
structure Try where
  /-- `final.get("status", "fail")`. -/
  roundStatus : String
  status : TransferOperation → String
  columns : TransferOperation → Columns

/-- What `run_job` finds out about a job. -/
structure JobResult where
  status : String
  columns : Columns
  /-- The tries, the first one first. -/
  tries : List Try

/-- What the bench contributes to a life of the runner. -/
structure Bench where
  /-- The generator of `group_jobs_by_firmware_profile`. -/
  rng : Random
  /-- `case["firmware_profile"]`, once the images have been built. -/
  firmwareProfile : String → String
  /-- The cases that cannot be run, with the columns of their rows. -/
  unsupported : String → Option (Columns × Try)
  /-- The result of `run_job` for an execution order, a job and an attempt index. -/
  result : ℕ → Job → ℕ → JobResult

/-- `transfer_rows_for_round`, and what `run_job` adds to each row. -/
def transferRowsForRound (round : TransferRound) (attemptIndex roundTry : ℕ) (complete : Bool)
    (t : Try) : List TransferRow :=
  round.operations.map fun operation ↦
    { caseId := round.caseId
      roundIndex := round.roundIndex
      attemptIndex := attemptIndex
      scheduleIndex := round.sequence
      transferOrder := operation.order
      iteration := operation.iteration
      direction := operation.direction
      payloadBytes := operation.payloadBytes
      status := t.status operation
      roundTry := roundTry
      roundComplete := if complete then 1 else 0
      columns := t.columns operation }

/-- `complete`. -/
def Try.complete (t : Try) (round : TransferRound) : Bool :=
  decide (t.roundStatus = "success") && round.operations.all fun operation ↦
    decide (t.status operation = "success")

/-- The rows of a job, from what has been found out about it. -/
def attemptRow (job : Job) (attemptIndex : ℕ) (status : String) (columns : Columns) : AttemptRow :=
  { attemptIndex := attemptIndex
    scheduleIndex := job.sequence
    session := job.sessionIndex
    attemptInSession := job.attemptInSession
    warmup := job.warmup
    status := status
    columns := columns }

/-- `_transmissions` of `run_job`: the rows of all tries. -/
def allTransferRows (job : Job) (attemptIndex : ℕ) (tries : List Try) : List TransferRow :=
  match job with
  | .session _ => []
  | .round round => (tries.zipIdx 1).flatMap fun (t, i) ↦
      transferRowsForRound round attemptIndex i (t.complete round) t

/-- `_transmissions` of a case that cannot be run. -/
def unsupportedTransferRows (job : Job) (attemptIndex : ℕ) (t : Try) : List TransferRow :=
  match job with
  | .session _ => []
  | .round round => transferRowsForRound round attemptIndex 1 false t

/-! ## The run directory -/

/-- `checkpoint.json`. -/
structure Checkpoint where
  version : ℕ
  status : String
  lastCompletedExecutionOrder : ℕ
  nextExecutionOrder : Option ℕ
  caseId : Option String
  session : Option ℕ
  attemptInSession : Option ℕ
  firmwareProfile : Option String
deriving DecidableEq

/-- The checkpoint of a run that has only been set up. -/
def Checkpoint.new : Checkpoint where
  version := 1
  status := "new"
  lastCompletedExecutionOrder := 0
  nextExecutionOrder := some 1
  caseId := none
  session := none
  attemptInSession := none
  firmwareProfile := none

/-- The payload of `write_checkpoint`. -/
def checkpointPayload (executionOrder totalJobs : ℕ) (job : Job) (firmwareProfile : String) :
    Checkpoint where
  version := 1
  status := if totalJobs ≤ executionOrder then "complete" else "running"
  lastCompletedExecutionOrder := executionOrder
  nextExecutionOrder := if executionOrder < totalJobs then some (executionOrder + 1) else none
  caseId := some job.caseId
  session := some job.sessionIndex
  attemptInSession := some job.attemptInSession
  firmwareProfile := some firmwareProfile

/-- The files of a run directory.  A file that is not there reads like an empty one. -/
structure Disk where
  /-- `session_manifest.csv`, or `round_manifest.csv` with `transfer_manifest.csv`. -/
  manifest : List Job
  attempts : String → List AttemptRow
  handshakes : String → List AttemptRow
  transmissions : String → List TransferRow
  /-- `checkpoint.json.tmp`, if it can be read. -/
  temporary : Option Checkpoint
  /-- `checkpoint.json`. -/
  checkpoint : Checkpoint

/-- `last_completed_execution_order`. -/
abbrev Disk.last (d : Disk) : ℕ := d.checkpoint.lastCompletedExecutionOrder

/-- An operation on a file of the run directory. -/
inductive FileOp where
  | attempts (caseId : String) (w : Write AttemptRow)
  | handshakes (caseId : String) (w : Write AttemptRow)
  | transmissions (caseId : String) (w : Write TransferRow)
  /-- `temporary.write_text`. -/
  | writeTemporary (payload : Checkpoint)
  /-- `temporary.replace`. -/
  | replace

/-- What a reader makes of the last line of a file, if it has been cut short. -/
structure Fragment where
  attempt : Option AttemptRow
  transfer : Option TransferRow

/-- The run directory with its operations. -/
def disk : Medium Disk FileOp Fragment where
  apply
    | .attempts c w, d => { d with
        attempts := Function.update d.attempts c ((file AttemptRow).apply w (d.attempts c)) }
    | .handshakes c w, d => { d with
        handshakes := Function.update d.handshakes c ((file AttemptRow).apply w (d.handshakes c)) }
    | .transmissions c w, d => { d with
        transmissions :=
          Function.update d.transmissions c ((file TransferRow).apply w (d.transmissions c)) }
    | .writeTemporary payload, d => { d with temporary := some payload }
    | .replace, d => { d with temporary := none, checkpoint := d.temporary.getD d.checkpoint }
  cut
    | f, .attempts c w, d => { d with
        attempts :=
          Function.update d.attempts c ((file AttemptRow).cut f.attempt w (d.attempts c)) }
    | f, .handshakes c w, d => { d with
        handshakes :=
          Function.update d.handshakes c ((file AttemptRow).cut f.attempt w (d.handshakes c)) }
    | f, .transmissions c w, d => { d with
        transmissions :=
          Function.update d.transmissions c
            ((file TransferRow).cut f.transfer w (d.transmissions c)) }
    | _, .writeTemporary _, d => { d with temporary := none }
    | _, .replace, d => d

/-! ## The attempt loop -/

/-- The variables `attempts` and `transmissions` of `main`. -/
structure Memory where
  attempts : String → List AttemptRow
  transmissions : String → List TransferRow

/-- `load_attempts` and `load_transmissions`. -/
def Memory.load (d : Disk) : Memory where
  attempts := d.attempts
  transmissions := d.transmissions

/-- The row of a job and its `_transmissions`. -/
def execute (bench : Bench) (memory : Memory) (executionOrder : ℕ) (job : Job) :
    AttemptRow × List TransferRow :=
  let attemptIndex := (memory.attempts job.caseId).length + 1
  match bench.unsupported job.caseId with
  | some (columns, t) =>
      (attemptRow job attemptIndex "unsupported" columns,
        unsupportedTransferRows job attemptIndex t)
  | none =>
      let result := bench.result executionOrder job attemptIndex
      (attemptRow job attemptIndex result.status result.columns,
        allTransferRows job attemptIndex result.tries)

/-- `attempts[job.case_id].append(row)` and `transmissions[job.case_id].extend(transfer_rows)`. -/
def Memory.append (memory : Memory) (caseId : String) (rows : AttemptRow × List TransferRow) :
    Memory where
  attempts := Function.update memory.attempts caseId (memory.attempts caseId ++ [rows.1])
  transmissions :=
    Function.update memory.transmissions caseId (memory.transmissions caseId ++ rows.2)

/-- `enumerate(jobs, 1)`. -/
def enumerate (jobs : List Job) : List (ℕ × Job) := (jobs.zipIdx 1).map Prod.swap

/-- `scheduled_jobs`. -/
def scheduledJobs (d : Disk) : List (ℕ × Job) := (enumerate d.manifest).filter fun p ↦ d.last < p.1

section Loop

variable (transferMode : Bool)

/-- The writes at the end of a turn of the loop, each a list of operations.  `attempts.csv` comes
first, `checkpoint.json` last. -/
def turnWrites (memory : Memory) (totalJobs executionOrder : ℕ) (job : Job)
    (firmwareProfile : String) : List (List FileOp) :=
  [(rewrite (memory.attempts job.caseId)).map (.attempts job.caseId)] ++
  (if transferMode then
    [(rewrite (memory.attempts job.caseId)).map (.handshakes job.caseId),
      (rewrite (memory.transmissions job.caseId)).map (.transmissions job.caseId)]
    else []) ++
  [[.writeTemporary (checkpointPayload executionOrder totalJobs job firmwareProfile)], [.replace]]

/-- An execution of a job whose row has been written to `attempts.csv`. -/
structure Execution where
  executionOrder : ℕ
  job : Job
  row : AttemptRow
  transferRows : List TransferRow
  /-- `transmissions.csv` has been written as well. -/
  transmitted : Bool
  /-- `checkpoint.json` has been written as well. -/
  committed : Bool

/-- The run directory, and what has been recorded in it up to now, which nothing in the program
reads. -/
structure World where
  disk : Disk
  recorded : List Execution

/-- A job with its execution order, in the context of a life. -/
structure Turn where
  bench : Bench
  totalJobs : ℕ
  memory : Memory
  executionOrder : ℕ
  job : Job

namespace Turn

variable (t : Turn)

/-- `row` and `transfer_rows`. -/
def rows : AttemptRow × List TransferRow := execute t.bench t.memory t.executionOrder t.job

/-- The memory at the end of the turn. -/
def after : Memory := t.memory.append t.job.caseId t.rows

/-- The writes of the turn. -/
def writes : List (List FileOp) :=
  turnWrites transferMode t.after t.totalJobs t.executionOrder t.job
    (t.bench.firmwareProfile t.job.caseId)

/-- The operations of the turn. -/
def ops : List FileOp := (t.writes transferMode).flatten

/-- The number of operations of the first `m` writes. -/
def cost (m : ℕ) : ℕ := ((t.writes transferMode).take m).flatten.length

/-- What `k` operations of the turn have recorded. -/
def execution (k : ℕ) : Execution where
  executionOrder := t.executionOrder
  job := t.job
  row := t.rows.1
  transferRows := t.rows.2
  transmitted := transferMode && decide (t.cost transferMode 3 ≤ k)
  committed := decide ((t.ops transferMode).length ≤ k)

/-- A turn that is killed after `k` operations, or not at all. -/
def run (k : ℕ) (f : Fragment) (w : World) : World where
  disk := disk.interrupted (t.ops transferMode) k f w.disk
  recorded :=
    if t.cost transferMode 1 ≤ k then w.recorded ++ [t.execution transferMode k] else w.recorded

/-- A whole turn. -/
def finish (w : World) : World := t.run transferMode (t.ops transferMode).length ⟨none, none⟩ w

end Turn

/-- The loop over the scheduled jobs, killed after `n` whole turns and `k` operations of the next.
-/
def attemptLoop (bench : Bench) (totalJobs : ℕ) (f : Fragment) :
    List (ℕ × Job) → ℕ → ℕ → Memory → World → World
  | [], _, _, _, w => w
  | (executionOrder, job) :: _, 0, k, memory, w =>
      (Turn.mk bench totalJobs memory executionOrder job).run transferMode k f w
  | (executionOrder, job) :: rest, n + 1, k, memory, w =>
      let t := Turn.mk bench totalJobs memory executionOrder job
      attemptLoop bench totalJobs f rest n k t.after (t.finish transferMode w)

/-! ## Lives -/

/-- Where a life of the runner ends. -/
inductive Stop where
  /-- The manifests are being rewritten; this is what is left of them. -/
  | planning (manifest : List Job)
  /-- After `turns` turns of the loop and `ops` operations of the next. -/
  | loop (turns ops : ℕ) (fragment : Fragment)

/-- A life of the runner. -/
structure Life where
  bench : Bench
  stop : Stop

/-- `can_replan_schedule`: nothing has been completed. -/
def canReplan (d : Disk) : Prop := d.last = 0

instance (d : Disk) : Decidable (canReplan d) := inferInstanceAs (Decidable (_ = _))

/-- The schedule is grouped by firmware profile, and the manifests are rewritten. -/
def plan (bench : Bench) (d : Disk) : Disk :=
  if canReplan d then
    { d with manifest := groupJobsByFirmwareProfile bench.rng bench.firmwareProfile d.manifest }
  else d

/-- A life of the runner, from what is on disk. -/
def live (w : World) (l : Life) : World :=
  match l.stop with
  | .planning manifest =>
      if canReplan w.disk then { w with disk := { w.disk with manifest := manifest } } else w
  | .loop n k f =>
      let d := plan l.bench w.disk
      attemptLoop transferMode l.bench d.manifest.length f (scheduledJobs d) n k (Memory.load d)
        { w with disk := d }

/-- A run directory that has only been set up. -/
def fresh (schedule : Schedule) : World where
  disk :=
    { manifest := schedule.jobs
      attempts := fun _ ↦ []
      handshakes := fun _ ↦ []
      transmissions := fun _ ↦ []
      temporary := none
      checkpoint := .new }
  recorded := []

/-- What is left of a run after the lives of the runner. -/
def runs (schedule : Schedule) (ls : List Life) : World :=
  lives (live transferMode) (fresh schedule) ls

end Loop

/-! ## A small run -/

/-- A generator that leaves every list as it is. -/
def Random.still : Random where
  shuffle _ l := l
  shuffle_perm _ _ := .refl _

/-- A bench on which every attempt succeeds in one try. -/
def Bench.steady : Bench where
  rng := .still
  firmwareProfile _ := "universal"
  unsupported _ := none
  result _ _ _ :=
    { status := "success"
      columns := []
      tries := [⟨"success", fun _ ↦ "success", fun _ ↦ []⟩] }

/-- Two attempts of one case. -/
def Schedule.twoAttempts : Schedule where
  jobs := [.session ⟨1, "case", 1, 1, 0, 1⟩, .session ⟨2, "case", 1, 2, 0, 2⟩]
  nodup_sequence := by decide
  nodup_order := by
    intro job hjob
    rcases List.mem_pair.mp hjob with rfl | rfl <;> exact List.nodup_nil

/-- A life on the steady bench that ends between two operations. -/
def Life.steady (turns ops : ℕ) : Life := ⟨.steady, .loop turns ops ⟨none, none⟩⟩

end PeripheralBench.Runner

import Mathlib.Data.Multiset.AddSub
import PeripheralBench.Runner.BenchLine

/-!
# Commands and results

`run_kem_benchmarks.py` and `run_certificate_benchmarks.py` write a command on the serial line for
each attempt, and read lines until the result comes (`wait_for_board_marker`).  If it does not come
in time they reset the board, and read lines until it says that it is ready.  The two loops are the
same, and so are those of the boards.

What the board prints comes in order, but late: the lines on their way are those that the runner has
not read.  No line says which attempt it belongs to.  The model remembers it, as a mark on every
line and in every row; the runner never looks at it.
-/

namespace PeripheralBench.Runner

namespace BoardCommands

/-! ## The benchmarks -/

/-- `Kem`: the fields that are looked at. -/
structure Kem where
  name : String
  publicKeyBytes : ℤ
  ciphertextBytes : ℤ
  sharedSecretBytes : ℤ
deriving DecidableEq

/-- `Signature`: the fields that are looked at. -/
structure Signature where
  name : String
  publicKeyBytes : ℤ
  privateKeyBytes : ℤ
  signatureBytes : ℤ
deriving DecidableEq

/-- What tells one benchmark from the other. -/
structure Bench (α : Type) where
  /-- The marker of a result. -/
  resultMarker : Str
  /-- The marker of the lines that go to `progress_values`. -/
  progressMarker : Option Str
  /-- The fields with the sizes. -/
  sizeFields : List Str
  /-- The sizes that they should have. -/
  expectedSizes : α → List ℤ
  /-- The other fields that are numbers. -/
  numberFields : List Str
  /-- Whether `secrets_match` is looked at. -/
  checksSecrets : Bool

/-- `PRIVATE_KEY_BYTES`. -/
def privateKeyBytes (name : String) : ℤ :=
  (List.lookup name [("ECDHE-P-256", 32), ("ECDHE-P-384", 48), ("ECDHE-P-521", 66),
    ("MLKEM512", 1632), ("MLKEM768", 2400), ("MLKEM1024", 3168), ("SecP256r1MLKEM768", 2432),
    ("X25519MLKEM768", 2432), ("SecP384r1MLKEM1024", 3216)]).getD 0

/-- `run_kem_benchmarks.py`. -/
def kemBench : Bench Kem where
  resultMarker := "[BENCH_KEM_RESULT]".toList
  progressMarker := none
  sizeFields := ["kex_public_key_bytes", "kex_private_key_bytes", "kex_ciphertext_bytes",
    "kex_shared_secret_bytes"].map String.toList
  expectedSizes kem :=
    [kem.publicKeyBytes, privateKeyBytes kem.name, kem.ciphertextBytes, kem.sharedSecretBytes]
  numberFields := ["client_cycle_hz", "client_cpu_cycles"].map String.toList
  checksSecrets := true

/-- `run_certificate_benchmarks.py`. -/
def certificateBench : Bench Signature where
  resultMarker := "[BENCH_CERT_RESULT]".toList
  progressMarker := some "[BENCH_CERT_PROGRESS]".toList
  sizeFields := ["sig_public_key_bytes", "sig_private_key_bytes",
    "sig_signature_bytes"].map String.toList
  expectedSizes signature :=
    [signature.publicKeyBytes, signature.privateKeyBytes, signature.signatureBytes]
  numberFields := ["client_cycle_hz", "client_cpu_cycles", "client_active_cycles",
    "client_idle_cycles", "client_total_cycles"].map String.toList
  checksSecrets := false

/-! ## Lines -/

/-- `marker in line`. -/
def isIn (marker : Str) : Str → Bool
  | [] => marker.isEmpty
  | c :: line => marker.isPrefixOf (c :: line) || isIn marker line

/-- The marker is in the line as the runner reads it. -/
def Shows (marker line : Str) : Prop := isIn marker (Str.strip line) = true

instance (marker line : Str) : Decidable (Shows marker line) := inferInstanceAs (Decidable (_ = _))

/-- The marker of a board that is ready. -/
def readyMarker : Str := "[BENCH_READY]".toList

/-- `line.split(marker, 1)[1]`: what comes after the marker. -/
def after (marker : Str) : Str → Str
  | [] => []
  | c :: line =>
      if marker.isPrefixOf (c :: line) then (c :: line).drop marker.length else after marker line

/-- `parse_board_values`. -/
def parseBoardValues (marker line : Str) : Option Values :=
  if isIn marker line then some (bodyValues (after marker line)) else none

/-! ## Rows -/

/-- An attempt: the algorithm, by its place among the cases, and the number. -/
structure Job (α : Type) where
  sequence : ℕ
  algorithm : α
  attempt : ℕ
deriving DecidableEq

/-- A row of `attempts.csv`.  The other columns repeat what is in `values`. -/
structure Row (α : Type) where
  /-- The attempt that the row stands for. -/
  job : Job α
  status : Str
  errorCode : Str
  values : Values
  /-- The command that the board answered with the result that the row is built from. -/
  emitter : Option (Job α)
deriving DecidableEq

section

variable {α : Type} (int : Str → Option ℤ) (bench : Bench α)

/-- `int(values.get(field, "0") or 0)`, if it does not raise. -/
def number (values : Values) (field : Str) : Option ℤ :=
  match values.get field "0".toList with
  | [] => some 0
  | text => int text

/-- `attempt_row` and `on_device_attempt_row`, which raise if a number is not one.  Of a status with
other letters than ASCII `lower` makes no `success` either. -/
def attemptRow (job : Job α) (values : Values) (emitter : Option (Job α)) : Option (Row α) := do
  let reportedSizes ← bench.sizeFields.mapM (number int values)
  let _ ← bench.numberFields.mapM (number int values)
  let status := (values.get "status".toList "fail".toList).map Char.toLower
  let sizeMismatch := status = "success".toList ∧ reportedSizes ≠ bench.expectedSizes job.algorithm
  let secretMismatch := bench.checksSecrets = true ∧ status = "success".toList ∧
    values.get "secrets_match".toList "0".toList ≠ "1".toList
  some
    { job := job
      status := if sizeMismatch ∨ secretMismatch then "fail".toList else status
      errorCode :=
        if sizeMismatch then "metadata_mismatch".toList
        else if secretMismatch then "shared_secret_mismatch".toList
        else values.get "error".toList []
      values := values
      emitter := emitter }

/-- The values of an attempt that has been cancelled. -/
def cancelledValues : Values :=
  [("status".toList, "cancelled".toList),
    ("stage".toList, "cancelled_after_algorithm_timeout".toList),
    ("error".toList, "algorithm_timeout".toList)]

/-- `latest_progress`: the values of the latest line, and how many there were. -/
structure Progress where
  values : Values := []
  reports : ℕ := 0
deriving DecidableEq

/-- `latest_progress.get("_progress_reports", "0")`. -/
def Progress.reportsText (progress : Progress) : Str := (toString progress.reports).toList

/-- The values of an attempt that has timed out. -/
def timeoutValues (progress : Progress) : Values :=
  match bench.progressMarker with
  | none =>
      [("status".toList, "timeout".toList), ("stage".toList, "board_result".toList),
        ("error".toList, "timeout".toList)]
  | some _ =>
      let values := progress.values.update
        [("status".toList, "timeout".toList), ("stage".toList, "board_result".toList),
          ("error".toList, "timeout".toList), ("progress_reports".toList, progress.reportsText)]
      match progress.values.get "stage".toList [] with
      | [] => values
      | stage => values.set "stage".toList stage

/-- What becomes of the values of a result. -/
def resultValues (progress : Progress) (values : Values) : Values :=
  match bench.progressMarker with
  | none => values
  | some _ => values.set "progress_reports".toList progress.reportsText

end

/-! ## The board -/

/-- What the board is doing. -/
inductive Board (α : Type) where
  /-- It has been reset, and has not said that it is ready. -/
  | booting
  /-- In `console_getline`. -/
  | idle
  /-- In `run_case`, before it prints the result. -/
  | busy (job : Job α)
  /-- Behind `run_case`, before it says that it is ready. -/
  | answered (job : Job α)
deriving DecidableEq

/-- The command that the board is working at. -/
def Board.job {α : Type} : Board α → Option (Job α)
  | .booting => none
  | .idle => none
  | .busy job => some job
  | .answered job => some job

/-- What the board is doing when it has printed a line; it prints results and that it is ready at
these places only, and no line that says both. -/
def Board.print {α : Type} (bench : Bench α) (board : Board α) (line : Str) : Option (Board α) :=
  if Shows bench.resultMarker line then
    if Shows readyMarker line then none
    else
      match board with
      | .busy job => some (.answered job)
      | _ => none
  else if Shows readyMarker line then
    match board with
    | .booting => some .idle
    | .answered _ => some .idle
    | _ => none
  else some board

/-! ## The runner -/

/-- Where the runner is. -/
inductive Place where
  /-- Before `flash_firmware`, unless `--skip-flash`. -/
  | flash
  /-- Before `serial_port.reset_input_buffer()`. -/
  | openPort
  /-- Before `reset_firmware`, if `--skip-flash`. -/
  | reset
  /-- In the first `wait_for_board_marker`. -/
  | waitReady
  /-- At the head of the loop. -/
  | write
  /-- In the `wait_for_board_marker` for the result. -/
  | waitResult
  /-- Before `reset_firmware`, after a timeout. -/
  | recover
  /-- In the `wait_for_board_marker` behind it. -/
  | waitRecovered
  /-- Before the rows are appended. -/
  | record
  /-- Behind the loop. -/
  | done
  /-- An exception has ended the run. -/
  | failed
deriving DecidableEq

/-- The board, the lines between, and the runner. -/
structure System (α : Type) where
  board : Board α
  /-- The commands that the board has received and not begun with. -/
  commands : List (Job α)
  /-- The lines that the runner has not read, each with the command that the board was working at.
  -/
  line : List (Str × Option (Job α))
  place : Place
  /-- The cases from this one on, with their `sequence`. -/
  cases : List (ℕ × α)
  attempt : ℕ
  /-- `latest_progress`. -/
  progress : Progress
  /-- `values`. -/
  values : Values
  /-- The command that the result has been printed for. -/
  emitter : Option (Job α)
  /-- `attempts`. -/
  rows : List (Row α)

/-- What the runner learns from outside in a step. -/
structure Input where
  /-- The deadline has passed. -/
  late : Bool
  /-- The number of lines that have come. -/
  arrived : ℕ
  /-- The call has raised. -/
  raised : Bool

/-- What happens next. -/
inductive Event where
  /-- The board takes a command. -/
  | take
  /-- It cannot make sense of a command, and prints this. -/
  | reject (line : Str)
  /-- A command is lost. -/
  | lose
  /-- The board prints a line. -/
  | print (line : Str)
  /-- The board reboots. -/
  | reboot
  /-- The runner takes a step. -/
  | runner (input : Input)

namespace System

variable {α : Type}

/-- The attempt that the runner is at. -/
def job (s : System α) : Option (Job α) := s.cases.head?.map fun case ↦ ⟨case.1, case.2, s.attempt⟩

/-- The board is reset; what it has received is lost. -/
def reboot (s : System α) : System α := { s with board := .booting, commands := [] }

/-- A round of `wait_for_board_marker` that waits for `[BENCH_READY]`, and goes on to `next`. -/
def readReady (s : System α) (next : Place) : System α :=
  match s.line with
  | [] => s
  | (line, _) :: rest =>
      { s with
        line := rest
        place := if Shows readyMarker line then next else s.place }

section

variable (int : Str → Option ℤ) (bench : Bench α)

/-- What a round of `wait_for_board_marker` does with `progress_values`. -/
def takeProgress (progress : Progress) (line : Str) : Progress :=
  match bench.progressMarker.bind fun marker ↦ parseBoardValues marker line with
  | some values => ⟨values, progress.reports + 1⟩
  | none => progress

/-- A round of `wait_for_board_marker` that waits for the result. -/
def readResult (s : System α) : System α :=
  match s.line with
  | [] => s
  | (line, emitter) :: rest =>
      let progress := takeProgress bench s.progress (Str.strip line)
      match parseBoardValues bench.resultMarker (Str.strip line) with
      | some values =>
          { s with
            line := rest
            progress := progress
            values := resultValues bench progress values
            emitter := emitter
            place := .record }
      | none => { s with line := rest, progress := progress }

/-- The rows of the attempts that are cancelled after a timeout. -/
def cancelledRows (iterations : ℕ) (s : System α) (job : Job α) : Option (List (Row α)) :=
  if s.values.get? "status".toList = some "timeout".toList then
    (List.range' (job.attempt + 1) (iterations - job.attempt)).mapM fun attempt ↦
      attemptRow int bench { job with attempt := attempt } cancelledValues none
  else some []

/-- The rows that an attempt adds to `attempts`. -/
def attemptRows (iterations : ℕ) (s : System α) (job : Job α) : Option (List (Row α)) := do
  let row ← attemptRow int bench job s.values s.emitter
  let cancelled ← s.cancelledRows int bench iterations job
  some (row :: cancelled)

/-- The end of an attempt. -/
def record (iterations : ℕ) (s : System α) (job : Job α) : System α :=
  match attemptRows int bench iterations s job with
  | none => { s with place := .failed }
  | some rows =>
      if s.values.get? "status".toList = some "timeout".toList ∨ iterations ≤ job.attempt then
        { s with rows := s.rows ++ rows, place := .write, cases := s.cases.tail, attempt := 1 }
      else { s with rows := s.rows ++ rows, place := .write, attempt := job.attempt + 1 }

/-- One step of `main`, or of `run_on_device`. -/
def runnerStep (skipFlash : Bool) (iterations : ℕ) (s : System α) (input : Input) : System α :=
  match s.place, s.job with
  | .flash, _ =>
      if skipFlash then { s with place := .openPort } else { s.reboot with place := .openPort }
  | .openPort, _ => { s with line := s.line.drop input.arrived, place := .reset }
  | .reset, _ =>
      if skipFlash then
        if input.raised then { s with place := .failed } else { s.reboot with place := .waitReady }
      else { s with place := .waitReady }
  | .waitReady, _ => if input.late then { s with place := .failed } else s.readReady .write
  | .write, none => { s with place := .done }
  | .write, some job =>
      { s with commands := s.commands ++ [job], progress := {}, place := .waitResult }
  | .waitResult, _ =>
      if input.late then
        { s with values := timeoutValues bench s.progress, emitter := none, place := .recover }
      else s.readResult bench
  | .recover, _ =>
      if input.raised then { s with place := .failed }
      else { s.reboot with place := .waitRecovered }
  | .waitRecovered, _ => if input.late then { s with place := .failed } else s.readReady .record
  | .record, some job => s.record int bench iterations job
  | .record, none => s
  | .done, _ => s
  | .failed, _ => s

/-- What an event does. -/
def step (skipFlash : Bool) (iterations : ℕ) (s : System α) : Event → System α
  | .take =>
      match s.board, s.commands with
      | .idle, job :: commands => { s with board := .busy job, commands := commands }
      | _, _ => s
  | .reject line =>
      match s.board, s.commands with
      | .idle, job :: commands =>
          if Shows readyMarker line then s
          else { s with commands := commands, line := s.line ++ [(line, some job)] }
      | _, _ => s
  | .lose => { s with commands := s.commands.tail }
  | .print line =>
      match s.board.print bench line with
      | some board => { s with board := board, line := s.line ++ [(line, s.board.job)] }
      | none => s
  | .reboot => s.reboot
  | .runner input => s.runnerStep int bench skipFlash iterations input

/-- A schedule. -/
def run (skipFlash : Bool) (iterations : ℕ) (s : System α) (events : List Event) : System α :=
  events.foldl (step int bench skipFlash iterations) s

end

/-- The runner begins with these cases.  The board may be in the middle of anything. -/
def init (cases : List α) (board : Board α) (commands : List (Job α))
    (line : List (Str × Option (Job α))) : System α where
  board := board
  commands := commands
  line := line
  place := .flash
  cases := (cases.zipIdx 1).map fun case ↦ (case.2, case.1)
  attempt := 1
  progress := {}
  values := []
  emitter := none
  rows := []

end System

end BoardCommands

end PeripheralBench.Runner

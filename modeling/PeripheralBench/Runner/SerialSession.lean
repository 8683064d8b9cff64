import PeripheralBench.Runner.BenchLine

/-!
# Whose result the runner records

The retry loop of `run_job`, with the board on a serial line.  A retry empties the serial buffer,
starts a gateway session, reads lines until a result comes (`wait_for_result`), stops the session
and reads on until the board says that it is ready (`wait_for_board_ready`).  Meanwhile the board
goes its own way: it notices a connection and opens a session, prints lines into the buffer, and
closes the session, whether or not the runner has given up on it.

No line says which session it belongs to.  The model remembers it, as a mark on every line in the
buffer and on every line that is recorded (`Record.emitter`); the runner never looks at it.  A board
that is still in the session of an earlier retry when the next one has begun is believed
(`not_attributed`), for it prints `[BENCH_READY]` in the middle of a session, too.  The records are
right as long as no such session prints a line of the kinds in question between the reset of the
buffer and the end of `wait_for_result` (`run_attributed`), as it is when the board is idle at every
reset (`Idle.promptAll`).
-/

namespace PeripheralBench.Runner

namespace SerialSession

/-- Where the runner is in a retry. -/
inductive Place where
  /-- At the head of the loop, before `reset_input_buffer`. -/
  | reset
  /-- In `start_session`. -/
  | startSession
  /-- In `wait_for_result`. -/
  | waitResult
  /-- Before `stop_session` and `classify_gateway_start_failure`. -/
  | stopSession
  /-- In `wait_for_board_ready`. -/
  | waitReady
  /-- Before the firmware is reset, if it is. -/
  | recover
  /-- In the second `wait_for_board_ready`, after a reset of the firmware. -/
  | waitRecovered
  /-- At the end of the retry. -/
  | decide
  /-- Behind the loop. -/
  | done
deriving DecidableEq

/-- A line that `wait_for_result` has recorded as an observation. -/
structure Record where
  /-- The retry in which it was recorded. -/
  retry : ℕ
  /-- The kind of the line. -/
  kind : Str
  /-- The dictionary of the line. -/
  values : Values
  /-- The session in which the board printed it, by the retry that opened the session. -/
  emitter : Option ℕ
deriving DecidableEq

/-- The board and the runner. -/
structure System where
  /-- The session that the board is in, by the retry that opened it. -/
  board : Option ℕ
  /-- A connection that the board has not noticed yet. -/
  pending : Option ℕ
  /-- The lines in the serial buffer, and the session in which each was printed. -/
  buffer : List (Str × Option ℕ)
  /-- Where the runner is. -/
  place : Place
  /-- The number of the retry. -/
  retry : ℕ
  /-- `final`. -/
  final : Values
  /-- `observations`. -/
  observations : List (Str × Values)
  /-- All observations, with their retries. -/
  records : List Record

/-- What the runner learns from outside in a step. -/
structure Input where
  /-- The deadline of the wait, or of the case, has passed. -/
  late : Bool
  /-- The call has raised this exception. -/
  error : Option Str
  /-- The fatal detector has found this line. -/
  fatalLine : Option Str
  /-- The stage that the text of the gateway log speaks for. -/
  stage : Option Str

/-- What happens next. -/
inductive Event where
  /-- The gateway of the retry connects to the board. -/
  | connect
  /-- The board notices the connection and opens a session. -/
  | opened
  /-- The board prints a line. -/
  | emit (line : Str)
  /-- The session ends, or the board reboots. -/
  | closed
  /-- The runner takes a step. -/
  | runner (input : Input)

/-! ## What the runner writes into `final` -/

/-- A failure at some stage. -/
def failure (stage error : String) : Values :=
  [("status".toList, "fail".toList), ("stage".toList, stage.toList), ("error".toList, error.toList)]

/-- A failure after which there is no further retry. -/
def fatal (stage error : String) : Values :=
  failure stage error ++ [("fatal".toList, "1".toList)]

/-- A timeout at some stage. -/
def timeout (stage : String) : Values :=
  [("status".toList, "timeout".toList), ("stage".toList, stage.toList),
    ("error".toList, "timeout".toList)]

/-- An exception in `start_session` or `wait_for_result`. -/
def startFailure (error : Str) : Values :=
  [("status".toList, "fail".toList), ("stage".toList, "gateway_start".toList),
    ("error".toList, error)]

/-- The line of the fatal detector. -/
def fatalServerLog (line : Str) : Values :=
  fatal "server_certificate_trust" "fatal_server_log" ++ [("fatal_message".toList, line)]

/-- `classify_gateway_start_failure`, with the stage that the log speaks for. -/
def classifyGatewayStartFailure (final : Values) (stage : Option Str) : Values :=
  if final.get? "stage".toList ≠ some "gateway_start".toList then final
  else
    match stage with
    | some stage => final.set "stage".toList stage
    | none => final

/-- The attempt has succeeded. -/
def succeeded (final : Values) : Prop := final.get? "status".toList = some "success".toList

/-- There is no further retry. -/
def isFatal (final : Values) : Prop := final.get? "fatal".toList = some "1".toList

instance (final : Values) : Decidable (succeeded final) := inferInstanceAs (Decidable (_ = _))

instance (final : Values) : Decidable (isFatal final) := inferInstanceAs (Decidable (_ = _))

/-! ## What the runner looks for in a line -/

/-- The board has crashed. -/
def IsBoardFatal (line : Str) : Prop :=
  "***** MPU FAULT *****".toList <:+: line ∨ ">>> ZEPHYR FATAL ERROR".toList <:+: line

/-- The board boots. -/
def IsBooting (line : Str) : Prop := "*** Booting".toList <+: line

/-- The board is ready, or says so. -/
def IsReady (line : Str) : Prop := "[BENCH_READY]".toList <+: line

/-- An observation of a transfer. -/
def isTransfer (observation : Str × Values) : Bool := "TRANSFER_".toList.isPrefixOf observation.1

instance (line : Str) : Decidable (IsBoardFatal line) := inferInstanceAs (Decidable (_ ∨ _))

instance (line : Str) : Decidable (IsBooting line) := inferInstanceAs (Decidable (_ <+: _))

instance (line : Str) : Decidable (IsReady line) := inferInstanceAs (Decidable (_ <+: _))

namespace System

/-- The line has been taken from the buffer. -/
def observe (s : System) (emitter : Option ℕ) (kind : Str) (values : Values) : System :=
  { s with
    observations := s.observations ++ [(kind, values)]
    records := s.records ++ [⟨s.retry, kind, values, emitter⟩] }

/-- `wait_for_result` ends with this result. -/
def finish (s : System) (final : Values) : System :=
  { s with final := final, place := .stopSession }

/-- What `wait_for_result` does with a line that is not empty. -/
def takeLine (s : System) (line : Str) (emitter : Option ℕ) : System :=
  if IsBoardFatal line then s.finish (fatal "board_fatal" "zephyr_fatal_error")
  else
    match parseBenchLine line with
    | some (kind, values) =>
        if kind = "RESULT".toList then (s.observe emitter kind values).finish values
        else s.observe emitter kind values
    | none =>
        if IsBooting line ∧ s.observations.any isTransfer = true then
          s.finish (failure "board_reboot" "reboot_before_result")
        else s

/-- A round of `wait_for_result` that reads the serial line. -/
def readResult (s : System) : System :=
  match s.buffer with
  | [] => s
  | (raw, emitter) :: buffer =>
      let s := { s with buffer := buffer }
      if Str.strip raw = [] then s else s.takeLine (Str.strip raw) emitter

/-- A round of `wait_for_board_ready`, which goes on to `next` when the board is ready. -/
def readReady (s : System) (next : Place) : System :=
  match s.buffer with
  | [] => s
  | (raw, _) :: buffer =>
      { s with
        buffer := buffer
        place := if IsReady (Str.strip raw) then next else s.place }

/-- A round of `wait_for_result`. -/
def waitResult (s : System) (input : Input) : System :=
  if input.late then s.finish (timeout "serial_wait")
  else
    match input.error, input.fatalLine with
    | some error, _ => s.finish (startFailure error)
    | none, some line => s.finish (fatalServerLog line)
    | none, none => s.readResult

/-- What the board does not do in time. -/
def rearmFailed (final : Values) : Values :=
  if isFatal final then final else fatal "board_rearm" "timeout"

/-- The end of a retry. -/
def decide (retries : ℕ) (s : System) (input : Input) : System :=
  if succeeded s.final ∨ isFatal s.final ∨ retries ≤ s.retry ∨ input.late = true then
    { s with
      final := if input.late = true ∧ ¬ succeeded s.final then timeout "case_deadline" else s.final
      place := .done }
  else { s with retry := s.retry + 1, place := .reset }

/-- One step of `run_job`, which makes `retries` retries at most. -/
def runnerStep (retries : ℕ) (s : System) (input : Input) : System :=
  match s.place with
  | .reset =>
      if input.late then { s with final := timeout "case_deadline", place := .done }
      else { s with buffer := [], observations := [], place := .startSession }
  | .startSession =>
      match input.error with
      | some error => s.finish (startFailure error)
      | none => { s with place := .waitResult }
  | .waitResult => s.waitResult input
  | .stopSession =>
      { s with final := classifyGatewayStartFailure s.final input.stage, place := .waitReady }
  | .waitReady =>
      if input.late then { s with final := rearmFailed s.final, place := .recover }
      else s.readReady .recover
  | .recover =>
      if s.final.get? "stage".toList = some "ble_l2cap_ready_timeout".toList ∧ s.retry < retries ∧
          input.error = none then { s with buffer := [], place := .waitRecovered }
      else { s with place := .decide }
  | .waitRecovered => if input.late then { s with place := .decide } else s.readReady .decide
  | .decide => s.decide retries input
  | .done => s

/-- The gateway of the retry is up. -/
def Connecting (s : System) : Prop := s.place = .startSession ∨ s.place = .waitResult

instance (s : System) : Decidable s.Connecting := inferInstanceAs (Decidable (_ ∨ _))

/-- What an event does. -/
def step (retries : ℕ) (s : System) : Event → System
  | .connect => if s.Connecting then { s with pending := some s.retry } else s
  | .opened =>
      match s.board, s.pending with
      | none, some retry => { s with board := some retry, pending := none }
      | _, _ => s
  | .emit line => { s with buffer := s.buffer ++ [(line, s.board)] }
  | .closed => { s with board := none }
  | .runner input => s.runnerStep retries input

/-- A schedule. -/
def run (retries : ℕ) (s : System) (events : List Event) : System := events.foldl (step retries) s

/-- The runner enters the loop; the board may be in the middle of anything. -/
def init (board pending : Option ℕ) (buffer : List (Str × Option ℕ)) : System :=
  ⟨board, pending, buffer, .reset, 0, [], [], []⟩

/-! ## Whose lines are recorded -/

variable (kinds : Str → Prop)

/-- Every recorded line of these kinds was printed in the session that was opened in its retry. -/
def Attributed (s : System) : Prop := ∀ r ∈ s.records, kinds r.kind → r.emitter = some r.retry

/-- A line is of one of these kinds. -/
def IsOfKind (line : Str) : Prop :=
  ∃ kind values, parseBenchLine (Str.strip line) = some (kind, values) ∧ kinds kind

/-- While the runner is between the reset of the buffer and the end of `wait_for_result`, only the
session that was opened in this retry prints lines of these kinds. -/
def Prompt (s : System) : Event → Prop
  | .emit line => s.Connecting → IsOfKind kinds line → s.board = some s.retry
  | _ => True

/-- Every event of the schedule is prompt. -/
def PromptAll (retries : ℕ) (s : System) : List Event → Prop
  | [] => True
  | event :: events => s.Prompt kinds event ∧ (s.step retries event).PromptAll retries events

variable {kinds} {retries : ℕ} {s : System} {input : Input} {event : Event}

/-- What a run keeps up: the records are right, and so will be those of the lines in the buffer. -/
structure Sound (kinds : Str → Prop) (s : System) : Prop where
  attributed : s.Attributed kinds
  buffer : s.Connecting → ∀ entry ∈ s.buffer, IsOfKind kinds entry.1 → entry.2 = some s.retry

theorem sound_init (board pending : Option ℕ) (buffer : List (Str × Option ℕ)) :
    (init board pending buffer).Sound kinds where
  attributed := fun _ h ↦ nomatch h
  buffer h := by rcases h with h | h <;> cases h

theorem Sound.finish (hs : s.Sound kinds) (final : Values) : (s.finish final).Sound kinds where
  attributed := hs.attributed
  buffer h := by rcases h with h | h <;> cases h

/-- Outside the wait nothing is recorded. -/
theorem Sound.leave {s' : System} (hs : s.Sound kinds) (hrecords : s'.records = s.records)
    (hplace : ¬ s'.Connecting) : s'.Sound kinds where
  attributed := by rw [Attributed, hrecords]; exact hs.attributed
  buffer h := absurd h hplace

theorem Sound.observe (hs : s.Sound kinds) {emitter : Option ℕ} {kind : Str} (values : Values)
    (h : kinds kind → emitter = some s.retry) : (s.observe emitter kind values).Sound kinds where
  attributed r hr hkind := by
    rcases List.mem_append.mp hr with hr | hr
    · exact hs.attributed r hr hkind
    · rw [List.mem_singleton] at hr
      subst hr
      exact h hkind
  buffer := hs.buffer

theorem Sound.takeLine (hs : s.Sound kinds) {line : Str} {emitter : Option ℕ}
    (h : ∀ kind values, parseBenchLine line = some (kind, values) → kinds kind →
      emitter = some s.retry) : (s.takeLine line emitter).Sound kinds := by
  rw [System.takeLine]
  split
  · exact hs.finish _
  split
  case h_1 kind values hparse =>
    have hobserve := hs.observe values (h kind values hparse)
    split
    · exact hobserve.finish values
    · exact hobserve
  case h_2 =>
    split
    · exact hs.finish _
    · exact hs

theorem Sound.readResult (hs : s.Sound kinds) (hplace : s.Connecting) :
    s.readResult.Sound kinds := by
  rw [System.readResult]
  split
  case h_1 => exact hs
  case h_2 raw emitter buffer hbuffer =>
    have hhead : IsOfKind kinds raw → emitter = some s.retry :=
      hs.buffer hplace (raw, emitter) (by rw [hbuffer]; exact List.mem_cons_self ..)
    have htail : ({ s with buffer := buffer } : System).Sound kinds := by
      refine ⟨hs.attributed, fun h entry hentry ↦ hs.buffer h entry ?_⟩
      rw [hbuffer]
      exact List.mem_cons_of_mem _ hentry
    split
    · exact htail
    · exact htail.takeLine fun kind values hparse hkind ↦ hhead ⟨kind, values, hparse, hkind⟩

theorem Sound.readReady (hs : s.Sound kinds) {next : Place} (hplace : ¬ s.Connecting)
    (hnext : next ≠ .startSession ∧ next ≠ .waitResult) : (s.readReady next).Sound kinds := by
  rw [System.readReady]
  split
  case h_1 => exact hs
  case h_2 raw emitter buffer hbuffer =>
    refine hs.leave rfl ?_
    split
    · exact fun h ↦ h.elim hnext.1 hnext.2
    · exact hplace

theorem Sound.runnerStep (hs : s.Sound kinds) : (s.runnerStep retries input).Sound kinds := by
  rw [System.runnerStep]
  cases hplace : s.place with
  | reset =>
      dsimp only
      split
      · exact hs.leave rfl (by rintro (h | h) <;> cases h)
      · exact ⟨hs.attributed, fun _ entry hentry ↦ nomatch hentry⟩
  | startSession =>
      dsimp only
      have hbuffer := hs.buffer (.inl hplace)
      split
      · exact hs.finish _
      · exact ⟨hs.attributed, fun _ ↦ hbuffer⟩
  | waitResult =>
      dsimp only
      rw [System.waitResult]
      split
      · exact hs.finish _
      split
      · exact hs.finish _
      · exact hs.finish _
      · exact hs.readResult (.inr hplace)
  | stopSession => exact hs.leave rfl (by rintro (h | h) <;> cases h)
  | waitReady =>
      dsimp only
      have hout : ¬ s.Connecting := by rintro (h | h) <;> rw [hplace] at h <;> cases h
      split
      · exact hs.leave rfl (by rintro (h | h) <;> cases h)
      · exact hs.readReady hout ⟨Place.noConfusion, Place.noConfusion⟩
  | recover =>
      dsimp only
      split
      · exact hs.leave rfl (by rintro (h | h) <;> cases h)
      · exact hs.leave rfl (by rintro (h | h) <;> cases h)
  | waitRecovered =>
      dsimp only
      have hout : ¬ s.Connecting := by rintro (h | h) <;> rw [hplace] at h <;> cases h
      split
      · exact hs.leave rfl (by rintro (h | h) <;> cases h)
      · exact hs.readReady hout ⟨Place.noConfusion, Place.noConfusion⟩
  | decide =>
      dsimp only
      rw [System.decide]
      split
      · exact hs.leave rfl (by rintro (h | h) <;> cases h)
      · exact hs.leave rfl (by rintro (h | h) <;> cases h)
  | done => exact hs

theorem Sound.step (hs : s.Sound kinds) (hprompt : s.Prompt kinds event) :
    (s.step retries event).Sound kinds := by
  cases event with
  | connect =>
      rw [System.step]
      split
      · exact ⟨hs.attributed, hs.buffer⟩
      · exact hs
  | opened =>
      rw [System.step]
      split
      · exact ⟨hs.attributed, hs.buffer⟩
      · exact hs
  | emit line =>
      refine ⟨hs.attributed, fun h entry hentry hkind ↦ ?_⟩
      rcases List.mem_append.mp hentry with hentry | hentry
      · exact hs.buffer h entry hentry hkind
      · rw [List.mem_singleton] at hentry
        subst hentry
        exact hprompt h hkind
  | closed => exact ⟨hs.attributed, hs.buffer⟩
  | runner input => exact hs.runnerStep

/-- **The records are right** in every run in which, between the reset of the serial buffer and the
end of `wait_for_result`, no session of an earlier retry prints a line of the kinds in question, nor
does a board without a session. -/
theorem run_attributed (kinds : Str → Prop) (retries : ℕ) (board pending : Option ℕ)
    (buffer : List (Str × Option ℕ)) (events : List Event)
    (hprompt : (init board pending buffer).PromptAll kinds retries events) :
    ((init board pending buffer).run retries events).Attributed kinds := by
  have key : ∀ (s : System) (events : List Event), s.Sound kinds →
      s.PromptAll kinds retries events →
      (s.run retries events).Sound kinds := by
    intro s events
    induction events generalizing s with
    | nil => intro hs _; exact hs
    | cons event events ih =>
        rintro hs ⟨hprompt, hrest⟩
        exact ih _ (hs.step hprompt) hrest
  exact (key _ events (sound_init board pending buffer) hprompt).attributed

/-- Nothing happens outside. -/
def quiet : Input := ⟨false, none, none, none⟩

/-- The gateway of retry 0 fails, and the board reports that after the wait.  When it is ready again
the gateway of retry 1 connects, and the board reports a success. -/
def secondRetry : List Event :=
  [.runner quiet, .connect, .opened,
    .runner { quiet with error := some "CalledProcessError".toList },
    .emit "[BENCH_RESULT] status=fail stage=tls_handshake error=-308".toList, .closed,
    .emit "[BENCH_READY] psm=0x0080 transport=l2cap".toList,
    .runner quiet, .runner quiet, .runner quiet, .runner quiet, .runner quiet, .runner quiet,
    .connect, .opened, .emit "[BENCH_RESULT] status=success".toList, .runner quiet, .runner quiet]

theorem run_attributed_success :
    ((init none none []).run 1 secondRetry).Attributed (fun _ ↦ True) ∧
      ((init none none []).run 1 secondRetry).records.map Record.retry = [1] := by
  refine ⟨run_attributed (fun _ ↦ True) 1 none none [] secondRetry ?_, by decide +kernel⟩
  refine ⟨trivial, trivial, trivial, trivial, ?_, trivial, ?_, trivial, trivial, trivial, trivial,
    trivial, trivial, trivial, trivial, ?_, trivial, trivial, trivial⟩
  -- the lines of the first session come after its wait
  · exact fun hconnecting _ ↦ absurd hconnecting (by decide +kernel)
  · exact fun hconnecting _ ↦ absurd hconnecting (by decide +kernel)
  · exact fun _ _ ↦ by decide +kernel

/-- The gateway of retry 0 connects and fails; the runner takes the `[BENCH_READY]` of the session
for the end of it.  In retry 1 the board is still in this session, and reports its result. -/
theorem not_attributed :
    ¬ ((init none none []).run 1 [.runner quiet, .connect, .opened,
        .emit "[BENCH_READY] psm=0x0080 transport=l2cap".toList,
        .runner { quiet with error := some "CalledProcessError".toList },
        .runner quiet, .runner quiet, .runner quiet, .runner quiet, .runner quiet,
        .emit "[BENCH_RESULT] status=fail stage=tls_handshake error=-308".toList, .closed,
        .connect, .opened, .runner quiet, .runner quiet]).Attributed fun kind ↦
          kind = "RESULT".toList := by
  intro h
  have hrecord := h ⟨1, "RESULT".toList, [("status".toList, "fail".toList),
    ("stage".toList, "tls_handshake".toList), ("error".toList, "-308".toList)], some 0⟩
    (by decide) rfl
  cases hrecord

/-! ## Boards that are idle when a retry begins -/

/-- When the buffer is reset the board is in no session and about to open none, and without a
session it prints no line of these kinds. -/
def Idle (kinds : Str → Prop) (s : System) : Event → Prop
  | .runner _ => s.place = .reset → s.board = none ∧ s.pending = none
  | .emit line => s.board = none → ¬ IsOfKind kinds line
  | _ => True

/-- Every event of the schedule is so. -/
def IdleAll (kinds : Str → Prop) (retries : ℕ) (s : System) : List Event → Prop
  | [] => True
  | event :: events => s.Idle kinds event ∧ (s.step retries event).IdleAll kinds retries events

/-- What the runner does not touch, and how it gets into the wait. -/
structure Frame (s s' : System) : Prop where
  board : s'.board = s.board
  pending : s'.pending = s.pending
  connecting : s'.Connecting → s'.retry = s.retry ∧ (s.place = .reset ∨ s.Connecting)

theorem frame_takeLine (hplace : s.Connecting) (line : Str) (emitter : Option ℕ) :
    s.Frame (s.takeLine line emitter) := by
  rw [takeLine]
  split
  · exact ⟨rfl, rfl, fun _ ↦ ⟨rfl, .inr hplace⟩⟩
  split
  · split
    · exact ⟨rfl, rfl, fun _ ↦ ⟨rfl, .inr hplace⟩⟩
    · exact ⟨rfl, rfl, fun _ ↦ ⟨rfl, .inr hplace⟩⟩
  · split
    · exact ⟨rfl, rfl, fun _ ↦ ⟨rfl, .inr hplace⟩⟩
    · exact ⟨rfl, rfl, fun _ ↦ ⟨rfl, .inr hplace⟩⟩

theorem frame_waitResult (hplace : s.Connecting) : s.Frame (s.waitResult input) := by
  rw [waitResult]
  split
  · exact ⟨rfl, rfl, fun _ ↦ ⟨rfl, .inr hplace⟩⟩
  split
  · exact ⟨rfl, rfl, fun _ ↦ ⟨rfl, .inr hplace⟩⟩
  · exact ⟨rfl, rfl, fun _ ↦ ⟨rfl, .inr hplace⟩⟩
  · rw [readResult]
    split
    · exact ⟨rfl, rfl, fun _ ↦ ⟨rfl, .inr hplace⟩⟩
    case h_2 raw emitter buffer hbuffer =>
      have htake := frame_takeLine (s := { s with buffer := buffer }) hplace (Str.strip raw) emitter
      split
      · exact ⟨rfl, rfl, fun _ ↦ ⟨rfl, .inr hplace⟩⟩
      · exact ⟨htake.board, htake.pending, fun h ↦ ⟨(htake.connecting h).1, .inr hplace⟩⟩

theorem frame_readReady {next : Place} (hplace : ¬ s.Connecting)
    (hnext : next ≠ .startSession ∧ next ≠ .waitResult) : s.Frame (s.readReady next) := by
  rw [readReady]
  split
  · exact ⟨rfl, rfl, fun h ↦ absurd h hplace⟩
  · refine ⟨rfl, rfl, fun h ↦ ?_⟩
    split at h
    · exact (h.elim hnext.1 hnext.2).elim
    · exact absurd h hplace

theorem frame_runnerStep : s.Frame (s.runnerStep retries input) := by
  rw [runnerStep]
  cases hplace : s.place with
  | reset =>
      dsimp only
      split
      · exact ⟨rfl, rfl, fun _ ↦ ⟨rfl, .inl hplace⟩⟩
      · exact ⟨rfl, rfl, fun _ ↦ ⟨rfl, .inl hplace⟩⟩
  | startSession =>
      dsimp only
      split
      · exact ⟨rfl, rfl, fun _ ↦ ⟨rfl, .inr (.inl hplace)⟩⟩
      · exact ⟨rfl, rfl, fun _ ↦ ⟨rfl, .inr (.inl hplace)⟩⟩
  | waitResult => exact frame_waitResult (.inr hplace)
  | stopSession => exact ⟨rfl, rfl, by rintro (h | h) <;> cases h⟩
  | waitReady =>
      dsimp only
      have hout : ¬ s.Connecting := by rintro (h | h) <;> rw [hplace] at h <;> cases h
      split
      · exact ⟨rfl, rfl, by rintro (h | h) <;> cases h⟩
      · exact frame_readReady hout ⟨Place.noConfusion, Place.noConfusion⟩
  | recover =>
      dsimp only
      split
      · exact ⟨rfl, rfl, by rintro (h | h) <;> cases h⟩
      · exact ⟨rfl, rfl, by rintro (h | h) <;> cases h⟩
  | waitRecovered =>
      dsimp only
      have hout : ¬ s.Connecting := by rintro (h | h) <;> rw [hplace] at h <;> cases h
      split
      · exact ⟨rfl, rfl, by rintro (h | h) <;> cases h⟩
      · exact frame_readReady hout ⟨Place.noConfusion, Place.noConfusion⟩
  | decide =>
      dsimp only
      rw [System.decide]
      split
      · exact ⟨rfl, rfl, by rintro (h | h) <;> cases h⟩
      · exact ⟨rfl, rfl, by rintro (h | h) <;> cases h⟩
  | done => exact ⟨rfl, rfl, by rintro (h | h) <;> rw [hplace] at h <;> cases h⟩

/-- During the wait the board knows of no session but that of the retry. -/
def Own (s : System) : Prop :=
  s.Connecting → (∀ k ∈ s.board, k = s.retry) ∧ ∀ k ∈ s.pending, k = s.retry

theorem Own.step (hs : s.Own) (hidle : s.Idle kinds event) : (s.step retries event).Own := by
  cases event with
  | connect =>
      rw [System.step]
      split
      case isTrue h => exact fun _ ↦ ⟨(hs h).1, fun k hk ↦ (Option.some.inj hk).symm⟩
      case isFalse => exact hs
  | opened =>
      rw [System.step]
      split
      case h_1 retry hboard hpending =>
        refine fun h ↦ ⟨fun k hk ↦ ?_, fun k hk ↦ nomatch hk⟩
        exact (hs h).2 k (hpending.trans hk)
      case h_2 => exact hs
  | emit line => exact hs
  | closed => exact fun h ↦ ⟨fun k hk ↦ (nomatch hk), (hs h).2⟩
  | runner input =>
      have hframe : s.Frame (s.step retries (.runner input)) := frame_runnerStep
      intro h
      obtain ⟨hretry, hreset | hconnecting⟩ := hframe.connecting h
      · rw [hframe.board, hframe.pending, (hidle hreset).1, (hidle hreset).2]
        exact ⟨fun k hk ↦ (nomatch hk), fun k hk ↦ nomatch hk⟩
      · rw [hframe.board, hframe.pending, hretry]
        exact hs hconnecting

/-- A board that is idle at every reset is prompt. -/
theorem Idle.promptAll {events : List Event} (hs : s.Own) (h : s.IdleAll kinds retries events) :
    s.PromptAll kinds retries events := by
  induction events generalizing s with
  | nil => trivial
  | cons event events ih =>
      obtain ⟨hidle, hrest⟩ := h
      refine ⟨?_, ih (hs.step hidle) hrest⟩
      cases event with
      | emit line =>
          intro hconnecting hkind
          cases hboard : s.board with
          | none => exact absurd hkind (hidle hboard)
          | some k => rw [(hs hconnecting).1 k hboard]
      | connect => trivial
      | opened => trivial
      | closed => trivial
      | runner input => trivial

end System

end SerialSession

end PeripheralBench.Runner

import PeripheralBench.Runner.BenchLine

/-!
# Waiting for the result of the bridge

`wait_for_ble_result` of `run_benchmarks.py`, run against a bridge that appends lines to its log and
exits.  The runner looks at the remote host three times in a round: for a result line, for a line
about a failed transport, and for the process of the bridge.  A schedule is a list of `Event`s, in
which the steps of the runner, the actions of the bridge and the passing of time come in any order.

A result that the bridge appends in the middle of a round is found in the next one, unless the
bridge also fails or exits before the round is over: then the runner reports the failure
(`not_found`).  `found_iff` says exactly when the result is found.
-/

namespace PeripheralBench.Runner

namespace BleResult

/-- What `wait_for_ble_result` returns. -/
inductive Verdict where
  /-- The dictionary of a result line. -/
  | result (values : Values)
  /-- `ble_l2cap_transport`: the message of `remote_bridge_failure`. -/
  | bridgeFailure (message : Str)
  /-- `server_certificate_trust`: the line of the fatal detector. -/
  | fatalServerLog (line : Str)
  /-- `ble_result_wait`. -/
  | timeout
deriving DecidableEq

/-- Where the runner is in `wait_for_ble_result`. -/
inductive Place where
  /-- At the head of the loop. -/
  | head
  /-- At `remote_benchmark_result`. -/
  | result
  /-- At the first half of `remote_bridge_failure`, which searches the log. -/
  | failure
  /-- At its second half, which looks for the process. -/
  | process
  /-- At the fatal detector. -/
  | fatal
  /-- At `time.sleep(0.25)`. -/
  | sleep
  /-- Behind the loop. -/
  | returned (verdict : Verdict)
deriving DecidableEq

/-- The bridge, the server and the runner. -/
structure World where
  /-- The lines of the gateway log. -/
  log : List Str
  /-- Whether the process of the bridge exists. -/
  running : Bool
  /-- The first fatal line of the server log. -/
  fatalLine : Option Str
  /-- The clock, in milliseconds since the call. -/
  clock : ℕ
  /-- `next_fatal_check`. -/
  nextFatalCheck : ℕ
  /-- Where the runner is. -/
  place : Place

/-- The bridge writes a result. -/
def IsResult (line : Str) : Prop := resultTag <+: line

instance (line : Str) : Decidable (IsResult line) := inferInstanceAs (Decidable (_ <+: _))

/-- The texts that `remote_bridge_failure` searches for. -/
def failureTexts : List Str :=
  ["L2CAP send failed".toList, "L2CAP receive failed".toList, "TCP send failed".toList,
    "TCP receive failed".toList]

/-- The bridge reports a failed transport: one of the texts is in the line, in upper or lower case.
-/
def IsFailure (line : Str) : Prop :=
  ∃ text ∈ failureTexts, text.map Char.toLower <:+: line.map Char.toLower

instance (line : Str) : Decidable (IsFailure line) := inferInstanceAs (Decidable (∃ text ∈ _, _))

/-- `remote_benchmark_result`. -/
def remoteBenchmarkResult (log : List Str) : Option Str :=
  ((log.filter fun line ↦ IsResult line).getLast?).map Str.strip

/-- The first half of `remote_bridge_failure`. -/
def remoteBridgeFailure (log : List Str) : Option Str := log.find? fun line ↦ IsFailure line

/-- What happens next. -/
inductive Event where
  /-- The bridge appends a line to its log. -/
  | append (line : Str)
  /-- The bridge exits. -/
  | exit
  /-- The server writes a fatal line. -/
  | fatal (line : Str)
  /-- Time passes. -/
  | tick (milliseconds : ℕ)
  /-- The runner takes a step. -/
  | runner
deriving DecidableEq

/-- Where the runner goes with the line that `remote_benchmark_result` has given it. -/
def takeResult : Option Str → Place
  | none => .failure
  | some line =>
      match parseBenchLine line with
      | some (kind, values) =>
          if kind = "RESULT".toList then .returned (.result values) else .failure
      | none => .failure

namespace World

/-- The fatal check, once a second. -/
def checkFatal (w : World) : World :=
  if w.clock < w.nextFatalCheck then { w with place := .sleep }
  else
    match w.fatalLine with
    | some line => { w with place := .returned (.fatalServerLog line) }
    | none => { w with nextFatalCheck := w.clock + 1000, place := .sleep }

/-- One step of `wait_for_ble_result`. -/
def runnerStep (deadline : ℕ) (w : World) : World :=
  match w.place with
  | .head =>
      if w.clock < deadline then { w with place := .result }
      else { w with place := .returned .timeout }
  | .result => { w with place := takeResult (remoteBenchmarkResult w.log) }
  | .failure =>
      match remoteBridgeFailure w.log with
      | some line => { w with place := .returned (.bridgeFailure (Str.strip line)) }
      | none => { w with place := .process }
  | .process =>
      if w.running then { w with place := .fatal }
      else { w with place := .returned (.bridgeFailure "bridge process exited".toList) }
  | .fatal => w.checkFatal
  | .sleep => { w with clock := w.clock + 250, place := .head }
  | .returned _ => w

/-- What an event does. -/
def step (deadline : ℕ) (w : World) : Event → World
  | .append line => { w with log := w.log ++ [line] }
  | .exit => { w with running := false }
  | .fatal line => { w with fatalLine := w.fatalLine <|> some line }
  | .tick milliseconds => { w with clock := w.clock + milliseconds }
  | .runner => w.runnerStep deadline

/-- A schedule. -/
def run (deadline : ℕ) (w : World) (events : List Event) : World := events.foldl (step deadline) w

/-- The call begins: the bridge runs and has written neither a result nor a failure. -/
structure Begins (w : World) : Prop where
  running : w.running = true
  quiet : ∀ line ∈ w.log, ¬ IsResult line ∧ ¬ IsFailure line
  fatalLine : w.fatalLine = none
  clock : w.clock = 0
  place : w.place = .head

/-- There is a result in the log. -/
def HasResult (w : World) : Prop := ∃ line ∈ w.log, IsResult line

instance (w : World) : Decidable w.HasResult := inferInstanceAs (Decidable (∃ line ∈ _, _))

/-- The bridge appends its result before the deadline, and before it fails or exits; then it does
nothing any more, and the server writes no fatal line. -/
def Keeps (deadline : ℕ) (w : World) : Event → Prop
  | .append line => w.running = true ∧ (IsFailure line → w.HasResult) ∧
      (IsResult line → w.clock < deadline)
  | .exit => w.running = true ∧ w.HasResult
  | .fatal _ => False
  | _ => True

/-- Every event of the schedule is as the bridge promises, and there is a result at the end. -/
def KeepsAll (deadline : ℕ) (w : World) : List Event → Prop
  | [] => w.HasResult
  | event :: events => w.Keeps deadline event ∧ (w.step deadline event).KeepsAll deadline events

/-- The bridge neither fails nor exits in the middle of a check, and the runner does not look at the
clock too late: while it searches the log the bridge neither logs a failure nor exits, while it
looks for the process the bridge does not exit, and at the head of the loop there is no result left
when the deadline has passed. -/
def Calm (deadline : ℕ) (w : World) : Event → Prop
  | .append line => IsFailure line → w.place ≠ .failure
  | .exit => w.place ≠ .failure ∧ w.place ≠ .process
  | .runner => w.place = .head → w.HasResult → w.clock < deadline
  | _ => True

/-- Every event of the schedule is calm. -/
def CalmAll (deadline : ℕ) (w : World) : List Event → Prop
  | [] => True
  | event :: events => w.Calm deadline event ∧ (w.step deadline event).CalmAll deadline events

/-- `wait_for_ble_result` has returned a result that the bridge has written. -/
def Found (w : World) : Prop :=
  ∃ line ∈ w.log, ∃ values, IsResult line ∧ parseBenchLine line = some ("RESULT".toList, values) ∧
    w.place = .returned (.result values)

/-! ## What a step does -/

variable {deadline : ℕ} {w : World} {event : Event}

theorem remoteBenchmarkResult_eq_none (h : ¬ w.HasResult) : remoteBenchmarkResult w.log = none := by
  have hfilter : (w.log.filter fun line ↦ IsResult line) = [] := by
    rw [List.filter_eq_nil_iff]
    exact fun line hline hresult ↦ h ⟨line, hline, of_decide_eq_true hresult⟩
  rw [remoteBenchmarkResult, hfilter]
  rfl

/-- A result in the log is found at once. -/
theorem takeResult_found (h : w.HasResult) :
    ({ w with place := takeResult (remoteBenchmarkResult w.log) } : World).Found := by
  obtain ⟨line, hline, hresult⟩ := h
  have hne : (w.log.filter fun line ↦ IsResult line) ≠ [] :=
    List.ne_nil_of_mem (List.mem_filter.mpr ⟨hline, decide_eq_true hresult⟩)
  obtain ⟨last, hlast⟩ : ∃ last, (w.log.filter fun line ↦ IsResult line).getLast? = some last :=
    ⟨_, List.getLast?_eq_some_getLast hne⟩
  obtain ⟨hmem, hdecide⟩ := List.mem_filter.mp (List.mem_of_getLast? hlast)
  obtain ⟨values, hparse, hstrip⟩ := parseBenchLine_result (of_decide_eq_true hdecide)
  refine ⟨last, hmem, values, of_decide_eq_true hdecide, hparse, ?_⟩
  simp only [remoteBenchmarkResult, hlast, Option.map_some, takeResult, hstrip, if_true]

theorem remoteBridgeFailure_eq_none (h : ∀ line ∈ w.log, ¬ IsFailure line) :
    remoteBridgeFailure w.log = none := by
  rw [remoteBridgeFailure, List.find?_eq_none]
  exact fun line hline hfailure ↦ h line hline (of_decide_eq_true hfailure)

theorem exists_remoteBridgeFailure {line : Str} (hline : line ∈ w.log) (h : IsFailure line) :
    ∃ line, remoteBridgeFailure w.log = some line := by
  rw [← Option.isSome_iff_exists, remoteBridgeFailure, List.find?_isSome]
  exact ⟨line, hline, decide_eq_true h⟩

/-! ## Calm schedules find the result -/

/-- The runner is not about to report a failure. -/
structure Good (w : World) : Prop where
  fatalLine : w.fatalLine = none
  running : w.running = false → w.HasResult
  failure : (∃ line ∈ w.log, IsFailure line) → w.HasResult
  place : match w.place with
    | .failure => w.running = true ∧ ∀ line ∈ w.log, ¬ IsFailure line
    | .process => w.running = true
    | .returned _ => w.Found
    | _ => True

theorem Begins.good (h : w.Begins) : w.Good where
  fatalLine := h.fatalLine
  running hrunning := by rw [h.running] at hrunning; cases hrunning
  failure := fun ⟨line, hline, hfailure⟩ ↦ absurd hfailure (h.quiet line hline).2
  place := by rw [h.place]; trivial

theorem HasResult.append {line : Str} (h : w.HasResult) :
    ({ w with log := w.log ++ [line] } : World).HasResult := by
  obtain ⟨result, hmem, hresult⟩ := h
  exact ⟨result, List.mem_append_left _ hmem, hresult⟩

theorem Found.append {line : Str} (h : w.Found) :
    ({ w with log := w.log ++ [line] } : World).Found := by
  obtain ⟨result, hmem, hrest⟩ := h
  exact ⟨result, List.mem_append_left _ hmem, hrest⟩

theorem Good.append {line : Str} (hw : w.Good) (hkeeps : w.Keeps deadline (.append line))
    (hcalm : w.Calm deadline (.append line)) : (w.step deadline (.append line)).Good where
  fatalLine := hw.fatalLine
  running hrunning := (hw.running hrunning).append
  failure := by
    rintro ⟨failure, hmem, hfailure⟩
    rcases List.mem_append.mp hmem with hmem | hmem
    · exact (hw.failure ⟨failure, hmem, hfailure⟩).append
    · rw [List.mem_singleton] at hmem
      subst hmem
      exact (hkeeps.2.1 hfailure).append
  place := by
    have hplace := hw.place
    change match w.place with
      | .failure => w.running = true ∧ ∀ line' ∈ w.log ++ [line], ¬ IsFailure line'
      | .process => w.running = true
      | .returned _ => (w.step deadline (.append line)).Found
      | _ => True
    cases hp : w.place with
    | failure =>
        rw [hp] at hplace
        refine ⟨hplace.1, fun line' hmem hfailure ↦ ?_⟩
        rcases List.mem_append.mp hmem with hmem | hmem
        · exact hplace.2 line' hmem hfailure
        · rw [List.mem_singleton] at hmem
          subst hmem
          exact hcalm hfailure hp
    | process => rw [hp] at hplace; exact hplace
    | returned verdict => rw [hp] at hplace; exact hplace.append
    | head => trivial
    | result => trivial
    | fatal => trivial
    | sleep => trivial

theorem Good.exit (hw : w.Good) (hkeeps : w.Keeps deadline .exit) (hcalm : w.Calm deadline .exit) :
    (w.step deadline .exit).Good where
  fatalLine := hw.fatalLine
  running _ := hkeeps.2
  failure := hw.failure
  place := by
    have hplace := hw.place
    change match w.place with
      | .failure => false = true ∧ ∀ line ∈ w.log, ¬ IsFailure line
      | .process => false = true
      | .returned _ => (w.step deadline .exit).Found
      | _ => True
    cases hp : w.place with
    | failure => exact absurd hp hcalm.1
    | process => exact absurd hp hcalm.2
    | returned verdict => rw [hp] at hplace; exact hplace
    | head => trivial
    | result => trivial
    | fatal => trivial
    | sleep => trivial

/-- A step of the runner that does not find the deadline gone. -/
theorem Good.runner (hw : w.Good) (hclock : w.place = .head → w.clock < deadline) :
    (w.runnerStep deadline).Good := by
  have hplace := hw.place
  rw [runnerStep]
  cases hp : w.place with
  | head =>
      simp only [if_pos (hclock hp)]
      exact ⟨hw.fatalLine, hw.running, hw.failure, trivial⟩
  | result =>
      by_cases hresult : w.HasResult
      · have hfound := takeResult_found hresult
        obtain ⟨values, hreturned⟩ : ∃ values, takeResult (remoteBenchmarkResult w.log) =
            .returned (.result values) := by
          obtain ⟨-, -, values, -, -, hreturned⟩ := hfound
          exact ⟨values, hreturned⟩
        simp only [hreturned] at hfound ⊢
        exact ⟨hw.fatalLine, hw.running, hw.failure, hfound⟩
      · -- Without a result the bridge has neither failed nor exited.
        simp only [remoteBenchmarkResult_eq_none hresult, takeResult]
        refine ⟨hw.fatalLine, hw.running, hw.failure, ?_, fun line hline hfailure ↦ ?_⟩
        · exact Bool.not_eq_false _ ▸ fun hrunning ↦ hresult (hw.running hrunning)
        · exact hresult (hw.failure ⟨line, hline, hfailure⟩)
  | failure =>
      rw [hp] at hplace
      simp only [remoteBridgeFailure_eq_none hplace.2]
      exact ⟨hw.fatalLine, hw.running, hw.failure, hplace.1⟩
  | process =>
      rw [hp] at hplace
      simp only [if_pos hplace]
      exact ⟨hw.fatalLine, hw.running, hw.failure, trivial⟩
  | fatal =>
      simp only [checkFatal, hw.fatalLine]
      split
      · exact ⟨rfl, hw.running, hw.failure, trivial⟩
      · exact ⟨rfl, hw.running, hw.failure, trivial⟩
  | sleep => exact ⟨hw.fatalLine, hw.running, hw.failure, trivial⟩
  | returned verdict => exact hw

theorem Good.step (hw : w.Good) (hkeeps : w.Keeps deadline event) (hcalm : w.Calm deadline event)
    (hclock : event = .runner → w.place = .head → w.clock < deadline) :
    (w.step deadline event).Good := by
  cases event with
  | append line => exact hw.append hkeeps hcalm
  | exit => exact hw.exit hkeeps hcalm
  | fatal line => exact hkeeps.elim
  | tick milliseconds => exact ⟨hw.fatalLine, hw.running, hw.failure, hw.place⟩
  | runner => exact hw.runner (hclock rfl)

theorem clock_le_step : w.clock ≤ (w.step deadline event).clock := by
  cases event with
  | tick milliseconds => exact Nat.le_add_right _ _
  | runner =>
      change w.clock ≤ (w.runnerStep deadline).clock
      rw [runnerStep]
      split
      · split <;> exact le_rfl
      · exact le_rfl
      · split <;> exact le_rfl
      · split <;> exact le_rfl
      · rw [checkFatal]
        split
        · exact le_rfl
        · split <;> exact le_rfl
      · exact Nat.le_add_right _ _
      · exact le_rfl
  | append line => exact le_rfl
  | exit => exact le_rfl
  | fatal line => exact le_rfl

theorem log_runnerStep : (w.runnerStep deadline).log = w.log := by
  rw [runnerStep]
  split
  · split <;> rfl
  · rfl
  · split <;> rfl
  · split <;> rfl
  · rw [checkFatal]
    split
    · rfl
    · split <;> rfl
  · rfl
  · rfl

/-- A bridge that has not written its result by the deadline does not keep its promise. -/
theorem not_keepsAll {events : List Event} (h : ¬ w.HasResult) (hclock : deadline ≤ w.clock) :
    ¬ w.KeepsAll deadline events := by
  induction events generalizing w with
  | nil => exact h
  | cons event events ih =>
      rintro ⟨hkeeps, hrest⟩
      refine ih ?_ (hclock.trans clock_le_step) hrest
      cases event with
      | append line =>
          rintro ⟨result, hmem, hresult⟩
          rcases List.mem_append.mp hmem with hmem | hmem
          · exact h ⟨result, hmem, hresult⟩
          · rw [List.mem_singleton] at hmem
            subst hmem
            exact absurd (hkeeps.2.2 hresult) (Nat.not_lt.mpr hclock)
      | runner =>
          rw [HasResult, step, log_runnerStep]
          exact h
      | exit => exact h
      | fatal line => exact h
      | tick milliseconds => exact h

theorem Good.run {events : List Event} (hw : w.Good) (hkeeps : w.KeepsAll deadline events)
    (hcalm : w.CalmAll deadline events) : (w.run deadline events).Good := by
  induction events generalizing w with
  | nil => exact hw
  | cons event events ih =>
      obtain ⟨hkeep, hkeeps⟩ := hkeeps
      obtain ⟨hcalm, hcalms⟩ := hcalm
      refine ih (hw.step hkeep hcalm ?_) hkeeps hcalms
      rintro rfl hplace
      by_contra hlate
      have hclock : deadline ≤ w.clock := Nat.not_lt.mp hlate
      have hnone : ¬ w.HasResult := fun hresult ↦ hlate (hcalm hplace hresult)
      have hstep : w.step deadline .runner = { w with place := .returned .timeout } := by
        change w.runnerStep deadline = _
        simp only [runnerStep, hplace, if_neg hlate]
      rw [hstep] at hkeeps
      exact not_keepsAll (w := { w with place := .returned .timeout }) hnone hclock hkeeps

/-! ## Other schedules do not -/

/-- The runner reports something else than a result, or is about to do so. -/
def Doomed (w : World) : Prop :=
  match w.place with
  | .failure => w.running = false ∨ ∃ line ∈ w.log, IsFailure line
  | .process => w.running = false
  | .returned verdict => ∀ values, verdict ≠ .result values
  | _ => False

theorem Doomed.not_found (h : w.Doomed) : ¬ w.Found := by
  rintro ⟨line, -, values, -, -, hplace⟩
  rw [Doomed, hplace] at h
  exact h values rfl

theorem Doomed.runner (h : w.Doomed) : (w.runnerStep deadline).Doomed := by
  rw [Doomed] at h
  rw [runnerStep]
  cases hp : w.place with
  | failure =>
      simp only [hp] at h ⊢
      cases hfailure : remoteBridgeFailure w.log with
      | some line => exact fun values ↦ Verdict.noConfusion
      | none =>
          rcases h with h | ⟨line, hline, hfail⟩
          · exact h
          · obtain ⟨line', hline'⟩ := exists_remoteBridgeFailure hline hfail
            rw [hfailure] at hline'
            cases hline'
  | process =>
      simp only [hp] at h ⊢
      simp only [h, Bool.false_eq_true, if_false]
      exact fun values ↦ Verdict.noConfusion
  | returned verdict =>
      simp only [hp] at h ⊢
      rw [Doomed, hp]
      exact h
  | head => simp only [hp] at h
  | result => simp only [hp] at h
  | fatal => simp only [hp] at h
  | sleep => simp only [hp] at h

theorem Doomed.mono {w' : World} (h : w.Doomed) (hplace : w'.place = w.place)
    (hrunning : w.running = false → w'.running = false) (hlog : ∀ line ∈ w.log, line ∈ w'.log) :
    w'.Doomed := by
  rw [Doomed] at h ⊢
  rw [hplace]
  cases hp : w.place with
  | failure =>
      rw [hp] at h
      rcases h with h | ⟨line, hline, hfailure⟩
      · exact .inl (hrunning h)
      · exact .inr ⟨line, hlog line hline, hfailure⟩
  | process => rw [hp] at h; exact hrunning h
  | returned verdict => rw [hp] at h; exact h
  | head => rw [hp] at h; exact h
  | result => rw [hp] at h; exact h
  | fatal => rw [hp] at h; exact h
  | sleep => rw [hp] at h; exact h

theorem Doomed.step (h : w.Doomed) : (w.step deadline event).Doomed := by
  cases event with
  | append line => exact h.mono rfl id fun _ ↦ List.mem_append_left _
  | exit => exact h.mono rfl (fun _ ↦ rfl) fun _ ↦ id
  | fatal line => exact h
  | tick milliseconds => exact h
  | runner => exact h.runner

theorem Doomed.run {events : List Event} (h : w.Doomed) : (w.run deadline events).Doomed := by
  induction events generalizing w with
  | nil => exact h
  | cons event events ih => exact ih h.step

theorem doomed_of_not_calm (h : ¬ w.Calm deadline event) : (w.step deadline event).Doomed := by
  cases event with
  | append line =>
      simp only [Calm, Classical.not_imp, not_not] at h
      obtain ⟨hfailure, hplace⟩ := h
      simp only [Doomed, step, hplace]
      exact .inr ⟨line, List.mem_append_right _ (List.mem_singleton_self line), hfailure⟩
  | exit =>
      by_cases hplace : w.place = .failure
      · simp only [Doomed, step, hplace]
        exact .inl trivial
      · have hplace : w.place = .process := by
          by_contra hne
          exact h ⟨hplace, hne⟩
        simp only [Doomed, step, hplace]
  | runner =>
      simp only [Calm, Classical.not_imp] at h
      obtain ⟨hplace, -, hlate⟩ := h
      change (w.runnerStep deadline).Doomed
      simp only [runnerStep, hplace, if_neg hlate, Doomed]
      exact fun values ↦ Verdict.noConfusion
  | fatal line => exact absurd trivial h
  | tick milliseconds => exact absurd trivial h

theorem doomed_of_not_calmAll {events : List Event} (h : ¬ w.CalmAll deadline events) :
    (w.run deadline events).Doomed := by
  induction events generalizing w with
  | nil => exact absurd trivial h
  | cons event events ih =>
      by_cases hcalm : w.Calm deadline event
      · exact ih fun hrest ↦ h ⟨hcalm, hrest⟩
      · exact (doomed_of_not_calm hcalm).run

/-! ## The runner returns -/

/-- The rounds that are still possible when the clock shows this at the head of the loop. -/
def rounds (deadline clock : ℕ) : ℕ := (deadline - clock + 249) / 250

/-- An upper bound of the steps that the runner still takes. -/
def rank (deadline : ℕ) (w : World) : ℕ :=
  match w.place with
  | .head => 6 * rounds deadline w.clock + 1
  | .result => 6 * rounds deadline (w.clock + 250) + 6
  | .failure => 6 * rounds deadline (w.clock + 250) + 5
  | .process => 6 * rounds deadline (w.clock + 250) + 4
  | .fatal => 6 * rounds deadline (w.clock + 250) + 3
  | .sleep => 6 * rounds deadline (w.clock + 250) + 2
  | .returned _ => 0

theorem rounds_le {clock clock' : ℕ} (h : clock ≤ clock') :
    rounds deadline clock' ≤ rounds deadline clock :=
  Nat.div_le_div_right (by omega)

theorem rounds_lt {clock : ℕ} (h : clock < deadline) :
    rounds deadline (clock + 250) < rounds deadline clock := by
  rw [rounds, rounds]
  omega

theorem takeResult_cases (line : Option Str) :
    takeResult line = .failure ∨ ∃ verdict, takeResult line = .returned verdict := by
  rw [takeResult.eq_def]
  split
  · exact .inl rfl
  · split
    · split
      · exact .inr ⟨_, rfl⟩
      · exact .inl rfl
    · exact .inl rfl

/-- A step of the runner brings it closer to its return. -/
theorem rank_runnerStep (h : w.rank deadline ≠ 0) :
    (w.runnerStep deadline).rank deadline < w.rank deadline := by
  rw [runnerStep]
  cases hp : w.place with
  | head =>
      by_cases hclock : w.clock < deadline
      · have hlt := rounds_lt hclock
        simp only [if_pos hclock, rank, hp]
        omega
      · simp only [if_neg hclock, rank, hp]
        omega
  | result =>
      simp only [rank, hp]
      rcases takeResult_cases (remoteBenchmarkResult w.log) with htake | ⟨verdict, htake⟩
      · simp only [htake]
        omega
      · simp only [htake]
        omega
  | failure =>
      simp only [rank, hp]
      cases remoteBridgeFailure w.log with
      | none => exact Nat.lt_succ_self _
      | some line => exact Nat.succ_pos _
  | process =>
      by_cases hrunning : w.running = true
      · simp only [if_pos hrunning, rank, hp]
        omega
      · simp only [if_neg hrunning, rank, hp]
        omega
  | fatal =>
      by_cases hcheck : w.clock < w.nextFatalCheck
      · simp only [checkFatal, if_pos hcheck, rank, hp]
        omega
      · simp only [checkFatal, if_neg hcheck]
        cases w.fatalLine with
        | none => simp only [rank, hp]; omega
        | some line => simp only [rank, hp]; omega
  | sleep =>
      simp only [rank, hp]
      omega
  | returned verdict =>
      rw [rank, hp] at h
      exact absurd rfl h

theorem returned_of_rank (h : w.rank deadline = 0) : ∃ verdict, w.place = .returned verdict := by
  rw [rank] at h
  cases hp : w.place with
  | returned verdict => exact ⟨verdict, rfl⟩
  | head => rw [hp] at h; cases h
  | result => rw [hp] at h; cases h
  | failure => rw [hp] at h; cases h
  | process => rw [hp] at h; cases h
  | fatal => rw [hp] at h; cases h
  | sleep => rw [hp] at h; cases h

theorem rank_step (event : Event) : (w.step deadline event).rank deadline ≤ w.rank deadline := by
  cases event with
  | append line => exact le_rfl
  | exit => exact le_rfl
  | fatal line => exact le_rfl
  | runner =>
      by_cases h : w.rank deadline = 0
      · obtain ⟨verdict, hreturned⟩ := returned_of_rank h
        have hsame : w.step deadline .runner = w := by
          change w.runnerStep deadline = w
          rw [runnerStep, hreturned]
        rw [hsame]
      · exact (rank_runnerStep h).le
  | tick milliseconds =>
      have hhead : rounds deadline (w.clock + milliseconds) ≤ rounds deadline w.clock :=
        rounds_le (Nat.le_add_right _ _)
      have hrest : rounds deadline (w.clock + milliseconds + 250) ≤
          rounds deadline (w.clock + 250) :=
        rounds_le (by omega)
      simp only [step, rank]
      cases w.place <;> simp only <;> omega

theorem rank_run (events : List Event) : (w.run deadline events).rank deadline = 0 ∨
    (w.run deadline events).rank deadline + events.count .runner ≤ w.rank deadline := by
  induction events generalizing w with
  | nil => exact .inr le_rfl
  | cons event events ih =>
      have hrun : w.run deadline (event :: events) = (w.step deadline event).run deadline events :=
        rfl
      rw [hrun]
      rcases ih (w := w.step deadline event) with hzero | hle
      · exact .inl hzero
      have hstep := @rank_step deadline w event
      by_cases hevent : event = .runner
      · subst hevent
        rw [List.count_cons_self]
        by_cases hzero : w.rank deadline = 0
        · exact .inl (by omega)
        · have hlt : (w.step deadline .runner).rank deadline < w.rank deadline :=
            rank_runnerStep hzero
          exact .inr (by omega)
      · rw [List.count_cons_of_ne hevent]
        exact .inr (hle.trans hstep)

/-- **When the result is found.**  The bridge appends its result before it fails or exits and before
the deadline, the server writes no fatal line, and the runner takes enough steps to get through all
its rounds.  Then `wait_for_ble_result` returns the result exactly if the bridge does not fail or
exit while the runner, which has just found no result, is in the middle of its check, and the runner
is back at the head of its loop before the deadline. -/
theorem found_iff (timeout : ℕ) (w : World) (events : List Event) (hw : w.Begins)
    (hkeeps : w.KeepsAll timeout events)
    (hlong : 6 * ((timeout + 249) / 250) + 1 ≤ events.count .runner) :
    (w.run timeout events).Found ↔ w.CalmAll timeout events := by
  constructor
  · intro hfound
    by_contra hcalm
    exact (doomed_of_not_calmAll hcalm).not_found hfound
  · intro hcalm
    have hgood := hw.good.run hkeeps hcalm
    have hrank : w.rank timeout = 6 * ((timeout + 249) / 250) + 1 := by
      rw [rank, hw.place, hw.clock]
      rfl
    have hzero : (w.run timeout events).rank timeout = 0 := by
      rcases @rank_run timeout w events with hzero | hle
      · exact hzero
      · omega
    obtain ⟨verdict, hreturned⟩ := returned_of_rank hzero
    have hplace := hgood.place
    rw [hreturned] at hplace
    exact hplace

/-- A bridge that runs and has not written anything yet. -/
def start : World := ⟨[], true, none, 0, 0, .head⟩

/-- The result of a session. -/
def success : Str := "[BENCH_RESULT] status=success".toList

theorem keepsAll_replicate (h : w.HasResult) (n : ℕ) :
    w.KeepsAll deadline (List.replicate n .runner) := by
  induction n generalizing w with
  | zero => exact h
  | succ n ih =>
      refine ⟨trivial, ih ?_⟩
      rw [HasResult, step, log_runnerStep]
      exact h

/-- The bridge writes its result at once. -/
theorem found_iff_start :
    (start.run 250 (.append success :: List.replicate 7 .runner)).Found ↔
      start.CalmAll 250 (.append success :: List.replicate 7 .runner) := by
  have hresult : IsResult success := by decide
  refine found_iff 250 start _ ⟨rfl, by decide, rfl, rfl, rfl⟩ ⟨⟨rfl, ?_, ?_⟩, ?_⟩ (by decide)
  · exact fun hfailure ↦ absurd hfailure (by decide)
  · exact fun _ ↦ by decide
  · exact keepsAll_replicate ⟨success, List.mem_singleton_self _, hresult⟩ 7

/-- The bridge writes its result and exits, between two looks of the runner at the remote host. -/
theorem not_found :
    start.KeepsAll 1000 [.runner, .runner, .append success, .exit, .runner, .runner] ∧
      (start.run 1000 [.runner, .runner, .append success, .exit, .runner, .runner]).place =
        .returned (.bridgeFailure "bridge process exited".toList) := by
  have hresult : IsResult success := by decide
  refine ⟨⟨trivial, trivial, ⟨rfl, ?_, fun _ ↦ by decide⟩, ⟨rfl, ?_⟩, trivial, trivial,
    ?_⟩, by decide⟩
  · exact fun hfailure ↦ absurd hfailure (by decide)
  · exact ⟨success, by decide, hresult⟩
  · exact ⟨success, by decide, hresult⟩

end World

end BleResult

end PeripheralBench.Runner

import PeripheralBench.Runner.AttemptLoop

/-!
# The loops and the schedules

The loops over the algorithms and their attempts take what the board answers as given.  In a
schedule of the runner, the board and the line it comes about step by step.  A schedule in which the
runner comes to the end of its loops has written the rows of the loops, for what `values` has held
(`System.rows_of_done`).
-/

open PeripheralBench.Fold

namespace PeripheralBench.Runner

namespace BoardCommands

variable {α : Type} {int : Str → Option ℤ} {bench : Bench α}

/-- The row without the mark. -/
def Row.unmarked (row : Row α) : Row α := { row with emitter := none }

theorem attemptRow_unmarked {job : Job α} {values : Values} {emitter : Option (Job α)} {row : Row α}
    (h : attemptRow int bench job values emitter = some row) :
    attemptRow int bench job values none = some row.unmarked := by
  obtain ⟨reportedSizes, hsizes, h⟩ := Option.bind_eq_some_iff.mp h
  obtain ⟨numbers, hnumbers, h⟩ := Option.bind_eq_some_iff.mp h
  cases h
  rw [attemptRow, hsizes, hnumbers]
  rfl

/-! ## Parts of the loops -/

/-- Attempts that have not timed out come before the others. -/
theorem attemptLoop_append {iterations sequence : ℕ} {algorithm : α} {values : ℕ → Values}
    {before after : List ℕ} {current : List (Row α)}
    (hbefore : ∀ i ∈ before, ¬ TimedOut (values i))
    (hcurrent : before.mapM (fun i ↦
      attemptRow int bench ⟨sequence, algorithm, i⟩ (values i) none) = some current) :
    attemptLoop int bench iterations sequence algorithm values (before ++ after) =
      (attemptLoop int bench iterations sequence algorithm values after).map (current ++ ·) := by
  induction before generalizing current with
  | nil =>
      cases hcurrent
      exact Option.map_id'.symm
  | cons i before ih =>
      rw [List.mapM_cons] at hcurrent
      obtain ⟨row, hrow, hcurrent⟩ := Option.bind_eq_some_iff.mp hcurrent
      obtain ⟨rows, hrows, hcurrent⟩ := Option.bind_eq_some_iff.mp hcurrent
      cases hcurrent
      obtain ⟨hi, hbefore⟩ := List.forall_mem_cons.mp hbefore
      rw [List.cons_append, attemptLoop, hrow, ih hbefore hrows]
      simp only [Option.bind_eq_bind, Option.bind_some, if_neg hi]
      cases attemptLoop int bench iterations sequence algorithm values after <;> rfl

theorem range'_split {iterations attempt : ℕ} (hone : 1 ≤ attempt) (hle : attempt ≤ iterations) :
    List.range' 1 iterations = List.range' 1 (attempt - 1) ++
      attempt :: List.range' (attempt + 1) (iterations - attempt) := by
  rw [← List.range'_succ]
  have hstart : attempt = 1 + 1 * (attempt - 1) := by omega
  have hlength : iterations = attempt - 1 + (iterations - attempt + 1) := by omega
  conv_lhs => rw [hlength]
  conv_rhs => enter [2, 1]; rw [hstart]
  exact (List.range'_append).symm

/-- The attempt that ends the loop: it times out, or it is the last. -/
theorem attemptLoop_end {iterations : ℕ} {job : Job α} {values : ℕ → Values}
    {current cancelled : List (Row α)} {row : Row α} (hone : 1 ≤ job.attempt)
    (hle : job.attempt ≤ iterations)
    (hbefore : ∀ i ∈ List.range' 1 (job.attempt - 1), ¬ TimedOut (values i))
    (hcurrent : (List.range' 1 (job.attempt - 1)).mapM (fun i ↦
      attemptRow int bench ⟨job.sequence, job.algorithm, i⟩ (values i) none) = some current)
    (hrow : attemptRow int bench job (values job.attempt) none = some row)
    (hend : TimedOut (values job.attempt) ∧
        cancelRemaining int bench iterations job = some cancelled ∨
      ¬ TimedOut (values job.attempt) ∧ iterations ≤ job.attempt ∧ cancelled = []) :
    attemptLoop int bench iterations job.sequence job.algorithm values (List.range' 1 iterations) =
      some (current ++ row :: cancelled) := by
  rw [range'_split hone hle, attemptLoop_append hbefore hcurrent, attemptLoop, hrow]
  rcases hend with ⟨htimedOut, hcancelled⟩ | ⟨hnot, hlast, rfl⟩
  · simp only [Option.bind_eq_bind, Option.bind_some, if_pos htimedOut, hcancelled, Option.map_some]
  · rw [Nat.sub_eq_zero_of_le hlast]
    simp only [Option.bind_eq_bind, Option.bind_some, if_neg hnot]
    rfl

/-- An algorithm after others. -/
theorem caseLoop_concat {iterations sequence : ℕ} {algorithm : α} {values : ℕ → ℕ → Values}
    {cases : List (ℕ × α)} {before rows : List (Row α)}
    (hbefore : caseLoop int bench iterations values cases = some before)
    (hrows : attemptLoop int bench iterations sequence algorithm (values sequence)
      (List.range' 1 iterations) = some rows) :
    caseLoop int bench iterations values (cases ++ [(sequence, algorithm)]) =
      some (before ++ rows) := by
  induction cases generalizing before with
  | nil =>
      cases hbefore
      rw [List.nil_append, caseLoop, hrows]
      exact congrArg some (List.append_nil rows)
  | cons case cases ih =>
      obtain ⟨first, hfirst, h⟩ := Option.bind_eq_some_iff.mp hbefore
      obtain ⟨rest, hrest, h⟩ := Option.bind_eq_some_iff.mp h
      cases h
      rw [List.cons_append, caseLoop, hfirst, ih hrest]
      exact congrArg some (List.append_assoc first rest rows).symm

/-- The loop looks at what belongs to its algorithms. -/
theorem caseLoop_congr {iterations : ℕ} {values values' : ℕ → ℕ → Values} {cases : List (ℕ × α)}
    (h : ∀ case ∈ cases, values case.1 = values' case.1) :
    caseLoop int bench iterations values cases = caseLoop int bench iterations values' cases := by
  induction cases with
  | nil => rfl
  | cons case cases ih =>
      obtain ⟨hcase, hcases⟩ := List.forall_mem_cons.mp h
      rw [caseLoop, caseLoop, hcase, ih hcases]

/-! ## The invariant of a schedule -/

namespace System

/-- The rows are those of the algorithms that are finished and of the attempts that the runner has
made of the next one. -/
structure Follows (int : Str → Option ℤ) (bench : Bench α) (iterations : ℕ) (cases : List (ℕ × α))
    (s : System α) (values : ℕ → ℕ → Values) (finished : List (ℕ × α))
    (before current : List (Row α)) : Prop where
  all : finished ++ s.cases = cases
  loop : caseLoop int bench iterations values finished = some before
  rows : s.rows.map Row.unmarked = before ++ current
  attempts : ∀ sequence algorithm rest, s.cases = (sequence, algorithm) :: rest →
    1 ≤ s.attempt ∧ s.attempt ≤ iterations ∧
      (∀ i ∈ List.range' 1 (s.attempt - 1), ¬ TimedOut (values sequence i)) ∧
      (List.range' 1 (s.attempt - 1)).mapM (fun i ↦
        attemptRow int bench ⟨sequence, algorithm, i⟩ (values sequence i) none) = some current
  last : s.cases = [] → current = []
  done : s.place = .done → s.cases = []

/-- The loops have been followed so far. -/
def InStep (int : Str → Option ℤ) (bench : Bench α) (iterations : ℕ) (cases : List (ℕ × α))
    (s : System α) : Prop :=
  ∃ values finished before current,
    Follows int bench iterations cases s values finished before current

variable {iterations : ℕ} {cases : List (ℕ × α)} {s s' : System α} {skipFlash : Bool}

/-- A step that leaves the loops alone; it may be the end of the run. -/
structure Unmoved (s s' : System α) : Prop where
  rows : s'.rows = s.rows
  cases : s'.cases = s.cases
  attempt : s'.attempt = s.attempt
  done : s'.place = .done → s.place = .done ∨ s.cases = []

theorem InStep.unmoved (h : InStep int bench iterations cases s) (hs : s.Unmoved s') :
    InStep int bench iterations cases s' := by
  obtain ⟨values, finished, before, current, h⟩ := h
  refine ⟨values, finished, before, current, ?_, h.loop, ?_, ?_, ?_, ?_⟩
  · rw [hs.cases, h.all]
  · rw [hs.rows, h.rows]
  · rw [hs.cases, hs.attempt]
    exact h.attempts
  · rw [hs.cases]
    exact h.last
  · rw [hs.cases]
    exact fun hplace ↦ (hs.done hplace).elim h.done id

theorem cases_of_job {job : Job α} (h : s.job = some job) :
    s.attempt = job.attempt ∧ ∃ rest, s.cases = (job.sequence, job.algorithm) :: rest := by
  rw [System.job] at h
  cases hcases : s.cases with
  | nil =>
      rw [hcases] at h
      exact nomatch h
  | cons case rest =>
      rw [hcases] at h
      cases h
      exact ⟨rfl, rest, rfl⟩

theorem cancelledRows_eq (s : System α) (job : Job α) : s.cancelledRows int bench iterations job =
    if TimedOut s.values then cancelRemaining int bench iterations job else some [] := rfl

theorem unmarked_cancelledRows {job : Job α} {rows : List (Row α)} (htimedOut : TimedOut s.values)
    (h : s.cancelledRows int bench iterations job = some rows) :
    cancelRemaining int bench iterations job = some (rows.map Row.unmarked) := by
  rw [cancelledRows_eq, if_pos htimedOut] at h
  have hunmarked : ∀ row ∈ rows, row.unmarked = row := by
    intro row hrow
    obtain ⟨attempt, -, hattempt⟩ := (exists_of_mem_mapM h).2 row hrow
    have hemitter : row.emitter = none := (attemptRow_eq hattempt).2.1
    rw [Row.unmarked, ← hemitter]
  rw [List.map_congr_left hunmarked, List.map_id', h]

theorem record_of_none {job : Job α} (h : s.attemptRows int bench iterations job = none) :
    s.record int bench iterations job = { s with place := .failed } := by
  rw [System.record, h]

theorem record_of_some {job : Job α} {rows : List (Row α)}
    (h : s.attemptRows int bench iterations job = some rows) :
    s.record int bench iterations job =
      if TimedOut s.values ∨ iterations ≤ job.attempt then
        { s with rows := s.rows ++ rows, place := .write, cases := s.cases.tail, attempt := 1 }
      else { s with rows := s.rows ++ rows, place := .write, attempt := job.attempt + 1 } := by
  rw [System.record, h]
  rfl

/-- The attempt that the runner is at, recorded with these values. -/
def setValues (values : ℕ → ℕ → Values) (job : Job α) (recorded : Values) : ℕ → ℕ → Values :=
  Function.update values job.sequence
    (Function.update (values job.sequence) job.attempt recorded)

theorem setValues_self (values : ℕ → ℕ → Values) (job : Job α) (recorded : Values) :
    setValues values job recorded job.sequence job.attempt = recorded := by
  rw [setValues, Function.update_self, Function.update_self]

theorem setValues_of_ne {values : ℕ → ℕ → Values} {job : Job α} {recorded : Values} {sequence i : ℕ}
    (h : sequence ≠ job.sequence ∨ i ≠ job.attempt) :
    setValues values job recorded sequence i = values sequence i := by
  rw [setValues]
  by_cases hsequence : sequence = job.sequence
  · subst hsequence
    rw [Function.update_self, Function.update_of_ne (h.resolve_left fun hne ↦ hne rfl)]
  · rw [Function.update_of_ne hsequence]

variable {values : ℕ → ℕ → Values} {finished : List (ℕ × α)} {before current : List (Row α)}

/-- What is recorded for the attempt that the runner is at changes nothing before it. -/
theorem Follows.setValues (h : Follows int bench iterations cases s values finished before current)
    (hnodup : (cases.map Prod.fst).Nodup) {job : Job α} (hjob : s.job = some job)
    (recorded : Values) :
    Follows int bench iterations cases s (setValues values job recorded) finished before
      current := by
  obtain ⟨hattempt, rest, hcases⟩ := cases_of_job hjob
  refine ⟨h.all, ?_, h.rows, ?_, h.last, h.done⟩
  · rw [← h.loop]
    refine caseLoop_congr fun case hcase ↦ funext fun i ↦ setValues_of_ne (.inl fun heq ↦ ?_)
    rw [← h.all, hcases, List.map_append, List.nodup_append'] at hnodup
    exact hnodup.2.2 (List.mem_map_of_mem hcase) (heq ▸ List.mem_cons_self)
  · intro sequence algorithm rest' hcases'
    obtain ⟨hone, hle, hnot, hcurrent⟩ := h.attempts sequence algorithm rest' hcases'
    have hother : ∀ i ∈ List.range' 1 (s.attempt - 1),
        System.setValues values job recorded sequence i = values sequence i := by
      intro i hi
      exact setValues_of_ne (.inr (by have := List.mem_range'_1.mp hi; omega))
    refine ⟨hone, hle, ?_, ?_⟩
    · intro i hi
      rw [hother i hi]
      exact hnot i hi
    · rw [← hcurrent]
      exact mapM_congr fun i hi ↦ by rw [hother i hi]

/-- The attempt ends its algorithm. -/
theorem Follows.nextCase (h : Follows int bench iterations cases s values finished before current)
    {job : Job α} (hjob : s.job = some job)
    (hself : values job.sequence job.attempt = s.values) {row : Row α} {cancelled : List (Row α)}
    (hrow : attemptRow int bench job s.values none = some row.unmarked)
    (hcancelled : s.cancelledRows int bench iterations job = some cancelled)
    (hends : TimedOut s.values ∨ iterations ≤ job.attempt) :
    Follows int bench iterations cases
      { s with
        rows := s.rows ++ row :: cancelled, place := .write, cases := s.cases.tail, attempt := 1 }
      values (finished ++ [(job.sequence, job.algorithm)])
      (before ++ (current ++ row.unmarked :: cancelled.map Row.unmarked)) [] := by
  obtain ⟨hattempt, rest, hcases⟩ := cases_of_job hjob
  obtain ⟨hone, hle, hnot, hcurrent⟩ := h.attempts _ _ _ hcases
  rw [hattempt] at hone hle hnot hcurrent
  have hend : TimedOut (values job.sequence job.attempt) ∧
      cancelRemaining int bench iterations job = some (cancelled.map Row.unmarked) ∨
      ¬ TimedOut (values job.sequence job.attempt) ∧
        iterations ≤ job.attempt ∧ cancelled.map Row.unmarked = [] := by
    rw [hself]
    by_cases hnow : TimedOut s.values
    · exact .inl ⟨hnow, unmarked_cancelledRows hnow hcancelled⟩
    · rw [cancelledRows_eq, if_neg hnow] at hcancelled
      cases hcancelled
      exact .inr ⟨hnow, hends.resolve_left hnow, rfl⟩
  have hblock := attemptLoop_end hone hle hnot hcurrent (hself.symm ▸ hrow) hend
  refine ⟨?_, caseLoop_concat h.loop hblock, ?_, ?_, fun _ ↦ rfl, nofun⟩
  · rw [← h.all, hcases, List.append_assoc]
    rfl
  · rw [List.append_nil, List.map_append, h.rows, List.map_cons, List.append_assoc]
  · intro sequence algorithm rest' _
    exact ⟨le_rfl, hone.trans hle, nofun, rfl⟩

/-- The algorithm has another attempt. -/
theorem Follows.nextAttempt
    (h : Follows int bench iterations cases s values finished before current)
    {job : Job α} (hjob : s.job = some job)
    (hself : values job.sequence job.attempt = s.values) {row : Row α}
    (hrow : attemptRow int bench job s.values none = some row.unmarked)
    (hnow : ¬ TimedOut s.values) (hlt : job.attempt < iterations) :
    Follows int bench iterations cases
      { s with rows := s.rows ++ [row], place := .write, attempt := job.attempt + 1 }
      values finished before (current ++ [row.unmarked]) := by
  obtain ⟨hattempt, rest, hcases⟩ := cases_of_job hjob
  obtain ⟨hone, -, hnot, hcurrent⟩ := h.attempts _ _ _ hcases
  rw [hattempt] at hone hnot hcurrent
  refine ⟨h.all, h.loop, ?_, ?_, ?_, nofun⟩
  · rw [List.map_append, h.rows, List.append_assoc]
    rfl
  · intro sequence algorithm rest' hcases'
    rw [hcases] at hcases'
    cases hcases'
    have hrange : List.range' 1 (job.attempt + 1 - 1) =
        List.range' 1 (job.attempt - 1) ++ [job.attempt] := by
      rw [Nat.add_sub_cancel, range'_split hone le_rfl, Nat.sub_self]
      rfl
    refine ⟨Nat.le_add_left 1 _, hlt, ?_, ?_⟩
    · rw [hrange, List.forall_mem_append, List.forall_mem_singleton, hself]
      exact ⟨hnot, hnow⟩
    · rw [hrange, List.mapM_append, hcurrent, List.mapM_cons, hself, hrow]
      rfl
  · intro hnil
    rw [hcases] at hnil
    exact nomatch hnil

/-- The end of an attempt. -/
theorem InStep.record (h : InStep int bench iterations cases s)
    (hnodup : (cases.map Prod.fst).Nodup) {job : Job α} (hjob : s.job = some job) :
    InStep int bench iterations cases (s.record int bench iterations job) := by
  cases hadded : s.attemptRows int bench iterations job with
  | none =>
      rw [record_of_none hadded]
      exact h.unmoved ⟨rfl, rfl, rfl, nofun⟩
  | some added =>
      rw [record_of_some hadded]
      obtain ⟨values, finished, before, current, h⟩ := h
      have h := h.setValues hnodup hjob s.values
      have hself := setValues_self values job s.values
      obtain ⟨row, hrow, hadded⟩ := Option.bind_eq_some_iff.mp hadded
      obtain ⟨cancelled, hcancelled, hadded⟩ := Option.bind_eq_some_iff.mp hadded
      cases hadded
      have hrow := attemptRow_unmarked hrow
      by_cases hends : TimedOut s.values ∨ iterations ≤ job.attempt
      · rw [if_pos hends]
        exact ⟨_, _, _, _, h.nextCase hjob hself hrow hcancelled hends⟩
      · obtain ⟨hnow, hlt⟩ := not_or.mp hends
        rw [cancelledRows_eq, if_neg hnow] at hcancelled
        cases hcancelled
        rw [if_neg hends]
        exact ⟨_, _, _, _, h.nextAttempt hjob hself hrow hnow (Nat.lt_of_not_le hlt)⟩

theorem unmoved_refl (s : System α) : s.Unmoved s := ⟨rfl, rfl, rfl, .inl⟩

/-- The board does not move the runner. -/
theorem unmoved_board (s : System α) {event : Event} (h : ∀ input, event ≠ .runner input) :
    s.Unmoved (s.step int bench skipFlash iterations event) := by
  cases event with
  | take =>
      rw [step]
      split
      · exact ⟨rfl, rfl, rfl, .inl⟩
      · exact s.unmoved_refl
  | reject line =>
      rw [step]
      split
      · split
        · exact s.unmoved_refl
        · exact ⟨rfl, rfl, rfl, .inl⟩
      · exact s.unmoved_refl
  | lose => exact ⟨rfl, rfl, rfl, .inl⟩
  | print line =>
      rw [step]
      split
      · exact ⟨rfl, rfl, rfl, .inl⟩
      · exact s.unmoved_refl
  | reboot => exact ⟨rfl, rfl, rfl, .inl⟩
  | runner input => exact absurd rfl (h input)

theorem unmoved_readReady (s : System α) {next : Place} (hnext : next ≠ .done) :
    s.Unmoved (s.readReady next) := by
  rw [readReady]
  split
  · exact s.unmoved_refl
  · refine ⟨rfl, rfl, rfl, ?_⟩
    dsimp only
    split
    · exact fun h ↦ absurd h hnext
    · exact .inl

theorem unmoved_readResult (s : System α) : s.Unmoved (s.readResult bench) := by
  rw [readResult]
  split
  · exact s.unmoved_refl
  · dsimp only
    split
    · exact ⟨rfl, rfl, rfl, by rintro ⟨⟩⟩
    · exact ⟨rfl, rfl, rfl, .inl⟩

/-- The runner ends an attempt, or it leaves the loops alone. -/
theorem runnerStep_cases (s : System α) (input : Input) :
    s.Unmoved (s.runnerStep int bench skipFlash iterations input) ∨
      ∃ job, s.job = some job ∧
        s.runnerStep int bench skipFlash iterations input = s.record int bench iterations job := by
  unfold runnerStep
  cases hplace : s.place <;> dsimp only
  case flash => exact .inl (by split <;> exact ⟨rfl, rfl, rfl, nofun⟩)
  case openPort => exact .inl ⟨rfl, rfl, rfl, nofun⟩
  case reset =>
    refine .inl ?_
    split
    · split <;> exact ⟨rfl, rfl, rfl, nofun⟩
    · exact ⟨rfl, rfl, rfl, nofun⟩
  case waitReady =>
    refine .inl ?_
    split
    · exact ⟨rfl, rfl, rfl, nofun⟩
    · exact s.unmoved_readReady nofun
  case write =>
    refine .inl ?_
    cases hjob : s.job with
    | none =>
        refine ⟨rfl, rfl, rfl, fun _ ↦ .inr ?_⟩
        rw [System.job, Option.map_eq_none_iff, List.head?_eq_none_iff] at hjob
        exact hjob
    | some job => exact ⟨rfl, rfl, rfl, nofun⟩
  case waitResult =>
    refine .inl ?_
    split
    · exact ⟨rfl, rfl, rfl, nofun⟩
    · exact s.unmoved_readResult
  case recover => exact .inl (by split <;> exact ⟨rfl, rfl, rfl, nofun⟩)
  case waitRecovered =>
    refine .inl ?_
    split
    · exact ⟨rfl, rfl, rfl, nofun⟩
    · exact s.unmoved_readReady nofun
  case record =>
    cases hjob : s.job with
    | none => exact .inl s.unmoved_refl
    | some job => exact .inr ⟨job, rfl, rfl⟩
  case done => exact .inl s.unmoved_refl
  case failed => exact .inl s.unmoved_refl

theorem InStep.step (h : InStep int bench iterations cases s) (hnodup : (cases.map Prod.fst).Nodup)
    (event : Event) :
    InStep int bench iterations cases (s.step int bench skipFlash iterations event) := by
  by_cases hrunner : ∃ input, event = .runner input
  · obtain ⟨input, rfl⟩ := hrunner
    rcases s.runnerStep_cases input with hunmoved | ⟨job, hjob, hrecord⟩
    · exact h.unmoved hunmoved
    · change InStep int bench iterations cases (s.runnerStep int bench skipFlash iterations input)
      rw [hrecord]
      exact h.record hnodup hjob
  · exact h.unmoved (s.unmoved_board fun input heq ↦ hrunner ⟨input, heq⟩)

theorem InStep.run (h : InStep int bench iterations cases s) (hnodup : (cases.map Prod.fst).Nodup)
    (events : List Event) :
    InStep int bench iterations cases (s.run int bench skipFlash iterations events) := by
  induction events generalizing s with
  | nil => exact h
  | cons event events ih => exact ih (h.step hnodup event)

theorem nodup_enumerateCases (cases : List α) : ((enumerateCases cases).map Prod.fst).Nodup := by
  rw [enumerateCases, List.map_map]
  have hsnd : ((cases.zipIdx 1).map Prod.snd) = List.range' 1 cases.length :=
    List.zipIdx_map_snd 1 cases
  exact (congrArg List.Nodup hsnd).mpr List.nodup_range'

theorem inStep_init (hone : 1 ≤ iterations) (cases : List α) (board : Board α)
    (commands : List (Job α)) (line : List (Str × Option (Job α))) :
    InStep int bench iterations (enumerateCases cases) (init cases board commands line) :=
  ⟨fun _ _ ↦ [], [], [], [], rfl, rfl, rfl,
    fun _ _ _ _ ↦ ⟨le_rfl, hone, nofun, rfl⟩, fun _ ↦ rfl, nofun⟩

/-- A run that comes to the end of its loops has written the rows of the loops. -/
theorem rows_of_done (int : Str → Option ℤ) (bench : Bench α) (skipFlash : Bool) {iterations : ℕ}
    (hone : 1 ≤ iterations) (cases : List α) (board : Board α) (commands : List (Job α))
    (line : List (Str × Option (Job α))) (events : List Event)
    (hdone : ((init cases board commands line).run int bench skipFlash iterations events).place =
      .done) :
    ∃ values, runAttempts int bench iterations cases values =
      some (((init cases board commands line).run int bench skipFlash iterations events).rows.map
        Row.unmarked) := by
  obtain ⟨values, finished, before, current, h⟩ :=
    (inStep_init hone cases board commands line).run (nodup_enumerateCases cases) events
  have hnil := h.done hdone
  refine ⟨values, ?_⟩
  rw [runAttempts, ← h.all, hnil, List.append_nil, h.loop, h.rows, h.last hnil, List.append_nil]

end System

end BoardCommands

end PeripheralBench.Runner

import PeripheralBench.Runner.BoardResults

/-!
# The attempts of the KEM and certificate runners

The loops of `main` in `run_kem_benchmarks.py` and of `run_on_device` in
`run_certificate_benchmarks.py`, as functions of what the board answers.  After a timeout the other
attempts of the algorithm are cancelled, and the loop goes on with the next algorithm: each attempt
of each algorithm has its row (`runAttempts_covers`).
-/

open PeripheralBench.Fold

namespace PeripheralBench.Runner

namespace BoardCommands

variable {α : Type} (int : Str → Option ℤ) (bench : Bench α)

/-! ## The loops -/

/-- `values.get("status") == "timeout"`. -/
def TimedOut (values : Values) : Prop := values.get? "status".toList = some "timeout".toList

instance (values : Values) : Decidable (TimedOut values) := inferInstanceAs (Decidable (_ = _))

/-- The rows of the attempts from `attempt + 1` on, which are cancelled. -/
def cancelRemaining (iterations : ℕ) (job : Job α) : Option (List (Row α)) :=
  (List.range' (job.attempt + 1) (iterations - job.attempt)).mapM fun cancelled ↦
    attemptRow int bench { job with attempt := cancelled } cancelledValues none

/-- The loop over the attempts of an algorithm.  `values attempt` is what `values` holds when the
row of that attempt is appended. -/
def attemptLoop (iterations sequence : ℕ) (algorithm : α) (values : ℕ → Values) :
    List ℕ → Option (List (Row α))
  | [] => some []
  | attempt :: attempts => do
      let job : Job α := ⟨sequence, algorithm, attempt⟩
      let row ← attemptRow int bench job (values attempt) none
      if TimedOut (values attempt) then
        let cancelled ← cancelRemaining int bench iterations job
        some (row :: cancelled)
      else
        let rows ← attemptLoop iterations sequence algorithm values attempts
        some (row :: rows)

/-- The loop over the algorithms. -/
def caseLoop (iterations : ℕ) (values : ℕ → ℕ → Values) : List (ℕ × α) → Option (List (Row α))
  | [] => some []
  | (sequence, algorithm) :: cases => do
      let rows ← attemptLoop int bench iterations sequence algorithm (values sequence)
        (List.range' 1 iterations)
      let rest ← caseLoop iterations values cases
      some (rows ++ rest)

/-- `enumerate(cases, 1)`. -/
def enumerateCases (cases : List α) : List (ℕ × α) :=
  (cases.zipIdx 1).map fun case ↦ (case.2, case.1)

/-- `attempts` behind the loops. -/
def runAttempts (iterations : ℕ) (cases : List α) (values : ℕ → ℕ → Values) :
    Option (List (Row α)) :=
  caseLoop int bench iterations values (enumerateCases cases)

/-! ## What is recorded for an attempt -/

/-- An attempt before this one has timed out. -/
def CutOff (values : ℕ → Values) (attempt : ℕ) : Prop :=
  ∃ i, 1 ≤ i ∧ i < attempt ∧ TimedOut (values i)

instance (values : ℕ → Values) (attempt : ℕ) : Decidable (CutOff values attempt) :=
  decidable_of_iff ((List.range' 1 (attempt - 1)).any fun i ↦ decide (TimedOut (values i))) (by
    rw [List.any_eq_true]
    constructor
    · rintro ⟨i, hi, htimedOut⟩
      obtain ⟨hone, hlt⟩ := List.mem_range'_1.mp hi
      exact ⟨i, hone, by omega, decide_eq_true_iff.mp htimedOut⟩
    · rintro ⟨i, hone, hlt, htimedOut⟩
      exact ⟨i, List.mem_range'_1.mpr ⟨hone, by omega⟩, decide_eq_true htimedOut⟩)

/-- The values that the row of an attempt is made of. -/
def recorded (values : ℕ → Values) (attempt : ℕ) : Values :=
  if CutOff values attempt then cancelledValues else values attempt

variable {int bench}

theorem cutOff_succ {values : ℕ → Values} {attempt : ℕ} (hone : 1 ≤ attempt) :
    CutOff values (attempt + 1) ↔ CutOff values attempt ∨ TimedOut (values attempt) := by
  constructor
  · rintro ⟨i, hi, hlt, htimedOut⟩
    rcases (Nat.le_of_lt_succ hlt).lt_or_eq with hlt | rfl
    · exact .inl ⟨i, hi, hlt, htimedOut⟩
    · exact .inr htimedOut
  · rintro (⟨i, hi, hlt, htimedOut⟩ | htimedOut)
    · exact ⟨i, hi, hlt.trans (Nat.lt_succ_self _), htimedOut⟩
    · exact ⟨attempt, hone, Nat.lt_succ_self _, htimedOut⟩

/-- The loop makes each row of what is recorded for its attempt. -/
theorem attemptLoop_eq {iterations sequence : ℕ} {algorithm : α} {values : ℕ → Values} {a k : ℕ}
    (hone : 1 ≤ a) (hend : a + k = iterations + 1) (hbefore : ¬ CutOff values a) :
    attemptLoop int bench iterations sequence algorithm values (List.range' a k) =
      (List.range' a k).mapM fun attempt ↦
        attemptRow int bench ⟨sequence, algorithm, attempt⟩ (recorded values attempt) none := by
  induction k generalizing a with
  | zero => rfl
  | succ k ih =>
      have hrecorded : recorded values a = values a := if_neg hbefore
      rw [List.range'_succ, attemptLoop, List.mapM_cons, hrecorded]
      refine congrArg (Option.bind _) (funext fun row ↦ ?_)
      by_cases htimedOut : TimedOut (values a)
      · have hcount : iterations - a = k := by omega
        have hcancelled : cancelRemaining int bench iterations ⟨sequence, algorithm, a⟩ =
            (List.range' (a + 1) k).mapM fun attempt ↦ attemptRow int bench
              ⟨sequence, algorithm, attempt⟩ (recorded values attempt) none := by
          rw [cancelRemaining, hcount]
          refine mapM_congr fun i hi ↦ ?_
          have hcut : CutOff values i := ⟨a, hone, (List.mem_range'_1.mp hi).1, htimedOut⟩
          rw [recorded, if_pos hcut]
        rw [if_pos htimedOut, hcancelled]
        rfl
      · have hnext : ¬ CutOff values (a + 1) := by
          rw [cutOff_succ hone, not_or]
          exact ⟨hbefore, htimedOut⟩
        rw [if_neg htimedOut, ih (Nat.le_add_left 1 a) (by omega) hnext]
        rfl

theorem not_cutOff_one (values : ℕ → Values) : ¬ CutOff values 1 := fun ⟨_, hi, hlt, _⟩ ↦
  Nat.not_lt_of_le hi hlt

/-! ## Rows -/

/-- The numbers among the values can be read. -/
def Numeric (int : Str → Option ℤ) (bench : Bench α) (values : Values) : Prop :=
  ∀ field ∈ bench.sizeFields ++ bench.numberFields, ∃ n, number int values field = some n

/-- The status that the values report. -/
def reportedStatus (values : Values) : Str :=
  (values.get "status".toList "fail".toList).map Char.toLower

theorem exists_attemptRow {job : Job α} {values : Values} {emitter : Option (Job α)}
    (h : Numeric int bench values) : ∃ row, attemptRow int bench job values emitter = some row := by
  obtain ⟨sizes, hsizes⟩ := exists_mapM fun field hfield ↦ h field (List.mem_append_left _ hfield)
  obtain ⟨numbers, hnumbers⟩ :=
    exists_mapM fun field hfield ↦ h field (List.mem_append_right _ hfield)
  rw [attemptRow, hsizes, hnumbers]
  exact ⟨_, rfl⟩

/-- A success may become a failure, and no other status changes. -/
theorem status_attemptRow {job : Job α} {values : Values} {emitter : Option (Job α)} {row : Row α}
    (h : attemptRow int bench job values emitter = some row) :
    row.status = reportedStatus values ∨
      reportedStatus values = "success".toList ∧ row.status = "fail".toList := by
  obtain ⟨reportedSizes, -, h⟩ := Option.bind_eq_some_iff.mp h
  obtain ⟨numbers, -, h⟩ := Option.bind_eq_some_iff.mp h
  cases h
  rw [reportedStatus]
  dsimp only
  split
  case isTrue hmismatch =>
    exact .inr ⟨hmismatch.elim (fun h ↦ h.1) fun h ↦ h.2.1, rfl⟩
  case isFalse => exact .inl rfl

theorem values_attemptRow {job : Job α} {values : Values} {emitter : Option (Job α)} {row : Row α}
    (h : attemptRow int bench job values emitter = some row) : row.values = values := by
  obtain ⟨reportedSizes, -, h⟩ := Option.bind_eq_some_iff.mp h
  obtain ⟨numbers, -, h⟩ := Option.bind_eq_some_iff.mp h
  cases h
  rfl

/-! ## What the board answers -/

/-- The values of `status` that `run_case` prints. -/
inductive Status where
  | success
  | fail
  | unsupported
deriving DecidableEq

/-- The word in the line. -/
def Status.text : Status → Str
  | success => "success".toList
  | fail => "fail".toList
  | unsupported => "unsupported".toList

/-- A result of the board, with the progress before it. -/
structure BoardResult (int : Str → Option ℤ) (bench : Bench α) where
  progress : Progress
  values : Values
  status : Status
  status_eq : values.get? "status".toList = some status.text
  numeric : Numeric int bench (resultValues bench progress values)

/-- What comes of an attempt that is not cancelled. -/
inductive Outcome (int : Str → Option ℤ) (bench : Bench α) where
  | result (result : BoardResult int bench)
  | timeout (progress : Progress) (numeric : Numeric int bench (timeoutValues bench progress))

namespace Outcome

/-- What `values` holds afterwards. -/
def values : Outcome int bench → Values
  | result r => resultValues bench r.progress r.values
  | timeout progress _ => timeoutValues bench progress

/-- The board has not answered in time. -/
def IsTimeout : Outcome int bench → Prop
  | result _ => False
  | timeout _ _ => True

/-- The board does not know the algorithm. -/
def IsUnsupported : Outcome int bench → Prop
  | result r => r.status = .unsupported
  | timeout _ _ => False

theorem numeric (o : Outcome int bench) : Numeric int bench o.values := by
  cases o with
  | result r => exact r.numeric
  | timeout progress h => exact h

end Outcome

theorem reportedStatus_of_get? {values : Values} {status : Str}
    (h : values.get? "status".toList = some status) :
    reportedStatus values = status.map Char.toLower := by
  rw [reportedStatus, Values.get, h]
  rfl

theorem get?_resultValues (progress : Progress) (values : Values) :
    (resultValues bench progress values).get? "status".toList = values.get? "status".toList := by
  rw [resultValues]
  split
  · rfl
  · exact Values.get?_set_of_ne (by decide) _ _

theorem reportedStatus_result (r : BoardResult int bench) :
    reportedStatus (resultValues bench r.progress r.values) = r.status.text := by
  rw [reportedStatus_of_get? ((get?_resultValues _ _).trans r.status_eq)]
  cases r.status <;> rfl

theorem timedOut_values_iff (o : Outcome int bench) : TimedOut o.values ↔ o.IsTimeout := by
  cases o with
  | result r =>
      rw [TimedOut, Outcome.values, get?_resultValues, r.status_eq, Option.some_inj]
      refine iff_of_false ?_ not_false
      cases r.status <;> decide
  | timeout progress _ => exact iff_of_true (get?_timeoutValues progress) trivial

/-! ## Coverage -/

/-- An attempt of the algorithm before this one has timed out. -/
def Cancelled (outcome : ℕ → Outcome int bench) (attempt : ℕ) : Prop :=
  ∃ i, 1 ≤ i ∧ i < attempt ∧ (outcome i).IsTimeout

/-- The row tells what has come of its attempt; a success that does not have what it should is a
failure. -/
structure Records (outcome : ℕ → Outcome int bench) (row : Row α) : Prop where
  cancelled : Cancelled outcome row.job.attempt → row.status = "cancelled".toList
  timeout : ¬ Cancelled outcome row.job.attempt → (outcome row.job.attempt).IsTimeout →
    row.status = "timeout".toList
  result : ¬ Cancelled outcome row.job.attempt → ∀ r, outcome row.job.attempt = .result r →
    row.values = resultValues bench r.progress r.values ∧
      (row.status = r.status.text ∨ r.status = .success ∧ row.status = "fail".toList)

/-- The rows of an algorithm: one for each attempt, in order. -/
structure CoversAlgorithm (iterations : ℕ) (case : ℕ × α) (outcome : ℕ → Outcome int bench)
    (rows : List (Row α)) : Prop where
  jobs : rows.map Row.job = (List.range' 1 iterations).map fun attempt ↦ ⟨case.1, case.2, attempt⟩
  records : ∀ row ∈ rows, Records outcome row

/-- The rows of all algorithms, one after the other. -/
def Covers (iterations : ℕ) (cases : List α) (outcome : ℕ → ℕ → Outcome int bench)
    (rows : List (Row α)) : Prop :=
  ∃ blocks : List (List (Row α)), rows = blocks.flatten ∧
    List.Forall₂ (fun case block ↦ CoversAlgorithm iterations case (outcome case.1) block)
      (enumerateCases cases) blocks

theorem cutOff_values_iff (outcome : ℕ → Outcome int bench) (attempt : ℕ) :
    CutOff (fun i ↦ (outcome i).values) attempt ↔ Cancelled outcome attempt :=
  exists_congr fun _ ↦ and_congr_right fun _ ↦ and_congr_right fun _ ↦ timedOut_values_iff _

theorem records_attemptRow {outcome : ℕ → Outcome int bench} {job : Job α} {row : Row α}
    (h : attemptRow int bench job (recorded (fun i ↦ (outcome i).values) job.attempt) none =
      some row) : Records outcome row := by
  have hjob : row.job = job := (attemptRow_eq h).1
  have hvalues := values_attemptRow h
  have hstatus := status_attemptRow h
  have hcut := cutOff_values_iff outcome job.attempt
  constructor
  · intro hcancelled
    rw [hjob] at hcancelled
    rw [recorded, if_pos (hcut.mpr hcancelled)] at hstatus
    exact hstatus.resolve_right fun h ↦ absurd h.1 (by decide)
  · intro hnot htimeout
    rw [hjob] at hnot htimeout
    rw [recorded, if_neg (hcut.not.mpr hnot),
      reportedStatus_of_get? ((timedOut_values_iff _).mpr htimeout)] at hstatus
    exact hstatus.resolve_right fun h ↦ absurd h.1 (by decide)
  · intro hnot r hr
    rw [hjob] at hnot hr
    rw [recorded, if_neg (hcut.not.mpr hnot), hr, Outcome.values] at hstatus hvalues
    rw [reportedStatus_result] at hstatus
    refine ⟨hvalues, hstatus.imp_right fun h ↦ ⟨?_, h.2⟩⟩
    have htext := h.1
    cases hs : r.status with
    | success => rfl
    | fail => exact absurd (hs ▸ htext) (by decide)
    | unsupported => exact absurd (hs ▸ htext) (by decide)

/-- The loop over the attempts covers the algorithm. -/
theorem attemptLoop_covers (hcancelled : Numeric int bench cancelledValues) (iterations : ℕ)
    (case : ℕ × α) (outcome : ℕ → Outcome int bench) :
    ∃ rows, attemptLoop int bench iterations case.1 case.2 (fun i ↦ (outcome i).values)
      (List.range' 1 iterations) = some rows ∧ CoversAlgorithm iterations case outcome rows := by
  rw [attemptLoop_eq le_rfl (Nat.add_comm 1 iterations) (not_cutOff_one _)]
  have hexists : ∀ attempt ∈ List.range' 1 iterations, ∃ row, attemptRow int bench
      ⟨case.1, case.2, attempt⟩ (recorded (fun i ↦ (outcome i).values) attempt) none =
        some row := by
    intro attempt _
    refine exists_attemptRow ?_
    rw [recorded]
    split
    · exact hcancelled
    · exact (outcome attempt).numeric
  obtain ⟨rows, hrows⟩ := exists_mapM hexists
  refine ⟨rows, hrows, ?_, fun row hrow ↦ ?_⟩
  · exact map_eq_map_of_mapM hrows fun attempt row h ↦ (attemptRow_eq h).1
  · obtain ⟨attempt, -, h⟩ := (exists_of_mem_mapM hrows).2 row hrow
    exact records_attemptRow h

theorem caseLoop_covers (hcancelled : Numeric int bench cancelledValues) (iterations : ℕ)
    (cases : List (ℕ × α)) (outcome : ℕ → ℕ → Outcome int bench) :
    ∃ rows, caseLoop int bench iterations (fun sequence i ↦ (outcome sequence i).values) cases =
      some rows ∧ ∃ blocks : List (List (Row α)), rows = blocks.flatten ∧
        List.Forall₂ (fun case block ↦ CoversAlgorithm iterations case (outcome case.1) block)
          cases blocks := by
  induction cases with
  | nil => exact ⟨[], rfl, [], rfl, .nil⟩
  | cons case cases ih =>
      obtain ⟨block, hblock, hcovers⟩ :=
        attemptLoop_covers hcancelled iterations case (outcome case.1)
      obtain ⟨rest, hrest, blocks, rfl, hblocks⟩ := ih
      refine ⟨block ++ blocks.flatten, ?_, block :: blocks, rfl, .cons hcovers hblocks⟩
      rw [caseLoop, hblock, hrest]
      rfl

/-- Whatever comes of the attempts, the rows cover them. -/
theorem runAttempts_covers (hcancelled : Numeric int bench cancelledValues) (iterations : ℕ)
    (cases : List α) (outcome : ℕ → ℕ → Outcome int bench) :
    ∃ rows, runAttempts int bench iterations cases (fun sequence i ↦ (outcome sequence i).values) =
      some rows ∧ Covers iterations cases outcome rows :=
  caseLoop_covers hcancelled iterations (enumerateCases cases) outcome

end BoardCommands

end PeripheralBench.Runner

import PeripheralBench.Runner.BoardCommands
import PeripheralBench.Runner.Values

/-!
# Whose result a row is built from

A command is answered by one result at most, and the runner writes no other command before it has
read the result or reset the board.  What is owed to it, in the commands that the board has
received, in the one that it is working at and in the results on the line, is therefore one result,
and that of the attempt it is at — as long as nothing was owed to it when it wrote the command.

After a timeout a result may still be on the line.  The runner waits for `[BENCH_READY]` before it
goes on, and passes over all results before that.  But the board says that it is ready after every
command, and nobody reads it: if such a line is on the line before the result, then the runner goes
on with the result ahead of it (`not_rows_attributed`).  If this is so at no reset, then all rows
are right (`rows_attributed`).
-/

open PeripheralBench.Fold

namespace PeripheralBench.Runner

namespace BoardCommands

variable {α : Type} {int : Str → Option ℤ} {bench : Bench α}

/-! ## Rows -/

/-- The row says that there was no result. -/
def Row.Marked (row : Row α) : Prop :=
  row.status = "timeout".toList ∨ row.status = "cancelled".toList

/-- The row is marked, or built from the result of the command that it stands for. -/
def Row.Attributed (row : Row α) : Prop := row.Marked ∨ row.emitter = some row.job

instance [DecidableEq α] (row : Row α) : Decidable row.Attributed :=
  inferInstanceAs (Decidable ((_ ∨ _) ∨ _))

/-- What a row says about itself. -/
theorem attemptRow_eq {job : Job α} {values : Values} {emitter : Option (Job α)} {row : Row α}
    (h : attemptRow int bench job values emitter = some row) :
    row.job = job ∧ row.emitter = emitter ∧
      ((values.get "status".toList "fail".toList).map Char.toLower ≠ "success".toList →
        row.status = (values.get "status".toList "fail".toList).map Char.toLower) := by
  obtain ⟨reportedSizes, -, h⟩ := Option.bind_eq_some_iff.mp h
  obtain ⟨numbers, -, h⟩ := Option.bind_eq_some_iff.mp h
  cases h
  refine ⟨rfl, rfl, fun hstatus ↦ if_neg ?_⟩
  rintro (hmismatch | hmismatch)
  · exact hstatus hmismatch.1
  · exact hstatus hmismatch.2.1

/-- A status that is neither in upper case nor a success is that of the row. -/
theorem attemptRow_marked {job : Job α} {values : Values} {emitter : Option (Job α)} {row : Row α}
    {status : Str} (h : attemptRow int bench job values emitter = some row)
    (hvalues : values.get? "status".toList = some status)
    (hstatus : status = "timeout".toList ∨ status = "cancelled".toList) : row.Marked := by
  have hget : values.get "status".toList "fail".toList = status := by rw [Values.get, hvalues]; rfl
  have hrow := (attemptRow_eq h).2.2
  rw [hget] at hrow
  rcases hstatus with rfl | rfl
  · exact .inl (hrow (by decide))
  · exact .inr (hrow (by decide))

theorem get?_timeoutValues (progress : Progress) :
    (timeoutValues bench progress).get? "status".toList = some "timeout".toList := by
  rw [timeoutValues]
  split
  · rfl
  · have hupdate : (progress.values.update [("status".toList, "timeout".toList),
        ("stage".toList, "board_result".toList), ("error".toList, "timeout".toList),
        ("progress_reports".toList, progress.reportsText)]).get? "status".toList =
          some "timeout".toList := by
      rw [Values.get?_update]
      rfl
    dsimp only
    split
    · exact hupdate
    · exact (Values.get?_set_of_ne (by decide) _ _).trans hupdate

/-! ## What is owed -/

/-- No result comes after a line that says that the board is ready. -/
def Orderly (bench : Bench α) (line : List (Str × Option (Job α))) : Prop :=
  line.Pairwise fun a b ↦ Shows readyMarker a.1 → ¬ Shows bench.resultMarker b.1

/-- The commands of the results on the line. -/
def results (bench : Bench α) (line : List (Str × Option (Job α))) : Multiset (Option (Job α)) :=
  (line.filter fun entry ↦ Shows bench.resultMarker entry.1).map Prod.snd

/-- The command that the board has not answered yet. -/
def Board.owed : Board α → Multiset (Option (Job α))
  | .busy job => {some job}
  | _ => 0

namespace System

/-- The commands that the board will answer. -/
def pending (s : System α) : Multiset (Option (Job α)) :=
  (s.commands.map some : List _) + s.board.owed

/-- The commands whose results the runner has not read. -/
def owed (bench : Bench α) (s : System α) : Multiset (Option (Job α)) :=
  s.pending + results bench s.line

/-- What holds where the runner is. -/
def Expects (bench : Bench α) (skipFlash : Bool) (s : System α) : Prop :=
  match s.place with
  | .flash => True
  | .openPort => skipFlash = false → s.pending = 0
  | .reset => skipFlash = false → s.pending = 0
  | .waitReady => s.pending = 0 ∧ Orderly bench s.line
  | .write => s.owed bench = 0
  | .waitResult => ∃ job, s.job = some job ∧ s.owed bench ≤ {some job}
  | .recover => s.values.get? "status".toList = some "timeout".toList
  | .waitRecovered => s.pending = 0 ∧ Orderly bench s.line ∧
      s.values.get? "status".toList = some "timeout".toList
  | .record => s.owed bench = 0 ∧
      (s.values.get? "status".toList = some "timeout".toList ∨ s.emitter = s.job)
  | .done => True
  | .failed => True

/-- Every row is right. -/
def Attributed (s : System α) : Prop := ∀ row ∈ s.rows, row.Attributed

instance [DecidableEq α] (s : System α) : Decidable s.Attributed :=
  inferInstanceAs (Decidable (∀ row ∈ s.rows, row.Attributed))

/-- What a run keeps up. -/
structure Sound (bench : Bench α) (skipFlash : Bool) (s : System α) : Prop where
  rows : s.Attributed
  expects : s.Expects bench skipFlash

/-- When the runner begins to wait for `[BENCH_READY]` no such line comes before a result. -/
def Prompt (bench : Bench α) (s : System α) : Event → Prop
  | .runner _ => s.place = .reset ∨ s.place = .recover → Orderly bench s.line
  | _ => True

/-- Every event of the schedule is so. -/
def PromptAll (int : Str → Option ℤ) (bench : Bench α) (skipFlash : Bool) (iterations : ℕ)
    (s : System α) : List Event → Prop
  | [] => True
  | event :: events => s.Prompt bench event ∧
      (s.step int bench skipFlash iterations event).PromptAll int bench skipFlash iterations events

instance (bench : Bench α) (line : List (Str × Option (Job α))) : Decidable (Orderly bench line) :=
  inferInstanceAs (Decidable (List.Pairwise _ line))

instance (bench : Bench α) (s : System α) : (event : Event) → Decidable (s.Prompt bench event)
  | .runner _ => inferInstanceAs (Decidable (_ → Orderly bench s.line))
  | .take => .isTrue trivial
  | .reject _ => .isTrue trivial
  | .lose => .isTrue trivial
  | .print _ => .isTrue trivial
  | .reboot => .isTrue trivial

instance decidablePromptAll (int : Str → Option ℤ) (bench : Bench α) (skipFlash : Bool)
    (iterations : ℕ) : (s : System α) → (events : List Event) →
      Decidable (s.PromptAll int bench skipFlash iterations events)
  | _, [] => .isTrue trivial
  | s, event :: events =>
      have := decidablePromptAll int bench skipFlash iterations
        (s.step int bench skipFlash iterations event) events
      inferInstanceAs (Decidable (_ ∧ _))

/-! ## The board -/

variable {s s' : System α} {skipFlash : Bool} {iterations : ℕ} {input : Input} {event : Event}

/-- What the board leaves alone, and what it does not add to. -/
structure Outside (bench : Bench α) (s s' : System α) : Prop where
  place : s'.place = s.place
  job : s'.job = s.job
  values : s'.values = s.values
  emitter : s'.emitter = s.emitter
  rows : s'.rows = s.rows
  pending : s'.pending ≤ s.pending
  owed : s'.owed bench ≤ s.owed bench
  orderly : s.pending = 0 → Orderly bench s.line → Orderly bench s'.line

theorem Outside.refl (s : System α) : s.Outside bench s :=
  ⟨rfl, rfl, rfl, rfl, rfl, le_rfl, le_rfl, fun _ ↦ id⟩

/-- Nothing more is owed than before, so what is expected still is. -/
theorem Expects.outside (hs : s.Expects bench skipFlash) (h : s.Outside bench s') :
    s'.Expects bench skipFlash := by
  have hpending : s.pending = 0 → s'.pending = 0 := fun hzero ↦
    Multiset.le_zero.mp (hzero ▸ h.pending)
  have howed : s.owed bench = 0 → s'.owed bench = 0 := fun hzero ↦
    Multiset.le_zero.mp (hzero ▸ h.owed)
  rw [Expects, h.place, h.values, h.emitter, h.job]
  rw [Expects] at hs
  cases hplace : s.place <;> rw [hplace] at hs
  case flash => trivial
  case openPort => exact fun hflash ↦ hpending (hs hflash)
  case reset => exact fun hflash ↦ hpending (hs hflash)
  case waitReady => exact ⟨hpending hs.1, h.orderly hs.1 hs.2⟩
  case write => exact howed hs
  case waitResult =>
      obtain ⟨job, hjob, hle⟩ := hs
      exact ⟨job, hjob, h.owed.trans hle⟩
  case recover => exact hs
  case waitRecovered => exact ⟨hpending hs.1, h.orderly hs.1 hs.2.1, hs.2.2⟩
  case record => exact ⟨howed hs.1, hs.2⟩
  case done => trivial
  case failed => trivial

theorem results_append (line : List (Str × Option (Job α))) (entry : Str × Option (Job α)) :
    results bench (line ++ [entry]) =
      results bench line + if Shows bench.resultMarker entry.1 then {entry.2} else 0 := by
  rw [results, List.filter_append, List.map_append, ← Multiset.coe_add]
  congr 1
  by_cases h : Shows bench.resultMarker entry.1
  · rw [if_pos h, List.filter_cons_of_pos (by simpa using h)]
    rfl
  · rw [if_neg h, List.filter_cons_of_neg (by simpa using h)]
    rfl

/-- A line that is no result leaves the line orderly. -/
theorem orderly_append {line : List (Str × Option (Job α))} {entry : Str × Option (Job α)}
    (hline : Orderly bench line) (h : ¬ Shows bench.resultMarker entry.1) :
    Orderly bench (line ++ [entry]) := by
  refine List.pairwise_append.mpr ⟨hline, List.pairwise_singleton _ _, fun a _ b hb _ ↦ ?_⟩
  rw [List.mem_singleton] at hb
  exact hb ▸ h

theorem pending_cons (s : System α) (job : Job α) (commands : List (Job α)) (board : Board α) :
    ({ s with commands := job :: commands, board := board } : System α).pending =
      {some job} + ({ s with commands := commands, board := board } : System α).pending := by
  simp only [pending, List.map_cons, ← Multiset.cons_coe, ← Multiset.singleton_add, add_assoc]

theorem outside_take (s : System α) :
    s.Outside bench (s.step int bench skipFlash iterations .take) := by
  rw [step]
  split
  case h_1 job commands hboard hcommands =>
    have hpending : ({ s with board := .busy job, commands := commands } : System α).pending =
        s.pending := by
      simp only [pending, hboard, hcommands, Board.owed, List.map_cons, ← Multiset.cons_coe,
        ← Multiset.singleton_add, add_zero]
      exact add_comm _ _
    refine ⟨rfl, rfl, rfl, rfl, rfl, hpending.le, ?_, fun _ ↦ id⟩
    rw [owed, hpending, owed]
  case h_2 => exact .refl s

theorem outside_reject (s : System α) (line : Str) :
    s.Outside bench (s.step int bench skipFlash iterations (.reject line)) := by
  rw [step]
  split
  case h_1 job commands hboard hcommands =>
    have hpending : s.pending =
        {some job} + ({ s with commands := commands } : System α).pending := by
      rw [← pending_cons s job commands s.board, ← hcommands]
    split
    · exact .refl s
    · refine ⟨rfl, rfl, rfl, rfl, rfl, ?_, ?_, fun hzero ↦ ?_⟩
      · rw [hpending]
        exact Multiset.le_add_left _ _
      · rw [owed, owed, results_append, hpending]
        change ({ s with commands := commands } : System α).pending + _ ≤ _
        rw [add_comm {some job}, add_assoc, add_comm {some job}]
        refine add_le_add le_rfl (add_le_add le_rfl ?_)
        split
        · exact le_rfl
        · exact Multiset.zero_le _
      · rw [hpending] at hzero
        exact absurd hzero (by simp)
  case h_2 => exact .refl s

theorem outside_lose (s : System α) :
    s.Outside bench (s.step int bench skipFlash iterations .lose) := by
  have hpending : (s.step int bench skipFlash iterations .lose).pending ≤ s.pending :=
    add_le_add (Multiset.coe_le.mpr ((List.tail_sublist _).map some).subperm) le_rfl
  exact ⟨rfl, rfl, rfl, rfl, rfl, hpending, add_le_add hpending le_rfl, fun _ ↦ id⟩

theorem outside_reboot (s : System α) : s.Outside bench s.reboot := by
  have hpending : s.reboot.pending ≤ s.pending := Multiset.zero_le _
  exact ⟨rfl, rfl, rfl, rfl, rfl, hpending, add_le_add hpending le_rfl, fun _ ↦ id⟩

/-- What the board may print. -/
theorem print_cases {board board' : Board α} {line : Str}
    (h : board.print bench line = some board') :
    (Shows bench.resultMarker line ∧ ∃ job, board = .busy job ∧ board' = .answered job) ∨
    (¬ Shows bench.resultMarker line ∧ board'.owed ≤ board.owed) := by
  unfold Board.print at h
  by_cases hresult : Shows bench.resultMarker line
  · rw [if_pos hresult] at h
    by_cases hready : Shows readyMarker line
    · rw [if_pos hready] at h
      exact nomatch h
    rw [if_neg hready] at h
    cases board with
    | busy job =>
        cases h
        exact .inl ⟨hresult, job, rfl, rfl⟩
    | booting => exact nomatch h
    | idle => exact nomatch h
    | answered job => exact nomatch h
  · refine .inr ⟨hresult, ?_⟩
    rw [if_neg hresult] at h
    by_cases hready : Shows readyMarker line
    · rw [if_pos hready] at h
      cases board with
      | booting =>
          cases h
          exact le_rfl
      | answered job =>
          cases h
          exact le_rfl
      | idle => exact nomatch h
      | busy job => exact nomatch h
    · rw [if_neg hready] at h
      cases h
      exact le_rfl

theorem outside_print (s : System α) (line : Str) :
    s.Outside bench (s.step int bench skipFlash iterations (.print line)) := by
  rw [step]
  split
  case h_2 => exact .refl s
  case h_1 board hprint =>
    obtain ⟨hresult, job, hboard, rfl⟩ | ⟨hresult, hboard⟩ := print_cases hprint
    · -- what the board has owed is on the line now
      have hpending : s.pending =
          {some job} + ({ s with board := .answered job } : System α).pending := by
        simp only [pending, hboard, Board.owed, add_zero]
        exact add_comm _ _
      refine ⟨rfl, rfl, rfl, rfl, rfl, ?_, ?_, fun hzero ↦ ?_⟩
      · rw [hpending]
        exact Multiset.le_add_left _ _
      · rw [owed, owed, results_append, if_pos hresult, hpending, hboard]
        change ({ s with board := .answered job } : System α).pending + _ ≤ _
        rw [add_comm {some job}, add_assoc, add_comm {some job}]
        exact le_rfl
      · rw [hpending] at hzero
        exact absurd hzero (by simp)
    · have hpending : ({ s with board := board } : System α).pending ≤ s.pending :=
        add_le_add le_rfl hboard
      refine ⟨rfl, rfl, rfl, rfl, rfl, hpending, ?_, fun _ horderly ↦
        orderly_append horderly hresult⟩
      rw [owed, owed, results_append, if_neg hresult, add_zero]
      exact add_le_add hpending le_rfl

/-! ## The runner -/

/-- What follows the line that says that the board is ready are no results. -/
theorem owed_readReady (next : Place) (hpending : s.pending = 0) (hline : Orderly bench s.line) :
    (s.readReady next).pending = 0 ∧
      ((s.readReady next).place = next ∧ (s.readReady next).owed bench = 0 ∨
        (s.readReady next).place = s.place ∧ Orderly bench (s.readReady next).line) := by
  rw [readReady]
  split
  case h_1 => exact ⟨hpending, .inr ⟨rfl, hline⟩⟩
  case h_2 line emitter rest hcons =>
    rw [hcons, Orderly, List.pairwise_cons] at hline
    refine ⟨hpending, ?_⟩
    by_cases hready : Shows readyMarker line
    · refine .inl ⟨if_pos hready, ?_⟩
      have hresults : results bench rest = 0 := by
        rw [results, Multiset.coe_eq_zero, List.map_eq_nil_iff, List.filter_eq_nil_iff]
        intro entry hentry
        simpa using hline.1 entry hentry hready
      change s.pending + results bench rest = 0
      rw [hpending, hresults, add_zero]
    · exact .inr ⟨if_neg hready, hline.2⟩

/-- Waiting leaves the rest alone. -/
theorem readReady_eq (s : System α) (next : Place) : (s.readReady next).rows = s.rows ∧
    (s.readReady next).values = s.values := by
  rw [readReady]
  split
  · exact ⟨rfl, rfl⟩
  · exact ⟨rfl, rfl⟩

theorem rows_readResult (s : System α) : (s.readResult bench).rows = s.rows := by
  rw [readResult]
  split
  · rfl
  · dsimp only
    split
    · rfl
    · rfl

theorem results_cons (entry : Str × Option (Job α)) (line : List (Str × Option (Job α))) :
    results bench (entry :: line) =
      (if Shows bench.resultMarker entry.1 then {entry.2} else 0) + results bench line := by
  rw [results, results]
  by_cases h : Shows bench.resultMarker entry.1
  · rw [if_pos h, List.filter_cons_of_pos (by simpa using h), List.map_cons, ← Multiset.cons_coe,
      Multiset.singleton_add]
  · rw [if_neg h, List.filter_cons_of_neg (by simpa using h), zero_add]

theorem parseBoardValues_isSome {marker line : Str} :
    (parseBoardValues marker (Str.strip line)).isSome ↔ Shows marker line := by
  rw [parseBoardValues, Shows]
  split <;> simp [*]

/-- The result that the runner reads is the one that is owed. -/
theorem Expects.readResult {job : Job α} (hplace : s.place = .waitResult) (hjob : s.job = some job)
    (howed : s.owed bench ≤ {some job}) : (s.readResult bench).Expects bench skipFlash := by
  rw [System.readResult]
  split
  case h_1 =>
    rw [Expects, hplace]
    exact ⟨job, hjob, howed⟩
  case h_2 line emitter rest hcons =>
    have hsome : (parseBoardValues bench.resultMarker (Str.strip line)).isSome ↔
        Shows bench.resultMarker line := parseBoardValues_isSome
    rw [owed, hcons, results_cons] at howed
    dsimp only
    split
    case h_1 values hparse =>
      rw [if_pos (hsome.mp (hparse ▸ rfl)), add_left_comm] at howed
      have hemitter : emitter = some job := by
        refine Multiset.mem_singleton.mp (Multiset.mem_of_le howed ?_)
        exact Multiset.mem_add.mpr (.inl (Multiset.mem_singleton_self _))
      have hrest : s.pending + results bench rest = 0 := by
        rw [hemitter] at howed
        have hle := (add_le_add_iff_left _).mp (howed.trans_eq (add_zero _).symm)
        exact Multiset.le_zero.mp hle
      exact ⟨hrest, .inr (hemitter.trans hjob.symm)⟩
    case h_2 hparse =>
      rw [if_neg (fun hshows ↦ by simpa [hparse] using hsome.mpr hshows), zero_add] at howed
      rw [Expects, hplace]
      exact ⟨job, hjob, howed⟩

/-- The attempts that are cancelled have rows that say so. -/
theorem marked_cancelledRows {job : Job α} {rows : List (Row α)}
    (h : s.cancelledRows int bench iterations job = some rows) : ∀ row ∈ rows, row.Marked := by
  rw [cancelledRows] at h
  split at h
  · intro row hrow
    obtain ⟨attempt, -, hattempt⟩ := (exists_of_mem_mapM h).2 row hrow
    exact attemptRow_marked hattempt rfl (.inr rfl)
  · cases h
    exact nofun

theorem attributed_attemptRows {job : Job α} {rows : List (Row α)}
    (h : s.attemptRows int bench iterations job = some rows)
    (hs : s.values.get? "status".toList = some "timeout".toList ∨ s.emitter = some job) :
    ∀ row ∈ rows, row.Attributed := by
  obtain ⟨row, hrow, h⟩ := Option.bind_eq_some_iff.mp h
  obtain ⟨cancelled, hcancelled, h⟩ := Option.bind_eq_some_iff.mp h
  cases h
  intro row' hrow'
  rcases List.mem_cons.mp hrow' with rfl | hrow'
  · rcases hs with hvalues | hemitter
    · exact .inl (attemptRow_marked hrow hvalues (.inl rfl))
    · obtain ⟨hjob, hrowEmitter, -⟩ := attemptRow_eq hrow
      exact .inr (by rw [hrowEmitter, hemitter, hjob])
  · exact .inl (marked_cancelledRows hcancelled row' hrow')

theorem Sound.record (hs : s.Sound bench skipFlash) (hplace : s.place = .record) {job : Job α}
    (hjob : s.job = some job) : (s.record int bench iterations job).Sound bench skipFlash := by
  have hexpects := hs.expects
  rw [Expects, hplace, hjob] at hexpects
  obtain ⟨howed, hvalues⟩ := hexpects
  rw [System.record]
  split
  case h_1 => exact ⟨hs.rows, trivial⟩
  case h_2 rows hrows =>
    have hall : ∀ row ∈ s.rows ++ rows, row.Attributed := by
      intro row hrow
      rcases List.mem_append.mp hrow with hrow | hrow
      · exact hs.rows row hrow
      · exact attributed_attemptRows hrows hvalues row hrow
    split
    · exact ⟨hall, howed⟩
    · exact ⟨hall, howed⟩

theorem Sound.runnerStep (hs : s.Sound bench skipFlash) (hprompt : s.Prompt bench (.runner input)) :
    (s.runnerStep int bench skipFlash iterations input).Sound bench skipFlash := by
  have hexpects := hs.expects
  unfold System.runnerStep
  rw [Expects] at hexpects
  cases hplace : s.place <;> rw [hplace] at hexpects <;> dsimp only at hexpects ⊢
  case flash =>
    split
    case isTrue hskip => exact ⟨hs.rows, fun hflash ↦ absurd (hskip.symm.trans hflash) (by decide)⟩
    case isFalse => exact ⟨hs.rows, fun _ ↦ rfl⟩
  case openPort => exact ⟨hs.rows, hexpects⟩
  case reset =>
    have hline := hprompt (.inl hplace)
    split
    · split
      · exact ⟨hs.rows, trivial⟩
      · exact ⟨hs.rows, rfl, hline⟩
    case isFalse hflash => exact ⟨hs.rows, hexpects (Bool.eq_false_of_not_eq_true hflash), hline⟩
  case waitReady =>
    split
    · exact ⟨hs.rows, trivial⟩
    · obtain ⟨hrows, -⟩ := readReady_eq s .write
      refine ⟨fun row hrow ↦ hs.rows row (hrows ▸ hrow), ?_⟩
      obtain ⟨hpending, ⟨hnext, howed⟩ | ⟨hstay, hline⟩⟩ :=
        owed_readReady .write hexpects.1 hexpects.2
      · rw [Expects, hnext]
        exact howed
      · rw [Expects, hstay, hplace]
        exact ⟨hpending, hline⟩
  case write =>
    cases hjob : s.job with
    | none => exact ⟨hs.rows, trivial⟩
    | some job =>
        refine ⟨hs.rows, job, hjob, ?_⟩
        have hcommands : ((s.commands ++ [job]).map some : Multiset (Option (Job α))) =
            (s.commands.map some : List _) + {some job} := by
          rw [List.map_append, ← Multiset.coe_add]
          rfl
        change ((s.commands ++ [job]).map some : Multiset (Option (Job α))) + s.board.owed +
          results bench s.line ≤ _
        rw [hcommands, add_right_comm _ {some job}, add_right_comm _ {some job}]
        exact (congrArg (· + {some job}) hexpects).le.trans_eq (zero_add _)
  case waitResult =>
    obtain ⟨job, hjob, howed⟩ := hexpects
    split
    · exact ⟨hs.rows, get?_timeoutValues s.progress⟩
    · refine ⟨fun row hrow ↦ hs.rows row ?_, Expects.readResult hplace hjob howed⟩
      rwa [rows_readResult] at hrow
  case recover =>
    have hline := hprompt (.inr hplace)
    split
    · exact ⟨hs.rows, trivial⟩
    · exact ⟨hs.rows, rfl, hline, hexpects⟩
  case waitRecovered =>
    split
    · exact ⟨hs.rows, trivial⟩
    · obtain ⟨hrows, hvalues⟩ := readReady_eq s .record
      refine ⟨fun row hrow ↦ hs.rows row (hrows ▸ hrow), ?_⟩
      obtain ⟨hpending, ⟨hnext, howed⟩ | ⟨hstay, hline⟩⟩ :=
        owed_readReady .record hexpects.1 hexpects.2.1
      · rw [Expects, hnext, hvalues]
        exact ⟨howed, .inl hexpects.2.2⟩
      · rw [Expects, hstay, hplace, hvalues]
        exact ⟨hpending, hline, hexpects.2.2⟩
  case record =>
    cases hjob : s.job with
    | none => exact hs
    | some job => exact hs.record hplace hjob
  case done => exact ⟨hs.rows, by rw [Expects, hplace]; trivial⟩
  case failed => exact ⟨hs.rows, by rw [Expects, hplace]; trivial⟩

theorem Sound.step (hs : s.Sound bench skipFlash) (hprompt : s.Prompt bench event) :
    (s.step int bench skipFlash iterations event).Sound bench skipFlash := by
  have houtside : ∀ s' : System α, s.Outside bench s' → s'.Sound bench skipFlash := fun s' h ↦
    ⟨fun row hrow ↦ hs.rows row (h.rows ▸ hrow), hs.expects.outside h⟩
  cases event with
  | take => exact houtside _ (outside_take s)
  | reject line => exact houtside _ (outside_reject s line)
  | lose => exact houtside _ (outside_lose s)
  | print line => exact houtside _ (outside_print s line)
  | reboot => exact houtside _ (outside_reboot s)
  | runner input => exact hs.runnerStep hprompt

theorem Sound.run {events : List Event} (hs : s.Sound bench skipFlash)
    (hprompt : s.PromptAll int bench skipFlash iterations events) :
    (s.run int bench skipFlash iterations events).Sound bench skipFlash := by
  induction events generalizing s with
  | nil => exact hs
  | cons event events ih => exact ih (hs.step hprompt.1) hprompt.2

/-- **Every row is right** in every run in which, whenever the runner begins to wait for the board
to be ready, no line that says so comes before a result that is still on the line. -/
theorem rows_attributed (int : Str → Option ℤ) (bench : Bench α) (skipFlash : Bool) (iterations : ℕ)
    (cases : List α) (board : Board α) (commands : List (Job α))
    (line : List (Str × Option (Job α)))
    (events : List Event)
    (hprompt : (init cases board commands line).PromptAll int bench skipFlash iterations events) :
    ((init cases board commands line).run int bench skipFlash iterations events).Attributed := by
  have hinit : (init cases board commands line).Sound bench skipFlash := ⟨nofun, trivial⟩
  exact (hinit.run hprompt).rows

/-- `int` of decimal digits. -/
def intOfDigits (text : Str) : Option ℤ :=
  if text ≠ [] ∧ text.all (fun c ↦ '0' ≤ c ∧ c ≤ '9') then
    some (text.foldl (fun n c ↦ 10 * n + (c.toNat - 48 : ℕ)) 0)
  else none

/-- Nothing has happened outside. -/
def quiet : Input := ⟨false, 0, false⟩

/-- The deadline has passed. -/
def late : Input := ⟨true, 0, false⟩

/-- The result for the first signature comes when the deadline has passed; that for the second one
comes in time. -/
theorem rows_attributed_signatures :
    ((init [⟨"ECDSA-P-256", 65, 32, 72⟩, ⟨"ML-DSA-44", 1312, 2560, 2420⟩] .idle [] []).run
      intOfDigits certificateBench true 1 [.runner quiet, .runner quiet, .runner quiet,
        .print "[BENCH_READY] mode=certificate-gen".toList, .runner quiet, .runner quiet, .take,
        .print "[BENCH_CERT_RESULT] status=success".toList, .runner late, .runner quiet,
        .print "[BENCH_READY] mode=certificate-gen".toList, .runner quiet, .runner quiet,
        .runner quiet,
        .runner quiet, .take, .print "[BENCH_CERT_RESULT] status=success".toList, .runner quiet,
        .runner quiet]).Attributed :=
  rows_attributed intOfDigits certificateBench true 1
    [⟨"ECDSA-P-256", 65, 32, 72⟩, ⟨"ML-DSA-44", 1312, 2560, 2420⟩] .idle [] []
    [.runner quiet, .runner quiet, .runner quiet,
      .print "[BENCH_READY] mode=certificate-gen".toList, .runner quiet, .runner quiet, .take,
      .print "[BENCH_CERT_RESULT] status=success".toList, .runner late, .runner quiet,
      .print "[BENCH_READY] mode=certificate-gen".toList, .runner quiet, .runner quiet,
      .runner quiet,
      .runner quiet, .take, .print "[BENCH_CERT_RESULT] status=success".toList, .runner quiet,
      .runner quiet]
    (by decide +kernel)

/-- A board that is ready. -/
def kemReady : Str := "[BENCH_READY] mode=kem-operations algorithms=9 backend=wolfssl".toList

/-- The first fields of a result for ML-KEM-512. -/
def kemResult : Str :=
  "[BENCH_KEM_RESULT] case_id=kembench__mlkem512 status=fail stage=keygen error=-173".toList

/-- The second result for ML-KEM-512 comes when the deadline has passed, and the line of the first
one that says that the board is ready has not been read.  The result becomes that of ML-KEM-768. -/
theorem not_rows_attributed :
    ¬ ((init [⟨"MLKEM512", 800, 768, 32⟩, ⟨"MLKEM768", 1184, 1088, 32⟩] .idle [] []).run intOfDigits
      kemBench true 2 [.runner quiet, .runner quiet, .runner quiet, .print kemReady, .runner quiet,
        .runner quiet, .take, .print kemResult, .print kemReady, .runner quiet, .runner quiet,
        .runner quiet, .take, .print kemResult, .runner late, .runner quiet, .print kemReady,
        .runner quiet, .runner quiet, .runner quiet, .runner quiet, .runner quiet]).Attributed := by
  decide +kernel

end System

end BoardCommands

end PeripheralBench.Runner

import PeripheralBench.Runner.Resume

/-!
# What a killed run keeps

The rows of the executions up to `last_completed_execution_order` are on disk after any number of
lives of the runner, as long as no life is killed while it rewrites an `attempts.csv` and has not
yet put back the rows that the file held (`runs_durable`).  The checkpoint itself is always safe,
since it is replaced and not rewritten.
-/

open PeripheralBench.Durable

namespace PeripheralBench.Runner

/-! ## The order of execution -/

theorem length_enumerate (jobs : List Job) : (enumerate jobs).length = jobs.length := by
  rw [enumerate, List.length_map, List.length_zipIdx]

theorem getElem?_enumerate (jobs : List Job) (i : ℕ) :
    (enumerate jobs)[i]? = jobs[i]?.map fun job ↦ (i + 1, job) := by
  rw [enumerate, List.getElem?_map, List.getElem?_zipIdx, Option.map_map, Nat.add_comm 1 i]
  rfl

theorem filter_lt_zipIdx (jobs : List Job) (n k : ℕ) :
    ((jobs.zipIdx k).map Prod.swap).filter (fun p ↦ decide (n < p.1)) =
      ((jobs.zipIdx k).map Prod.swap).drop (n + 1 - k) := by
  induction jobs generalizing k with
  | nil => rw [List.zipIdx_nil, List.map_nil, List.filter_nil, List.drop_nil]
  | cons job jobs ih =>
      rw [List.zipIdx_cons, List.map_cons]
      rcases lt_or_ge n k with hk | hk
      · rw [List.filter_cons_of_pos (by simpa using hk), ih,
          Nat.sub_eq_zero_of_le (Nat.succ_le_of_lt hk),
          Nat.sub_eq_zero_of_le (Nat.succ_le_succ hk.le), List.drop_zero, List.drop_zero]
      · rw [List.filter_cons_of_neg (by simpa using hk), ih, Nat.sub_add_comm hk,
          List.drop_succ_cons, Nat.add_sub_add_right]

theorem scheduledJobs_eq (d : Disk) : scheduledJobs d = (enumerate d.manifest).drop d.last :=
  filter_lt_zipIdx d.manifest d.last 1

/-- The next job is the one after the last that has been completed. -/
theorem next_job {jobs : List Job} {last : ℕ} {p : ℕ × Job} {rest : List (ℕ × Job)}
    (h : (enumerate jobs).drop last = p :: rest) :
    p.1 = last + 1 ∧ last < jobs.length ∧
      (enumerate jobs).take (last + 1) = (enumerate jobs).take last ++ [p] ∧
      (enumerate jobs).drop (last + 1) = rest := by
  have hget : (enumerate jobs)[last]? = some p := by
    rw [← List.head?_drop, h, List.head?_cons]
  have hlt : last < jobs.length :=
    length_enumerate jobs ▸ (List.getElem?_eq_some_iff.mp hget).1
  refine ⟨?_, hlt, ?_, ?_⟩
  · rw [getElem?_enumerate, List.getElem?_eq_getElem hlt] at hget
    exact congrArg Prod.fst (Option.some.inj hget).symm
  · rw [List.take_add_one, hget]
    rfl
  · rw [← List.drop_drop, h, List.drop_succ_cons, List.drop_zero]

/-! ## One file of the run directory -/

/-- What an operation does to the `attempts.csv` of a case. -/
def attemptsWrite (c : String) : FileOp → Option (Write AttemptRow)
  | .attempts c' w => if c' = c then some w else none
  | _ => none

@[simp] theorem attemptsWrite_self (c : String) (w : Write AttemptRow) :
    attemptsWrite c (.attempts c w) = some w := if_pos rfl

theorem eq_of_attemptsWrite {c : String} {o : FileOp} {w : Write AttemptRow}
    (h : attemptsWrite c o = some w) : o = .attempts c w := by
  cases o with
  | attempts c' w' =>
      obtain ⟨rfl, hw⟩ := Option.ite_none_right_eq_some.mp h
      exact congrArg _ (Option.some.inj hw)
  | _ => exact absurd h (Option.some_ne_none _).symm

theorem attemptsWrite_of_ne {c c' : String} (h : c' ≠ c) (w : Write AttemptRow) :
    attemptsWrite c (.attempts c' w) = none := if_neg h

theorem ne_of_attemptsWrite {c c' : String} {w : Write AttemptRow}
    (h : attemptsWrite c (.attempts c' w) = none) : c ≠ c' := by
  rintro rfl
  exact Option.some_ne_none w ((attemptsWrite_self c w).symm.trans h)

/-- The `attempts.csv` of a case. -/
def attemptsCsv (c : String) : Part disk (file AttemptRow) where
  get d := d.attempts c
  view := attemptsWrite c
  fragment f := f.attempt
  apply_of_some s h := eq_of_attemptsWrite h ▸ Function.update_self ..
  apply_of_none {o} s h := by
    cases o with
    | attempts c' w => exact Function.update_of_ne (ne_of_attemptsWrite h) ..
    | _ => rfl
  cut_of_some f s h := eq_of_attemptsWrite h ▸ Function.update_self ..
  cut_of_none {o} f s h := by
    cases o with
    | attempts c' w => exact Function.update_of_ne (ne_of_attemptsWrite h) ..
    | _ => rfl

/-! ## One turn of the loop -/

namespace Turn

variable {transferMode : Bool} (t : Turn)

/-- The operations of a turn on `handshakes.csv` and `transmissions.csv`. -/
def transferOps (transferMode : Bool) : List FileOp :=
  if transferMode then
    (rewrite (t.after.attempts t.job.caseId)).map (.handshakes t.job.caseId) ++
      (rewrite (t.after.transmissions t.job.caseId)).map (.transmissions t.job.caseId)
  else []

/-- The checkpoint that a turn writes. -/
def checkpoint : Checkpoint :=
  checkpointPayload t.executionOrder t.totalJobs t.job (t.bench.firmwareProfile t.job.caseId)

/-- The operations of a turn in their order. -/
theorem ops_eq : t.ops transferMode =
    (rewrite (t.after.attempts t.job.caseId)).map (.attempts t.job.caseId) ++
      (t.transferOps transferMode ++ [.writeTemporary t.checkpoint, .replace]) := by
  cases transferMode <;> simp [ops, writes, turnWrites, transferOps, checkpoint]

theorem mem_transferOps {o : FileOp} (h : o ∈ t.transferOps transferMode) :
    (∃ w, o = .handshakes t.job.caseId w) ∨ ∃ w, o = .transmissions t.job.caseId w := by
  cases transferMode with
  | false => exact absurd h List.not_mem_nil
  | true =>
      rcases List.mem_append.mp h with h | h
      · obtain ⟨w, -, rfl⟩ := List.mem_map.mp h
        exact .inl ⟨w, rfl⟩
      · obtain ⟨w, -, rfl⟩ := List.mem_map.mp h
        exact .inr ⟨w, rfl⟩

/-- Only the first operations of a turn are about an `attempts.csv`. -/
theorem attemptsWrite_of_mem {o : FileOp} (c : String)
    (h : o ∈ t.transferOps transferMode ++ [.writeTemporary t.checkpoint, .replace]) :
    attemptsWrite c o = none := by
  rcases List.mem_append.mp h with h | h
  · rcases t.mem_transferOps h with ⟨w, rfl⟩ | ⟨w, rfl⟩ <;> rfl
  · rcases List.mem_pair.mp h with rfl | rfl <;> rfl

theorem after_attempts_self :
    t.after.attempts t.job.caseId = t.memory.attempts t.job.caseId ++ [t.rows.1] :=
  Function.update_self ..

theorem after_attempts_of_ne {c : String} (hc : t.job.caseId ≠ c) :
    t.after.attempts c = t.memory.attempts c :=
  Function.update_of_ne hc.symm ..

/-- A turn rewrites the `attempts.csv` of its case. -/
theorem run_attempts (k : ℕ) (f : Fragment) (w : World) :
    (t.run transferMode k f w).disk.attempts t.job.caseId =
      (file AttemptRow).interrupted (rewrite (t.after.attempts t.job.caseId)) k f.attempt
        (w.disk.attempts t.job.caseId) := by
  have hview : ((rewrite (t.after.attempts t.job.caseId)).map (FileOp.attempts t.job.caseId)).map
      (attemptsCsv t.job.caseId).view = (rewrite (t.after.attempts t.job.caseId)).map some := by
    rw [List.map_map]
    exact List.map_congr_left fun w _ ↦ attemptsWrite_self _ w
  have h := (attemptsCsv t.job.caseId).get_interrupted_append hview
    (fun o (ho : o ∈ t.transferOps transferMode ++ _) ↦ t.attemptsWrite_of_mem t.job.caseId ho)
    k f w.disk
  rw [← ops_eq] at h
  exact h

/-- A turn leaves the `attempts.csv` of the other cases alone. -/
theorem run_attempts_of_ne {c : String} (hc : t.job.caseId ≠ c) (k : ℕ) (f : Fragment) (w : World) :
    (t.run transferMode k f w).disk.attempts c = w.disk.attempts c := by
  refine (attemptsCsv c).get_interrupted_of_none (fun o ho ↦ ?_) k f w.disk
  rw [ops_eq] at ho
  rcases List.mem_append.mp ho with ho | ho
  · obtain ⟨w, -, rfl⟩ := List.mem_map.mp ho
    exact attemptsWrite_of_ne hc w
  · exact t.attemptsWrite_of_mem c ho

theorem run_manifest (k : ℕ) (f : Fragment) (w : World) :
    (t.run transferMode k f w).disk.manifest = w.disk.manifest :=
  disk.interrupted_invariant (P := fun d ↦ d.manifest = w.disk.manifest)
    (fun o _ d hd ↦ by cases o <;> exact hd) (fun o _ d hd ↦ by cases o <;> exact hd) rfl

/-- The checkpoint is replaced by the last operation of a turn, and by no other. -/
theorem ops_eq_concat (transferMode : Bool) (t : Turn) :
    ∃ before, t.ops transferMode = before ++ [.replace] ∧
    ∀ o ∈ before, o ≠ .replace := by
  refine ⟨(rewrite (t.after.attempts t.job.caseId)).map (.attempts t.job.caseId) ++
    (t.transferOps transferMode ++ [.writeTemporary t.checkpoint]), ?_, fun o ho ↦ ?_⟩
  · rw [ops_eq, List.append_assoc, List.append_assoc]
    rfl
  · rcases List.mem_append.mp ho with ho | ho
    · obtain ⟨w, -, rfl⟩ := List.mem_map.mp ho
      exact nofun
    · rcases List.mem_append.mp ho with ho | ho
      · rcases t.mem_transferOps ho with ⟨w, rfl⟩ | ⟨w, rfl⟩ <;> exact nofun
      · rw [List.mem_singleton.mp ho]
        exact nofun

theorem run_checkpoint (k : ℕ) (f : Fragment) (w : World) :
    (t.run transferMode k f w).disk.checkpoint =
      if (t.ops transferMode).length ≤ k then t.checkpoint else w.disk.checkpoint := by
  change (disk.interrupted (t.ops transferMode) k f w.disk).checkpoint = _
  split
  case isTrue hk =>
    rw [disk.interrupted_of_length_le hk, ops_eq, ← List.append_assoc, disk.perform_append]
    rfl
  case isFalse hk =>
    obtain ⟨before, hops, hbefore⟩ := ops_eq_concat transferMode t
    refine disk.interrupted_invariant (P := fun d ↦ d.checkpoint = w.disk.checkpoint)
      (fun o ho d hd ↦ ?_) (fun o _ d hd ↦ by cases o <;> exact hd) rfl
    have hk' : k ≤ before.length := by
      rw [hops, List.length_append] at hk
      exact Nat.le_of_lt_succ (Nat.lt_of_not_le hk)
    rw [hops, List.take_append_of_le_length hk'] at ho
    cases o with
    | replace => exact absurd rfl (hbefore _ (List.mem_of_mem_take ho))
    | _ => exact hd

theorem finish_last (w : World) : (t.finish transferMode w).disk.last = t.executionOrder := by
  rw [Disk.last, finish, run_checkpoint, if_pos le_rfl]
  rfl

/-- The rows that the files held before a turn are there after it, if the turn is not killed before
it has put them back. -/
theorem subset_run_attempts {k : ℕ} {w : World} (hmemory : t.memory.attempts = w.disk.attempts)
    (hk : 0 < k → ∀ i < (w.disk.attempts t.job.caseId).length, i + 2 < k) (f : Fragment)
    (c : String) : w.disk.attempts c ⊆ (t.run transferMode k f w).disk.attempts c := by
  by_cases hc : t.job.caseId = c
  · subst hc
    rw [run_attempts]
    refine subset_interrupted_rewrite ?_ hk _
    rw [after_attempts_self, hmemory]
    exact List.prefix_append _ _
  · rw [t.run_attempts_of_ne hc]
    exact List.Subset.refl _

/-- After a whole turn memory and disk agree again. -/
theorem finish_attempts {w : World} (hmemory : t.memory.attempts = w.disk.attempts) :
    t.after.attempts = (t.finish transferMode w).disk.attempts := by
  funext c
  by_cases hc : t.job.caseId = c
  · subst hc
    rw [finish, run_attempts, (file AttemptRow).interrupted_of_length_le, perform_rewrite]
    rw [ops_eq, List.length_append, List.length_map]
    exact Nat.le_add_right _ _
  · rw [finish, t.run_attempts_of_ne hc, t.after_attempts_of_ne hc, hmemory]

/-- The rows of a job that has been committed are on disk. -/
theorem row_mem_run_attempts {k : ℕ} (hk : (t.ops transferMode).length ≤ k) (f : Fragment)
    (w : World) : t.rows.1 ∈ (t.run transferMode k f w).disk.attempts t.job.caseId := by
  rw [run_attempts, (file AttemptRow).interrupted_of_length_le, perform_rewrite,
    after_attempts_self]
  · exact List.mem_append_right _ (.head _)
  · rw [ops_eq, List.length_append, List.length_map] at hk
    exact (Nat.le_add_right _ _).trans hk

/-- A whole turn puts back what its `attempts.csv` held. -/
theorem lt_length_ops {i : ℕ} (hi : i < (t.memory.attempts t.job.caseId).length) :
    i + 2 < (t.ops transferMode).length := by
  rw [ops_eq, List.length_append, List.length_map, length_rewrite, after_attempts_self,
    List.length_append]
  omega

theorem cost_le (m : ℕ) : t.cost transferMode m ≤ (t.ops transferMode).length := by
  conv_rhs => rw [ops, ← List.take_append_drop m (t.writes transferMode), List.flatten_append,
    List.length_append]
  exact Nat.le_add_right _ _

end Turn

/-! ## The invariant -/

/-- What has been recorded in the run directory, and what of it is there. -/
structure Kept (w : World) : Prop where
  /-- The executions that have been committed are those up to the checkpoint. -/
  committed : (w.recorded.filter (·.committed)).map (fun e ↦ (e.executionOrder, e.job)) =
    (enumerate w.disk.manifest).take w.disk.last
  last_le : w.disk.last ≤ w.disk.manifest.length
  /-- Their rows are on disk. -/
  attempts : ∀ e ∈ w.recorded, e.committed = true → e.row ∈ w.disk.attempts e.job.caseId
  /-- A row tells which job it is about. -/
  scheduleIndex : ∀ e ∈ w.recorded, e.row.scheduleIndex = e.job.sequence

theorem Turn.rows_scheduleIndex (t : Turn) : t.rows.1.scheduleIndex = t.job.sequence := by
  rw [rows, execute]
  split <;> rfl

/-- A turn of the loop. -/
theorem Kept.turn {transferMode : Bool} {t : Turn} {w : World} {rest : List (ℕ × Job)} (hw : Kept w)
    (hmemory : t.memory.attempts = w.disk.attempts)
    (hnext : (enumerate w.disk.manifest).drop w.disk.last = (t.executionOrder, t.job) :: rest)
    {k : ℕ} (hk : 0 < k → ∀ i < (w.disk.attempts t.job.caseId).length, i + 2 < k) (f : Fragment) :
    Kept (t.run transferMode k f w) := by
  obtain ⟨horder, hlast, htake, -⟩ := next_job hnext
  have hsubset (c : String) : w.disk.attempts c ⊆ (t.run transferMode k f w).disk.attempts c :=
    t.subset_run_attempts hmemory hk f c
  have hcheckpoint : (t.run transferMode k f w).disk.checkpoint = _ := t.run_checkpoint k f w
  have hrecorded : (t.run transferMode k f w).recorded = w.recorded ∨
      (t.run transferMode k f w).recorded = w.recorded ++ [t.execution transferMode k] := by
    by_cases hcost : t.cost transferMode 1 ≤ k
    · exact .inr (if_pos hcost)
    · exact .inl (if_neg hcost)
  have hindex : ∀ e ∈ (t.run transferMode k f w).recorded,
      e.row.scheduleIndex = e.job.sequence := by
    intro e he
    rcases hrecorded with h | h
    · exact hw.scheduleIndex e (h ▸ he)
    · rcases List.mem_append.mp (h ▸ he) with he | he
      · exact hw.scheduleIndex e he
      · exact List.mem_singleton.mp he ▸ t.rows_scheduleIndex
  by_cases hdone : (t.ops transferMode).length ≤ k
  · -- the turn commits its execution
    rw [if_pos hdone] at hcheckpoint
    have hlast' : (t.run transferMode k f w).disk.last = w.disk.last + 1 :=
      (congrArg Checkpoint.lastCompletedExecutionOrder hcheckpoint).trans horder
    have hrecorded : (t.run transferMode k f w).recorded =
        w.recorded ++ [t.execution transferMode k] := if_pos ((t.cost_le 1).trans hdone)
    have hcommitted : (t.execution transferMode k).committed = true := decide_eq_true hdone
    refine ⟨?_, ?_, ?_, hindex⟩
    · rw [hrecorded, List.filter_append, List.filter_cons_of_pos hcommitted, List.map_append,
        hw.committed, t.run_manifest, hlast', htake]
      rfl
    · rw [hlast', t.run_manifest]
      exact hlast
    · intro e he hcommitted
      rcases List.mem_append.mp (hrecorded ▸ he) with he | he
      · exact hsubset _ (hw.attempts e he hcommitted)
      · rw [List.mem_singleton.mp he]
        exact t.row_mem_run_attempts hdone f w
  · -- the turn is killed before the checkpoint is replaced
    rw [if_neg hdone] at hcheckpoint
    have hlast' : (t.run transferMode k f w).disk.last = w.disk.last :=
      congrArg Checkpoint.lastCompletedExecutionOrder hcheckpoint
    have hcommitted : (t.execution transferMode k).committed = false := decide_eq_false hdone
    refine ⟨?_, ?_, ?_, hindex⟩
    · rw [t.run_manifest, hlast', ← hw.committed]
      rcases hrecorded with h | h
      · rw [h]
      · rw [h, List.filter_append,
          List.filter_cons_of_neg (by rw [hcommitted]; exact Bool.false_ne_true),
          List.filter_nil, List.append_nil]
    · rw [hlast', t.run_manifest]
      exact hw.last_le
    · intro e he hc
      rcases hrecorded with h | h
      · exact hsubset _ (hw.attempts e (h ▸ he) hc)
      · rcases List.mem_append.mp (h ▸ he) with he | he
        · exact hsubset _ (hw.attempts e he hc)
        · rw [List.mem_singleton.mp he, hcommitted] at hc
          exact absurd hc Bool.false_ne_true

/-! ## Lives -/

/-- A turn that is killed before its first operation changes no `attempts.csv`. -/
theorem Turn.run_zero_attempts {transferMode : Bool} (t : Turn) (f : Fragment) (w : World)
    (c : String) :
    (t.run transferMode 0 f w).disk.attempts c = w.disk.attempts c := by
  by_cases hc : t.job.caseId = c
  · subst hc
    rw [run_attempts]
    rfl
  · exact t.run_attempts_of_ne hc 0 f w

theorem Kept.attemptLoop {transferMode : Bool} {bench : Bench} {f : Fragment}
    {jobs : List (ℕ × Job)}
    {totalJobs n k : ℕ} {memory : Memory} {w : World} (hw : Kept w)
    (hmemory : memory.attempts = w.disk.attempts)
    (hjobs : (enumerate w.disk.manifest).drop w.disk.last = jobs)
    (hk : ∀ p, jobs[n]? = some p → 0 < k →
      ∀ i < ((attemptLoop transferMode bench totalJobs f jobs n 0 memory w).disk.attempts
        p.2.caseId).length, i + 2 < k) :
    Kept (attemptLoop transferMode bench totalJobs f jobs n k memory w) := by
  induction jobs generalizing n memory w with
  | nil => exact hw
  | cons p jobs ih =>
      obtain ⟨order, job⟩ := p
      let t := Turn.mk bench totalJobs memory order job
      cases n with
      | zero =>
          refine Kept.turn (t := t) hw hmemory hjobs (fun hpos i hi ↦ hk _ rfl hpos i ?_) f
          exact (t.run_zero_attempts f w _).symm ▸ hi
      | succ n =>
          have hkept : Kept (t.finish transferMode w) :=
            hw.turn (t := t) hmemory hjobs
              (fun _ i hi ↦ t.lt_length_ops ((congrFun hmemory _).symm ▸ hi)) _
          refine ih hkept (t.finish_attempts hmemory) ?_ hk
          obtain ⟨horder, -, -, hdrop⟩ := next_job hjobs
          rw [t.finish_last, Turn.finish, t.run_manifest]
          exact (congrArg (fun i ↦ (enumerate w.disk.manifest).drop i) horder).trans hdrop

/-- A schedule on which nothing has been completed can be replaced by any other. -/
theorem Kept.replan {w : World} (hw : Kept w) (hlast : canReplan w.disk) (manifest : List Job) :
    Kept { w with disk := { w.disk with manifest := manifest } } where
  committed := by
    have h := hw.committed
    rw [show w.disk.last = 0 from hlast] at h
    exact h.trans (by rw [show w.disk.last = 0 from hlast]; rfl)
  last_le := (show w.disk.last = 0 from hlast).symm ▸ Nat.zero_le _
  attempts := hw.attempts
  scheduleIndex := hw.scheduleIndex

/-- The life is not killed while it rewrites an `attempts.csv` and before it has put back the rows
that the file held when it began to. -/
def Spares (transferMode : Bool) (w : World) (l : Life) : Prop :=
  match l.stop with
  | .planning _ => True
  | .loop n k f => ∀ p, (scheduledJobs (plan l.bench w.disk))[n]? = some p → 0 < k →
      ∀ i < ((live transferMode w { l with stop := .loop n 0 f }).disk.attempts p.2.caseId).length,
        i + 2 < k

theorem Kept.live {transferMode : Bool} {w : World} {l : Life} (hw : Kept w)
    (h : Spares transferMode w l) : Kept (live transferMode w l) := by
  obtain ⟨bench, stop⟩ := l
  have hplan : Kept { w with disk := plan bench w.disk } := by
    rw [plan]
    split
    case isTrue hlast => exact hw.replan hlast _
    case isFalse => exact hw
  cases stop with
  | planning manifest =>
      rw [Runner.live]
      dsimp only
      split
      case isTrue hlast => exact hw.replan hlast _
      case isFalse => exact hw
  | loop n k f => exact hplan.attemptLoop rfl (scheduledJobs_eq _).symm h

theorem kept_fresh (schedule : Schedule) : Kept (fresh schedule) where
  committed := rfl
  last_le := Nat.zero_le _
  attempts := nofun
  scheduleIndex := nofun

/-! ## Durability -/

/-- The rows of all executions up to the checkpoint are on disk. -/
def Durable (w : World) : Prop :=
  w.disk.last ≤ w.disk.manifest.length ∧
    ∀ p ∈ enumerate w.disk.manifest, p.1 ≤ w.disk.last →
      ∃ e ∈ w.recorded, e.committed = true ∧ e.executionOrder = p.1 ∧ e.job = p.2 ∧
        e.row.scheduleIndex = p.2.sequence ∧ e.row ∈ w.disk.attempts p.2.caseId

theorem Kept.durable {w : World} (hw : Kept w) : Durable w := by
  refine ⟨hw.last_le, fun p hp hlast ↦ ?_⟩
  have hmem : p ∈ (enumerate w.disk.manifest).take w.disk.last := by
    obtain ⟨i, hi⟩ := List.mem_iff_getElem?.mp hp
    obtain ⟨job, -, rfl⟩ := Option.map_eq_some_iff.mp ((getElem?_enumerate _ i).symm.trans hi)
    refine List.mem_iff_getElem?.mpr ⟨i, ?_⟩
    rw [List.getElem?_take_of_lt (Nat.lt_of_succ_le hlast), hi]
  rw [← hw.committed] at hmem
  obtain ⟨e, he, rfl⟩ := List.mem_map.mp hmem
  obtain ⟨he, hcommitted⟩ := List.mem_filter.mp he
  exact ⟨e, he, hcommitted, rfl, rfl, hw.scheduleIndex e he, hw.attempts e he hcommitted⟩

/-- A run of the runner loses no completed execution, if none of its lives is killed while rows of
an `attempts.csv` are missing. -/
theorem runs_durable (transferMode : Bool) (schedule : Schedule) (ls : List Life)
    (h : Along (live transferMode) (Spares transferMode) (fresh schedule) ls) :
    Durable (runs transferMode schedule ls) :=
  (lives_invariant (fun _ _ hw hl ↦ Kept.live hw hl) (kept_fresh schedule) h).durable

/-- The first attempt is committed, and the second life is killed when it has opened `attempts.csv`
for the second one and written nothing. -/
theorem not_durable : ¬ Durable (runs false .twoAttempts [.steady 1 0, .steady 0 1]) := by
  intro h
  obtain ⟨e, -, -, -, -, -, hrow⟩ := h.2 (1, .session ⟨1, "case", 1, 1, 0, 1⟩) (.head _) (by decide)
  have hempty : (runs false .twoAttempts [.steady 1 0, .steady 0 1]).disk.attempts "case" = [] :=
    rfl
  exact List.not_mem_nil (hempty ▸ hrow)

/-- The second life is killed as soon as it has put back the row of the first attempt. -/
theorem runs_durable_two : Durable (runs false .twoAttempts [.steady 1 0, .steady 0 3]) :=
  runs_durable false .twoAttempts [.steady 1 0, .steady 0 3]
    ⟨fun _ _ h ↦ absurd h (by decide), ⟨fun p hp _ i hi ↦ by
      obtain rfl := Option.some.inj hp
      have hone : i < 1 := hi
      exact Nat.add_lt_add_right hone 2, trivial⟩⟩

end PeripheralBench.Runner

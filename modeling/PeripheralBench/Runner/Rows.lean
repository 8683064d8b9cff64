import PeripheralBench.Runner.Durability

/-!
# How many rows an execution has

A life of the runner that is killed between writing the row of a job and advancing the checkpoint
leaves a row behind, and the job is executed again in the next life.  When every life is killed
between two writes of whole files, this is the only way in which a job gets more than one row: the
files hold the rows of the recorded executions in order (`Accounted`), and of these exactly one a
job has been committed.
-/

open PeripheralBench.Durable

namespace PeripheralBench.Runner

/-! ## The rows of one execution -/

namespace Execution

variable (e : Execution)

/-- The execution has rows for this try. -/
def tried (roundTry : ℕ) : Bool := e.transferRows.any fun r ↦ decide (r.roundTry = roundTry)

end Execution

/-- The row is about this transfer, in this try of this job. -/
def TransferRow.IsFor (scheduleIndex roundTry transferOrder : ℕ) (r : TransferRow) : Prop :=
  r.scheduleIndex = scheduleIndex ∧ r.roundTry = roundTry ∧ r.transferOrder = transferOrder

instance (scheduleIndex roundTry transferOrder : ℕ) (r : TransferRow) :
    Decidable (r.IsFor scheduleIndex roundTry transferOrder) := inferInstanceAs (Decidable (_ ∧ _))

/-- The number of rows about a transfer. -/
def countRows (scheduleIndex roundTry transferOrder : ℕ) (rows : List TransferRow) : ℕ :=
  rows.countP fun r ↦ decide (r.IsFor scheduleIndex roundTry transferOrder)

theorem countRows_append (s t o : ℕ) (rows rows' : List TransferRow) :
    countRows s t o (rows ++ rows') = countRows s t o rows + countRows s t o rows' :=
  List.countP_append

theorem countRows_eq_zero {s t o : ℕ} {rows : List TransferRow}
    (h : ∀ r ∈ rows, ¬ (r.scheduleIndex = s ∧ r.roundTry = t)) : countRows s t o rows = 0 :=
  List.countP_eq_zero.mpr fun r hr hfor ↦
    h r hr ⟨(of_decide_eq_true hfor).1, (of_decide_eq_true hfor).2.1⟩

theorem mem_transferRowsForRound {round : TransferRound} {attemptIndex i : ℕ} {complete : Bool}
    {t : Try} {r : TransferRow} (h : r ∈ transferRowsForRound round attemptIndex i complete t) :
    r.scheduleIndex = round.sequence ∧ r.roundTry = i := by
  obtain ⟨operation, -, rfl⟩ := List.mem_map.mp h
  exact ⟨rfl, rfl⟩

/-- A try of a round has one row for each of its transfers. -/
theorem countRows_transferRowsForRound {round : TransferRound}
    (hround : (round.operations.map TransferOperation.order).Nodup) {operation : TransferOperation}
    (hmem : operation ∈ round.operations) (attemptIndex i : ℕ) (complete : Bool) (t : Try) :
    countRows round.sequence i operation.order
      (transferRowsForRound round attemptIndex i complete t) = 1 := by
  have hcount : (round.operations.map TransferOperation.order).count operation.order = 1 :=
    List.count_eq_one_of_mem hround (List.mem_map_of_mem hmem)
  rw [← hcount, countRows, transferRowsForRound, List.countP_map, List.count, List.countP_map]
  refine List.countP_congr fun op _ ↦ ?_
  simp [TransferRow.IsFor]

/-- The number of rows of several tries, told apart by their numbers. -/
theorem countRows_flatMap {α : Type} {s : ℕ} (t o : ℕ) (tries : List α) (index : α → ℕ)
    (rows : α → List TransferRow) (hnodup : (tries.map index).Nodup)
    (hindex : ∀ x ∈ tries, ∀ r ∈ rows x, r.scheduleIndex = s ∧ r.roundTry = index x)
    (hone : ∀ x ∈ tries, countRows s (index x) o (rows x) = 1) :
    countRows s t o (tries.flatMap rows) =
      if (tries.flatMap rows).any (fun r ↦ decide (r.roundTry = t)) then 1 else 0 := by
  induction tries with
  | nil => rfl
  | cons x tries ih =>
      rw [List.map_cons, List.nodup_cons] at hnodup
      have ih := ih hnodup.2 (fun y hy ↦ hindex y (.tail _ hy)) fun y hy ↦ hone y (.tail _ hy)
      rw [List.flatMap_cons, countRows_append, ih]
      by_cases ht : index x = t
      · have hrest : ∀ r ∈ tries.flatMap rows, r.roundTry ≠ t := by
          rintro r hr rfl
          obtain ⟨y, hy, hr⟩ := List.mem_flatMap.mp hr
          refine hnodup.1 (List.mem_map.mpr ⟨y, hy, ?_⟩)
          rw [ht, (hindex y (.tail _ hy) r hr).2]
        have hany : ((tries.flatMap rows).any fun r ↦ decide (r.roundTry = t)) = false :=
          List.any_eq_false.mpr fun r hr h ↦ hrest r hr (of_decide_eq_true h)
        obtain ⟨r, hr, hfor⟩ : ∃ r ∈ rows x, decide (r.IsFor s (index x) o) = true :=
          List.countP_pos_iff.mp (Nat.lt_of_lt_of_eq Nat.one_pos (hone x (.head _)).symm)
        have hany' : ((rows x ++ tries.flatMap rows).any fun r ↦ decide (r.roundTry = t)) = true :=
          List.any_eq_true.mpr ⟨r, List.mem_append_left _ hr,
            decide_eq_true (((of_decide_eq_true hfor).2.1).trans ht)⟩
        rw [hany, hany', ← ht, hone x (.head _)]
        rfl
      · have hzero : countRows s t o (rows x) = 0 :=
          countRows_eq_zero fun r hr h ↦ ht ((hindex x (.head _) r hr).2.symm.trans h.2)
        have hany : ((rows x).any fun r ↦ decide (r.roundTry = t)) = false :=
          List.any_eq_false.mpr fun r hr h ↦
            ht ((hindex x (.head _) r hr).2.symm.trans (of_decide_eq_true h))
        rw [hzero, List.any_append, hany, Nat.zero_add, Bool.false_or]

namespace Turn

variable {t : Turn}

theorem scheduleIndex_of_mem_rows {r : TransferRow} (h : r ∈ t.rows.2) :
    r.scheduleIndex = t.job.sequence := by
  rw [rows, execute] at h
  cases hjob : t.job with
  | session job =>
      rw [hjob] at h
      split at h <;> exact absurd h List.not_mem_nil
  | round round =>
      rw [hjob] at h
      split at h
      · exact (mem_transferRowsForRound h).1
      · obtain ⟨x, -, hr⟩ := List.mem_flatMap.mp h
        exact (mem_transferRowsForRound hr).1

/-- An execution has one row for each transfer in each of its tries. -/
theorem countRows_rows (hjob : (t.job.operations.map TransferOperation.order).Nodup)
    {operation : TransferOperation} (hmem : operation ∈ t.job.operations) (roundTry : ℕ) :
    countRows t.job.sequence roundTry operation.order t.rows.2 =
      if t.rows.2.any (fun r ↦ decide (r.roundTry = roundTry)) then 1 else 0 := by
  rw [rows, execute]
  cases hcase : t.job with
  | session job => exact absurd (hcase ▸ hmem) List.not_mem_nil
  | round round =>
      rw [hcase] at hjob hmem
      split
      case h_1 columns u _ =>
        have h := countRows_flatMap (s := round.sequence) roundTry operation.order [u] (fun _ ↦ 1)
          (transferRowsForRound round ((t.memory.attempts round.caseId).length + 1) 1 false)
          (List.nodup_singleton _) (fun _ _ r hr ↦ mem_transferRowsForRound hr)
          (fun _ _ ↦ countRows_transferRowsForRound hjob hmem _ _ _ _)
        rw [List.flatMap_singleton] at h
        exact h
      case h_2 =>
        refine countRows_flatMap roundTry operation.order _ Prod.snd _ ?_
          (fun x _ r hr ↦ mem_transferRowsForRound hr)
          (fun x _ ↦ countRows_transferRowsForRound hjob hmem _ _ _ _)
        rw [List.zipIdx_map_snd]
        exact List.nodup_range'

end Turn

/-! ## One turn of the loop -/

/-- What an operation does to the `transmissions.csv` of a case. -/
def transmissionsWrite (c : String) : FileOp → Option (Write TransferRow)
  | .transmissions c' w => if c' = c then some w else none
  | _ => none

@[simp] theorem transmissionsWrite_self (c : String) (w : Write TransferRow) :
    transmissionsWrite c (.transmissions c w) = some w := if_pos rfl

theorem eq_of_transmissionsWrite {c : String} {o : FileOp} {w : Write TransferRow}
    (h : transmissionsWrite c o = some w) : o = .transmissions c w := by
  cases o with
  | transmissions c' w' =>
      obtain ⟨rfl, hw⟩ := Option.ite_none_right_eq_some.mp h
      exact congrArg _ (Option.some.inj hw)
  | _ => exact absurd h (Option.some_ne_none _).symm

theorem ne_of_transmissionsWrite {c c' : String} {w : Write TransferRow}
    (h : transmissionsWrite c (.transmissions c' w) = none) : c ≠ c' := by
  rintro rfl
  exact Option.some_ne_none w ((transmissionsWrite_self c w).symm.trans h)

/-- The `transmissions.csv` of a case. -/
def transmissionsCsv (c : String) : Part disk (file TransferRow) where
  get d := d.transmissions c
  view := transmissionsWrite c
  fragment f := f.transfer
  apply_of_some s h := eq_of_transmissionsWrite h ▸ Function.update_self ..
  apply_of_none {o} s h := by
    cases o with
    | transmissions c' w => exact Function.update_of_ne (ne_of_transmissionsWrite h) ..
    | _ => rfl
  cut_of_some f s h := eq_of_transmissionsWrite h ▸ Function.update_self ..
  cut_of_none {o} f s h := by
    cases o with
    | transmissions c' w => exact Function.update_of_ne (ne_of_transmissionsWrite h) ..
    | _ => rfl

namespace Turn

variable (t : Turn)

/-- A turn of another case, or of a benchmark without transfers, leaves `transmissions.csv` alone.
-/
theorem run_transmissions_of_ne {transferMode : Bool} {c : String}
    (hc : transferMode = true → t.job.caseId ≠ c) (k : ℕ) (f : Fragment) (w : World) :
    (t.run transferMode k f w).disk.transmissions c = w.disk.transmissions c := by
  refine (transmissionsCsv c).get_interrupted_of_none (fun o ho ↦ ?_) k f w.disk
  rw [ops_eq] at ho
  rcases List.mem_append.mp ho with ho | ho
  · obtain ⟨w, -, rfl⟩ := List.mem_map.mp ho
    rfl
  rcases List.mem_append.mp ho with ho | ho
  · cases transferMode with
    | false => exact absurd ho List.not_mem_nil
    | true =>
        rcases t.mem_transferOps ho with ⟨w, rfl⟩ | ⟨w, rfl⟩
        · rfl
        · exact if_neg (hc rfl)
  · rcases List.mem_pair.mp ho with rfl | rfl <;> rfl

/-- In transfer mode a turn rewrites the `transmissions.csv` of its case, after the other two files.
-/
theorem run_transmissions (k : ℕ) (f : Fragment) (w : World) :
    (t.run true k f w).disk.transmissions t.job.caseId =
      if t.cost true 2 ≤ k then
        (file TransferRow).interrupted (rewrite (t.after.transmissions t.job.caseId))
          (k - t.cost true 2) f.transfer (w.disk.transmissions t.job.caseId)
      else w.disk.transmissions t.job.caseId := by
  have hops : t.ops true = ((t.writes true).take 2).flatten ++
      ((rewrite (t.after.transmissions t.job.caseId)).map (FileOp.transmissions t.job.caseId) ++
        [.writeTemporary t.checkpoint, .replace]) := by
    simp [ops, writes, turnWrites, checkpoint]
  have hfirst : ∀ o ∈ ((t.writes true).take 2).flatten, transmissionsWrite t.job.caseId o =
      none := by
    intro o ho
    obtain ⟨ops, hops, ho⟩ := List.mem_flatten.mp ho
    rcases List.mem_pair.mp hops with rfl | rfl
    all_goals
      obtain ⟨w, -, rfl⟩ := List.mem_map.mp ho
      rfl
  have hview : ((rewrite (t.after.transmissions t.job.caseId)).map
      (FileOp.transmissions t.job.caseId)).map (transmissionsCsv t.job.caseId).view =
        (rewrite (t.after.transmissions t.job.caseId)).map some := by
    rw [List.map_map]
    exact List.map_congr_left fun w _ ↦ transmissionsWrite_self _ w
  change (transmissionsCsv t.job.caseId).get (disk.interrupted (t.ops true) k f w.disk) = _
  rw [hops]
  split
  case isTrue hk =>
    rw [disk.interrupted_append hk, (transmissionsCsv t.job.caseId).get_interrupted_append hview,
      (transmissionsCsv t.job.caseId).get_perform_of_none hfirst]
    · rfl
    · intro o ho
      rcases List.mem_pair.mp ho with rfl | rfl <;> rfl
  case isFalse hk =>
    exact (transmissionsCsv t.job.caseId).get_interrupted_of_lt hfirst
      (Nat.lt_of_not_le hk) f w.disk

/-! A turn that is killed between two of its writes. -/

theorem cost_mono (transferMode : Bool) {m n : ℕ} (h : m ≤ n) :
    t.cost transferMode m ≤ t.cost transferMode n := by
  obtain ⟨rest, hrest⟩ := List.take_prefix_take_left (l := t.writes transferMode) h
  rw [cost, cost, ← hrest, List.flatten_append, List.length_append]
  exact Nat.le_add_right _ _

theorem cost_one (transferMode : Bool) :
    t.cost transferMode 1 = (rewrite (t.after.attempts t.job.caseId)).length := by
  simp [cost, writes, turnWrites]

theorem cost_three : t.cost true 3 =
    t.cost true 2 + (rewrite (t.after.transmissions t.job.caseId)).length := by
  simp [cost, writes, turnWrites, Nat.add_assoc]

theorem cost_one_le_iff (transferMode : Bool) (m : ℕ) :
    t.cost transferMode 1 ≤ t.cost transferMode m ↔ 1 ≤ m := by
  refine ⟨fun h ↦ Nat.one_le_iff_ne_zero.mpr ?_, t.cost_mono transferMode⟩
  rintro rfl
  rw [cost_one, length_rewrite] at h
  exact Nat.not_succ_le_zero _ h

theorem cost_three_le_iff (m : ℕ) : t.cost true 3 ≤ t.cost true m ↔ 3 ≤ m := by
  refine ⟨fun h ↦ Nat.lt_of_not_le fun hm ↦ ?_, t.cost_mono true⟩
  have := h.trans (t.cost_mono true hm)
  rw [cost_three, length_rewrite] at this
  omega

theorem run_cost_recorded (transferMode : Bool) (m : ℕ) (f : Fragment) (w : World) :
    (t.run transferMode (t.cost transferMode m) f w).recorded =
      if 1 ≤ m then w.recorded ++ [t.execution transferMode (t.cost transferMode m)]
      else w.recorded := by
  rw [run]
  simp only [t.cost_one_le_iff]

theorem run_cost_attempts (transferMode : Bool) (m : ℕ) (f : Fragment) (w : World) :
    (t.run transferMode (t.cost transferMode m) f w).disk.attempts t.job.caseId =
      if 1 ≤ m then t.after.attempts t.job.caseId else w.disk.attempts t.job.caseId := by
  rw [run_attempts]
  split
  case isTrue hm =>
    rw [(file AttemptRow).interrupted_of_length_le, perform_rewrite]
    rw [← t.cost_one transferMode]
    exact t.cost_mono transferMode hm
  case isFalse hm =>
    obtain rfl : m = 0 := Nat.lt_one_iff.mp (Nat.lt_of_not_le hm)
    rfl

theorem run_cost_transmissions (m : ℕ) (f : Fragment) (w : World) :
    (t.run true (t.cost true m) f w).disk.transmissions t.job.caseId =
      if 3 ≤ m then t.after.transmissions t.job.caseId else w.disk.transmissions t.job.caseId := by
  rw [run_transmissions]
  by_cases hm : 3 ≤ m
  · have hcost := (t.cost_three_le_iff m).mpr hm
    rw [if_pos hm, if_pos ((t.cost_mono true (by omega)).trans hcost),
      (file TransferRow).interrupted_of_length_le, perform_rewrite]
    rw [cost_three] at hcost
    exact Nat.le_sub_of_add_le' hcost
  · rw [if_neg hm, Nat.sub_eq_zero_of_le (t.cost_mono true (by omega))]
    split <;> rfl

theorem execution_transmitted (transferMode : Bool) (m : ℕ) :
    (t.execution transferMode (t.cost transferMode m)).transmitted =
      (transferMode && decide (3 ≤ m)) := by
  cases transferMode with
  | false => rfl
  | true => exact congrArg (true && ·) (decide_eq_decide.mpr (t.cost_three_le_iff m))

theorem after_transmissions_self :
    t.after.transmissions t.job.caseId = t.memory.transmissions t.job.caseId ++ t.rows.2 :=
  Function.update_self ..

theorem after_transmissions_of_ne {c : String} (hc : t.job.caseId ≠ c) :
    t.after.transmissions c = t.memory.transmissions c :=
  Function.update_of_ne hc.symm ..

/-- A whole turn is killed after its last write. -/
theorem length_ops_eq_cost (transferMode : Bool) :
    (t.ops transferMode).length = t.cost transferMode (t.writes transferMode).length := by
  rw [ops, cost, List.take_length]

/-- After a whole turn memory and disk agree again. -/
theorem finish_transmissions {w : World} (hmemory : t.memory.transmissions = w.disk.transmissions) :
    t.after.transmissions = (t.finish true w).disk.transmissions := by
  funext c
  by_cases hc : t.job.caseId = c
  · subst hc
    rw [finish, length_ops_eq_cost, run_cost_transmissions, if_pos]
    simp [writes, turnWrites]
  · rw [finish, t.run_transmissions_of_ne fun _ ↦ hc, t.after_transmissions_of_ne hc, hmemory]

end Turn

/-! ## The invariant -/

/-- The files hold the rows of the recorded executions, in order. -/
structure Accounted (transferMode : Bool) (schedule : Schedule) (w : World) : Prop where
  kept : Kept w
  manifest : w.disk.manifest.Perm schedule.jobs
  mem_jobs : ∀ e ∈ w.recorded, e.job ∈ schedule.jobs
  attempts : ∀ c, w.disk.attempts c =
    (w.recorded.filter fun e ↦ decide (e.job.caseId = c)).map Execution.row
  transmissions : ∀ c, w.disk.transmissions c =
    (w.recorded.filter fun e ↦ decide (e.job.caseId = c) && e.transmitted).flatMap
      Execution.transferRows
  transferRows : ∀ e ∈ w.recorded, ∀ r ∈ e.transferRows, r.scheduleIndex = e.job.sequence
  countRows : ∀ e ∈ w.recorded, ∀ operation ∈ e.job.operations, ∀ roundTry,
    countRows e.job.sequence roundTry operation.order e.transferRows =
      if e.tried roundTry then 1 else 0
  transmitted : ∀ e ∈ w.recorded, e.committed = true → e.transmitted = transferMode

theorem mem_of_mem_enumerate {jobs : List Job} {p : ℕ × Job} (h : p ∈ enumerate jobs) :
    p.2 ∈ jobs := by
  obtain ⟨i, hi⟩ := List.mem_iff_getElem?.mp h
  obtain ⟨job, hjob, rfl⟩ := Option.map_eq_some_iff.mp ((getElem?_enumerate _ i).symm.trans hi)
  exact List.mem_of_getElem? hjob

/-- A turn adds its row to the file of its case, if it is killed after that write. -/
theorem Accounted.turn_attempts {transferMode : Bool} {schedule : Schedule} {t : Turn} {w : World}
    (hw : Accounted transferMode schedule w) (hattempts : t.memory.attempts = w.disk.attempts)
    (m : ℕ) (f : Fragment) (c : String) :
    (t.run transferMode (t.cost transferMode m) f w).disk.attempts c =
      ((t.run transferMode (t.cost transferMode m) f w).recorded.filter fun e ↦
        decide (e.job.caseId = c)).map Execution.row := by
  rw [t.run_cost_recorded]
  by_cases hc : t.job.caseId = c
  · subst hc
    rw [t.run_cost_attempts, t.after_attempts_self, hattempts]
    split
    · rw [List.filter_append, List.map_append, ← hw.attempts, List.filter_cons_of_pos]
      · rfl
      · exact decide_eq_true rfl
    · exact hw.attempts _
  · rw [t.run_attempts_of_ne hc]
    split
    · rw [List.filter_append, List.filter_cons_of_neg, List.filter_nil, List.append_nil]
      · exact hw.attempts c
      · exact fun h ↦ hc (of_decide_eq_true h)
    · exact hw.attempts c

/-- A transmissions file that a turn has not come to is as it was. -/
theorem Accounted.turn_transmissions_of_not {transferMode : Bool} {schedule : Schedule} {t : Turn}
    {w : World} (hw : Accounted transferMode schedule w) {m : ℕ} {f : Fragment} {c : String}
    (hnot : ¬ (transferMode = true ∧ t.job.caseId = c ∧ 3 ≤ m))
    (hsame : (t.run transferMode (t.cost transferMode m) f w).disk.transmissions c =
      w.disk.transmissions c) :
    (t.run transferMode (t.cost transferMode m) f w).disk.transmissions c =
      ((t.run transferMode (t.cost transferMode m) f w).recorded.filter fun e ↦
        decide (e.job.caseId = c) && e.transmitted).flatMap Execution.transferRows := by
  rw [hsame, t.run_cost_recorded, hw.transmissions]
  split
  · rw [List.filter_append, List.filter_cons_of_neg, List.filter_nil, List.append_nil]
    rw [t.execution_transmitted]
    intro h
    simp only [Bool.and_eq_true, decide_eq_true_eq] at h
    exact hnot ⟨h.2.1, h.1, h.2.2⟩
  · rfl

/-- A turn adds the rows of its operations, if it is killed after that write. -/
theorem Accounted.turn_transmissions {transferMode : Bool} {schedule : Schedule} {t : Turn}
    {w : World} (hw : Accounted transferMode schedule w)
    (htransmissions : transferMode = true → t.memory.transmissions = w.disk.transmissions)
    (m : ℕ) (f : Fragment) (c : String) :
    (t.run transferMode (t.cost transferMode m) f w).disk.transmissions c =
      ((t.run transferMode (t.cost transferMode m) f w).recorded.filter fun e ↦
        decide (e.job.caseId = c) && e.transmitted).flatMap Execution.transferRows := by
  by_cases hc : transferMode = true ∧ t.job.caseId = c
  · obtain ⟨rfl, rfl⟩ := hc
    have hrun := t.run_cost_transmissions m f w
    by_cases hm : 3 ≤ m
    · rw [if_pos hm] at hrun
      rw [hrun, t.after_transmissions_self, htransmissions rfl, t.run_cost_recorded,
        if_pos (Nat.le_of_succ_le (Nat.le_of_succ_le hm)), List.filter_append, List.flatMap_append,
        ← hw.transmissions, List.filter_cons_of_pos, List.filter_nil, List.flatMap_singleton]
      · rfl
      · rw [t.execution_transmitted, decide_eq_true hm]
        simp only [Bool.and_true, decide_eq_true_eq]
        rfl
    · exact hw.turn_transmissions_of_not (fun h ↦ hm h.2.2) (hrun.trans (if_neg hm))
  · exact hw.turn_transmissions_of_not (fun h ↦ hc ⟨h.1, h.2.1⟩)
      (t.run_transmissions_of_ne (fun h h' ↦ hc ⟨h, h'⟩) _ f w)

/-- A turn of the loop that is killed between two of its writes. -/
theorem Accounted.turn {transferMode : Bool} {schedule : Schedule} {t : Turn} {w : World}
    {rest : List (ℕ × Job)} (hw : Accounted transferMode schedule w)
    (hattempts : t.memory.attempts = w.disk.attempts)
    (htransmissions : transferMode = true → t.memory.transmissions = w.disk.transmissions)
    (hnext : (enumerate w.disk.manifest).drop w.disk.last = (t.executionOrder, t.job) :: rest)
    (m : ℕ) (f : Fragment) :
    Accounted transferMode schedule (t.run transferMode (t.cost transferMode m) f w) := by
  have hjob : t.job ∈ schedule.jobs := by
    have h : (t.executionOrder, t.job) ∈ (enumerate w.disk.manifest).drop w.disk.last :=
      hnext ▸ List.mem_cons_self
    exact hw.manifest.mem_iff.mp (mem_of_mem_enumerate (List.mem_of_mem_drop h))
  have hrecorded := t.run_cost_recorded transferMode m f w
  -- what holds of the earlier executions, and of the one of this turn, holds of all
  have hforall : ∀ {P : Execution → Prop}, (∀ e ∈ w.recorded, P e) →
      P (t.execution transferMode (t.cost transferMode m)) →
      ∀ e ∈ (t.run transferMode (t.cost transferMode m) f w).recorded, P e := by
    intro P hold hnew e he
    rw [hrecorded] at he
    split at he
    · rcases List.mem_append.mp he with he | he
      · exact hold e he
      · exact List.mem_singleton.mp he ▸ hnew
    · exact hold e he
  have hspares : 0 < t.cost transferMode m →
      ∀ i < (w.disk.attempts t.job.caseId).length, i + 2 < t.cost transferMode m := by
    intro hpos i hi
    have hm : 1 ≤ m := by
      refine Nat.one_le_iff_ne_zero.mpr ?_
      rintro rfl
      exact Nat.lt_irrefl _ hpos
    refine lt_of_lt_of_le ?_ (t.cost_mono transferMode hm)
    rw [t.cost_one, length_rewrite, t.after_attempts_self, List.length_append, hattempts]
    exact Nat.add_lt_add_right (Nat.lt_succ_of_lt hi) 2
  refine ⟨hw.kept.turn hattempts hnext hspares f, ?_, hforall hw.mem_jobs hjob,
    hw.turn_attempts hattempts m f, hw.turn_transmissions htransmissions m f,
    hforall hw.transferRows fun r hr ↦ Turn.scheduleIndex_of_mem_rows hr,
    hforall hw.countRows fun operation hmem roundTry ↦
      Turn.countRows_rows (schedule.nodup_order _ hjob) hmem roundTry,
    hforall hw.transmitted ?_⟩
  · rw [t.run_manifest]
    exact hw.manifest
  · -- the checkpoint comes after all other files
    intro hcommitted
    rw [t.execution_transmitted]
    cases transferMode with
    | false => rfl
    | true =>
        have hcost := (t.cost_le 3).trans (of_decide_eq_true hcommitted)
        exact decide_eq_true ((t.cost_three_le_iff m).mp hcost)

/-! ## Lives -/

/-- The turn of the loop in which a life ends. -/
def lastTurn (bench : Bench) (totalJobs : ℕ) : List (ℕ × Job) → ℕ → Memory → Option Turn
  | [], _, _ => none
  | (executionOrder, job) :: _, 0, memory => some ⟨bench, totalJobs, memory, executionOrder, job⟩
  | (executionOrder, job) :: rest, n + 1, memory =>
      lastTurn bench totalJobs rest n (Turn.mk bench totalJobs memory executionOrder job).after

/-- The life ends in the attempt loop, between two writes. -/
def BetweenWrites (transferMode : Bool) (w : World) (l : Life) : Prop :=
  match l.stop with
  | .planning _ => False
  | .loop n k _ =>
      ∀ t, lastTurn l.bench (plan l.bench w.disk).manifest.length
        (scheduledJobs (plan l.bench w.disk)) n (Memory.load w.disk) = some t →
        ∃ m, k = t.cost transferMode m

theorem Accounted.attemptLoop {transferMode : Bool} {schedule : Schedule} {bench : Bench}
    {f : Fragment} {jobs : List (ℕ × Job)} {totalJobs n k : ℕ} {memory : Memory} {w : World}
    (hw : Accounted transferMode schedule w) (hattempts : memory.attempts = w.disk.attempts)
    (htransmissions : transferMode = true → memory.transmissions = w.disk.transmissions)
    (hjobs : (enumerate w.disk.manifest).drop w.disk.last = jobs)
    (hk : ∀ t, lastTurn bench totalJobs jobs n memory = some t → ∃ m, k = t.cost transferMode m) :
    Accounted transferMode schedule
      (attemptLoop transferMode bench totalJobs f jobs n k memory w) := by
  induction jobs generalizing n memory w with
  | nil => exact hw
  | cons p jobs ih =>
      obtain ⟨order, job⟩ := p
      let t := Turn.mk bench totalJobs memory order job
      cases n with
      | zero =>
          obtain ⟨m, rfl⟩ := hk t rfl
          exact hw.turn (t := t) hattempts htransmissions hjobs m f
      | succ n =>
          have hnext : Accounted transferMode schedule (t.finish transferMode w) := by
            rw [Turn.finish, t.length_ops_eq_cost]
            exact hw.turn (t := t) hattempts htransmissions hjobs _ _
          refine ih hnext (t.finish_attempts hattempts) (fun htransfer ↦ ?_) ?_ hk
          · subst htransfer
            exact t.finish_transmissions (htransmissions rfl)
          · obtain ⟨horder, -, -, hdrop⟩ := next_job hjobs
            rw [t.finish_last, Turn.finish, t.run_manifest]
            exact (congrArg (fun i ↦ (enumerate w.disk.manifest).drop i) horder).trans hdrop

theorem Accounted.live {transferMode : Bool} {schedule : Schedule} {w : World} {l : Life}
    (hw : Accounted transferMode schedule w) (h : BetweenWrites transferMode w l) :
    Accounted transferMode schedule (live transferMode w l) := by
  obtain ⟨bench, stop⟩ := l
  cases stop with
  | planning manifest => exact h.elim
  | loop n k f =>
      have hplan : Accounted transferMode schedule { w with disk := plan bench w.disk } := by
        rw [plan]
        split
        case isTrue hlast =>
          exact { hw with
            kept := hw.kept.replan hlast _
            manifest := (groupJobsByFirmwareProfile_perm _ _ _).trans hw.manifest }
        case isFalse => exact hw
      have hload : Memory.load (plan bench w.disk) = Memory.load w.disk := by
        rw [plan]
        split <;> rfl
      refine hplan.attemptLoop rfl (fun _ ↦ rfl) (scheduledJobs_eq _).symm fun t ht ↦ h t ?_
      exact hload ▸ ht

theorem accounted_fresh (transferMode : Bool) (schedule : Schedule) :
    Accounted transferMode schedule (fresh schedule) where
  kept := kept_fresh schedule
  manifest := .refl _
  mem_jobs := nofun
  attempts _ := rfl
  transmissions _ := rfl
  transferRows := nofun
  countRows := nofun
  transmitted := nofun

/-! ## Rows -/

/-- The number of times that a life of the runner was killed when the row of the job had been
written and the checkpoint had not been advanced. -/
def World.abandoned (w : World) (job : Job) : ℕ :=
  w.recorded.countP fun e ↦ decide (e.job = job) && !e.committed

/-- The number of these times at which `transmissions.csv` had been written as well, with rows for
this try. -/
def World.abandonedTries (w : World) (job : Job) (roundTry : ℕ) : ℕ :=
  w.recorded.countP fun e ↦ decide (e.job = job) && !e.committed &&
    (e.transmitted && e.tried roundTry)

/-- Every execution contributes at most one row for a transfer and a try. -/
theorem countRows_executions {s t o : ℕ} {es : List Execution} (P : Execution → Bool)
    (h : ∀ e ∈ es, countRows s t o e.transferRows = if P e then 1 else 0) :
    countRows s t o (es.flatMap Execution.transferRows) = es.countP P := by
  induction es with
  | nil => rfl
  | cons e es ih =>
      rw [List.flatMap_cons, countRows_append, h e (.head _), ih fun e he ↦ h e (.tail _ he),
        List.countP_cons, Nat.add_comm]

/-- The executions that have been committed, and the others. -/
theorem countP_committed_add (P : Execution → Bool) (es : List Execution) :
    es.countP P = (es.filter (·.committed)).countP P + (es.filter (!·.committed)).countP P := by
  rw [← List.countP_append]
  exact ((List.filter_append_perm (·.committed) es).countP_eq P).symm

namespace Accounted

variable {transferMode : Bool} {schedule : Schedule} {w : World}

/-- In a run that is complete every job has been committed once. -/
theorem filter_committed (hw : Accounted transferMode schedule w)
    (hdone : w.disk.last = w.disk.manifest.length) {job : Job} (hjob : job ∈ schedule.jobs) :
    ∃ e ∈ w.recorded, e.committed = true ∧ e.job = job ∧
      (w.recorded.filter (·.committed)).filter (fun e ↦ decide (e.job = job)) = [e] := by
  have hcommitted := congrArg (List.map Prod.snd) hw.kept.committed
  rw [List.map_map, hdone, ← length_enumerate, List.take_length, enumerate,
    List.map_map] at hcommitted
  have hmanifest : (w.recorded.filter (·.committed)).map Execution.job = w.disk.manifest :=
    hcommitted.trans (List.zipIdx_map_fst 1 _)
  have hone : ((w.recorded.filter (·.committed)).filter fun e ↦ decide (e.job = job)).length = 1 :=
    calc ((w.recorded.filter (·.committed)).filter fun e ↦ decide (e.job = job)).length
        = ((w.recorded.filter (·.committed)).map Execution.job).count job := by
          rw [List.count, List.countP_map, List.countP_eq_length_filter]
          rfl
      _ = w.disk.manifest.count job := by rw [hmanifest]
      _ = schedule.jobs.count job := hw.manifest.count_eq job
      _ = 1 := List.count_eq_one_of_mem schedule.nodup_sequence.of_map hjob
  obtain ⟨e, he⟩ := List.length_eq_one_iff.mp hone
  have hmem := List.mem_filter.mp (he ▸ List.mem_singleton_self e)
  obtain ⟨hrecorded, hcommitted⟩ := List.mem_filter.mp hmem.1
  exact ⟨e, hrecorded, hcommitted, of_decide_eq_true hmem.2, he⟩

theorem job_eq_iff (hw : Accounted transferMode schedule w) {e : Execution} (he : e ∈ w.recorded)
    {job : Job} (hjob : job ∈ schedule.jobs) :
    e.job.caseId = job.caseId ∧ e.job.sequence = job.sequence ↔ e.job = job := by
  refine ⟨fun h ↦ ?_, fun h ↦ h ▸ ⟨rfl, rfl⟩⟩
  exact List.inj_on_of_nodup_map schedule.nodup_sequence (hw.mem_jobs e he) hjob h.2

theorem countP_attempts (hw : Accounted transferMode schedule w) {job : Job}
    (hjob : job ∈ schedule.jobs) :
    (w.disk.attempts job.caseId).countP (fun r ↦ decide (r.scheduleIndex = job.sequence)) =
      w.recorded.countP fun e ↦ decide (e.job = job) := by
  rw [hw.attempts, List.countP_map, List.countP_filter]
  refine List.countP_congr fun e he ↦ ?_
  simp [← hw.job_eq_iff he hjob, hw.kept.scheduleIndex e he, and_comm]

theorem countRows_transmissions (hw : Accounted transferMode schedule w) {job : Job}
    (hjob : job ∈ schedule.jobs) {operation : TransferOperation}
    (hmem : operation ∈ job.operations) (roundTry : ℕ) :
    Runner.countRows job.sequence roundTry operation.order (w.disk.transmissions job.caseId) =
      w.recorded.countP fun e ↦ decide (e.job = job) && (e.transmitted && e.tried roundTry) := by
  rw [hw.transmissions, countRows_executions fun e ↦ decide (e.job = job) && e.tried roundTry,
    List.countP_filter]
  · refine List.countP_congr fun e _ ↦ ?_
    simp only [Bool.and_eq_true, decide_eq_true_eq]
    constructor
    · exact fun h ↦ ⟨h.1.1, h.2.2, h.1.2⟩
    · exact fun h ↦ ⟨⟨h.1, h.2.2⟩, h.1 ▸ rfl, h.2.1⟩
  · intro e he
    obtain ⟨hrecorded, hcase⟩ := List.mem_filter.mp he
    simp only [Bool.and_eq_true, decide_eq_true_eq] at hcase
    by_cases hsame : e.job = job
    · subst hsame
      rw [hw.countRows e hrecorded operation hmem, decide_eq_true rfl, Bool.true_and]
    · rw [decide_eq_false hsame, Bool.false_and]
      refine countRows_eq_zero fun r hr h ↦ hsame ((hw.job_eq_iff hrecorded hjob).mp ⟨hcase.1, ?_⟩)
      rw [← hw.transferRows e hrecorded r hr, h.1]

end Accounted

/-- In a run that is complete, and whose lives were all killed between two writes of the attempt
loop, every job has one row in `attempts.csv` and one in `transmissions.csv` for each try and
transfer of its committed execution, and one more for each time the runner was killed after writing
that row and before advancing the checkpoint. -/
theorem runs_rows (transferMode : Bool) (schedule : Schedule) (ls : List Life)
    (h : Along (live transferMode) (BetweenWrites transferMode) (fresh schedule) ls)
    (hdone : (runs transferMode schedule ls).disk.last =
      (runs transferMode schedule ls).disk.manifest.length)
    {job : Job} (hjob : job ∈ schedule.jobs) :
    ((runs transferMode schedule ls).disk.attempts job.caseId).countP
        (fun r ↦ decide (r.scheduleIndex = job.sequence)) =
      1 + (runs transferMode schedule ls).abandoned job ∧
    ∃ e ∈ (runs transferMode schedule ls).recorded, e.committed = true ∧ e.job = job ∧
      (transferMode = true → ∀ operation ∈ job.operations, ∀ roundTry,
        countRows job.sequence roundTry operation.order
            ((runs transferMode schedule ls).disk.transmissions job.caseId) =
          (if e.tried roundTry then 1 else 0) +
            (runs transferMode schedule ls).abandonedTries job roundTry) := by
  have hw : Accounted transferMode schedule (runs transferMode schedule ls) :=
    lives_invariant (fun _ _ hw hl ↦ Accounted.live hw hl) (accounted_fresh transferMode schedule) h
  obtain ⟨e, he, hcommitted, rfl, hfilter⟩ := hw.filter_committed hdone hjob
  constructor
  · rw [hw.countP_attempts hjob, countP_committed_add, List.countP_eq_length_filter, hfilter,
      List.countP_filter]
    rfl
  · refine ⟨e, he, hcommitted, rfl, fun htransfer operation hmem roundTry ↦ ?_⟩
    have htransmitted : e.transmitted = true := (hw.transmitted e he hcommitted).trans htransfer
    rw [hw.countRows_transmissions hjob hmem, countP_committed_add]
    congr 1
    · let R : Execution → Bool := fun e ↦ e.transmitted && e.tried roundTry
      let es := (runs transferMode schedule ls).recorded.filter (·.committed)
      calc es.countP (fun e' ↦ decide (e'.job = e.job) && R e')
          = es.countP (fun e' ↦ R e' && decide (e'.job = e.job)) :=
            List.countP_congr fun e' _ ↦ by rw [Bool.and_comm]
        _ = (es.filter fun e' ↦ decide (e'.job = e.job)).countP R := List.countP_filter.symm
        _ = [e].countP R := by rw [hfilter]
        _ = if e.tried roundTry then 1 else 0 := by
          rw [List.countP_singleton, show R e = e.tried roundTry from by
            rw [← Bool.true_and (e.tried roundTry), ← htransmitted]]
    · rw [List.countP_filter, World.abandonedTries]
      refine List.countP_congr fun e' _ ↦ ?_
      rw [Bool.and_right_comm]

/-- The first life is killed when it has written the row of the first attempt, and the second one
runs to the end. -/
theorem along_two_rows : Along (live false) (BetweenWrites false) (fresh .twoAttempts)
    [.steady 0 3, .steady 2 0] := by
  refine ⟨fun t ht ↦ ⟨1, ?_⟩, fun t _ ↦ ⟨0, rfl⟩, trivial⟩
  obtain rfl := Option.some.inj ht
  rfl

/-- A row more than one for an execution order. -/
theorem not_one_row : ¬ ∀ (schedule : Schedule) (ls : List Life),
    Along (live false) (BetweenWrites false) (fresh schedule) ls →
    (runs false schedule ls).disk.last = (runs false schedule ls).disk.manifest.length →
    ∀ job ∈ schedule.jobs, ((runs false schedule ls).disk.attempts job.caseId).countP
      (fun r ↦ decide (r.scheduleIndex = job.sequence)) = 1 := by
  intro h
  have hone := h .twoAttempts _ along_two_rows rfl (.session ⟨1, "case", 1, 1, 0, 1⟩) (.head _)
  exact absurd hone (by decide)

theorem runs_rows_two :
    ((runs false .twoAttempts [.steady 0 3, .steady 2 0]).disk.attempts "case").countP
      (fun r ↦ decide (r.scheduleIndex = 1)) = 1 + 1 :=
  have hjob : Job.session ⟨1, "case", 1, 1, 0, 1⟩ ∈ Schedule.twoAttempts.jobs := .head _
  (runs_rows false .twoAttempts _ along_two_rows rfl hjob).1

end PeripheralBench.Runner

import PeripheralBench.Runner.Manifests
import PeripheralBench.Runner.Rows

/-!
# The schedule is covered

What the reorderings of the schedule keep: every attempt of every session of every case is in the
list once, the jobs of one firmware profile stand together, the manifests hold the list, and lives
of the runner that end between two blocks go through it from where the one before ended.
-/

open PeripheralBench.Durable

namespace PeripheralBench.Runner

/-! ## The attempts of a run -/

/-- The place of a job in the experiment. -/
structure Slot where
  caseId : String
  session : ℕ
  attempt : ℕ
  warmup : ℕ
  measuredIndex : ℕ

/-- What tells two places apart. -/
def Slot.key (s : Slot) : String × ℕ × ℕ := (s.caseId, s.session, s.attempt)

/-- The place of a job. -/
def Job.slot (job : Job) : Slot where
  caseId := job.caseId
  session := job.sessionIndex
  attempt := job.attemptInSession
  warmup := job.warmup
  measuredIndex := job.measuredIndex

/-- The attempts of a case: in each session the warm-ups come first, and the others are counted. -/
def caseSlots (sessionsPerCase : ℕ) (case : Case) : List Slot :=
  (List.range' 1 sessionsPerCase).flatMap fun session ↦
    (List.range' 1 (case.warmupIterations + case.iterations)).map fun attempt ↦
      { caseId := case.caseId
        session := session
        attempt := attempt
        warmup := if attempt ≤ case.warmupIterations then 1 else 0
        measuredIndex :=
          if attempt ≤ case.warmupIterations then 0 else attempt - case.warmupIterations }

/-- The attempts of all cases. -/
def plannedSlots (sessionsPerCase : ℕ) (cases : List Case) : List Slot :=
  cases.flatMap (caseSlots sessionsPerCase)

/-- The rounds of all cases, which have one session with one attempt each. -/
def plannedRounds (cases : List Case) : List Slot :=
  cases.map fun case ↦ ⟨case.caseId, 1, 1, 0, 1⟩

theorem nodup_key_caseSlots (sessionsPerCase : ℕ) (case : Case) :
    ((caseSlots sessionsPerCase case).map Slot.key).Nodup := by
  rw [caseSlots, List.map_flatMap, List.nodup_flatMap]
  constructor
  · intro session _
    rw [List.map_map]
    refine List.Nodup.map (fun a b h ↦ ?_) List.nodup_range'
    exact (Prod.mk.inj (Prod.mk.inj h).2).2
  · refine List.Pairwise.imp (fun {s s'} hne ↦ ?_) List.nodup_range'
    rw [Function.onFun, List.map_map, List.map_map]
    intro key hkey hkey'
    obtain ⟨a, -, rfl⟩ := List.mem_map.mp hkey
    obtain ⟨b, -, h⟩ := List.mem_map.mp hkey'
    exact hne (Prod.mk.inj (Prod.mk.inj h).2).1.symm

theorem nodup_key_plannedSlots (sessionsPerCase : ℕ) {cases : List Case}
    (hids : (cases.map Case.caseId).Nodup) :
    ((plannedSlots sessionsPerCase cases).map Slot.key).Nodup := by
  rw [plannedSlots, List.map_flatMap, List.nodup_flatMap]
  refine ⟨fun case _ ↦ nodup_key_caseSlots sessionsPerCase case, ?_⟩
  refine (List.pairwise_map.mp hids).imp fun {c c'} hne ↦ ?_
  have hcase : ∀ (c : Case), ∀ key ∈ (caseSlots sessionsPerCase c).map Slot.key,
      key.1 = c.caseId := by
    intro c key hkey
    obtain ⟨slot, hslot, rfl⟩ := List.mem_map.mp hkey
    obtain ⟨session, -, hslot⟩ := List.mem_flatMap.mp hslot
    obtain ⟨attempt, -, rfl⟩ := List.mem_map.mp hslot
    rfl
  exact fun key hkey hkey' ↦ hne ((hcase c key hkey).symm.trans (hcase c' key hkey'))

theorem nodup_key_plannedRounds {cases : List Case} (hids : (cases.map Case.caseId).Nodup) :
    ((plannedRounds cases).map Slot.key).Nodup := by
  rw [plannedRounds, List.map_map]
  refine List.Nodup.of_map Prod.fst ?_
  rw [List.map_map]
  exact hids

theorem map_slot_caseJobs (sessionsPerCase : ℕ) (case : Case) (sequence : ℕ) :
    (caseJobs sessionsPerCase case sequence).map (fun job ↦ (Job.session job).slot) =
      caseSlots sessionsPerCase case := by
  rw [caseJobs, List.map_map, caseSlots]
  calc _ = ((((List.range' 1 sessionsPerCase).flatMap fun session ↦
          (List.range' 1 (case.warmupIterations + case.iterations)).map fun attempt ↦
            (session, attempt)).zipIdx (sequence + 1)).map Prod.fst).map
        fun p : ℕ × ℕ ↦ Slot.mk case.caseId p.1 p.2
          (if p.2 ≤ case.warmupIterations then 1 else 0)
          (if p.2 ≤ case.warmupIterations then 0 else p.2 - case.warmupIterations) := by
        rw [List.map_map]
        rfl
    _ = _ := by
        rw [List.zipIdx_map_fst, List.map_flatMap]
        refine List.flatMap_congr fun session _ ↦ ?_
        rw [List.map_map]
        rfl

theorem map_slot_splitJobs (sessionsPerCase : ℕ) (cases : List Case) (sequence : ℕ) :
    (((splitJobs sessionsPerCase cases sequence).1 ++
      (splitJobs sessionsPerCase cases sequence).2.flatten).map fun job ↦
        (Job.session job).slot).Perm (plannedSlots sessionsPerCase cases) := by
  induction cases generalizing sequence with
  | nil => exact .refl _
  | cons case cases ih =>
      rw [plannedSlots, List.flatMap_cons, ← map_slot_caseJobs sessionsPerCase case sequence]
      refine List.Perm.trans ?_
        ((ih (sequence + (caseJobs sessionsPerCase case sequence).length)).append_left _)
      rw [← List.map_append]
      refine List.Perm.map _ ?_
      simp only [splitJobs]
      split
      · rw [List.flatten_cons]
        exact List.perm_append_comm_assoc _ _ _
      · exact .of_eq (List.append_assoc _ _ _)

theorem map_slot_buildJobs (rng : Random) (sessionsPerCase : ℕ) (cases : List Case) :
    ((buildJobs rng sessionsPerCase cases).jobs.map Job.slot).Perm
      (plannedSlots sessionsPerCase cases) := by
  have hperm : (shuffledJobs rng sessionsPerCase cases).Perm
      ((splitJobs sessionsPerCase cases 0).1 ++ (splitJobs sessionsPerCase cases 0).2.flatten) :=
    (rng.shuffle_perm 0 _).append (rng.shuffle_perm 1 _).flatten
  rw [buildJobs, List.map_map]
  exact (hperm.map _).trans (map_slot_splitJobs sessionsPerCase cases 0)

theorem map_slot_buildTransferRounds (random : ℕ → Random) (derivedSeed : ℕ → String → ℕ → ℕ)
    (seed : ℕ) (cases : List Case) :
    ((buildTransferRounds random derivedSeed seed cases).jobs.map Job.slot).Perm
      (plannedRounds cases) := by
  rw [buildTransferRounds, List.map_map]
  refine (((random seed).shuffle_perm 0 _).map _).trans (.of_eq ?_)
  rw [transferRounds, List.map_map, plannedRounds]
  calc _ = ((cases.zipIdx 1).map Prod.fst).map fun case ↦ Slot.mk case.caseId 1 1 0 1 := by
        rw [List.map_map]
        rfl
    _ = _ := by rw [List.zipIdx_map_fst]

/-! ## Contiguous blocks -/

/-- What has one key stands together. -/
def Contiguous {α β : Type} (key : α → β) (l : List α) : Prop :=
  ∀ (i j k : ℕ) (x y z : α), l[i]? = some x → l[j]? = some y → l[k]? = some z → i ≤ j → j ≤ k →
    key x = key z → key y = key x

theorem contiguous_of_eq {α β : Type} {key : α → β} {l : List α} {b : β} (h : ∀ x ∈ l, key x = b) :
    Contiguous key l := fun _ _ _ _ _ _ hx hy _ _ _ _ ↦
  (h _ (List.mem_of_getElem? hy)).trans (h _ (List.mem_of_getElem? hx)).symm

/-- A block in front of a list that does not have its key. -/
theorem Contiguous.append {α β : Type} {key : α → β} {l l' : List α} {b : β}
    (h : ∀ x ∈ l, key x = b) (h' : ∀ x ∈ l', key x ≠ b) (hl' : Contiguous key l') :
    Contiguous key (l ++ l') := by
  intro i j k x y z hx hy hz hij hjk hkey
  rcases lt_or_ge i l.length with hi | hi
  · have hxb : key x = b := by
      rw [List.getElem?_append_left hi] at hx
      exact h x (List.mem_of_getElem? hx)
    have hk : k < l.length := by
      refine Nat.lt_of_not_le fun hk ↦ h' z ?_ (hkey.symm.trans hxb)
      rw [List.getElem?_append_right hk] at hz
      exact List.mem_of_getElem? hz
    rw [List.getElem?_append_left (hjk.trans_lt hk)] at hy
    exact (h y (List.mem_of_getElem? hy)).trans hxb.symm
  · rw [List.getElem?_append_right hi] at hx
    rw [List.getElem?_append_right (hi.trans hij)] at hy
    rw [List.getElem?_append_right (hi.trans (hij.trans hjk))] at hz
    exact hl' _ _ _ x y z hx hy hz (Nat.sub_le_sub_right hij _) (Nat.sub_le_sub_right hjk _) hkey

theorem contiguous_flatMap {α β γ : Type} {key : α → β} {tag : γ → β} {block : γ → List α}
    {keys : List γ} (hnodup : (keys.map tag).Nodup) (h : ∀ k, ∀ x ∈ block k, key x = tag k) :
    Contiguous key (keys.flatMap block) := by
  induction keys with
  | nil => exact fun i _ _ _ _ _ hx ↦ absurd (List.mem_of_getElem? hx) List.not_mem_nil
  | cons k keys ih =>
      rw [List.map_cons, List.nodup_cons] at hnodup
      rw [List.flatMap_cons]
      refine Contiguous.append (h k) (fun x hx hk ↦ hnodup.1 ?_) (ih hnodup.2)
      obtain ⟨k', hk', hx⟩ := List.mem_flatMap.mp hx
      exact hk ▸ h k' x hx ▸ List.mem_map_of_mem hk'

theorem contiguous_groupJobsByFirmwareProfile (rng : Random) (firmwareProfile : String → String)
    (jobs : List Job) :
    Contiguous (fun job : Job ↦ firmwareProfile job.caseId)
      (groupJobsByFirmwareProfile rng firmwareProfile jobs) := by
  simp only [groupJobsByFirmwareProfile]
  split
  case isTrue hone =>
    obtain ⟨profile, hprofile⟩ := List.length_eq_one_iff.mp hone
    refine contiguous_of_eq (b := profile) fun job hjob ↦ ?_
    have hmem : firmwareProfile job.caseId ∈
        (jobs.map fun job ↦ firmwareProfile job.caseId).dedup :=
      List.mem_dedup.mpr (List.mem_map_of_mem hjob)
    rw [hprofile] at hmem
    exact List.mem_singleton.mp hmem
  case isFalse =>
    have hnodup : ∀ l : List String, l.Nodup →
        (((rng.shuffle 0 (l.mergeSort fun a b ↦ decide (a ≤ b))).zipIdx 1).map Prod.fst).Nodup := by
      intro l hl
      rw [List.zipIdx_map_fst]
      exact ((rng.shuffle_perm 0 _).trans (List.mergeSort_perm l _)).nodup_iff.mpr hl
    refine contiguous_flatMap (hnodup _ (List.nodup_dedup _)) fun k job hjob ↦ ?_
    have hjob := (rng.shuffle_perm _ _).mem_iff.mp hjob
    exact of_decide_eq_true (List.mem_filter.mp hjob).2

/-! ## Lives that end between two blocks -/

/-- The execution order and the job of an execution. -/
def Execution.place (e : Execution) : ℕ × Job := (e.executionOrder, e.job)

/-- The life ends between two blocks, after `n` of them. -/
def EndsBetweenBlocks (n : ℕ) (l : Life) : Prop := ∃ f, l.stop = .loop n 0 f

namespace Turn

variable {transferMode : Bool} (t : Turn)

theorem run_zero_recorded (f : Fragment) (w : World) :
    (t.run transferMode 0 f w).recorded = w.recorded := by
  have h := t.run_cost_recorded transferMode 0 f w
  exact h

theorem run_zero_last (f : Fragment) (w : World) :
    (t.run transferMode 0 f w).disk.last = w.disk.last := by
  have hlen : ¬ (t.ops transferMode).length ≤ 0 := by
    rw [ops_eq, List.length_append, List.length_map, length_rewrite]
    omega
  rw [Disk.last, run_checkpoint, if_neg hlen]

theorem finish_recorded (w : World) : (t.finish transferMode w).recorded =
    w.recorded ++ [t.execution transferMode (t.ops transferMode).length] :=
  if_pos (t.cost_le 1)

end Turn

theorem attemptLoop_manifest {transferMode : Bool} {bench : Bench} {f : Fragment}
    {jobs : List (ℕ × Job)} {totalJobs n k : ℕ} {memory : Memory} {w : World} :
    (attemptLoop transferMode bench totalJobs f jobs n k memory w).disk.manifest =
      w.disk.manifest := by
  induction jobs generalizing n memory w with
  | nil => rfl
  | cons p jobs ih =>
      cases n with
      | zero => exact Turn.run_manifest _ k f w
      | succ n => exact ih.trans (Turn.run_manifest _ _ _ w)

/-- The jobs of the turns are recorded, and nothing else. -/
theorem attemptLoop_zero_recorded {transferMode : Bool} {bench : Bench} {f : Fragment}
    {jobs : List (ℕ × Job)} {totalJobs n : ℕ} {memory : Memory} {w : World} :
    (attemptLoop transferMode bench totalJobs f jobs n 0 memory w).recorded.map Execution.place =
      w.recorded.map Execution.place ++ jobs.take n := by
  induction jobs generalizing n memory w with
  | nil => rw [List.take_nil, List.append_nil]; rfl
  | cons p jobs ih =>
      cases n with
      | zero =>
          rw [List.take_zero, List.append_nil]
          exact congrArg _ (Turn.run_zero_recorded _ f w)
      | succ n =>
          rw [attemptLoop, ih, Turn.finish_recorded, List.map_append, List.append_assoc,
            List.take_succ_cons]
          rfl

theorem attemptLoop_zero_committed {transferMode : Bool} {bench : Bench} {f : Fragment}
    {jobs : List (ℕ × Job)} {totalJobs n : ℕ} {memory : Memory} {w : World}
    (hw : ∀ e ∈ w.recorded, e.committed = true) :
    ∀ e ∈ (attemptLoop transferMode bench totalJobs f jobs n 0 memory w).recorded,
      e.committed = true := by
  induction jobs generalizing n memory w with
  | nil => exact hw
  | cons p jobs ih =>
      cases n with
      | zero =>
          intro e he
          exact hw e ((Turn.run_zero_recorded _ f w) ▸ he)
      | succ n =>
          refine ih fun e he ↦ ?_
          rw [Turn.finish_recorded] at he
          rcases List.mem_append.mp he with he | he
          · exact hw e he
          · rw [List.mem_singleton.mp he]
            exact decide_eq_true le_rfl

theorem attemptLoop_zero_last {transferMode : Bool} {bench : Bench} {f : Fragment}
    {jobs : List (ℕ × Job)} {totalJobs n : ℕ} {memory : Memory} {w : World}
    (hjobs : ∀ p ∈ jobs, 1 ≤ p.1) (h : 1 ≤ w.disk.last ∨ 1 ≤ n ∧ jobs ≠ []) :
    1 ≤ (attemptLoop transferMode bench totalJobs f jobs n 0 memory w).disk.last := by
  induction jobs generalizing n memory w with
  | nil => exact h.resolve_right fun h ↦ h.2 rfl
  | cons p jobs ih =>
      cases n with
      | zero =>
          rw [attemptLoop, Turn.run_zero_last]
          exact h.resolve_right fun h ↦ Nat.not_succ_le_zero 0 h.1
      | succ n =>
          refine ih (fun p hp ↦ hjobs p (.tail _ hp)) (.inl ?_)
          rw [Turn.finish_last]
          exact hjobs p (.head _)

/-- What holds after lives that all ended between two blocks, the first one after some block. -/
structure OnTrack (planned : List Job) (w : World) : Prop where
  kept : Kept w
  manifest : w.disk.manifest = planned
  committed : ∀ e ∈ w.recorded, e.committed = true
  started : planned = [] ∨ 1 ≤ w.disk.last

namespace OnTrack

variable {transferMode : Bool} {planned : List Job} {w : World}

/-- The executions are those of the jobs up to the checkpoint, each once and in order. -/
theorem recorded (hw : OnTrack planned w) :
    w.recorded.map Execution.place = (enumerate planned).take w.disk.last := by
  rw [← hw.manifest, ← hw.kept.committed, List.filter_eq_self.mpr hw.committed]
  rfl

/-- A life goes on with the rest of the list. -/
theorem live {n : ℕ} {l : Life} (hw : OnTrack planned w) (hl : EndsBetweenBlocks n l) :
    OnTrack planned (live transferMode w l) ∧
      (Runner.live transferMode w l).recorded.map Execution.place =
        w.recorded.map Execution.place ++ ((enumerate planned).drop w.disk.last).take n := by
  obtain ⟨f, hstop⟩ := hl
  obtain ⟨bench, stop⟩ := l
  obtain rfl : stop = .loop n 0 f := hstop
  have hplan : plan bench w.disk = w.disk := by
    rw [plan]
    split
    case isTrue hlast =>
      have hnil : planned = [] := hw.started.resolve_right fun h ↦
        Nat.not_succ_le_zero 0 (h.trans_eq hlast)
      rw [hw.manifest, hnil]
      have hempty := (groupJobsByFirmwareProfile_perm bench.rng bench.firmwareProfile []).eq_nil
      rw [hempty]
      obtain ⟨disk, recorded⟩ := w
      obtain ⟨manifest, attempts, handshakes, transmissions, temporary, checkpoint⟩ := disk
      have hmanifest : manifest = [] := hw.manifest.trans hnil
      rw [hmanifest]
    case isFalse => rfl
  have hkept : Kept (Runner.live transferMode w ⟨bench, .loop n 0 f⟩) :=
    hw.kept.live fun _ _ h ↦ absurd h (Nat.lt_irrefl 0)
  simp only [Runner.live, hplan] at hkept ⊢
  refine ⟨⟨hkept, attemptLoop_manifest.trans hw.manifest,
    attemptLoop_zero_committed hw.committed, ?_⟩, ?_⟩
  · rcases hw.started with h | h
    · exact .inl h
    · refine .inr (attemptLoop_zero_last (fun p hp ↦ ?_) (.inl h))
      rw [scheduledJobs_eq] at hp
      have hmem := List.mem_map_of_mem (f := Prod.fst) (List.mem_of_mem_drop hp)
      rw [enumerate_map_fst] at hmem
      exact (List.mem_range'_1.mp hmem).1
  · rw [attemptLoop_zero_recorded, scheduledJobs_eq, hw.manifest]

/-- The first life groups the schedule, and commits at least one block. -/
theorem first {schedule : Schedule} {n : ℕ} {l : Life} (hn : 1 ≤ n) (hl : EndsBetweenBlocks n l) :
    OnTrack (groupJobsByFirmwareProfile l.bench.rng l.bench.firmwareProfile schedule.jobs)
      (Runner.live transferMode (fresh schedule) l) := by
  obtain ⟨f, hstop⟩ := hl
  obtain ⟨bench, stop⟩ := l
  obtain rfl : stop = .loop n 0 f := hstop
  refine ⟨(kept_fresh schedule).live fun _ _ h ↦ absurd h (Nat.lt_irrefl 0),
    attemptLoop_manifest, attemptLoop_zero_committed nofun, ?_⟩
  rw [or_iff_not_imp_left]
  intro hne
  have hscheduled : scheduledJobs (plan bench (fresh schedule).disk) = enumerate
      (groupJobsByFirmwareProfile bench.rng bench.firmwareProfile schedule.jobs) :=
    scheduledJobs_eq _
  refine attemptLoop_zero_last (fun p hp ↦ ?_) (.inr ⟨hn, ?_⟩)
  · rw [hscheduled] at hp
    have hmem := List.mem_map_of_mem (f := Prod.fst) hp
    rw [enumerate_map_fst] at hmem
    exact (List.mem_range'_1.mp hmem).1
  · rw [hscheduled]
    intro hnil
    refine hne (List.eq_nil_of_length_eq_zero ?_)
    rw [← length_enumerate, hnil]
    rfl

end OnTrack

/-! ## Coverage -/

/-- The list of jobs that the first life of a run works through. -/
def plannedJobs (schedule : Schedule) (bench : Bench) : List Job :=
  groupJobsByFirmwareProfile bench.rng bench.firmwareProfile schedule.jobs

/-- What the list of jobs of a run is good for. -/
structure Covered (transferMode : Bool) (schedule : Schedule) (slots : List Slot) (bench : Bench) :
    Prop where
  /-- Every attempt is in the list, with its flags. -/
  attempts : ((plannedJobs schedule bench).map Job.slot).Perm slots
  /-- No attempt is there twice. -/
  nodup : (slots.map Slot.key).Nodup
  contiguous : Contiguous (fun job : Job ↦ bench.firmwareProfile job.caseId)
    (plannedJobs schedule bench)
  /-- The manifests hold the list. -/
  manifests : ∀ seed payloadSha256, loadJobs transferMode
    (writeManifests bench.firmwareProfile seed payloadSha256 (plannedJobs schedule bench)) =
      plannedJobs schedule bench
  /-- After lives that ended between two blocks the jobs up to the checkpoint have been executed,
  and the next life goes on with the rest. -/
  resumes : ∀ (n : ℕ) (first : Life) (ls : List Life), first.bench = bench → 1 ≤ n →
    EndsBetweenBlocks n first → (∀ l ∈ ls, ∃ n, EndsBetweenBlocks n l) →
    (runs transferMode schedule (first :: ls)).recorded.map Execution.place =
      (enumerate (plannedJobs schedule bench)).take
      (runs transferMode schedule (first :: ls)).disk.last ∧
    ∀ n l, EndsBetweenBlocks n l →
      (runs transferMode schedule (first :: ls ++ [l])).recorded.map Execution.place =
        (runs transferMode schedule (first :: ls)).recorded.map Execution.place ++
          ((enumerate (plannedJobs schedule bench)).drop
            (runs transferMode schedule (first :: ls)).disk.last).take n

theorem covered {transferMode : Bool} {schedule : Schedule} {slots : List Slot} (bench : Bench)
    (hmode : Planned transferMode schedule.jobs) (hslots : (schedule.jobs.map Job.slot).Perm slots)
    (hnodup : (slots.map Slot.key).Nodup) : Covered transferMode schedule slots bench := by
  have hperm : (plannedJobs schedule bench).Perm schedule.jobs :=
    groupJobsByFirmwareProfile_perm _ _ _
  refine ⟨(hperm.map _).trans hslots, hnodup,
    contiguous_groupJobsByFirmwareProfile bench.rng bench.firmwareProfile schedule.jobs,
    fun seed payloadSha256 ↦ loadJobs_writeManifests _ _ _ (hmode.perm hperm), ?_⟩
  rintro n first ls rfl hn hfirst hls
  have htrack : OnTrack (plannedJobs schedule first.bench)
      (runs transferMode schedule (first :: ls)) := by
    have hrest : Along (live transferMode) (fun _ l ↦ ∃ n, EndsBetweenBlocks n l)
        (live transferMode (fresh schedule) first) ls := along_of_forall hls
    have h : OnTrack (plannedJobs schedule first.bench)
        (lives (live transferMode) (live transferMode (fresh schedule) first) ls) :=
      lives_invariant (fun w l hw ⟨n, hl⟩ ↦ (hw.live hl).1) (OnTrack.first hn hfirst) hrest
    exact h
  refine ⟨htrack.recorded, fun n l hl ↦ ?_⟩
  have hlive : OnTrack _ (live transferMode _ l) ∧ _ := htrack.live hl
  rw [runs, lives, List.foldl_append]
  exact hlive.2

/-- Every attempt of every session of every case is scheduled once, and every round of every case in
transfer mode. -/
theorem schedule_covered (random : ℕ → Random) (derivedSeed : ℕ → String → ℕ → ℕ) (seed : ℕ)
    (sessionsPerCase : ℕ) (cases : List Case) (hids : (cases.map Case.caseId).Nodup)
    (bench : Bench) :
    Covered false (buildJobs (random seed) sessionsPerCase cases)
        (plannedSlots sessionsPerCase cases) bench ∧
      Covered true (buildTransferRounds random derivedSeed seed cases)
        (plannedRounds cases) bench :=
  ⟨covered bench (planned_buildJobs _ _ _) (map_slot_buildJobs _ _ _)
      (nodup_key_plannedSlots sessionsPerCase hids),
    covered bench (planned_buildTransferRounds _ _ _ _) (map_slot_buildTransferRounds _ _ _ _)
      (nodup_key_plannedRounds hids)⟩

theorem schedule_covered_two :
    Covered false (buildJobs .still 2 [⟨"a", 1, 3, ""⟩, ⟨"b", 0, 2, "known_unsupported"⟩])
        (plannedSlots 2 [⟨"a", 1, 3, ""⟩, ⟨"b", 0, 2, "known_unsupported"⟩]) .steady ∧
      Covered true (buildTransferRounds (fun _ ↦ .still) (fun seed _ n ↦ seed + n) 7
          [⟨"a", 1, 3, ""⟩, ⟨"b", 0, 2, "known_unsupported"⟩])
        (plannedRounds [⟨"a", 1, 3, ""⟩, ⟨"b", 0, 2, "known_unsupported"⟩]) .steady :=
  schedule_covered (fun _ ↦ .still) (fun seed _ n ↦ seed + n) 7 2 _ (by decide) .steady

end PeripheralBench.Runner

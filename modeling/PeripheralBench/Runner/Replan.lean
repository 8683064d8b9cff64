import PeripheralBench.Runner.Coverage

/-!
# Rewriting the manifests

When nothing has been completed yet, `main` groups the schedule and rewrites the manifests in place,
one after the other.  This file is about a crash in the middle of that, and about what a resumed run
loads afterwards.  It loads the whole schedule only if every file it reads was left alone or had
been filled again, and, in transfer mode, if the two files do not come from two different orders
(`replan_safe_iff`).
-/

open PeripheralBench.Durable

namespace PeripheralBench.Runner

/-! ## The files -/

/-- The lines of the manifests.  A line that no loader can make sense of is `none`. -/
structure ManifestFiles where
  session : List (Option SessionRow)
  round : List (Option RoundRow)
  operation : List (Option OperationRow)

/-- An operation on one of the manifests. -/
inductive ManifestOp where
  | session (w : Write (Option SessionRow))
  | round (w : Write (Option RoundRow))
  | operation (w : Write (Option OperationRow))

/-- What a loader makes of the last line of a manifest, if it has been cut short. -/
structure ManifestFragment where
  session : Option (Option SessionRow)
  round : Option (Option RoundRow)
  operation : Option (Option OperationRow)

/-- The manifests with their operations. -/
def manifestFiles : Medium ManifestFiles ManifestOp ManifestFragment where
  apply
    | .session w, m => { m with session := (file _).apply w m.session }
    | .round w, m => { m with round := (file _).apply w m.round }
    | .operation w, m => { m with operation := (file _).apply w m.operation }
  cut
    | f, .session w, m => { m with session := (file _).cut f.session w m.session }
    | f, .round w, m => { m with round := (file _).cut f.round w m.round }
    | f, .operation w, m => { m with operation := (file _).cut f.operation w m.operation }

/-- Manifests that are not being written. -/
def Manifests.files (m : Manifests) : ManifestFiles where
  session := m.session.map some
  round := m.round.map some
  operation := m.operation.map some

/-- The operations that rewrite `session_manifest.csv`. -/
def sessionOps (m : Manifests) : List ManifestOp := (rewrite (m.session.map some)).map .session

/-- The operations that rewrite `round_manifest.csv`. -/
def roundOps (m : Manifests) : List ManifestOp := (rewrite (m.round.map some)).map .round

/-- The operations that rewrite `transfer_manifest.csv`. -/
def operationOps (m : Manifests) : List ManifestOp :=
  (rewrite (m.operation.map some)).map .operation

/-- The operations that rewrite the manifests of a benchmark. -/
def replanOps (transferMode : Bool) (m : Manifests) : List ManifestOp :=
  sessionOps m ++ if transferMode then roundOps m ++ operationOps m else []

/-- The rows of a file, if there is no line that the loader fails on. -/
def readable {ρ : Type} (lines : List (Option ρ)) : Option (List ρ) :=
  if lines.all Option.isSome then some (lines.filterMap id) else none

/-- The schedule that a resumed run loads from files as it finds them, if it does not fail. -/
def resumeJobs (transferMode : Bool) (m : ManifestFiles) : Option (List Job) :=
  if transferMode then
    (readable m.operation).bind fun operations ↦
      (readable m.round).map fun rounds ↦ loadTransferRounds rounds operations
  else (readable m.session).map loadSessionJobs

/-- What a job asks for: an attempt in a session of a case, and its transfers. -/
def Job.content (job : Job) : String × ℕ × ℕ × List TransferOperation :=
  (job.caseId, job.sessionIndex, job.attemptInSession, job.operations)

/-- A resumed run loads what the planned jobs ask for, each once. -/
def LoadsAll (transferMode : Bool) (jobs : List Job) (m : ManifestFiles) : Prop :=
  ∃ jobs', resumeJobs transferMode m = some jobs' ∧
    (jobs'.map Job.content).Perm (jobs.map Job.content)

/-! ## A file that is being rewritten -/

theorem readable_eq_some {ρ : Type} {lines : List (Option ρ)} {rows : List ρ} :
    readable lines = some rows ↔ lines = rows.map some := by
  rw [readable]
  constructor
  · intro h
    split at h
    case isTrue hall =>
      obtain rfl := Option.some.inj h
      induction lines with
      | nil => rfl
      | cons line lines ih =>
          obtain ⟨hline, hall⟩ := Bool.and_eq_true_iff.mp hall
          obtain ⟨row, rfl⟩ := Option.isSome_iff_exists.mp hline
          exact congrArg (some row :: ·) (ih hall rfl)
    case isFalse => exact absurd h.symm (Option.some_ne_none _)
  · rintro rfl
    have hall : (rows.map some).all Option.isSome = true := by
      rw [List.all_map]
      exact List.all_eq_true.mpr fun _ _ ↦ rfl
    rw [if_pos hall, List.filterMap_map]
    exact congrArg some List.filterMap_some

/-- A list that has lost its end, but for one element, and is a rearrangement of what it was, is
what it was. -/
theorem eq_of_take_append_perm {α : Type} {l x : List α} {j : ℕ} (hx : x.length ≤ 1)
    (hfull : l.length ≤ j → x = []) (h : (l.take j ++ x).Perm l) : l.take j ++ x = l := by
  rcases Nat.lt_or_ge j l.length with hj | hj
  · have hlen := h.length_eq
    rw [List.length_append, List.length_take_of_le hj.le] at hlen
    have hj' : j + 1 = l.length := by omega
    obtain ⟨y, rfl⟩ : ∃ y, x = [y] := List.length_eq_one_iff.mp (by omega)
    have hsplit : l = l.take j ++ [l[j]] := by
      rw [← List.take_succ_eq_append_getElem hj, hj', List.take_length]
    have hperm : [y].Perm [l[j]] := (List.perm_append_left_iff (l.take j)).mp (hsplit ▸ h)
    rw [List.singleton_perm_singleton.mp hperm, ← hsplit]
  · rw [hfull hj, List.append_nil, List.take_of_length_le hj]

/-- The rewriting of a file has got so far that a loader finds every row: each has been written, or
is the one that is being written and reads as it will. -/
def Restored {ρ β : Type} (reads : ρ → β) (rows : List ρ) (k : ℕ) (f : Option (Option ρ)) : Prop :=
  ∀ i row, rows[i]? = some row →
    i + 2 < k ∨ k = i + 2 ∧ ∃ r, f = some (some r) ∧ reads r = reads row

/-- What a loader finds in a file that is being rewritten. -/
theorem readable_interrupted {ρ : Type} {rows rows' : List ρ} {old : List (Option ρ)} {k : ℕ}
    (hk : 0 < k) {f : Option (Option ρ)}
    (h : readable ((file (Option ρ)).interrupted (rewrite (rows.map some)) k f old) = some rows') :
    ∃ x : List ρ, rows' = rows.take (k - 2) ++ x ∧
      x.map some = if 2 ≤ k ∧ k < rows.length + 2 then f.toList else [] := by
  have hlines := readable_eq_some.mp h
  rw [interrupted_rewrite _ _ hk, List.length_map, ← List.map_take] at hlines
  obtain ⟨rows₁, x, rfl, hrows, hx⟩ := List.map_eq_append_iff.mp hlines.symm
  exact ⟨x, by rw [List.map_injective_iff.mpr (Option.some_injective _) hrows], hx⟩

/-- The last line, if it has been cut short. -/
theorem fragment_cases {ρ : Type} {x : List ρ} {n k : ℕ} {f : Option (Option ρ)}
    (hx : x.map some = if 2 ≤ k ∧ k < n + 2 then f.toList else []) :
    x.length ≤ 1 ∧ (n ≤ k - 2 → x = []) ∧ (x ≠ [] → 2 ≤ k ∧ ∃ r, x = [r] ∧ f = some (some r)) := by
  split at hx
  case isTrue hk =>
    cases f with
    | none =>
        obtain rfl := List.map_eq_nil_iff.mp hx
        exact ⟨Nat.zero_le 1, fun _ ↦ rfl, fun h ↦ absurd rfl h⟩
    | some line =>
        obtain ⟨r, rest, rfl, rfl, hrest⟩ := List.map_eq_cons_iff.mp hx
        obtain rfl := List.map_eq_nil_iff.mp hrest
        exact ⟨le_rfl, fun h ↦ by omega, fun _ ↦ ⟨hk.1, r, rfl, rfl⟩⟩
  case isFalse =>
    obtain rfl := List.map_eq_nil_iff.mp hx
    exact ⟨Nat.zero_le 1, fun _ ↦ rfl, fun h ↦ absurd rfl h⟩

section Restored

variable {ρ β : Type} {reads : ρ → β} {rows : List ρ} {old : List (Option ρ)} {k : ℕ}
  {f : Option (Option ρ)}

theorem restored_of_map_eq (hk : 0 < k) {rows' : List ρ}
    (h : readable ((file (Option ρ)).interrupted (rewrite (rows.map some)) k f old) = some rows')
    (hreads : rows'.map reads = rows.map reads) : Restored reads rows k f := by
  obtain ⟨x, rfl, hx⟩ := readable_interrupted hk h
  obtain ⟨hone, -, hcut⟩ := fragment_cases hx
  intro i row hi
  have hin : i < rows.length := (List.getElem?_eq_some_iff.mp hi).1
  rcases Nat.lt_or_ge (i + 2) k with hik | hik
  · exact .inl hik
  · have hlen := congrArg List.length hreads
    rw [List.length_map, List.length_map, List.length_append,
      List.length_take_of_le (by omega)] at hlen
    obtain ⟨hk2, r, rfl, rfl⟩ := hcut (by rintro rfl; simp at hlen; omega)
    have hki : k = i + 2 := by
      rw [List.length_singleton] at hlen
      omega
    refine .inr ⟨hki, r, rfl, ?_⟩
    have hget := congrArg (fun l ↦ l[i]?) hreads
    simp only [List.getElem?_map, hi, hki, Nat.add_sub_cancel] at hget
    rw [List.getElem?_append_right (List.length_take_le _ _),
      List.length_take_of_le hin.le, Nat.sub_self] at hget
    exact Option.some.inj hget

theorem exists_readable_of_restored (hk : 0 < k) (h : Restored reads rows k f) :
    ∃ rows', readable ((file (Option ρ)).interrupted (rewrite (rows.map some)) k f old) =
      some rows' ∧ rows'.map reads = rows.map reads := by
  simp only [readable_eq_some]
  rw [interrupted_rewrite _ _ hk, List.length_map, ← List.map_take]
  by_cases hall : rows.length ≤ k - 2
  · rw [List.take_of_length_le hall, if_neg (by omega), List.append_nil]
    exact ⟨rows, rfl, rfl⟩
  · have hpos : 0 < rows.length := by omega
    have hlast := h (rows.length - 1) rows[rows.length - 1] (List.getElem?_eq_getElem _)
    obtain ⟨hk', r, rfl, hr⟩ := hlast.resolve_left (by omega)
    rw [if_pos (by omega)]
    refine ⟨rows.take (k - 2) ++ [r], by rw [List.map_append]; rfl, ?_⟩
    have hk2 : k - 2 = rows.length - 1 := by omega
    rw [List.map_append, List.map_singleton, hr, hk2]
    calc (rows.take (rows.length - 1)).map reads ++ [reads rows[rows.length - 1]]
        = (rows.take (rows.length - 1) ++ [rows[rows.length - 1]]).map reads := by
          rw [List.map_append]; rfl
      _ = rows.map reads := by
          rw [← List.take_succ_eq_append_getElem, Nat.sub_add_cancel hpos, List.take_length]

end Restored

/-! ## The three files -/

/-- `session_manifest.csv`. -/
def sessionFile : Part manifestFiles (file (Option SessionRow)) where
  get m := m.session
  view
    | .session w => some w
    | _ => none
  fragment f := f.session
  apply_of_some {o _} _ h := by cases o <;> cases h; rfl
  apply_of_none {o} _ h := by cases o <;> first | rfl | cases h
  cut_of_some {o _} _ _ h := by cases o <;> cases h; rfl
  cut_of_none {o} _ _ h := by cases o <;> first | rfl | cases h

/-- `round_manifest.csv`. -/
def roundFile : Part manifestFiles (file (Option RoundRow)) where
  get m := m.round
  view
    | .round w => some w
    | _ => none
  fragment f := f.round
  apply_of_some {o _} _ h := by cases o <;> cases h; rfl
  apply_of_none {o} _ h := by cases o <;> first | rfl | cases h
  cut_of_some {o _} _ _ h := by cases o <;> cases h; rfl
  cut_of_none {o} _ _ h := by cases o <;> first | rfl | cases h

/-- `transfer_manifest.csv`. -/
def operationFile : Part manifestFiles (file (Option OperationRow)) where
  get m := m.operation
  view
    | .operation w => some w
    | _ => none
  fragment f := f.operation
  apply_of_some {o _} _ h := by cases o <;> cases h; rfl
  apply_of_none {o} _ h := by cases o <;> first | rfl | cases h
  cut_of_some {o _} _ _ h := by cases o <;> cases h; rfl
  cut_of_none {o} _ _ h := by cases o <;> first | rfl | cases h

section Crash

variable (m : Manifests) (k : ℕ) (f : ManifestFragment) (old : ManifestFiles)

theorem interrupted_session : (manifestFiles.interrupted (replanOps false m) k f old).session =
    (file _).interrupted (rewrite (m.session.map some)) k f.session old.session := by
  have h := sessionFile.get_interrupted_rewrite [] (sessionOps m) [] nofun (List.map_map ..) nofun
    k f old
  exact h

theorem interrupted_round : (manifestFiles.interrupted (replanOps true m) k f old).round =
    (file _).interrupted (rewrite (m.round.map some)) (k - (sessionOps m).length) f.round
    old.round := by
  have h := roundFile.get_interrupted_rewrite (sessionOps m) (roundOps m) (operationOps m) ?_
    (List.map_map ..) ?_ k f old
  · exact h
  · intro o ho
    obtain ⟨w, -, rfl⟩ := List.mem_map.mp ho
    rfl
  · intro o ho
    obtain ⟨w, -, rfl⟩ := List.mem_map.mp ho
    rfl

theorem interrupted_operation : (manifestFiles.interrupted (replanOps true m) k f old).operation =
    (file _).interrupted (rewrite (m.operation.map some))
      (k - (sessionOps m ++ roundOps m).length) f.operation old.operation := by
  have h := operationFile.get_interrupted_rewrite (sessionOps m ++ roundOps m)
    (operationOps m) [] ?_
    (List.map_map ..) nofun k f old
  · rw [List.append_nil, List.append_assoc] at h
    exact h
  · intro o ho
    rcases List.mem_append.mp ho with ho | ho
    all_goals
      obtain ⟨w, -, rfl⟩ := List.mem_map.mp ho
      rfl

end Crash

/-! ## Sessions -/

/-- What a loader of `session_manifest.csv` finds out about an attempt. -/
def SessionRow.reads (row : SessionRow) : String × ℕ × ℕ :=
  (row.caseId, row.session, row.attemptInSession)

theorem map_content_loadSessionJobs (rows : List SessionRow) :
    ((loadSessionJobs rows).map Job.content).Perm
      ((rows.map SessionRow.reads).map fun r ↦ (r.1, r.2.1, r.2.2, [])) := by
  rw [loadSessionJobs, List.map_map, List.map_map]
  exact (List.mergeSort_perm _ _).map _

/-- What a resumed run loads after a crash in the rewriting of `session_manifest.csv`. -/
theorem loadsAll_sessions {firmwareProfile firmwareProfile' : String → String} {seed : ℕ}
    {payloadSha256 : ℕ → ℕ → String} {jobs jobs' : List Job} (hjobs : Planned false jobs)
    (hperm : jobs'.Perm jobs) (k : ℕ) (f : ManifestFragment) :
    LoadsAll false jobs (manifestFiles.interrupted
        (replanOps false (writeManifests firmwareProfile seed payloadSha256 jobs')) k f
        (writeManifests firmwareProfile' seed payloadSha256 jobs).files) ↔
      k = 0 ∨ Restored SessionRow.reads (sessionRows firmwareProfile seed jobs') k f.session := by
  have hadd : Function.Injective
      fun r : String × ℕ × ℕ ↦ (r.1, r.2.1, r.2.2, ([] : List TransferOperation)) := by
    rintro ⟨a, b, c⟩ ⟨a', b', c'⟩ h
    cases h
    rfl
  have hcontent : (jobs.map Job.content).Perm
      (((sessionRows firmwareProfile seed jobs').map SessionRow.reads).map
        fun r ↦ (r.1, r.2.1, r.2.2, [])) := by
    have h := map_content_loadSessionJobs (sessionRows firmwareProfile seed jobs')
    rw [loadSessionJobs_sessionRows firmwareProfile seed (hjobs.perm hperm).mode] at h
    exact (hperm.symm.map _).trans h
  simp only [LoadsAll, resumeJobs, interrupted_session, Bool.false_eq_true, if_false,
    Option.map_eq_some_iff]
  rcases Nat.eq_zero_or_pos k with rfl | hk
  · refine iff_of_true ⟨jobs, ⟨_, readable_eq_some.mpr rfl, ?_⟩, .refl _⟩ (.inl rfl)
    exact loadSessionJobs_sessionRows firmwareProfile' seed hjobs.mode
  · rw [or_iff_right hk.ne']
    constructor
    · rintro ⟨_, ⟨rows, hrows, rfl⟩, hload⟩
      refine restored_of_map_eq hk hrows ?_
      obtain ⟨x, rfl, hx⟩ := readable_interrupted hk hrows
      obtain ⟨hone, hfull, -⟩ := fragment_cases hx
      have hall := (List.map_perm_map_iff hadd).mp
        (((map_content_loadSessionJobs _).symm.trans hload).trans hcontent)
      rw [List.map_append, List.map_take] at hall ⊢
      refine eq_of_take_append_perm ?_ ?_ hall
      · rwa [List.length_map]
      · rw [List.length_map]
        exact fun h ↦ by rw [hfull h, List.map_nil]
    · intro h
      obtain ⟨rows, hrows, hmap⟩ := exists_readable_of_restored hk h
      refine ⟨_, ⟨rows, hrows, rfl⟩, (map_content_loadSessionJobs rows).trans ?_⟩
      rw [hmap]
      exact hcontent.symm

/-! ## Rounds -/

/-- A schedule of transfer rounds: a round for each case, with something to transfer. -/
structure PlannedRounds (jobs : List Job) : Prop extends Planned true jobs where
  nodup_caseId : (jobs.map Job.caseId).Nodup
  operations_ne_nil : ∀ job ∈ jobs, job.operations ≠ []

/-- What a loader of `round_manifest.csv` finds out about a round. -/
def RoundRow.reads (row : RoundRow) : ℕ × String × ℕ :=
  (row.executionOrder, row.caseId, row.roundIndex)

/-- What a loader of `transfer_manifest.csv` finds out about a transfer. -/
def OperationRow.reads (row : OperationRow) : (ℕ × String) × TransferOperation :=
  (row.key, row.operation)

/-- What a row of `round_manifest.csv` asks for, with its number. -/
def RoundRow.place (operations : List OperationRow) (row : RoundRow) :
    ℕ × String × ℕ × ℕ × List TransferOperation :=
  (row.executionOrder, (row.job operations).content)

/-- What the jobs ask for, with their numbers. -/
def places (jobs : List Job) : List (ℕ × String × ℕ × ℕ × List TransferOperation) :=
  (enumerate jobs).map fun p ↦ (p.1, p.2.content)

theorem PlannedRounds.eq_of_caseId {jobs : List Job} (h : PlannedRounds jobs) {job job' : Job}
    (hjob : job ∈ jobs) (hjob' : job' ∈ jobs) (hcase : job.caseId = job'.caseId) : job = job' :=
  List.inj_on_of_nodup_map h.nodup_caseId hjob hjob' hcase

/-- What is loaded for a case is what is planned for it. -/
theorem PlannedRounds.content_eq {jobs : List Job} (h : PlannedRounds jobs) {job job' : Job}
    (hjob : job.content ∈ jobs.map Job.content) (hjob' : job' ∈ jobs)
    (hcase : job.caseId = job'.caseId) : job.content = job'.content := by
  obtain ⟨job'', hmem, hcontent⟩ := List.mem_map.mp hjob
  rw [← hcontent]
  refine congrArg Job.content (h.eq_of_caseId hmem hjob' ?_)
  exact (congrArg Prod.fst hcontent).trans hcase

theorem loadTransferRounds_perm (rows : List RoundRow) (operations : List OperationRow) :
    (loadTransferRounds rows operations).Perm (rows.map (RoundRow.job operations)) :=
  (List.mergeSort_perm _ _).map _

theorem map_content_eq_of_reads {rows rows' : List RoundRow}
    (h : rows.map RoundRow.reads = rows'.map RoundRow.reads) (operations : List OperationRow) :
    (rows.map (RoundRow.job operations)).map Job.content =
      (rows'.map (RoundRow.job operations)).map Job.content := by
  have hcontent : Job.content ∘ RoundRow.job operations = (fun r : ℕ × String × ℕ ↦
      (r.2.1, r.2.2, 1, operationsFor operations (r.1, r.2.1))) ∘ RoundRow.reads := rfl
  rw [List.map_map, List.map_map, hcontent, ← List.map_map, h, List.map_map]

theorem operationsFor_eq_of_reads {operations operations' : List OperationRow}
    (h : operations.map OperationRow.reads = operations'.map OperationRow.reads)
    (key : ℕ × String) :
    operationsFor operations key = operationsFor operations' key := by
  have hreads : ∀ l : List OperationRow, (l.filter fun row ↦ decide (row.key = key)).map
      OperationRow.operation = ((l.map OperationRow.reads).filter fun r ↦ decide (r.1 = key)).map
        Prod.snd := by
    intro l
    rw [List.filter_map, List.map_map]
    rfl
  rw [operationsFor, operationsFor, hreads, hreads, h]

section Rounds

variable {jobs jobs' : List Job} {firmwareProfile : String → String} {seed : ℕ}
  {payloadSha256 : ℕ → ℕ → String}

theorem place_roundRow (h : PlannedRounds jobs) {p : ℕ × Job} (hp : p ∈ enumerate jobs) :
    (roundRow firmwareProfile seed p).place (operationRows payloadSha256 jobs) =
      (p.1, p.2.content) := by
  have hmem := mem_of_mem_enumerate hp
  have hfor := operationsFor_operationRows payloadSha256 hp (h.sorted p.2 hmem)
  obtain ⟨order, job | job⟩ := p
  · exact absurd (h.mode _ hmem) Bool.noConfusion
  · exact congrArg (fun operations ↦ (order, job.caseId, job.roundIndex, 1, operations)) hfor

/-- A key under which there are operations is the key of a round. -/
theorem exists_of_operationsFor_ne_nil {key : ℕ × String}
    (h : operationsFor (operationRows payloadSha256 jobs) key ≠ []) :
    ∃ p ∈ enumerate jobs, key = (p.1, p.2.caseId) := by
  obtain ⟨operation, hoperation⟩ := List.exists_mem_of_ne_nil _ h
  rw [operationsFor, List.mem_mergeSort] at hoperation
  obtain ⟨row, hrow, -⟩ := List.mem_map.mp hoperation
  obtain ⟨hrow, hkey⟩ := List.mem_filter.mp hrow
  obtain ⟨p, hp, hrow⟩ := List.mem_flatMap.mp hrow
  exact ⟨p, hp, (of_decide_eq_true hkey).symm.trans (key_of_mem_jobOperationRows hrow)⟩

/-- Rows that find all planned rounds in the old operations have the old order. -/
theorem place_perm (h : PlannedRounds jobs) {rows : List RoundRow}
    (hload : ((rows.map (RoundRow.job (operationRows payloadSha256 jobs))).map Job.content).Perm
      (jobs.map Job.content)) :
    (rows.map (RoundRow.place (operationRows payloadSha256 jobs))).Perm (places jobs) := by
  have hnodup : (rows.map (RoundRow.place (operationRows payloadSha256 jobs))).Nodup := by
    refine List.Nodup.of_map Prod.snd ?_
    rw [List.map_map]
    rw [List.map_map] at hload
    refine hload.nodup_iff.mpr (List.Nodup.of_map Prod.fst ?_)
    rw [List.map_map]
    exact h.nodup_caseId
  have hsubset : rows.map (RoundRow.place (operationRows payloadSha256 jobs)) ⊆ places jobs := by
    intro q hq
    obtain ⟨row, hrow, rfl⟩ := List.mem_map.mp hq
    have hjob := hload.mem_iff.mp (List.mem_map_of_mem (List.mem_map_of_mem hrow))
    obtain ⟨job, hmem, hcontent⟩ := List.mem_map.mp hjob
    have hfor : job.operations = operationsFor (operationRows payloadSha256 jobs) row.key :=
      congrArg (fun c ↦ c.2.2.2) hcontent
    obtain ⟨p, hp, hkey⟩ := exists_of_operationsFor_ne_nil (hfor ▸ h.operations_ne_nil job hmem)
    obtain ⟨horder, hcase⟩ := Prod.mk.inj hkey
    have hsame := h.content_eq hjob (mem_of_mem_enumerate hp) hcase
    exact List.mem_map.mpr ⟨p, hp, Prod.ext horder.symm hsame.symm⟩
  refine (List.subperm_of_subset hnodup hsubset).perm_of_length_le ?_
  have hlen := hload.length_eq
  rw [List.length_map, List.length_map, List.length_map] at hlen
  rw [places, List.length_map, length_enumerate, List.length_map, hlen]

theorem map_place_roundRows (h : PlannedRounds jobs) :
    (roundRows firmwareProfile seed jobs).map (RoundRow.place (operationRows payloadSha256 jobs)) =
      places jobs := by
  rw [roundRows, List.map_map]
  exact List.map_congr_left fun p hp ↦ place_roundRow h hp

theorem getElem?_of_mem_enumerate {i : ℕ} {job : Job} (h : (i + 1, job) ∈ enumerate jobs) :
    jobs[i]? = some job := by
  obtain ⟨j, hj⟩ := List.mem_iff_getElem?.mp h
  obtain ⟨job', hjob', heq⟩ := Option.map_eq_some_iff.mp ((getElem?_enumerate jobs j).symm.trans hj)
  obtain ⟨hi, rfl⟩ := Prod.mk.inj heq
  rwa [← Nat.succ.inj hi]

/-- The rounds whose rows have been written find their old operations only under their old number.
-/
theorem take_eq_of_place (h : PlannedRounds jobs) (hperm : jobs'.Perm jobs) {j : ℕ}
    (hplace : ∀ row ∈ (roundRows firmwareProfile seed jobs').take j,
      row.place (operationRows payloadSha256 jobs) ∈ places jobs) :
    jobs'.take j = jobs.take j := by
  refine List.ext_getElem? fun i ↦ ?_
  rcases lt_or_ge i j with hi | hi
  · rw [List.getElem?_take_of_lt hi, List.getElem?_take_of_lt hi]
    rcases lt_or_ge i jobs'.length with hlt | hge
    · have hrow : roundRow firmwareProfile seed (i + 1, jobs'[i]) ∈
          (roundRows firmwareProfile seed jobs').take j := by
        refine List.mem_iff_getElem?.mpr ⟨i, ?_⟩
        rw [List.getElem?_take_of_lt hi, roundRows, List.getElem?_map, getElem?_enumerate,
          List.getElem?_eq_getElem hlt]
        rfl
      obtain ⟨⟨order, job⟩, hp, hsame⟩ := List.mem_map.mp (hplace _ hrow)
      obtain rfl : order = i + 1 := congrArg Prod.fst hsame
      have hget := getElem?_of_mem_enumerate hp
      have hjob : job = jobs'[i] := h.eq_of_caseId (List.mem_of_getElem? hget)
        (hperm.mem_iff.mp (List.getElem_mem hlt)) (congrArg (fun q ↦ q.2.1) hsame)
      rw [hget, List.getElem?_eq_getElem hlt, hjob]
    · rw [List.getElem?_eq_none hge, List.getElem?_eq_none (hperm.length_eq ▸ hge)]
  · rw [List.getElem?_eq_none ((List.length_take_le _ _).trans hi),
      List.getElem?_eq_none ((List.length_take_le _ _).trans hi)]

theorem map_content_roundRows (h : PlannedRounds jobs) :
    ((roundRows firmwareProfile seed jobs).map
      (RoundRow.job (operationRows payloadSha256 jobs))).map Job.content = jobs.map Job.content :=
  calc _ = ((roundRows firmwareProfile seed jobs).map
          (RoundRow.place (operationRows payloadSha256 jobs))).map Prod.snd := by
        rw [List.map_map, List.map_map]
        rfl
    _ = ((enumerate jobs).map Prod.snd).map Job.content := by
        rw [map_place_roundRows h, places, List.map_map, List.map_map]
        rfl
    _ = jobs.map Job.content := by rw [enumerate_map_snd]

/-- A crash before the operations are rewritten. -/
theorem loads_old_operations (h : PlannedRounds jobs) (hperm : jobs'.Perm jobs) {k : ℕ} (hk : 0 < k)
    (f : Option (Option RoundRow)) (old : List (Option RoundRow)) :
    (∃ rows, readable ((file _).interrupted
        (rewrite ((roundRows firmwareProfile seed jobs').map some)) k f old) = some rows ∧
      ((rows.map (RoundRow.job (operationRows payloadSha256 jobs))).map Job.content).Perm
        (jobs.map Job.content)) ↔
    jobs' = jobs ∧ Restored RoundRow.reads (roundRows firmwareProfile seed jobs') k f := by
  have hlength : (roundRows firmwareProfile seed jobs').length = jobs'.length := by
    rw [roundRows, List.length_map, length_enumerate]
  constructor
  · rintro ⟨rows, hrows, hload⟩
    have hplace := place_perm h hload
    obtain ⟨x, rfl, hx⟩ := readable_interrupted hk hrows
    obtain ⟨hone, hfull, -⟩ := fragment_cases hx
    rw [hlength] at hfull
    have hjobs : jobs' = jobs := by
      have htake := take_eq_of_place h hperm fun row hrow ↦
        hplace.mem_iff.mp (List.mem_map_of_mem (List.mem_append_left x hrow))
      have hsplit : jobs.take (k - 2) ++ jobs'.drop (k - 2) = jobs' := by
        rw [← htake, List.take_append_drop]
      rw [← hsplit]
      refine eq_of_take_append_perm ?_ (fun hle ↦ ?_) (hsplit.symm ▸ hperm)
      · have hlen := hload.length_eq
        rw [List.length_map, List.length_map, List.length_map, List.length_append,
          List.length_take, hlength, ← hperm.length_eq] at hlen
        rw [List.length_drop]
        omega
      · exact List.drop_eq_nil_of_le (hperm.length_eq.trans_le hle)
    subst hjobs
    refine ⟨rfl, restored_of_map_eq hk hrows ?_⟩
    have hplaced : (roundRows firmwareProfile seed jobs').map
        (RoundRow.place (operationRows payloadSha256 jobs')) = places jobs' :=
      map_place_roundRows h
    have hplaces : (places jobs').length = jobs'.length := by
      rw [places, List.length_map, length_enumerate]
    have hall : ((roundRows firmwareProfile seed jobs').take (k - 2) ++ x).map
        (RoundRow.place (operationRows payloadSha256 jobs')) =
          (roundRows firmwareProfile seed jobs').map
            (RoundRow.place (operationRows payloadSha256 jobs')) := by
      rw [hplaced]
      rw [List.map_append, List.map_take, hplaced] at hplace ⊢
      refine eq_of_take_append_perm ?_ (fun hle ↦ ?_) hplace
      · rwa [List.length_map]
      · rw [hfull (hplaces ▸ hle), List.map_nil]
    have hreads : RoundRow.reads = (fun q : ℕ × String × ℕ × ℕ × List TransferOperation ↦
        (q.1, q.2.1, q.2.2.1)) ∘ RoundRow.place (operationRows payloadSha256 jobs') := rfl
    rw [hreads, ← List.map_map, hall, List.map_map]
  · rintro ⟨rfl, hrestored⟩
    obtain ⟨rows, hrows, hmap⟩ := exists_readable_of_restored hk hrestored
    exact ⟨rows, hrows, .of_eq ((map_content_eq_of_reads hmap _).trans (map_content_roundRows h))⟩

/-- The rows of `transfer_manifest.csv`, grouped by their keys. -/
theorem map_reads_operationRows (jobs : List Job) :
    (operationRows payloadSha256 jobs).map OperationRow.reads =
      (enumerate jobs).flatMap fun p ↦ p.2.operations.map fun operation ↦
        ((p.1, p.2.caseId), operation) := by
  rw [operationRows, List.map_flatMap]
  refine List.flatMap_congr fun p _ ↦ ?_
  rw [jobOperationRows, List.map_map]
  rfl

/-- A round that is loaded has found its own operations. -/
theorem operations_of_load (h : PlannedRounds jobs) (hperm : jobs'.Perm jobs)
    {operations : List OperationRow}
    (hload : (((roundRows firmwareProfile seed jobs').map (RoundRow.job operations)).map
      Job.content).Perm
      (jobs.map Job.content))
    {p : ℕ × Job} (hp : p ∈ enumerate jobs') :
    operationsFor operations (p.1, p.2.caseId) = p.2.operations := by
  have hmem : p.2 ∈ jobs := hperm.mem_iff.mp (mem_of_mem_enumerate hp)
  have hjob : ((roundRow firmwareProfile seed p).job operations).content ∈ jobs.map Job.content :=
    hload.mem_iff.mp (List.mem_map_of_mem (List.mem_map_of_mem (List.mem_map_of_mem hp)))
  have hsame := h.content_eq hjob hmem rfl
  exact congrArg (fun c ↦ c.2.2.2) hsame

/-- The rows that rounds find are the rows of `transfer_manifest.csv`, in some order. -/
theorem reads_perm (h : PlannedRounds jobs) (hperm : jobs'.Perm jobs)
    {operations : List OperationRow}
    (hload : (((roundRows firmwareProfile seed jobs').map (RoundRow.job operations)).map
      Job.content).Perm
      (jobs.map Job.content)) :
    ((operations.map OperationRow.reads).filter fun r ↦
        decide (r.1 ∈ (enumerate jobs').map fun p ↦ (p.1, p.2.caseId))).Perm
      ((operationRows payloadSha256 jobs').map OperationRow.reads) := by
  have hgroup := flatMap_filter_perm
    (fun r : (ℕ × String) × TransferOperation ↦ r.1) (fun _ l ↦ l) (fun _ _ ↦ .refl _)
    ((enumerate jobs').map fun p ↦ ((p.1, p.2.caseId), p.1))
    ((operations.map OperationRow.reads).filter fun r ↦
      decide (r.1 ∈ (enumerate jobs').map fun p ↦ (p.1, p.2.caseId)))
    (by rw [List.map_map]; exact nodup_enumerate_key jobs')
    (fun r hr ↦ by rw [List.map_map]; exact of_decide_eq_true (List.mem_filter.mp hr).2)
  refine hgroup.symm.trans ?_
  rw [List.flatMap_map, map_reads_operationRows]
  refine List.Perm.flatMap_left _ fun p hp ↦ ?_
  have hkey : (p.1, p.2.caseId) ∈ (enumerate jobs').map fun p ↦ (p.1, p.2.caseId) :=
    List.mem_map_of_mem hp
  have hfilter : ((operations.map OperationRow.reads).filter fun r ↦
      decide (r.1 ∈ (enumerate jobs').map fun p ↦ (p.1, p.2.caseId))).filter
        (fun r ↦ decide (r.1 = (p.1, p.2.caseId))) =
      ((operations.filter fun row ↦ decide (row.key = (p.1, p.2.caseId))).map
        OperationRow.operation).map fun operation ↦ ((p.1, p.2.caseId), operation) :=
    calc _ = (operations.filter fun row ↦ decide (row.key = (p.1, p.2.caseId))).map
            OperationRow.reads := by
          rw [List.filter_filter, List.filter_map]
          refine congrArg (List.map OperationRow.reads) (List.filter_congr fun row _ ↦ ?_)
          change (decide (row.reads.1 = (p.1, p.2.caseId)) && decide (row.reads.1 ∈ _)) =
            decide (row.reads.1 = (p.1, p.2.caseId))
          by_cases hrow : row.reads.1 = (p.1, p.2.caseId)
          · have hmem : row.reads.1 ∈ (enumerate jobs').map fun p ↦ (p.1, p.2.caseId) := hrow ▸ hkey
            rw [decide_eq_true hmem, Bool.and_true]
          · rw [decide_eq_false hrow, Bool.false_and]
      _ = _ := by
          rw [List.map_map]
          refine List.map_congr_left fun row hrow ↦ ?_
          exact Prod.ext (of_decide_eq_true (List.mem_filter.mp hrow).2) rfl
  refine (List.Perm.of_eq hfilter).trans (List.Perm.map _ ?_)
  rw [← operations_of_load h hperm hload hp]
  exact (List.mergeSort_perm _ _).symm

theorem PlannedRounds.perm (h : PlannedRounds jobs) (hperm : jobs'.Perm jobs) :
    PlannedRounds jobs' where
  toPlanned := h.toPlanned.perm hperm
  nodup_caseId := (hperm.map _).nodup_iff.mpr h.nodup_caseId
  operations_ne_nil job hjob := h.operations_ne_nil job (hperm.mem_iff.mp hjob)

/-- A crash while the operations are rewritten. -/
theorem loads_new_operations (h : PlannedRounds jobs) (hperm : jobs'.Perm jobs) {k : ℕ} (hk : 0 < k)
    (f : Option (Option OperationRow)) (old : List (Option OperationRow)) :
    (∃ operations, readable ((file _).interrupted
        (rewrite ((operationRows payloadSha256 jobs').map some)) k f old) = some operations ∧
      (((roundRows firmwareProfile seed jobs').map (RoundRow.job operations)).map Job.content).Perm
      (jobs.map Job.content)) ↔
    Restored OperationRow.reads (operationRows payloadSha256 jobs') k f := by
  constructor
  · rintro ⟨operations, hoperations, hload⟩
    refine restored_of_map_eq hk hoperations ?_
    obtain ⟨x, rfl, hx⟩ := readable_interrupted hk hoperations
    obtain ⟨hone, hfull, -⟩ := fragment_cases hx
    generalize hrows : operationRows payloadSha256 jobs' = rows at hfull
    have hreads : (((rows.take (k - 2) ++ x).map OperationRow.reads).filter fun r ↦
        decide (r.1 ∈ (enumerate jobs').map fun p ↦ (p.1, p.2.caseId))).Perm
          (rows.map OperationRow.reads) := by
      rw [← hrows]
      exact reads_perm h hperm hload
    have hle : ((rows.take (k - 2) ++ x).map OperationRow.reads).length ≤
        (rows.map OperationRow.reads).length := by
      rw [List.length_map, List.length_map, List.length_append]
      rcases Nat.lt_or_ge (k - 2) rows.length with hlt | hge
      · rw [List.length_take_of_le hlt.le]
        omega
      · rw [hfull hge, List.length_nil, Nat.add_zero]
        exact List.length_take_le' _ _
    have hall := List.length_filter_eq_length_iff.mp
      (le_antisymm (List.length_filter_le _ _) (hle.trans_eq hreads.length_eq.symm))
    rw [List.filter_eq_self.mpr hall, List.map_append, List.map_take] at hreads
    rw [List.map_append, List.map_take]
    refine eq_of_take_append_perm ?_ (fun hle ↦ ?_) hreads
    · rwa [List.length_map]
    · rw [hfull (List.length_map (f := OperationRow.reads) ▸ hle), List.map_nil]
  · intro hrestored
    obtain ⟨operations, hoperations, hmap⟩ := exists_readable_of_restored hk hrestored
    refine ⟨operations, hoperations, .trans (.of_eq ?_) (hperm.map _)⟩
    rw [← map_content_roundRows (h.perm hperm)]
    refine congrArg (List.map Job.content) (List.map_congr_left fun row _ ↦ ?_)
    exact congrArg
      (fun operations ↦ Job.round ⟨row.sourceSequence, row.caseId, row.roundIndex, operations⟩)
      (operationsFor_eq_of_reads hmap row.key)

/-- What a resumed run loads after a crash in the rewriting of the three manifests. -/
theorem loadsAll_rounds {firmwareProfile' : String → String} (h : PlannedRounds jobs)
    (hperm : jobs'.Perm jobs) (k : ℕ) (f : ManifestFragment) {m : Manifests}
    (hm : m = writeManifests firmwareProfile seed payloadSha256 jobs') :
    LoadsAll true jobs (manifestFiles.interrupted (replanOps true m) k f
        (writeManifests firmwareProfile' seed payloadSha256 jobs).files) ↔
      k - (sessionOps m).length = 0 ∨
      k - (sessionOps m ++ roundOps m).length = 0 ∧ jobs' = jobs ∧
        Restored RoundRow.reads m.round (k - (sessionOps m).length) f.round ∨
      0 < k - (sessionOps m ++ roundOps m).length ∧ Restored OperationRow.reads m.operation
        (k - (sessionOps m ++ roundOps m).length) f.operation := by
  have hloads : ∀ files, LoadsAll true jobs files ↔ ∃ operations rounds,
      readable files.operation = some operations ∧ readable files.round = some rounds ∧
        ((rounds.map (RoundRow.job operations)).map Job.content).Perm (jobs.map Job.content) := by
    intro files
    simp only [LoadsAll, resumeJobs, if_true, Option.bind_eq_some_iff, Option.map_eq_some_iff]
    constructor
    · rintro ⟨_, ⟨operations, hoperations, rounds, hrounds, rfl⟩, hload⟩
      exact ⟨operations, rounds, hoperations, hrounds,
        ((loadTransferRounds_perm _ _).symm.map _).trans hload⟩
    · rintro ⟨operations, rounds, hoperations, hrounds, hload⟩
      exact ⟨_, ⟨operations, hoperations, rounds, hrounds, rfl⟩,
        ((loadTransferRounds_perm _ _).map _).trans hload⟩
  rw [hloads, interrupted_operation, interrupted_round]
  have hlen : (sessionOps m ++ roundOps m).length =
      (sessionOps m).length + (m.round.length + 2) := by
    rw [List.length_append, roundOps, List.length_map, length_rewrite, List.length_map]
  subst hm
  generalize hm : writeManifests firmwareProfile seed payloadSha256 jobs' = m at hlen ⊢
  rcases Nat.eq_zero_or_pos (k - (sessionOps m ++ roundOps m).length) with hT | hT
  · -- the operations have not been touched
    have hread : readable ((file _).interrupted (rewrite (m.operation.map some)) 0 f.operation
        (writeManifests firmwareProfile' seed payloadSha256 jobs).files.operation) =
          some (operationRows payloadSha256 jobs) := readable_eq_some.mpr rfl
    rw [hT]
    simp only [hread, Option.some.injEq, exists_and_left, exists_eq_left', true_and, lt_irrefl,
      false_and, or_false]
    rcases Nat.eq_zero_or_pos (k - (sessionOps m).length) with hR | hR
    · rw [hR]
      exact iff_of_true ⟨roundRows firmwareProfile' seed jobs, readable_eq_some.mpr rfl,
        .of_eq (map_content_roundRows h)⟩ (.inl rfl)
    · rw [or_iff_right hR.ne', ← hm]
      rw [← hm] at hR
      exact loads_old_operations h hperm hR _ _
  · -- the rounds have been written
    have hread : readable ((file _).interrupted (rewrite (m.round.map some))
        (k - (sessionOps m).length) f.round
        (writeManifests firmwareProfile' seed payloadSha256 jobs).files.round) =
          some (roundRows firmwareProfile seed jobs') := by
      rw [(file _).interrupted_of_length_le, perform_rewrite, ← hm]
      · exact readable_eq_some.mpr rfl
      · rw [length_rewrite, List.length_map]
        omega
    have hR : k - (sessionOps m).length ≠ 0 := by omega
    simp only [hread, Option.some.injEq, exists_and_left, exists_eq_left', hT.ne', hT, hR, false_or,
      false_and, true_and]
    rw [← hm]
    rw [← hm] at hT
    exact loads_new_operations h hperm hT _ _

end Rounds

/-! ## Replanning -/

/-- The crash point does no harm: every file that a resumed run reads was left alone or had been
filled again, and if the operations had been left alone when the rounds had been filled, then the
order of the rounds is still the same. -/
def CrashHarmless (transferMode : Bool) (jobs jobs' : List Job) (m : Manifests) (k : ℕ)
    (f : ManifestFragment) : Prop :=
  if transferMode then
    k - (sessionOps m).length = 0 ∨
    k - (sessionOps m ++ roundOps m).length = 0 ∧ jobs' = jobs ∧
      Restored RoundRow.reads m.round (k - (sessionOps m).length) f.round ∨
    0 < k - (sessionOps m ++ roundOps m).length ∧ Restored OperationRow.reads m.operation
      (k - (sessionOps m ++ roundOps m).length) f.operation
  else k = 0 ∨ Restored SessionRow.reads m.session k f.session

section Replan

variable (random : ℕ → Random) (derivedSeed : ℕ → String → ℕ → ℕ)

theorem operationsForCase_ne_nil (seed : ℕ) (caseId : String) {iterations : ℕ}
    (h : 1 ≤ iterations) : operationsForCase random derivedSeed seed caseId iterations ≠ [] := by
  obtain ⟨n, rfl⟩ := Nat.exists_eq_add_of_le' h
  intro hnil
  have hlen := congrArg List.length hnil
  rw [operationsForCase, List.length_map, List.length_zipIdx,
    ((random _).shuffle_perm 0 _).length_eq, List.range'_succ, List.flatMap_cons,
    List.length_append] at hlen
  exact Nat.succ_ne_zero _ (Nat.eq_zero_of_add_eq_zero_right hlen)

theorem plannedRounds_buildTransferRounds (seed : ℕ) {cases : List Case}
    (hids : (cases.map Case.caseId).Nodup) (hiterations : ∀ case ∈ cases, 1 ≤ case.iterations) :
    PlannedRounds (buildTransferRounds random derivedSeed seed cases).jobs where
  toPlanned := planned_buildTransferRounds random derivedSeed seed cases
  nodup_caseId := by
    rw [buildTransferRounds, List.map_map]
    refine (((random seed).shuffle_perm 0 _).map _).nodup_iff.mpr ?_
    rw [transferRounds, List.map_map]
    have hcases : (cases.zipIdx 1).map (fun p ↦ p.1.caseId) = cases.map Case.caseId := by
      conv_rhs => rw [← List.zipIdx_map_fst 1 cases, List.map_map]
      rfl
    exact hcases.symm ▸ hids
  operations_ne_nil := by
    intro job hjob
    obtain ⟨j, hj, rfl⟩ := List.mem_map.mp hjob
    obtain ⟨p, hp, rfl⟩ := List.mem_map.mp (((random seed).shuffle_perm 0 _).mem_iff.mp hj)
    have hmem : p.1 ∈ cases := List.zipIdx_map_fst 1 cases ▸ List.mem_map_of_mem hp
    exact operationsForCase_ne_nil random derivedSeed seed _ (hiterations _ hmem)

/-- A schedule that is built, in any order. -/
theorem plannedRounds_of_perm {seed : ℕ} {cases : List Case} (hids : (cases.map Case.caseId).Nodup)
    (hiterations : ∀ case ∈ cases, 1 ≤ case.iterations) {jobs : List Job}
    (hjobs : jobs.Perm (buildTransferRounds random derivedSeed seed cases).jobs) :
    PlannedRounds jobs :=
  (plannedRounds_buildTransferRounds random derivedSeed seed hids hiterations).perm hjobs

end Replan

theorem planned_of_resumeJobs {transferMode : Bool} {m : ManifestFiles} {jobs : List Job}
    (h : resumeJobs transferMode m = some jobs) : Planned transferMode jobs := by
  cases transferMode with
  | false =>
      obtain ⟨rows, -, rfl⟩ := Option.map_eq_some_iff.mp h
      constructor
      · intro job hjob
        obtain ⟨row, -, rfl⟩ := List.mem_map.mp hjob
        rfl
      · intro job hjob
        obtain ⟨row, -, rfl⟩ := List.mem_map.mp hjob
        exact .nil
  | true =>
      obtain ⟨operations, -, h⟩ := Option.bind_eq_some_iff.mp h
      obtain ⟨rounds, -, rfl⟩ := Option.map_eq_some_iff.mp h
      constructor
      · intro job hjob
        obtain ⟨row, -, rfl⟩ := List.mem_map.mp hjob
        rfl
      · intro job hjob
        obtain ⟨row, -, rfl⟩ := List.mem_map.mp hjob
        have hsorted : (operationsFor operations row.key).Pairwise fun a b ↦
            decide (a.order ≤ b.order) = true := by
          refine List.pairwise_mergeSort (fun a b c hab hbc ↦ ?_) (fun a b ↦ ?_) _
          · exact decide_eq_true ((of_decide_eq_true hab).trans (of_decide_eq_true hbc))
          · rw [Bool.or_eq_true, decide_eq_true_iff, decide_eq_true_iff]
            exact Nat.le_total a.order b.order
        exact hsorted.imp fun h ↦ of_decide_eq_true h

/-- What a resumed run persists, if it groups what it has loaded, a run that is resumed after it
loads again. -/
theorem loadJobs_grouped {transferMode : Bool} {m : ManifestFiles} {jobs : List Job}
    (h : resumeJobs transferMode m = some jobs) (bench : Bench) (seed : ℕ)
    (payloadSha256 : ℕ → ℕ → String) :
    (loadJobs transferMode (writeManifests bench.firmwareProfile seed payloadSha256
      (groupJobsByFirmwareProfile bench.rng bench.firmwareProfile jobs))).Perm jobs := by
  have hperm := groupJobsByFirmwareProfile_perm bench.rng bench.firmwareProfile jobs
  rw [loadJobs_writeManifests _ _ _ ((planned_of_resumeJobs h).perm hperm)]
  exact hperm

section Plan

variable (random : ℕ → Random) (derivedSeed : ℕ → String → ℕ → ℕ) (transferMode : Bool)
  (seed sessionsPerCase : ℕ) (cases : List Case)

/-- A list of jobs with every planned attempt, once, in which every round has the operations of its
case. -/
structure HoldsPlan (jobs : List Job) : Prop where
  attempts : (jobs.map fun job ↦ job.slot.key).Perm
    ((if transferMode then plannedRounds cases else plannedSlots sessionsPerCase cases).map
      Slot.key)
  operations : ∀ job ∈ jobs, ∀ case ∈ cases, job.caseId = case.caseId → job.operations =
    if transferMode then
      operationsForCase random derivedSeed seed case.caseId case.iterations
    else []
  operations_ne_nil : transferMode = true → ∀ job ∈ jobs, job.operations ≠ []

/-- A resumed run loads the plan, and persists it when it writes the manifests again. -/
def PlanKept (m : ManifestFiles) : Prop :=
  ∃ jobs, resumeJobs transferMode m = some jobs ∧
    HoldsPlan random derivedSeed transferMode seed sessionsPerCase cases jobs ∧
    ∀ (bench : Bench) (payloadSha256 : ℕ → ℕ → String),
      HoldsPlan random derivedSeed transferMode seed sessionsPerCase cases
        (loadJobs transferMode (writeManifests bench.firmwareProfile seed payloadSha256
          (groupJobsByFirmwareProfile bench.rng bench.firmwareProfile jobs)))

variable {random derivedSeed transferMode seed sessionsPerCase cases}

theorem HoldsPlan.perm {jobs jobs' : List Job}
    (h : HoldsPlan random derivedSeed transferMode seed sessionsPerCase cases jobs)
    (hperm : jobs'.Perm jobs) :
    HoldsPlan random derivedSeed transferMode seed sessionsPerCase cases jobs' where
  attempts := (hperm.map _).trans h.attempts
  operations job hjob := h.operations job (hperm.mem_iff.mp hjob)
  operations_ne_nil hmode job hjob := h.operations_ne_nil hmode job (hperm.mem_iff.mp hjob)

/-- The schedule that is built holds the plan. -/
theorem holdsPlan_buildSchedule (hids : (cases.map Case.caseId).Nodup)
    (hiterations : ∀ case ∈ cases, 1 ≤ case.iterations) :
    HoldsPlan random derivedSeed transferMode seed sessionsPerCase cases
      (buildSchedule random derivedSeed transferMode seed sessionsPerCase cases).jobs := by
  have hmap : ∀ jobs : List Job, jobs.map (fun job ↦ job.slot.key) =
      (jobs.map Job.slot).map Slot.key :=
    fun jobs ↦ by rw [List.map_map]; rfl
  cases transferMode with
  | false =>
      refine ⟨?_, ?_, fun h ↦ absurd h Bool.false_ne_true⟩
      · rw [hmap]
        exact (map_slot_buildJobs (random seed) sessionsPerCase cases).map _
      · intro job hjob _ _ _
        obtain ⟨j, -, rfl⟩ := List.mem_map.mp hjob
        rfl
  | true =>
      refine ⟨?_, ?_, fun _ ↦ (plannedRounds_buildTransferRounds random derivedSeed seed hids
        hiterations).operations_ne_nil⟩
      · rw [hmap]
        exact (map_slot_buildTransferRounds random derivedSeed seed cases).map _
      · intro job hjob case hcase hsame
        obtain ⟨j, hj, rfl⟩ := List.mem_map.mp hjob
        obtain ⟨p, hp, rfl⟩ := List.mem_map.mp (((random seed).shuffle_perm 0 _).mem_iff.mp hj)
        have hmem : p.1 ∈ cases := List.zipIdx_map_fst 1 cases ▸ List.mem_map_of_mem hp
        obtain rfl := List.inj_on_of_nodup_map hids hmem hcase hsame
        rfl

/-- What the jobs ask for is determined by the plan. -/
theorem HoldsPlan.content_perm {jobs jobs' : List Job}
    (h : HoldsPlan random derivedSeed transferMode seed sessionsPerCase cases jobs)
    (h' : HoldsPlan random derivedSeed transferMode seed sessionsPerCase cases jobs') :
    (jobs.map Job.content).Perm (jobs'.map Job.content) := by
  have hcase : ∀ slot ∈
      if transferMode then plannedRounds cases else plannedSlots sessionsPerCase cases,
      ∃ case ∈ cases, slot.caseId = case.caseId := by
    intro slot hslot
    split at hslot
    · obtain ⟨case, hcase, rfl⟩ := List.mem_map.mp hslot
      exact ⟨case, hcase, rfl⟩
    · obtain ⟨case, hcase, hslot⟩ := List.mem_flatMap.mp hslot
      obtain ⟨session, -, hslot⟩ := List.mem_flatMap.mp hslot
      obtain ⟨attempt, -, rfl⟩ := List.mem_map.mp hslot
      exact ⟨case, hcase, rfl⟩
  -- the operations of a case, under the id of the case
  let operations : String → List TransferOperation := fun caseId ↦
    ((cases.find? fun case ↦ decide (case.caseId = caseId)).map fun case ↦ if transferMode then
      operationsForCase random derivedSeed seed case.caseId case.iterations else []).getD []
  have hcontent : ∀ {jobs : List Job},
      HoldsPlan random derivedSeed transferMode seed sessionsPerCase cases jobs →
      jobs.map Job.content = (jobs.map fun job ↦ job.slot.key).map fun key ↦
        (key.1, key.2.1, key.2.2, operations key.1) := by
    intro jobs h
    rw [List.map_map]
    refine List.map_congr_left fun job hjob ↦ ?_
    obtain ⟨slot, hslot, hkey⟩ := List.mem_map.mp (h.attempts.mem_iff.mp (List.mem_map_of_mem hjob))
    obtain ⟨case, hmem, hid⟩ := hcase slot hslot
    have hjobId : case.caseId = job.caseId := hid.symm.trans (congrArg Prod.fst hkey)
    obtain ⟨found, hfound⟩ := Option.isSome_iff_exists.mp
      ((List.find?_isSome (p := fun case ↦ decide (case.caseId = job.caseId))).mpr
        ⟨case, hmem, decide_eq_true hjobId⟩)
    have hfoundId :=
      List.find?_some (p := fun case : Case ↦ decide (case.caseId = job.caseId)) hfound
    have hops := h.operations job hjob found (List.mem_of_find?_eq_some hfound)
      (of_decide_eq_true hfoundId).symm
    have hfor : operations job.caseId = job.operations := by
      simp only [operations, hfound, Option.map_some, Option.getD_some, hops]
    exact congrArg
      (fun operations ↦ (job.caseId, job.sessionIndex, job.attemptInSession, operations))
      hfor.symm
  rw [hcontent h, hcontent h']
  exact (h.attempts.trans h'.attempts.symm).map _

theorem HoldsPlan.of_content_perm {jobs jobs' : List Job}
    (h : HoldsPlan random derivedSeed transferMode seed sessionsPerCase cases jobs)
    (hperm : (jobs'.map Job.content).Perm (jobs.map Job.content)) :
    HoldsPlan random derivedSeed transferMode seed sessionsPerCase cases jobs' := by
  have hmem : ∀ job ∈ jobs', ∃ job' ∈ jobs, job'.content = job.content := fun job hjob ↦
    List.mem_map.mp (hperm.mem_iff.mp (List.mem_map_of_mem hjob))
  have hkey : ∀ jobs : List Job, jobs.map (fun job ↦ job.slot.key) =
      (jobs.map Job.content).map fun c ↦ (c.1, c.2.1, c.2.2.1) :=
    fun jobs ↦ by rw [List.map_map]; rfl
  refine ⟨?_, ?_, ?_⟩
  · rw [hkey]
    exact (hperm.map _).trans (hkey jobs ▸ h.attempts)
  · intro job hjob case hcase hsame
    obtain ⟨job', hjob', hcontent⟩ := hmem job hjob
    have hops : job'.operations = job.operations := congrArg (fun c ↦ c.2.2.2) hcontent
    rw [← hops]
    exact h.operations job' hjob' case hcase ((congrArg Prod.fst hcontent).trans hsame)
  · intro hmode job hjob
    obtain ⟨job', hjob', hcontent⟩ := hmem job hjob
    have hops : job'.operations = job.operations := congrArg (fun c ↦ c.2.2.2) hcontent
    exact hops ▸ h.operations_ne_nil hmode job' hjob'

theorem planKept_iff {jobs : List Job}
    (h : HoldsPlan random derivedSeed transferMode seed sessionsPerCase cases jobs)
    (m : ManifestFiles) :
    PlanKept random derivedSeed transferMode seed sessionsPerCase cases m ↔
      LoadsAll transferMode jobs m := by
  constructor
  · rintro ⟨jobs', hjobs', hplan, -⟩
    exact ⟨jobs', hjobs', hplan.content_perm h⟩
  · rintro ⟨jobs', hjobs', hperm⟩
    have hplan := h.of_content_perm hperm
    exact ⟨jobs', hjobs', hplan, fun bench payloadSha256 ↦
      hplan.perm (loadJobs_grouped hjobs' bench seed payloadSha256)⟩

end Plan

/-- The plan survives a crash in the rewriting of the manifests if and only if the crash point does
no harm. -/
theorem replan_safe_iff (random : ℕ → Random) (derivedSeed : ℕ → String → ℕ → ℕ)
    (transferMode : Bool)
    (seed sessionsPerCase : ℕ) (cases : List Case) (hids : (cases.map Case.caseId).Nodup)
    (hiterations : ∀ case ∈ cases, 1 ≤ case.iterations) (jobs : List Job)
    (hjobs : jobs.Perm
      (buildSchedule random derivedSeed transferMode seed sessionsPerCase cases).jobs)
    (firmwareProfile : String → String) (payloadSha256 : ℕ → ℕ → String) (bench : Bench) (k : ℕ)
    (f : ManifestFragment) :
    PlanKept random derivedSeed transferMode seed sessionsPerCase cases
        (manifestFiles.interrupted (replanOps transferMode
          (writeManifests bench.firmwareProfile seed payloadSha256
            (groupJobsByFirmwareProfile bench.rng bench.firmwareProfile jobs))) k f
          (writeManifests firmwareProfile seed payloadSha256 jobs).files) ↔
      CrashHarmless transferMode jobs
        (groupJobsByFirmwareProfile bench.rng bench.firmwareProfile jobs)
        (writeManifests bench.firmwareProfile seed payloadSha256
          (groupJobsByFirmwareProfile bench.rng bench.firmwareProfile jobs)) k f := by
  have hplan : HoldsPlan random derivedSeed transferMode seed sessionsPerCase cases jobs :=
    (holdsPlan_buildSchedule hids hiterations).perm hjobs
  have hperm := groupJobsByFirmwareProfile_perm bench.rng bench.firmwareProfile jobs
  rw [planKept_iff hplan, CrashHarmless]
  cases transferMode with
  | false =>
      have hplanned := (planned_buildJobs (random seed) sessionsPerCase cases).perm hjobs
      exact loadsAll_sessions hplanned hperm k f
  | true =>
      have hplanned := plannedRounds_of_perm random derivedSeed hids hiterations hjobs
      exact loadsAll_rounds hplanned hperm k f rfl

/-- The schedule of the benchmark of two cases. -/
def Schedule.twoCases (transferMode : Bool) : Schedule :=
  buildSchedule (fun _ ↦ .still) (fun seed _ n ↦ seed + n) transferMode 7 1
    [⟨"a", 0, 1, ""⟩, ⟨"b", 0, 1, ""⟩]

/-- The rounds of two cases have been filled again, and the order is the same. -/
theorem replan_safe_two : PlanKept (fun _ ↦ .still) (fun seed _ n ↦ seed + n) true 7 1
    [⟨"a", 0, 1, ""⟩, ⟨"b", 0, 1, ""⟩]
    (manifestFiles.interrupted (replanOps true (writeManifests Bench.steady.firmwareProfile 7
        (fun _ _ ↦ "") (groupJobsByFirmwareProfile Bench.steady.rng Bench.steady.firmwareProfile
          (Schedule.twoCases true).jobs))) 8 ⟨none, none, none⟩
      (writeManifests (fun _ ↦ "") 7 (fun _ _ ↦ "") (Schedule.twoCases true).jobs).files) := by
  refine (replan_safe_iff (fun _ ↦ .still) (fun seed _ n ↦ seed + n) true 7 1 _
    (by decide) (by decide)
    _ (.refl _) (fun _ ↦ "") (fun _ _ ↦ "") .steady 8 ⟨none, none, none⟩).mpr ?_
  refine .inr (.inl ⟨rfl, rfl, fun i row hi ↦ .inl ?_⟩)
  have hlt : i < 2 := (List.getElem?_eq_some_iff.mp hi).1
  exact Nat.add_lt_add_right hlt 2

/-- The run is killed when `session_manifest.csv` has been opened, and the next one has no jobs. -/
theorem not_replan_safe : ¬ PlanKept (fun _ ↦ .still) (fun seed _ n ↦ seed + n) false 7 1
    [⟨"a", 0, 1, ""⟩, ⟨"b", 0, 1, ""⟩]
    (manifestFiles.interrupted (replanOps false (writeManifests Bench.steady.firmwareProfile 7
        (fun _ _ ↦ "") (groupJobsByFirmwareProfile Bench.steady.rng Bench.steady.firmwareProfile
          (Schedule.twoCases false).jobs))) 1 ⟨none, none, none⟩
      (writeManifests (fun _ ↦ "") 7 (fun _ _ ↦ "") (Schedule.twoCases false).jobs).files) := by
  rintro ⟨jobs, hjobs, hplan, -⟩
  obtain rfl : loadSessionJobs [] = jobs := Option.some.inj hjobs
  have hlen := hplan.attempts.length_eq
  rw [loadSessionJobs, List.mergeSort_nil] at hlen
  exact absurd hlen (by decide)

end PeripheralBench.Runner

import PeripheralBench.Runner.Coverage

/-!
# Cases that are known not to be supported

`build_jobs` moves the attempts of a `known_unsupported` case to the end of the schedule and leaves
them together there.  `group_jobs_by_firmware_profile` shuffles the jobs of each profile once more,
if there are several profiles, and does not look at the kind of the case.  The order survives every
shuffle exactly if there is nothing to mix (`deferredLast_iff`).
-/

namespace PeripheralBench.Runner

/-! ## The order that is promised -/

/-- The case is marked `known_unsupported`. -/
def Case.Deferred (case : Case) : Prop := case.expectedSupport = "known_unsupported"

/-- The number of attempts of a case. -/
def Case.attempts (sessionsPerCase : ℕ) (case : Case) : ℕ :=
  sessionsPerCase * (case.warmupIterations + case.iterations)

/-- The attempt belongs to a case that is marked. -/
def Job.Deferred (cases : List Case) (job : Job) : Prop :=
  ∃ case ∈ cases, case.caseId = job.caseId ∧ case.Deferred

/-- The attempts of a marked case stand together, after those of the other cases of the profile that
are not marked. -/
structure DeferredLast (cases : List Case) (firmwareProfile : String → String) (jobs : List Job) :
    Prop where
  together : ∀ (i j k : ℕ) (x y z : Job), jobs[i]? = some x → jobs[j]? = some y →
    jobs[k]? = some z → i ≤ j → j ≤ k → x.caseId = z.caseId → x.Deferred cases →
    y.caseId = x.caseId
  last : ∀ (i j : ℕ) (x y : Job), jobs[i]? = some x → jobs[j]? = some y →
    firmwareProfile x.caseId = firmwareProfile y.caseId → x.Deferred cases →
    ¬ y.Deferred cases → j < i

/-- There is nothing to mix: all attempts are of one profile, or a marked case shares its profile
with another case only if that is marked too and neither has a second attempt. -/
def Unmixed (sessionsPerCase : ℕ) (cases : List Case) (firmwareProfile : String → String) : Prop :=
  (∀ c ∈ cases, ∀ d ∈ cases, 0 < c.attempts sessionsPerCase → 0 < d.attempts sessionsPerCase →
    firmwareProfile c.caseId = firmwareProfile d.caseId) ∨
  ∀ c ∈ cases, ∀ d ∈ cases, c.Deferred → 0 < c.attempts sessionsPerCase →
    0 < d.attempts sessionsPerCase → c.caseId ≠ d.caseId →
    firmwareProfile c.caseId = firmwareProfile d.caseId →
    d.Deferred ∧ c.attempts sessionsPerCase ≤ 1

/-! ## Rearranging places -/

section

variable {α : Type}

/-- The element at this place comes first. -/
def putFirst (k : ℕ) (l : List α) : List α := l[k]?.toList ++ l.eraseIdx k

theorem putFirst_perm (k : ℕ) (l : List α) : (putFirst k l).Perm l := by
  rw [putFirst]
  rcases lt_or_ge k l.length with h | h
  · rw [List.getElem?_eq_getElem h]
    exact List.getElem_cons_eraseIdx_perm h
  · rw [List.getElem?_eq_none h, List.eraseIdx_of_length_le h]
    exact .refl l

theorem exists_putFirst {l : List α} {a : α} (h : a ∈ l) :
    ∃ k rest, putFirst k l = a :: rest ∧ (a :: rest).Perm l := by
  obtain ⟨k, hk⟩ := List.mem_iff_getElem?.mp h
  have hput : putFirst k l = a :: l.eraseIdx k := by
    rw [putFirst, hk]
    rfl
  exact ⟨k, l.eraseIdx k, hput, hput ▸ putFirst_perm k l⟩

theorem getElem?_length_add (before l : List α) (n : ℕ) :
    (before ++ l)[before.length + n]? = l[n]? := by
  rw [List.getElem?_append_right (Nat.le_add_right _ _), Nat.add_sub_cancel_left]

/-- Shuffles that put two places first, in all lists but the first. -/
def Random.bringing (j k : ℕ) : Random where
  shuffle i l := if i = 0 then l else putFirst k (putFirst j l)
  shuffle_perm i l := by
    split
    · exact .refl l
    · exact (putFirst_perm k _).trans (putFirst_perm j l)

/-- Any two elements can be brought to the front. -/
theorem Random.exists_bringing {l : List α} {a b : α} (ha : a ∈ l) (hb : b ∈ l) (hne : a ≠ b) :
    ∃ j k rest, ∀ i, i ≠ 0 → (Random.bringing j k).shuffle i l = a :: b :: rest := by
  obtain ⟨j, rest, hj, hperm⟩ := exists_putFirst hb
  have ha' : a ∈ rest := (List.mem_cons.mp (hperm.mem_iff.mpr ha)).resolve_left hne
  obtain ⟨k, hk⟩ := List.mem_iff_getElem?.mp ha'
  refine ⟨j, k + 1, rest.eraseIdx k, fun i hi ↦ ?_⟩
  have hshuffle : (Random.bringing j (k + 1)).shuffle i l = putFirst (k + 1) (putFirst j l) :=
    if_neg hi
  rw [hshuffle, hj, putFirst, List.getElem?_cons_succ, hk]
  rfl

end

/-! ## The attempts of a case -/

section

variable {sessionsPerCase : ℕ} {cases : List Case}

theorem caseId_of_mem_caseJobs {case : Case} {sequence : ℕ} {job : SessionJob}
    (h : job ∈ caseJobs sessionsPerCase case sequence) : job.caseId = case.caseId := by
  obtain ⟨p, -, rfl⟩ := List.mem_map.mp h
  rfl

theorem map_caseId_caseSlots (sessionsPerCase : ℕ) (case : Case) :
    (caseSlots sessionsPerCase case).map Slot.caseId =
      List.replicate (case.attempts sessionsPerCase) case.caseId := by
  refine List.eq_replicate_iff.mpr ⟨?_, fun id hid ↦ ?_⟩
  · rw [List.length_map, caseSlots, List.length_flatMap, Case.attempts]
    simp only [List.length_map, List.length_range', List.map_const', List.sum_replicate,
      smul_eq_mul]
  · obtain ⟨slot, hslot, rfl⟩ := List.mem_map.mp hid
    obtain ⟨session, -, hslot⟩ := List.mem_flatMap.mp hslot
    obtain ⟨attempt, -, rfl⟩ := List.mem_map.mp hslot
    rfl

theorem count_flatMap_replicate (hids : (cases.map Case.caseId).Nodup) (n : Case → ℕ) {case : Case}
    (hcase : case ∈ cases) :
    (cases.flatMap fun c ↦ List.replicate (n c) c.caseId).count case.caseId = n case := by
  induction cases with
  | nil => exact absurd hcase List.not_mem_nil
  | cons c cases ih =>
      rw [List.map_cons, List.nodup_cons] at hids
      rw [List.flatMap_cons, List.count_append]
      rcases List.mem_cons.mp hcase with rfl | hmem
      · rw [List.count_replicate_self, List.count_eq_zero_of_not_mem, Nat.add_zero]
        intro hin
        obtain ⟨d, hd, hin⟩ := List.mem_flatMap.mp hin
        exact hids.1 (List.eq_of_mem_replicate hin ▸ List.mem_map_of_mem hd)
      · have hne : c.caseId ≠ case.caseId := fun h ↦ hids.1 (h ▸ List.mem_map_of_mem hmem)
        rw [List.count_replicate, if_neg (by simpa using hne), Nat.zero_add, ih hids.2 hmem]

theorem map_caseId_buildJobs (rng : Random) (sessionsPerCase : ℕ) (cases : List Case) :
    ((buildJobs rng sessionsPerCase cases).jobs.map Job.caseId).Perm
      (cases.flatMap fun c ↦ List.replicate (c.attempts sessionsPerCase) c.caseId) := by
  have h := (map_slot_buildJobs rng sessionsPerCase cases).map Slot.caseId
  rw [List.map_map, plannedSlots, List.map_flatMap] at h
  exact h.trans (.of_eq (List.flatMap_congr fun c _ ↦ map_caseId_caseSlots sessionsPerCase c))

/-- Each case has its attempts in the schedule. -/
theorem length_filter_buildJobs (rng : Random) (hids : (cases.map Case.caseId).Nodup) {case : Case}
    (hcase : case ∈ cases) :
    ((buildJobs rng sessionsPerCase cases).jobs.filter fun job ↦ job.caseId == case.caseId).length =
      case.attempts sessionsPerCase := by
  rw [← List.countP_eq_length_filter,
    ← count_flatMap_replicate hids (Case.attempts sessionsPerCase) hcase,
    ← (map_caseId_buildJobs rng sessionsPerCase cases).count_eq, List.count, List.countP_map]
  rfl

/-- And there are no other attempts. -/
theorem exists_case_of_mem (rng : Random) {job : Job}
    (hjob : job ∈ (buildJobs rng sessionsPerCase cases).jobs) :
    ∃ case ∈ cases, case.caseId = job.caseId ∧ 0 < case.attempts sessionsPerCase := by
  have hmem := (map_caseId_buildJobs rng sessionsPerCase cases).subset (List.mem_map_of_mem hjob)
  obtain ⟨case, hcase, hid⟩ := List.mem_flatMap.mp hmem
  obtain ⟨hne, hid⟩ := List.mem_replicate.mp hid
  exact ⟨case, hcase, hid.symm, Nat.pos_of_ne_zero hne⟩

/-- An attempt is marked if its case is. -/
theorem Job.deferred_iff (hids : (cases.map Case.caseId).Nodup) {case : Case} {job : Job}
    (hcase : case ∈ cases) (hid : case.caseId = job.caseId) :
    job.Deferred cases ↔ case.Deferred := by
  constructor
  · rintro ⟨c, hc, hcid, hmarked⟩
    rwa [List.inj_on_of_nodup_map hids hcase hc (hid.trans hcid.symm)]
  · exact fun hmarked ↦ ⟨case, hcase, hid, hmarked⟩

/-! ## What `build_jobs` arranges -/

theorem contiguous_flatten {α β : Type} {key : α → β} {groups : List (List α)}
    (hkey : ∀ g ∈ groups, ∃ b, ∀ x ∈ g, key x = b)
    (hne : groups.Pairwise fun g g' ↦ ∀ x ∈ g, ∀ y ∈ g', key x ≠ key y) :
    Contiguous key groups.flatten := by
  induction groups with
  | nil => exact fun i _ _ _ _ _ hx ↦ absurd (List.mem_of_getElem? hx) List.not_mem_nil
  | cons g groups ih =>
      rw [List.pairwise_cons] at hne
      have hrest := ih (fun g' hg' ↦ hkey g' (List.mem_cons_of_mem g hg')) hne.2
      rw [List.flatten_cons]
      cases g with
      | nil => exact hrest
      | cons x g =>
          obtain ⟨b, hb⟩ := hkey _ List.mem_cons_self
          refine Contiguous.append hb (fun y hy heq ↦ ?_) hrest
          obtain ⟨h, hh, hy⟩ := List.mem_flatten.mp hy
          exact hne.1 h hh x List.mem_cons_self y hy ((hb x List.mem_cons_self).trans heq.symm)

theorem mem_splitJobs_fst {sequence : ℕ} {job : SessionJob}
    (h : job ∈ (splitJobs sessionsPerCase cases sequence).1) :
    ∃ case ∈ cases, ¬ case.Deferred ∧ job.caseId = case.caseId := by
  induction cases generalizing sequence with
  | nil => exact absurd h List.not_mem_nil
  | cons c cases ih =>
      rw [splitJobs] at h
      by_cases hc : c.expectedSupport = "known_unsupported"
      · rw [if_pos hc] at h
        obtain ⟨case, hcase, hrest⟩ := ih h
        exact ⟨case, List.mem_cons_of_mem c hcase, hrest⟩
      · rw [if_neg hc] at h
        rcases List.mem_append.mp h with h | h
        · exact ⟨c, List.mem_cons_self, hc, caseId_of_mem_caseJobs h⟩
        · obtain ⟨case, hcase, hrest⟩ := ih h
          exact ⟨case, List.mem_cons_of_mem c hcase, hrest⟩

theorem mem_splitJobs_snd {sequence : ℕ} {group : List SessionJob}
    (h : group ∈ (splitJobs sessionsPerCase cases sequence).2) :
    ∃ case ∈ cases, case.Deferred ∧ ∀ job ∈ group, job.caseId = case.caseId := by
  induction cases generalizing sequence with
  | nil => exact absurd h List.not_mem_nil
  | cons c cases ih =>
      rw [splitJobs] at h
      by_cases hc : c.expectedSupport = "known_unsupported"
      · rw [if_pos hc] at h
        rcases List.mem_cons.mp h with rfl | h
        · exact ⟨c, List.mem_cons_self, hc, fun job hjob ↦ caseId_of_mem_caseJobs hjob⟩
        · obtain ⟨case, hcase, hrest⟩ := ih h
          exact ⟨case, List.mem_cons_of_mem c hcase, hrest⟩
      · rw [if_neg hc] at h
        obtain ⟨case, hcase, hrest⟩ := ih h
        exact ⟨case, List.mem_cons_of_mem c hcase, hrest⟩

theorem pairwise_splitJobs (sessionsPerCase : ℕ) (hids : (cases.map Case.caseId).Nodup)
    (sequence : ℕ) :
    (splitJobs sessionsPerCase cases sequence).2.Pairwise fun g g' ↦
      ∀ x ∈ g, ∀ y ∈ g', x.caseId ≠ y.caseId := by
  induction cases generalizing sequence with
  | nil => exact .nil
  | cons c cases ih =>
      rw [List.map_cons, List.nodup_cons] at hids
      rw [splitJobs]
      split
      · refine List.pairwise_cons.mpr ⟨fun g hg x hx y hy heq ↦ hids.1 ?_, ih hids.2 _⟩
        obtain ⟨case, hcase, -, hid⟩ := mem_splitJobs_snd hg
        rw [← caseId_of_mem_caseJobs hx, heq, hid y hy]
        exact List.mem_map_of_mem hcase
      · exact ih hids.2 _

/-- Attempts that are not marked, before those that are. -/
theorem deferredLast_append {firmwareProfile : String → String} {normal deferred : List Job}
    (hnormal : ∀ job ∈ normal, ¬ job.Deferred cases)
    (hdeferred : ∀ job ∈ deferred, job.Deferred cases)
    (htogether : Contiguous Job.caseId deferred) :
    DeferredLast cases firmwareProfile (normal ++ deferred) := by
  have hle : ∀ (i : ℕ) (x : Job), (normal ++ deferred)[i]? = some x → x.Deferred cases →
      normal.length ≤ i := by
    intro i x hx hmarked
    by_contra hlt
    rw [List.getElem?_append_left (Nat.lt_of_not_le hlt)] at hx
    exact hnormal x (List.mem_of_getElem? hx) hmarked
  constructor
  · intro i j k x y z hx hy hz hij hjk hid hmarked
    have hi := hle i x hx hmarked
    rw [List.getElem?_append_right hi] at hx
    rw [List.getElem?_append_right (hi.trans hij)] at hy
    rw [List.getElem?_append_right (hi.trans (hij.trans hjk))] at hz
    exact htogether _ _ _ x y z hx hy hz (Nat.sub_le_sub_right hij _)
      (Nat.sub_le_sub_right hjk _) hid
  · intro i j x y hx hy _ hx' hy'
    refine lt_of_lt_of_le (Nat.lt_of_not_le fun hj ↦ hy' ?_) (hle i x hx hx')
    rw [List.getElem?_append_right hj] at hy
    exact hdeferred y (List.mem_of_getElem? hy)

theorem deferredLast_buildJobs (rng : Random) (hids : (cases.map Case.caseId).Nodup)
    (firmwareProfile : String → String) :
    DeferredLast cases firmwareProfile (buildJobs rng sessionsPerCase cases).jobs := by
  have hjobs : (buildJobs rng sessionsPerCase cases).jobs =
      (rng.shuffle 0 (splitJobs sessionsPerCase cases 0).1).map .session ++
        (rng.shuffle 1 (splitJobs sessionsPerCase cases 0).2).flatten.map .session :=
    List.map_append
  rw [hjobs]
  refine deferredLast_append ?_ ?_ ?_
  · intro job hjob
    obtain ⟨j, hj, rfl⟩ := List.mem_map.mp hjob
    obtain ⟨c, hc, hnot, hid⟩ := mem_splitJobs_fst ((rng.shuffle_perm 0 _).subset hj)
    have hid : c.caseId = (Job.session j).caseId := hid.symm
    rwa [Job.deferred_iff hids hc hid]
  · intro job hjob
    obtain ⟨j, hj, rfl⟩ := List.mem_map.mp hjob
    obtain ⟨group, hgroup, hj⟩ := List.mem_flatten.mp hj
    obtain ⟨c, hc, hmarked, hid⟩ := mem_splitJobs_snd ((rng.shuffle_perm 1 _).subset hgroup)
    exact ⟨c, hc, (hid j hj).symm, hmarked⟩
  · rw [List.map_flatten]
    refine contiguous_flatten (fun g hg ↦ ?_) (List.pairwise_map.mpr ?_)
    · obtain ⟨group, hgroup, rfl⟩ := List.mem_map.mp hg
      obtain ⟨c, -, -, hid⟩ := mem_splitJobs_snd ((rng.shuffle_perm 1 _).subset hgroup)
      refine ⟨c.caseId, fun job hjob ↦ ?_⟩
      obtain ⟨j, hj, rfl⟩ := List.mem_map.mp hjob
      exact hid j hj
    · have hsymm : ∀ {g g' : List SessionJob}, (∀ x ∈ g, ∀ y ∈ g', x.caseId ≠ y.caseId) →
          ∀ x ∈ g', ∀ y ∈ g, x.caseId ≠ y.caseId := fun h x hx y hy ↦ (h y hy x hx).symm
      have hpairwise := ((rng.shuffle_perm 1 _).pairwise_iff hsymm).mpr
        (pairwise_splitJobs sessionsPerCase hids 0)
      refine hpairwise.imp fun h x hx y hy ↦ ?_
      obtain ⟨a, ha, rfl⟩ := List.mem_map.mp hx
      obtain ⟨b, hb, rfl⟩ := List.mem_map.mp hy
      exact h a ha b hb

/-! ## What is left of it -/

/-- Where there is nothing to mix, any order that keeps the profiles together will do. -/
theorem deferredLast_of_perm (rng : Random) (hids : (cases.map Case.caseId).Nodup)
    {firmwareProfile : String → String} {jobs : List Job}
    (hperm : jobs.Perm (buildJobs rng sessionsPerCase cases).jobs)
    (hprofile : Contiguous (fun job : Job ↦ firmwareProfile job.caseId) jobs)
    (h : ∀ c ∈ cases, ∀ d ∈ cases, c.Deferred → 0 < c.attempts sessionsPerCase →
      0 < d.attempts sessionsPerCase → c.caseId ≠ d.caseId →
      firmwareProfile c.caseId = firmwareProfile d.caseId →
      d.Deferred ∧ c.attempts sessionsPerCase ≤ 1) :
    DeferredLast cases firmwareProfile jobs := by
  have hnodup : jobs.Nodup :=
    hperm.nodup_iff.mpr (.of_map _ (buildJobs rng sessionsPerCase cases).nodup_sequence)
  have hcase : ∀ {i : ℕ} {x : Job}, jobs[i]? = some x →
      ∃ case ∈ cases, case.caseId = x.caseId ∧ 0 < case.attempts sessionsPerCase :=
    fun hx ↦ exists_case_of_mem rng (hperm.subset (List.mem_of_getElem? hx))
  constructor
  · intro i j k x y z hx hy hz hij hjk hid hmarked
    obtain ⟨c, hc, hcid, hcpos⟩ := hcase hx
    obtain ⟨d, hd, hdid, hdpos⟩ := hcase hy
    by_contra hne
    have hsame : firmwareProfile y.caseId = firmwareProfile x.caseId :=
      hprofile i j k x y z hx hy hz hij hjk (congrArg firmwareProfile hid)
    rw [Job.deferred_iff hids hc hcid] at hmarked
    have hcd : c.caseId ≠ d.caseId := fun heq ↦ hne (hdid.symm.trans (heq.symm.trans hcid))
    have hone := (h c hc d hd hmarked hcpos hdpos hcd (by rw [hcid, hdid, hsame])).2
    -- the case has one attempt, so that the first and the last of the three are the same
    have hlength : (jobs.filter fun job ↦ job.caseId == c.caseId).length ≤ 1 := by
      rw [(hperm.filter _).length_eq, length_filter_buildJobs rng hids hc]
      exact hone
    have hxmem : x ∈ jobs.filter fun job ↦ job.caseId == c.caseId :=
      List.mem_filter.mpr ⟨List.mem_of_getElem? hx, beq_iff_eq.mpr hcid.symm⟩
    have hzmem : z ∈ jobs.filter fun job ↦ job.caseId == c.caseId :=
      List.mem_filter.mpr ⟨List.mem_of_getElem? hz, beq_iff_eq.mpr (hid.symm.trans hcid.symm)⟩
    obtain ⟨only, honly⟩ :=
      List.length_eq_one_iff.mp (hlength.antisymm (List.length_pos_of_mem hxmem))
    rw [honly, List.mem_singleton] at hxmem hzmem
    obtain rfl : x = z := hxmem.trans hzmem.symm
    obtain ⟨hi, hix⟩ := List.getElem?_eq_some_iff.mp hx
    obtain ⟨hk, hkx⟩ := List.getElem?_eq_some_iff.mp hz
    have hik : i = k := (hnodup.getElem_inj_iff).mp (hix.trans hkx.symm)
    subst hik
    obtain rfl := Nat.le_antisymm hij hjk
    exact hne (by rw [Option.some_inj.mp (hy.symm.trans hx)])
  · intro i j x y hx hy hsame hmarked hnot
    obtain ⟨c, hc, hcid, hcpos⟩ := hcase hx
    obtain ⟨d, hd, hdid, hdpos⟩ := hcase hy
    rw [Job.deferred_iff hids hc hcid] at hmarked
    rw [Job.deferred_iff hids hd hdid] at hnot
    have hcd : c.caseId ≠ d.caseId := fun heq ↦
      hnot (List.inj_on_of_nodup_map hids hc hd heq ▸ hmarked)
    exact absurd (h c hc d hd hmarked hcpos hdpos hcd (by rw [hcid, hdid, hsame])).1 hnot

/-- Jobs of one profile stay as they are. -/
theorem groupJobsByFirmwareProfile_of_eq (rng : Random) {firmwareProfile : String → String}
    {jobs : List Job}
    (h : ∀ x ∈ jobs, ∀ y ∈ jobs, firmwareProfile x.caseId = firmwareProfile y.caseId) :
    groupJobsByFirmwareProfile rng firmwareProfile jobs = jobs := by
  cases jobs with
  | nil => exact List.perm_nil.mp (groupJobsByFirmwareProfile_perm rng firmwareProfile [])
  | cons x jobs =>
      have hmap : (x :: jobs).map (fun job ↦ firmwareProfile job.caseId) =
          List.replicate (jobs.length + 1) (firmwareProfile x.caseId) := by
        refine List.eq_replicate_iff.mpr ⟨List.length_map _, fun profile hprofile ↦ ?_⟩
        obtain ⟨y, hy, rfl⟩ := List.mem_map.mp hprofile
        exact h y hy x List.mem_cons_self
      have hone : ((x :: jobs).map fun job ↦ firmwareProfile job.caseId).dedup.length = 1 := by
        rw [hmap, List.replicate_dedup (Nat.succ_ne_zero _)]
        rfl
      exact if_pos hone

/-- The block of a profile. -/
theorem exists_block (rng : Random) {firmwareProfile : String → String} {jobs : List Job}
    {job : Job}
    (hseveral : ∃ other ∈ jobs, firmwareProfile other.caseId ≠ firmwareProfile job.caseId)
    (hjob : job ∈ jobs) : ∃ i before after, i ≠ 0 ∧
      groupJobsByFirmwareProfile rng firmwareProfile jobs =
        before ++ rng.shuffle i (jobs.filter fun x ↦
          firmwareProfile x.caseId = firmwareProfile job.caseId) ++ after := by
  have hmem : ∀ x ∈ jobs, firmwareProfile x.caseId ∈
      (jobs.map fun job ↦ firmwareProfile job.caseId).dedup :=
    fun x hx ↦ List.mem_dedup.mpr (List.mem_map_of_mem hx)
  have hlength : (jobs.map fun job ↦ firmwareProfile job.caseId).dedup.length ≠ 1 := by
    intro hone
    obtain ⟨profile, hprofile⟩ := List.length_eq_one_iff.mp hone
    obtain ⟨other, hother, hne⟩ := hseveral
    rw [hprofile] at hmem
    exact hne ((List.mem_singleton.mp (hmem other hother)).trans
      (List.mem_singleton.mp (hmem job hjob)).symm)
  simp only [groupJobsByFirmwareProfile]
  rw [if_neg hlength]
  have hin := (rng.shuffle_perm 0 _).mem_iff.mpr
    ((List.mergeSort_perm _ fun a b ↦ decide (a ≤ b)).mem_iff.mpr (hmem job hjob))
  obtain ⟨n, hn⟩ := List.mem_iff_getElem?.mp hin
  have hzip : (firmwareProfile job.caseId, n + 1) ∈ (rng.shuffle 0
      ((jobs.map fun job ↦ firmwareProfile job.caseId).dedup.mergeSort fun a b ↦
        decide (a ≤ b))).zipIdx 1 := by
    rw [List.mk_mem_zipIdx_iff_le_and_getElem?_sub]
    exact ⟨Nat.le_add_left 1 n, hn⟩
  obtain ⟨before, after, hsplit⟩ := List.append_of_mem hzip
  rw [hsplit, List.flatMap_append, List.flatMap_cons]
  exact ⟨n + 1, _, _, Nat.succ_ne_zero n, (List.append_assoc _ _ _).symm⟩

/-- A case that has attempts has one among the jobs. -/
theorem exists_attempt (rng : Random) (hids : (cases.map Case.caseId).Nodup) {case : Case}
    (hcase : case ∈ cases) (hpos : 0 < case.attempts sessionsPerCase) :
    ∃ job ∈ (buildJobs rng sessionsPerCase cases).jobs, job.caseId = case.caseId := by
  rw [← length_filter_buildJobs rng hids hcase] at hpos
  obtain ⟨job, hjob⟩ := List.exists_mem_of_length_pos hpos
  obtain ⟨hjob, hid⟩ := List.mem_filter.mp hjob
  exact ⟨job, hjob, beq_iff_eq.mp hid⟩

/-- A case that has more has another one. -/
theorem exists_other_attempt (rng : Random) (hids : (cases.map Case.caseId).Nodup) {case : Case}
    (hcase : case ∈ cases) (hseveral : 1 < case.attempts sessionsPerCase) {job : Job}
    (hjob : job ∈ (buildJobs rng sessionsPerCase cases).jobs) (hid : job.caseId = case.caseId) :
    ∃ other ∈ (buildJobs rng sessionsPerCase cases).jobs,
      other.caseId = case.caseId ∧ other ≠ job := by
  have hlength : ((buildJobs rng sessionsPerCase cases).jobs.filter fun x ↦
      x.caseId == case.caseId).length = case.attempts sessionsPerCase :=
    length_filter_buildJobs rng hids hcase
  generalize hjobs : (buildJobs rng sessionsPerCase cases).jobs = jobs at hjob hlength
  have hmem : job ∈ jobs.filter fun x ↦ x.caseId == case.caseId :=
    List.mem_filter.mpr ⟨hjob, beq_iff_eq.mpr hid⟩
  have hnodup : (jobs.filter fun x ↦ x.caseId == case.caseId).Nodup :=
    (hjobs ▸ List.Nodup.of_map _ (buildJobs rng sessionsPerCase cases).nodup_sequence).filter _
  have hnot : jobs.filter (fun x ↦ x.caseId == case.caseId) ≠ [job] := by
    intro hone
    rw [hone] at hlength
    exact hseveral.ne hlength
  obtain ⟨other, hother, hne⟩ :=
    ((hnodup.ne_singleton_iff job).mp hnot).resolve_left (List.ne_nil_of_mem hmem)
  obtain ⟨hother, hid⟩ := List.mem_filter.mp hother
  exact ⟨other, hother, beq_iff_eq.mp hid, hne⟩

/-- The attempt of a marked case comes right before one of another case of its profile: that case is
not marked, or the marked one has another attempt that comes later. -/
theorem not_deferredLast_of_adjacent (hids : (cases.map Case.caseId).Nodup)
    {firmwareProfile : String → String} {before rest after : List Job} {a b : Job} {c d : Case}
    (hc : c ∈ cases) (hd : d ∈ cases) (hac : a.caseId = c.caseId) (hbd : b.caseId = d.caseId)
    (hcd : c.caseId ≠ d.caseId) (hsame : firmwareProfile c.caseId = firmwareProfile d.caseId)
    (hmarked : c.Deferred) (hbad : d.Deferred → ∃ other ∈ rest, other.caseId = c.caseId) :
    ¬ DeferredLast cases firmwareProfile (before ++ (a :: b :: rest ++ after)) := by
  intro hlast
  have hplace := getElem?_length_add before (a :: b :: rest ++ after)
  have hfirst := hplace 0
  have hsecond := hplace 1
  have hmarked : a.Deferred cases := (Job.deferred_iff hids hc hac.symm).mpr hmarked
  by_cases hdmarked : d.Deferred
  · -- another attempt of the case comes after the one of the other case
    obtain ⟨other, hother, hid⟩ := hbad hdmarked
    obtain ⟨m, hm⟩ := List.mem_iff_getElem?.mp hother
    have hthird := hplace (m + 1 + 1)
    rw [List.cons_append, List.getElem?_cons_succ, List.cons_append, List.getElem?_cons_succ,
      List.getElem?_append_left (List.getElem?_eq_some_iff.mp hm).1, hm] at hthird
    have hid := hlast.together _ _ _ a b other hfirst hsecond hthird
      (Nat.add_le_add_left (Nat.zero_le _) _) (Nat.add_le_add_left (Nat.le_add_left _ _) _)
      (hac.trans hid.symm) hmarked
    exact hcd (by rw [← hac, ← hbd, hid])
  · have hnot : ¬ b.Deferred cases := (Job.deferred_iff hids hd hbd.symm).not.mpr hdmarked
    have hlt := hlast.last _ _ a b hfirst hsecond (by rw [hac, hbd, hsame]) hmarked hnot
    exact Nat.not_lt_zero _ (Nat.add_lt_add_iff_left.mp hlt)

/-- Otherwise there is a shuffle that destroys the order. -/
theorem exists_not_deferredLast (rng : Random) (hids : (cases.map Case.caseId).Nodup)
    {firmwareProfile : String → String} (h : ¬ Unmixed sessionsPerCase cases firmwareProfile) :
    ∃ j k, ¬ DeferredLast cases firmwareProfile (groupJobsByFirmwareProfile (.bringing j k)
      firmwareProfile (buildJobs rng sessionsPerCase cases).jobs) := by
  obtain ⟨hseveral, hmixed⟩ := not_or.mp h
  push Not at hseveral hmixed
  obtain ⟨e, he, f, hf, hepos, hfpos, hef⟩ := hseveral
  obtain ⟨c, hc, d, hd, hcmarked, hcpos, hdpos, hcd, hsame, hbad⟩ := hmixed
  obtain ⟨a, ha, hac⟩ := exists_attempt rng hids hc hcpos
  obtain ⟨b, hb, hbd⟩ := exists_attempt rng hids hd hdpos
  have hagain := fun hmarked ↦ exists_other_attempt rng hids hc (hbad hmarked) ha hac
  obtain ⟨x, hx, hxe⟩ := exists_attempt rng hids he hepos
  obtain ⟨y, hy, hyf⟩ := exists_attempt rng hids hf hfpos
  generalize (buildJobs rng sessionsPerCase cases).jobs = jobs at ha hb hx hy hagain
  have hother : ∃ other ∈ jobs, firmwareProfile other.caseId ≠ firmwareProfile a.caseId := by
    by_cases heq : firmwareProfile x.caseId = firmwareProfile a.caseId
    · exact ⟨y, hy, fun hy' ↦ hef (by rw [← hxe, ← hyf, heq, hy'])⟩
    · exact ⟨x, hx, heq⟩
  have hblock : ∀ {job : Job}, job ∈ jobs → firmwareProfile job.caseId = firmwareProfile c.caseId →
      job ∈ jobs.filter fun x ↦ firmwareProfile x.caseId = firmwareProfile a.caseId := by
    intro job hjob heq
    exact List.mem_filter.mpr ⟨hjob, decide_eq_true (heq.trans (congrArg firmwareProfile hac.symm))⟩
  have hab : a ≠ b := fun heq ↦ hcd (by rw [← hac, ← hbd, heq])
  obtain ⟨j, k, rest, hshuffle⟩ := Random.exists_bringing
    (hblock ha (congrArg firmwareProfile hac))
    (hblock hb ((congrArg firmwareProfile hbd).trans hsame.symm)) hab
  obtain ⟨i, before, after, hi, hgroup⟩ := exists_block (.bringing j k) hother ha
  have hperm := (Random.bringing j k).shuffle_perm i
    (jobs.filter fun x ↦ firmwareProfile x.caseId = firmwareProfile a.caseId)
  rw [hshuffle i hi] at hgroup hperm
  refine ⟨j, k, ?_⟩
  rw [hgroup, List.append_assoc]
  refine not_deferredLast_of_adjacent hids hc hd hac hbd hcd hsame hcmarked fun hmarked ↦ ?_
  obtain ⟨z, hz, hzc, hza⟩ := hagain hmarked
  have hzrest := hperm.mem_iff.mpr (hblock hz (congrArg firmwareProfile hzc))
  rw [List.mem_cons, List.mem_cons, or_iff_right hza,
    or_iff_right fun heq ↦ hcd (by rw [← hzc, heq, hbd])] at hzrest
  exact ⟨z, hzrest, hzc⟩

end

/-! ## When the order survives -/

/-- The order that `build_jobs` arranges survives every shuffle of the profiles and of their jobs
exactly if there is nothing to mix. -/
theorem deferredLast_iff (rng : Random) (sessionsPerCase : ℕ) (cases : List Case)
    (hids : (cases.map Case.caseId).Nodup) (firmwareProfile : String → String) :
    (∀ rng' : Random, DeferredLast cases firmwareProfile (groupJobsByFirmwareProfile rng'
      firmwareProfile (buildJobs rng sessionsPerCase cases).jobs)) ↔
      Unmixed sessionsPerCase cases firmwareProfile := by
  constructor
  · intro h
    by_contra hmixed
    obtain ⟨j, k, hnot⟩ := exists_not_deferredLast rng hids hmixed
    exact hnot (h _)
  · rintro (hone | hapart) rng'
    · rw [groupJobsByFirmwareProfile_of_eq]
      · exact deferredLast_buildJobs rng hids firmwareProfile
      · intro x hx y hy
        obtain ⟨c, hc, hcid, hcpos⟩ := exists_case_of_mem rng hx
        obtain ⟨d, hd, hdid, hdpos⟩ := exists_case_of_mem rng hy
        rw [← hcid, ← hdid]
        exact hone c hc d hd hcpos hdpos
    · exact deferredLast_of_perm rng hids (groupJobsByFirmwareProfile_perm _ _ _)
        (contiguous_groupJobsByFirmwareProfile _ _ _) hapart

/-- Two cases that are supported and one that is not. -/
def mixedCases : List Case := [⟨"a", 0, 1, "required"⟩, ⟨"b", 0, 1, "required"⟩,
  ⟨"c", 0, 1, "known_unsupported"⟩]

/-- The first and the last share a profile. -/
def mixedProfile (caseId : String) : String := if caseId = "b" then "root_1" else "root_0"

theorem deferredLast_iff_mixed :
    (∀ rng' : Random, DeferredLast mixedCases mixedProfile (groupJobsByFirmwareProfile rng'
      mixedProfile (buildJobs .still 1 mixedCases).jobs)) ↔ Unmixed 1 mixedCases mixedProfile :=
  deferredLast_iff .still 1 mixedCases (by decide) mixedProfile

/-- The shuffle of their profile swaps the two attempts. -/
theorem not_deferredLast :
    (mixedCases.map Case.caseId).Nodup ∧
      ¬ DeferredLast mixedCases mixedProfile (groupJobsByFirmwareProfile (.bringing 1 0)
        mixedProfile (buildJobs .still 1 mixedCases).jobs) := by
  have hids : (mixedCases.map Case.caseId).Nodup := by decide
  refine ⟨hids, fun h ↦ ?_⟩
  let a : Job := .session ⟨1, "a", 1, 1, 0, 1⟩
  let b : Job := .session ⟨2, "b", 1, 1, 0, 1⟩
  let c : Job := .session ⟨3, "c", 1, 1, 0, 1⟩
  have hjobs : (buildJobs .still 1 mixedCases).jobs = [a, b, c] := rfl
  have hseveral : ∃ other ∈ [a, b, c], mixedProfile other.caseId ≠ mixedProfile a.caseId :=
    ⟨b, by simp, by decide⟩
  have hfilter : [a, b, c].filter (fun x ↦ mixedProfile x.caseId = mixedProfile a.caseId) =
      [a, c] := by decide
  obtain ⟨i, before, after, hi, hgroup⟩ :=
    exists_block (.bringing 1 0) hseveral List.mem_cons_self
  have hshuffle : (Random.bringing 1 0).shuffle i [a, c] = [c, a] := if_neg hi
  rw [hjobs, hgroup, hfilter, hshuffle, List.append_assoc] at h
  have hplace := getElem?_length_add before ([c, a] ++ after)
  have hmarked : c.Deferred mixedCases :=
    ⟨⟨"c", 0, 1, "known_unsupported"⟩, by simp [mixedCases], rfl, rfl⟩
  have hnot : ¬ a.Deferred mixedCases :=
    (Job.deferred_iff hids (List.mem_cons_self : (⟨"a", 0, 1, "required"⟩ : Case) ∈ _) rfl).not.mpr
      (by simp [Case.Deferred])
  have hlt := h.last _ _ c a (hplace 0) (hplace 1) rfl hmarked hnot
  exact Nat.not_lt_zero _ (Nat.add_lt_add_iff_left.mp hlt)

end PeripheralBench.Runner

import PeripheralBench.Statistics.Correlation

/-!
# The bootstrapped correlation

`_correlation_at_level` of `analyze_time_energy.py` reports a correlation of the attempts, of the
means of the cases, or of what remains within the cases.  For its confidence interval
`fast_cluster_correlation_ci` draws cases, and makes each coefficient from sums that it has formed
once for every case.  If every case is drawn once, the two agree, except that within the cases the
one ranks by percentiles and the other does not: Spearman's coefficient is the same for all data if
and only if all cases with more than one attempt have the same number of them (`consistent_iff`).

The numbers are real numbers.  The p-values, and the percentiles of the draws, are left out.
-/

open Finset PeripheralBench.Statistics

namespace PeripheralBench.Analysis

noncomputable section

variable {α ι κ : Type*} [Fintype ι] [DecidableEq κ]

/-! ## The data -/

/-- The attempts with their `case_cluster_id` and two columns, without those where a value is
missing: both functions begin with `dropna`. -/
structure Attempts (ι κ : Type*) where
  cluster : ι → κ
  x : ι → ℝ
  y : ι → ℝ

inductive Method where
  | pearson
  | spearman
deriving DecidableEq

inductive Level where
  | pooled
  | betweenCase
  | withinCase
deriving DecidableEq

namespace Attempts

variable (d : Attempts ι κ)

/-- The keys of `groupby`. -/
def clusters : Finset κ := univ.image d.cluster

/-- The positions of a group. -/
def group (k : κ) : Finset ι := {i | d.cluster i = k}

end Attempts

/-- All clusters of more than one attempt have the same size. -/
def SameSizes (cluster : ι → κ) : Prop := ∀ i j, 2 ≤ #{l | cluster l = cluster i} →
  2 ≤ #{l | cluster l = cluster j} → #{l | cluster l = cluster i} = #{l | cluster l = cluster j}

/-! ## The point estimate -/

/-- What `safe_correlation` returns, without the p-value; `none` is NaN. -/
structure Estimate where
  coefficient : Option ℝ
  count : ℕ
  status : String

/-- `nunique() < 2`. -/
def IsConstant (s : Finset α) (x : α → ℝ) : Prop := ∀ i ∈ s, ∀ j ∈ s, x i = x j

/-- `stats.pearsonr` or `stats.spearmanr`. -/
def Method.coefficient (s : Finset α) (x y : α → ℝ) : Method → ℝ
  | pearson => Statistics.pearson s x y
  | spearman => Statistics.spearman s x y

open Classical in
/-- `safe_correlation`. -/
def safeCorrelation (s : Finset α) (x y : α → ℝ) (method : Method) : Estimate :=
  if s.card < 3 then ⟨none, s.card, "insufficient_data"⟩
  else if IsConstant s x ∨ IsConstant s y then ⟨none, s.card, "constant_variable"⟩
  else ⟨some (method.coefficient s x y), s.card, "ok"⟩

/-- `stats.rankdata(x)`, with Spearman's method. -/
def rankdata (s : Finset α) (x : α → ℝ) : Method → α → ℝ
  | .pearson => x
  | .spearman => rank s x

/-- `[1, x, y, x * x, y * y, x * y]`. -/
def rowMoments (x y : ℝ) : Moments := ⟨1, x, y, x * x, y * y, x * y⟩

namespace Attempts

variable (d : Attempts ι κ)

/-- `groupby(group_column)[name].rank(method="average", pct=True)`. -/
def groupRank (v : ι → ℝ) (i : ι) : ℝ :=
  rank (d.group (d.cluster i)) v i / (d.group (d.cluster i)).card

/-- `values`, in the branch for the level within the cases. -/
def withinValues (v : ι → ℝ) : Method → ι → ℝ
  | .pearson => v
  | .spearman => d.groupRank v

/-- `values[name] - values.groupby(group_column)[name].transform("mean")`. -/
def demean (v : ι → ℝ) (i : ι) : ℝ := v i - mean (d.group (d.cluster i)) v

/-- `_correlation_at_level`. -/
def correlationAtLevel (method : Method) : Level → Estimate
  | .pooled => safeCorrelation univ d.x d.y method
  | .betweenCase =>
      safeCorrelation d.clusters (fun k ↦ mean (d.group k) d.x)
        (fun k ↦ mean (d.group k) d.y) method
  | .withinCase =>
      safeCorrelation univ (d.demean (d.withinValues d.x method))
        (d.demean (d.withinValues d.y method)) .pearson

/-! ## The coefficient of a draw -/

/-- The row of `statistics` for a cluster. -/
def statistics (method : Method) : Level → κ → Moments
  | .pooled => fun k ↦
      moments (d.group k) (rankdata univ d.x method) (rankdata univ d.y method)
  | .betweenCase => fun k ↦
      rowMoments (rankdata d.clusters (fun k ↦ mean (d.group k) d.x) method k)
        (rankdata d.clusters (fun k ↦ mean (d.group k) d.y) method k)
  | .withinCase => fun k ↦
      moments (d.group k) (center (d.group k) (rankdata (d.group k) d.x method))
        (center (d.group k) (rankdata (d.group k) d.y method))

/-- `counts @ statistics`, for one draw. -/
def totals (counts : κ → ℕ) (statistics : κ → Moments) : Moments where
  n := ∑ k ∈ d.clusters, counts k * (statistics k).n
  sumX := ∑ k ∈ d.clusters, counts k * (statistics k).sumX
  sumY := ∑ k ∈ d.clusters, counts k * (statistics k).sumY
  sumXX := ∑ k ∈ d.clusters, counts k * (statistics k).sumXX
  sumYY := ∑ k ∈ d.clusters, counts k * (statistics k).sumYY
  sumXY := ∑ k ∈ d.clusters, counts k * (statistics k).sumXY

/-- `coefficients`, for one draw.  With fewer than two clusters the function returns before. -/
def drawCoefficient (method : Method) (level : Level) (counts : κ → ℕ) : ℝ :=
  (d.totals counts (d.statistics method level)).coefficient

/-! ## The property -/

/-- If the point estimate is in order, it is the coefficient of the draw of every cluster once. -/
def Consistent (method : Method) (level : Level) : Prop :=
  (d.correlationAtLevel method level).status = "ok" →
    (d.correlationAtLevel method level).coefficient =
      some (d.drawCoefficient method level fun _ ↦ 1)

/-! ## The sums of the clusters -/

variable {d} {method : Method} {level : Level}

theorem mem_group {k : κ} {i : ι} : i ∈ d.group k ↔ d.cluster i = k := by
  rw [group, mem_filter_univ]

/-- What is summed cluster by cluster is summed over all attempts. -/
theorem sum_clusters (f : κ → ι → ℝ) :
    ∑ k ∈ d.clusters, ((1 : ℕ) : ℝ) * ∑ i ∈ d.group k, f k i = ∑ i, f (d.cluster i) i := by
  have hmaps : ∀ i ∈ (univ : Finset ι), d.cluster i ∈ d.clusters := fun i hi ↦
    mem_image_of_mem _ hi
  rw [← sum_fiberwise_of_maps_to hmaps]
  refine sum_congr rfl fun k _ ↦ ?_
  rw [Nat.cast_one, one_mul]
  refine sum_congr rfl fun i hi ↦ ?_
  rw [mem_group.mp hi]

theorem card_clusters :
    ∑ k ∈ d.clusters, ((1 : ℕ) : ℝ) * (d.group k).card = (univ : Finset ι).card := by
  have h := sum_clusters (d := d) fun _ _ ↦ 1
  simp only [sum_const, nsmul_eq_mul, mul_one] at h
  exact h

/-- The sums of the clusters add up to the sums of all attempts. -/
theorem totals_moments (x y : κ → ι → ℝ) :
    d.totals (fun _ ↦ 1) (fun k ↦ moments (d.group k) (x k) (y k)) =
      moments univ (fun i ↦ x (d.cluster i) i) fun i ↦ y (d.cluster i) i := by
  ext
  · exact card_clusters
  · exact sum_clusters x
  · exact sum_clusters y
  · exact sum_clusters fun k i ↦ x k i * x k i
  · exact sum_clusters fun k i ↦ y k i * y k i
  · exact sum_clusters fun k i ↦ x k i * y k i

theorem totals_rowMoments (x y : κ → ℝ) :
    d.totals (fun _ ↦ 1) (fun k ↦ rowMoments (x k) (y k)) = moments d.clusters x y := by
  simp only [totals, rowMoments, moments, Nat.cast_one, one_mul, sum_const, nsmul_eq_mul, mul_one]

/-- The coefficient of the draw of every cluster once, within the clusters. -/
theorem drawCoefficient_withinCase : d.drawCoefficient method .withinCase (fun _ ↦ 1) =
    pearson univ
      (fun i ↦ center (d.group (d.cluster i)) (rankdata (d.group (d.cluster i)) d.x method) i)
      fun i ↦ center (d.group (d.cluster i)) (rankdata (d.group (d.cluster i)) d.y method) i := by
  rw [drawCoefficient, statistics, totals_moments, coefficient_moments]

end Attempts

theorem safeCorrelation_eq {s : Finset α} {x y : α → ℝ} {method : Method} (hs : 3 ≤ s.card)
    (hx : ¬ IsConstant s x) (hy : ¬ IsConstant s y) :
    safeCorrelation s x y method = ⟨some (method.coefficient s x y), s.card, "ok"⟩ := by
  rw [safeCorrelation, if_neg (not_lt.mpr hs), if_neg (not_or.mpr ⟨hx, hy⟩)]

theorem eq_of_coefficient {s : Finset α} {x y : α → ℝ} {method : Method} {c : ℝ}
    (h : (safeCorrelation s x y method).coefficient = some c) : c = method.coefficient s x y := by
  rw [safeCorrelation] at h
  split at h
  · exact absurd h (Option.some_ne_none c).symm
  · split at h
    · exact absurd h (Option.some_ne_none c).symm
    · exact (Option.some.inj h).symm

theorem coefficient_of_ok {s : Finset α} {x y : α → ℝ} {method : Method}
    (h : (safeCorrelation s x y method).status = "ok") :
    (safeCorrelation s x y method).coefficient = some (method.coefficient s x y) := by
  by_cases hs : s.card < 3
  · rw [safeCorrelation, if_pos hs] at h
    exact absurd h (show "insufficient_data" ≠ "ok" by decide)
  · by_cases hconstant : IsConstant s x ∨ IsConstant s y
    · rw [safeCorrelation, if_neg hs, if_pos hconstant] at h
      exact absurd h (show "constant_variable" ≠ "ok" by decide)
    · rw [safeCorrelation, if_neg hs, if_neg hconstant]

namespace Attempts

variable {d : Attempts ι κ} {method : Method} {level : Level}

/-! ## Where they agree -/

theorem consistent_pooled : d.Consistent method .pooled := by
  intro h
  rw [correlationAtLevel, coefficient_of_ok h, drawCoefficient, statistics, totals_moments,
    coefficient_moments]
  cases method with
  | pearson => rfl
  | spearman => rfl

theorem consistent_betweenCase : d.Consistent method .betweenCase := by
  intro h
  rw [correlationAtLevel, coefficient_of_ok h, drawCoefficient, statistics, totals_rowMoments,
    coefficient_moments]
  cases method with
  | pearson => rfl
  | spearman => rfl

theorem consistent_withinCase_pearson : d.Consistent .pearson .withinCase := by
  intro h
  rw [correlationAtLevel, coefficient_of_ok h, drawCoefficient_withinCase]
  rfl

/-- The rank in the group, as a deviation. -/
def centerRank (d : Attempts ι κ) (v : ι → ℝ) (i : ι) : ℝ :=
  center (d.group (d.cluster i)) (rank (d.group (d.cluster i)) v) i

theorem mem_group_self (i : ι) : i ∈ d.group (d.cluster i) := mem_group.mpr rfl

/-- The percentiles divide the ranks by the size of the group. -/
theorem demean_groupRank (v : ι → ℝ) (i : ι) : d.demean (d.groupRank v) i =
    ((d.group (d.cluster i)).card : ℝ)⁻¹ * d.centerRank v i := by
  rw [centerRank, ← center_mul]
  refine center_congr (fun j hj ↦ ?_) (mem_group_self i)
  rw [groupRank, mem_group.mp hj, div_eq_inv_mul]

theorem centerRank_eq_zero {v : ι → ℝ} {i : ι} (h : ¬ 2 ≤ (d.group (d.cluster i)).card) :
    d.centerRank v i = 0 := by
  have hone := card_le_one.mp (Nat.le_of_lt_succ (not_le.mp h))
  exact center_eq_zero (mem_group_self i) fun j hj ↦ by rw [hone j hj i (mem_group_self i)]

theorem exists_scale (h : SameSizes d.cluster) :
    ∃ a : ℝ, 0 < a ∧ ∀ v i, d.demean (d.groupRank v) i = a * d.centerRank v i := by
  by_cases hlarge : ∃ j, 2 ≤ (d.group (d.cluster j)).card
  · obtain ⟨j, hj⟩ := hlarge
    have hpos : (0 : ℝ) < (d.group (d.cluster j)).card := by exact_mod_cast Nat.zero_lt_of_lt hj
    refine ⟨((d.group (d.cluster j)).card : ℝ)⁻¹, inv_pos.mpr hpos, fun v i ↦ ?_⟩
    rw [demean_groupRank]
    by_cases hi : 2 ≤ (d.group (d.cluster i)).card
    · have hsize : (d.group (d.cluster i)).card = (d.group (d.cluster j)).card := h i j hi hj
      rw [hsize]
    · rw [centerRank_eq_zero hi, mul_zero, mul_zero]
  · refine ⟨1, one_pos, fun v i ↦ ?_⟩
    rw [demean_groupRank, centerRank_eq_zero fun hi ↦ hlarge ⟨i, hi⟩, mul_zero, mul_zero]

theorem consistent_withinCase_spearman (h : SameSizes d.cluster) :
    d.Consistent .spearman .withinCase := by
  intro hok
  obtain ⟨a, ha, hscale⟩ := exists_scale h
  rw [correlationAtLevel, coefficient_of_ok hok, drawCoefficient_withinCase]
  congr 1
  change pearson univ (d.demean (d.groupRank d.x)) (d.demean (d.groupRank d.y)) =
    pearson univ (d.centerRank d.x) (d.centerRank d.y)
  rw [funext (hscale d.x), funext (hscale d.y), pearson_mul ha ha]

/-! ## Where they do not -/

section Opposed

open Classical in
/-- Attempts `i` and `j` stand out; in the cluster of `i` the one column follows the other, in the
other clusters it is opposed to it. -/
def opposed (cluster : ι → κ) (i j : ι) : Attempts ι κ where
  cluster := cluster
  x := fun l ↦ if l = i ∨ l = j then 1 else 0
  y := fun l ↦ (if cluster l = cluster i then 1 else -1) * if l = i ∨ l = j then 1 else 0

/-- The sum of the squares of the ranks in a cluster. -/
def rankSquares (d : Attempts ι κ) (k : κ) : ℝ := ∑ l ∈ d.group k, d.centerRank d.x l ^ 2

theorem sum_centerRank (v : ι → ℝ) (k : κ) : ∑ l ∈ d.group k, d.centerRank v l = 0 := by
  rw [← sum_center (s := d.group k) (x := rank (d.group k) v)]
  refine sum_congr rfl fun l hl ↦ ?_
  rw [centerRank, mem_group.mp hl]

theorem centerRank_lt {v : ι → ℝ} {i j : ι} (hcluster : d.cluster i = d.cluster j)
    (h : v i < v j) : d.centerRank v i < d.centerRank v j := by
  rw [centerRank, centerRank, hcluster]
  exact sub_lt_sub_right (rank_lt_rank (mem_group.mpr hcluster) h) _

theorem centerRank_of_const {v : ι → ℝ} {i : ι}
    (h : ∀ l ∈ d.group (d.cluster i), v l = v i) : d.centerRank v i = 0 :=
  center_eq_zero (mem_group_self i) fun j hj ↦ rank_eq_of_eq (h j hj)

theorem not_isConstant {v : ι → ℝ} {i j : ι} (hcluster : d.cluster i = d.cluster j)
    (h : d.centerRank v i ≠ d.centerRank v j) : ¬ IsConstant univ (d.demean (d.groupRank v)) := by
  intro hconstant
  have hcard : ((d.group (d.cluster j)).card : ℝ)⁻¹ ≠ 0 :=
    inv_ne_zero (Nat.cast_ne_zero.mpr (card_ne_zero_of_mem (mem_group_self j)))
  have heq := hconstant i (mem_univ i) j (mem_univ j)
  rw [demean_groupRank, demean_groupRank, hcluster] at heq
  exact h (mul_left_cancel₀ hcard heq)

variable {cluster : ι → κ} {i j : ι}

omit [Fintype ι] in
theorem opposed_x_of_notMem {l : ι} (h : ¬ (l = i ∨ l = j)) : (opposed cluster i j).x l = 0 :=
  if_neg h

omit [Fintype ι] in
theorem opposed_x_of_mem {l : ι} (h : l = i ∨ l = j) : (opposed cluster i j).x l = 1 := if_pos h

omit [Fintype ι] in
theorem opposed_y (l : ι) : (opposed cluster i j).y l =
    (if cluster l = cluster i then 1 else -1) * (opposed cluster i j).x l := rfl

/-- In the other clusters nothing stands out. -/
theorem centerRank_opposed_of_ne {l : ι} (hi : cluster l ≠ cluster i)
    (hj : cluster l ≠ cluster j) :
    (opposed cluster i j).centerRank (opposed cluster i j).x l = 0 := by
  have hout : ∀ m, cluster m = cluster l → ¬ (m = i ∨ m = j) := by
    rintro m hm (rfl | rfl)
    · exact hi hm.symm
    · exact hj hm.symm
  refine centerRank_of_const fun m hm ↦ ?_
  rw [opposed_x_of_notMem (hout m (mem_group.mp hm)), opposed_x_of_notMem (hout l rfl)]

theorem centerRank_opposed_y (l : ι) :
    (opposed cluster i j).centerRank (opposed cluster i j).y l =
      (if cluster l = cluster i then 1 else -1) *
        (opposed cluster i j).centerRank (opposed cluster i j).x l := by
  have hcluster : ∀ m ∈ (opposed cluster i j).group (cluster l), cluster m = cluster l :=
    fun m hm ↦ mem_group.mp hm
  by_cases h : cluster l = cluster i
  · rw [if_pos h, one_mul]
    refine center_congr (fun m hm ↦ rank_congr (fun m' hm' ↦ ?_) hm) (mem_group_self l)
    rw [opposed_y, if_pos ((hcluster m' hm').trans h), one_mul]
  · rw [if_neg h, neg_one_mul, centerRank, centerRank, ← center_rank_neg ⟨l, mem_group_self l⟩]
    refine center_congr (fun m hm ↦ rank_congr (fun m' hm' ↦ ?_) hm) (mem_group_self l)
    rw [opposed_y, if_neg fun h' ↦ h ((hcluster m' hm').symm.trans h'), neg_one_mul]

/-- One of the two that stand out has another one of its cluster below it. -/
theorem exists_centerRank_lt {m : ι} (hm : m = i ∨ m = j) (hne : cluster i ≠ cluster j)
    (hsize : 2 ≤ ((opposed cluster i j).group (cluster m)).card) :
    ∃ l, l ≠ m ∧ cluster l = cluster m ∧
      (opposed cluster i j).centerRank (opposed cluster i j).x l <
        (opposed cluster i j).centerRank (opposed cluster i j).x m := by
  obtain ⟨l, hl, hlm⟩ := exists_mem_ne hsize m
  have hcluster : cluster l = cluster m := mem_group.mp hl
  refine ⟨l, hlm, hcluster, centerRank_lt hcluster ?_⟩
  have hout : ¬ (l = i ∨ l = j) := by
    rcases hm with rfl | rfl
    · rintro (h | rfl)
      · exact hlm h
      · exact hne hcluster.symm
    · rintro (rfl | h)
      · exact hne hcluster
      · exact hlm h
  rw [opposed_x_of_notMem hout, opposed_x_of_mem hm]
  exact one_pos

theorem rankSquares_pos {m : ι} (hm : m = i ∨ m = j) (hne : cluster i ≠ cluster j)
    (hsize : 2 ≤ ((opposed cluster i j).group (cluster m)).card) :
    0 < (opposed cluster i j).rankSquares (cluster m) := by
  obtain ⟨l, -, hcluster, hlt⟩ := exists_centerRank_lt hm hne hsize
  refine sum_pos' (fun _ _ ↦ sq_nonneg _) ?_
  by_cases hzero : (opposed cluster i j).centerRank (opposed cluster i j).x m = 0
  · exact ⟨l, mem_group.mpr hcluster, sq_pos_of_ne_zero (hzero ▸ hlt).ne⟩
  · exact ⟨m, mem_group_self m, sq_pos_of_ne_zero hzero⟩

/-- Two sums for all. -/
theorem sum_opposed {f : ι → ℝ} (hne : cluster i ≠ cluster j)
    (hf : ∀ l, cluster l ≠ cluster i → cluster l ≠ cluster j → f l = 0) :
    ∑ l, f l = ∑ l ∈ (opposed cluster i j).group (cluster i), f l +
      ∑ l ∈ (opposed cluster i j).group (cluster j), f l := by
  classical
  rw [← sum_union (disjoint_left.mpr fun l hi hj ↦
    hne ((mem_group.mp hi).symm.trans (mem_group.mp hj)))]
  refine (sum_subset (subset_univ _) fun l _ hl ↦ ?_).symm
  rw [mem_union, not_or] at hl
  exact hf l (fun h ↦ hl.1 (mem_group.mpr h)) fun h ↦ hl.2 (mem_group.mpr h)

/-- With one factor for each cluster. -/
theorem sum_squares_opposed (c : κ → ℝ) (hne : cluster i ≠ cluster j) :
    ∑ l, c (cluster l) * (opposed cluster i j).centerRank (opposed cluster i j).x l ^ 2 =
      c (cluster i) * (opposed cluster i j).rankSquares (cluster i) +
        c (cluster j) * (opposed cluster i j).rankSquares (cluster j) := by
  have hgroup : ∀ k, ∑ l ∈ (opposed cluster i j).group k,
      c (cluster l) * (opposed cluster i j).centerRank (opposed cluster i j).x l ^ 2 =
        c k * (opposed cluster i j).rankSquares k := by
    intro k
    rw [rankSquares, mul_sum]
    exact sum_congr rfl fun l hl ↦ by rw [← mem_group.mp hl]; rfl
  rw [sum_opposed hne fun l hi hj ↦ ?_, hgroup, hgroup]
  rw [centerRank_opposed_of_ne hi hj, zero_pow two_ne_zero, mul_zero]

theorem sum_centerRank_opposed (c : κ → ℝ) (hne : cluster i ≠ cluster j) :
    ∑ l, c (cluster l) * (opposed cluster i j).centerRank (opposed cluster i j).x l = 0 := by
  have hgroup : ∀ k, ∑ l ∈ (opposed cluster i j).group k,
      c (cluster l) * (opposed cluster i j).centerRank (opposed cluster i j).x l = 0 := by
    intro k
    rw [← mul_zero (c k), ← sum_centerRank (opposed cluster i j).x k, mul_sum]
    exact sum_congr rfl fun l hl ↦ by rw [← mem_group.mp hl]; rfl
  rw [sum_opposed hne fun l hi hj ↦ ?_, hgroup, hgroup, add_zero]
  rw [centerRank_opposed_of_ne hi hj, mul_zero]

/-- The coefficient, with the deviations of each cluster multiplied by a factor. -/
theorem pearson_opposed (c : κ → ℝ) (hc : ∀ l, 0 < c (cluster l)) (hne : cluster i ≠ cluster j)
    (hi : 0 < (opposed cluster i j).rankSquares (cluster i))
    (hj : 0 < (opposed cluster i j).rankSquares (cluster j)) {a b : ℝ}
    (ha : c (cluster i) ^ 2 * (opposed cluster i j).rankSquares (cluster i) = a)
    (hb : c (cluster j) ^ 2 * (opposed cluster i j).rankSquares (cluster j) = b) :
    pearson univ
        (fun l ↦ c (cluster l) * (opposed cluster i j).centerRank (opposed cluster i j).x l)
        (fun l ↦ c (cluster l) * (opposed cluster i j).centerRank (opposed cluster i j).y l) =
      (a - b) / (a + b) := by
  obtain ⟨sign, hsign⟩ : ∃ sign : κ → ℝ, ∀ k, sign k = if k = cluster i then 1 else -1 :=
    ⟨_, fun _ ↦ rfl⟩
  have hsign_sq : ∀ k, sign k ^ 2 = 1 := by
    intro k
    rw [hsign]
    split
    · exact one_pow 2
    · exact neg_one_sq
  have hx := sum_centerRank_opposed c hne
  have hy : ∑ l, c (cluster l) * (opposed cluster i j).centerRank (opposed cluster i j).y l =
      0 := by
    rw [← sum_centerRank_opposed (fun k ↦ c k * sign k) hne]
    exact sum_congr rfl fun l _ ↦ by rw [centerRank_opposed_y, ← hsign, ← mul_assoc]
  have hxx : comoment univ
      (fun l ↦ c (cluster l) * (opposed cluster i j).centerRank (opposed cluster i j).x l)
      (fun l ↦ c (cluster l) * (opposed cluster i j).centerRank (opposed cluster i j).x l) =
        a + b := by
    rw [comoment_of_sum_eq_zero hx hx, ← ha, ← hb, ← sum_squares_opposed (fun k ↦ c k ^ 2) hne]
    exact sum_congr rfl fun l _ ↦ by ring
  have hyy : comoment univ
      (fun l ↦ c (cluster l) * (opposed cluster i j).centerRank (opposed cluster i j).y l)
      (fun l ↦ c (cluster l) * (opposed cluster i j).centerRank (opposed cluster i j).y l) =
        a + b := by
    rw [comoment_of_sum_eq_zero hy hy, ← hxx, comoment_of_sum_eq_zero hx hx]
    refine sum_congr rfl fun l _ ↦ ?_
    rw [centerRank_opposed_y, ← hsign]
    linear_combination (c (cluster l) *
      (opposed cluster i j).centerRank (opposed cluster i j).x l) ^ 2 * hsign_sq (cluster l)
  have hxy : comoment univ
      (fun l ↦ c (cluster l) * (opposed cluster i j).centerRank (opposed cluster i j).x l)
      (fun l ↦ c (cluster l) * (opposed cluster i j).centerRank (opposed cluster i j).y l) =
        a - b := by
    have h := sum_squares_opposed (fun k ↦ c k ^ 2 * sign k) hne
    simp only [hsign (cluster i), hsign (cluster j), if_true, if_neg hne.symm, mul_one, mul_neg,
      neg_mul, ha, hb, ← sub_eq_add_neg] at h
    rw [comoment_of_sum_eq_zero hx hy, ← h]
    refine sum_congr rfl fun l _ ↦ ?_
    rw [centerRank_opposed_y, ← hsign]
    ring
  have hpos : 0 < a + b :=
    ha ▸ hb ▸ add_pos (mul_pos (pow_pos (hc i) 2) hi) (mul_pos (pow_pos (hc j) 2) hj)
  rw [pearson, hxx, hyy, hxy, Real.sqrt_mul_self hpos.le]

/-- The two coefficients can only be equal if the clusters have the same weight. -/
theorem eq_of_opposed_eq {a b p q : ℝ} (ha : 0 < a) (hb : 0 < b) (hp : 0 < p) (hq : 0 < q)
    (h : (p * a - q * b) / (p * a + q * b) = (a - b) / (a + b)) : p = q := by
  have hpq : 0 < p * a + q * b := add_pos (mul_pos hp ha) (mul_pos hq hb)
  rw [div_eq_div_iff hpq.ne' (add_pos ha hb).ne'] at h
  have hab : 2 * (a * b) ≠ 0 := mul_ne_zero two_ne_zero (mul_pos ha hb).ne'
  refine mul_left_cancel₀ hab ?_
  linear_combination h

/-- The point estimate is in order.  If the draw of every cluster once has its coefficient, then to
divide the ranks by the size of their cluster makes no difference. -/
theorem pearson_eq_of_consistent (hne : cluster i ≠ cluster j)
    (hi : 2 ≤ ((opposed cluster i j).group (cluster i)).card)
    (h : (opposed cluster i j).Consistent .spearman .withinCase) :
    pearson univ
        (fun l ↦ (((opposed cluster i j).group (cluster l)).card : ℝ)⁻¹ *
          (opposed cluster i j).centerRank (opposed cluster i j).x l)
        (fun l ↦ (((opposed cluster i j).group (cluster l)).card : ℝ)⁻¹ *
          (opposed cluster i j).centerRank (opposed cluster i j).y l) =
      pearson univ (fun l ↦ 1 * (opposed cluster i j).centerRank (opposed cluster i j).x l)
        (fun l ↦ 1 * (opposed cluster i j).centerRank (opposed cluster i j).y l) := by
  obtain ⟨l, hli, hcluster, hlt⟩ := exists_centerRank_lt (.inl rfl) hne hi
  have hcard : 3 ≤ (univ : Finset ι).card :=
    two_lt_card.mpr ⟨l, mem_univ l, i, mem_univ i, j, mem_univ j, hli,
      fun h ↦ hne (hcluster.symm.trans (congrArg cluster h)), fun h ↦ hne (congrArg cluster h)⟩
  have hy : (opposed cluster i j).centerRank (opposed cluster i j).y l ≠
      (opposed cluster i j).centerRank (opposed cluster i j).y i := by
    rw [centerRank_opposed_y, centerRank_opposed_y, if_pos hcluster, if_pos rfl, one_mul, one_mul]
    exact hlt.ne
  have hestimate : (opposed cluster i j).correlationAtLevel .spearman .withinCase =
      ⟨some (Method.pearson.coefficient univ _ _), _, "ok"⟩ :=
    safeCorrelation_eq hcard (not_isConstant hcluster hlt.ne) (not_isConstant hcluster hy)
  rw [Consistent, hestimate] at h
  have heq := Option.some.inj (h rfl)
  rw [drawCoefficient_withinCase] at heq
  simp only [one_mul]
  refine Eq.trans ?_ heq
  exact congrArg₂ (pearson univ) (funext fun l ↦ (demean_groupRank _ l).symm)
    (funext fun l ↦ (demean_groupRank _ l).symm)

/-- If the clusters of `i` and `j` have different sizes, the coefficients are different. -/
theorem not_consistent_opposed (hi : 2 ≤ ((opposed cluster i j).group (cluster i)).card)
    (hj : 2 ≤ ((opposed cluster i j).group (cluster j)).card)
    (hsize : ((opposed cluster i j).group (cluster i)).card ≠
      ((opposed cluster i j).group (cluster j)).card) :
    ¬ (opposed cluster i j).Consistent .spearman .withinCase := by
  intro hconsistent
  have hne : cluster i ≠ cluster j := fun h ↦ hsize (by rw [h])
  have hpos_i := rankSquares_pos (.inl rfl) hne hi
  have hpos_j := rankSquares_pos (.inr rfl) hne hj
  have hcard_pos : ∀ l, (0 : ℝ) < ((opposed cluster i j).group (cluster l)).card := fun l ↦
    Nat.cast_pos.mpr (card_pos.mpr ⟨l, mem_group_self l⟩)
  have hplain := pearson_opposed (fun k ↦ (((opposed cluster i j).group k).card : ℝ)⁻¹)
    (fun l ↦ inv_pos.mpr (hcard_pos l)) hne hpos_i hpos_j rfl rfl
  have hfast := pearson_opposed (fun _ ↦ (1 : ℝ)) (fun _ ↦ one_pos) hne hpos_i hpos_j
    (by rw [one_pow, one_mul]) (by rw [one_pow, one_mul])
  have hequal := pearson_eq_of_consistent hne hi hconsistent
  rw [hplain, hfast] at hequal
  have hsquares := eq_of_opposed_eq hpos_i hpos_j (pow_pos (inv_pos.mpr (hcard_pos i)) 2)
    (pow_pos (inv_pos.mpr (hcard_pos j)) 2) hequal
  have hinv := (pow_left_inj₀ (inv_pos.mpr (hcard_pos i)).le (inv_pos.mpr (hcard_pos j)).le
    two_ne_zero).mp hsquares
  exact hsize (Nat.cast_injective (inv_injective hinv))

end Opposed

end Attempts

/-- For the attempts of given clusters, the draw of every cluster once has the coefficient that is
reported, whatever the values, if and only if it is not Spearman's within the cases, or all clusters
of more than one attempt have the same size. -/
theorem consistent_iff (cluster : ι → κ) (method : Method) (level : Level) :
    (∀ x y, (Attempts.mk cluster x y).Consistent method level) ↔
      ¬ (method = .spearman ∧ level = .withinCase) ∨
        SameSizes cluster := by
  constructor
  · intro h
    by_cases hlevel : method = .spearman ∧ level = .withinCase
    · obtain ⟨rfl, rfl⟩ := hlevel
      refine .inr fun i j hi hj ↦ ?_
      by_contra hsize
      exact @Attempts.not_consistent_opposed ι κ _ _ cluster i j hi hj hsize (h _ _)
    · exact .inl hlevel
  · intro h x y
    cases level with
    | pooled => exact Attempts.consistent_pooled
    | betweenCase => exact Attempts.consistent_betweenCase
    | withinCase =>
        cases method with
        | pearson => exact Attempts.consistent_withinCase_pearson
        | spearman =>
            exact Attempts.consistent_withinCase_spearman
              (h.resolve_left (not_not.mpr ⟨rfl, rfl⟩))

/-- Two attempts of one case and three of another. -/
theorem not_consistent_spearman :
    ¬ (Attempts.mk ![0, 0, 1, 1, 1] ![1, 0, 1, 0, 0] ![1, 0, -1, 0, 0] :
      Attempts (Fin 5) ℕ).Consistent .spearman .withinCase := by
  have hopposed : (Attempts.mk ![0, 0, 1, 1, 1] ![1, 0, 1, 0, 0] ![1, 0, -1, 0, 0] :
      Attempts (Fin 5) ℕ) = Attempts.opposed ![0, 0, 1, 1, 1] 0 2 := by
    rw [Attempts.opposed, Attempts.mk.injEq]
    refine ⟨rfl, funext fun l ↦ ?_, funext fun l ↦ ?_⟩
    · fin_cases l <;> simp
    · fin_cases l <;> simp
  rw [hopposed]
  exact Attempts.not_consistent_opposed (by decide) (by decide) (by decide)

end

end PeripheralBench.Analysis

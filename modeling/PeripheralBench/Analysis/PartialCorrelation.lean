import PeripheralBench.Analysis.Correlation
import PeripheralBench.Statistics.Partial

/-!
# The bootstrapped partial correlation

`partial_coefficient` of `analyze_time_energy.py` correlates what regressions on a constant, the
controls and the runs leave of two columns.  For its confidence interval `fast_cluster_partial_ci`
draws cases and takes the coefficient from the pseudoinverse of a matrix of cross products that it
has summed for every case.  If every case is drawn once, the two agree if and only if the two
columns are independent as well, of the constant, the controls, the runs and each other
(`partial_consistent_iff`): when the one residual is a multiple of the other, the pseudoinverse
gives something else.

The numbers are real numbers.
-/

open Finset Matrix PeripheralBench.Statistics

namespace PeripheralBench.Analysis

noncomputable section

variable {ι κ ρ : Type*} {m : ℕ} [Fintype ι] [DecidableEq κ] [LinearOrder ρ]

/-- Attempts with their `run_id` and some controls. -/
structure ControlledAttempts (ι κ ρ : Type*) (m : ℕ) extends Attempts ι κ where
  run : ι → ρ
  controls : Fin m → ι → ℝ

namespace ControlledAttempts

variable (d : ControlledAttempts ι κ ρ m) (method : Method)

/-! ## The columns -/

def runs : Finset ρ := univ.image d.run

/-- The categories of `pd.get_dummies(run_id, drop_first=True)`, if there is more than one run. -/
def dummies : Finset ρ :=
  if 1 < d.runs.card then d.runs.filter fun r ↦ ∃ s ∈ d.runs, s < r else ∅

/-- The two columns. -/
def target : Fin 2 → ι → ℝ := ![rankdata univ d.x method, rankdata univ d.y method]

/-- The columns of `design`, without the constant. -/
def design : Fin m ⊕ d.dummies → ι → ℝ :=
  Sum.elim (fun k ↦ rankdata univ (d.controls k) method) fun r i ↦ if d.run i = r then 1 else 0

/-- The columns of `values`. -/
def values : Fin 2 ⊕ (Fin m ⊕ d.dummies) → ι → ℝ := Sum.elim (d.target method) (d.design method)

/-! ## The point estimate -/

/-- `residualize`. -/
def residualize (target : ι → ℝ) : ι → ℝ := residual (d.design method) target

/-- `partial_coefficient`. -/
def partialCoefficient : Estimate :=
  if (univ : Finset ι).card ≤ m + 2 then ⟨none, (univ : Finset ι).card, "insufficient_data"⟩
  else safeCorrelation univ (d.residualize method (d.target method 0))
    (d.residualize method (d.target method 1)) .pearson

/-! ## The coefficient of a draw -/

/-- `total_n`. -/
def totalN (weights : κ → ℕ) : ℝ := ∑ k ∈ d.clusters, weights k * ((d.group k).card : ℝ)

/-- `total_sum`. -/
def totalSum (weights : κ → ℕ) (a : Fin 2 ⊕ (Fin m ⊕ d.dummies)) : ℝ :=
  ∑ k ∈ d.clusters, weights k * ∑ i ∈ d.group k, d.values method a i

/-- `total_cross`. -/
def totalCross (weights : κ → ℕ) (a b : Fin 2 ⊕ (Fin m ⊕ d.dummies)) : ℝ :=
  ∑ k ∈ d.clusters, weights k * ∑ i ∈ d.group k, d.values method a i * d.values method b i

/-- `centered`. -/
def centered (weights : κ → ℕ) :
    Matrix (Fin 2 ⊕ (Fin m ⊕ d.dummies)) (Fin 2 ⊕ (Fin m ⊕ d.dummies)) ℝ :=
  of fun a b ↦ d.totalCross method weights a b -
    d.totalSum method weights a * d.totalSum method weights b / d.totalN weights

/-- The coefficient from `precision`; `none` is not finite. -/
def precisionCoefficient (precision :
    Matrix (Fin 2 ⊕ (Fin m ⊕ d.dummies)) (Fin 2 ⊕ (Fin m ⊕ d.dummies)) ℝ) : Option ℝ :=
  if 0 < precision (.inl 0) (.inl 0) * precision (.inl 1) (.inl 1) then
    some (-precision (.inl 0) (.inl 1) /
      √(precision (.inl 0) (.inl 0) * precision (.inl 1) (.inl 1)))
  else none

/-- `coefficients`, for one draw.  With fewer than two clusters the function returns before. -/
def drawPartial (weights : κ → ℕ) : Option ℝ :=
  d.precisionCoefficient (pinv (d.centered method weights))

/-! ## The property -/

/-- The constant, the controls and the dummies have full column rank, and the residuals are not
constant. -/
structure Admissible : Prop where
  fullRank : LinearIndependent ℝ (withConst (d.design method))
  left : ¬ IsConstant univ (d.residualize method (d.target method 0))
  right : ¬ IsConstant univ (d.residualize method (d.target method 1))

/-- The draw of every cluster once has the coefficient that is reported. -/
def Agrees : Prop :=
  ∃ c, d.drawPartial method (fun _ ↦ 1) = some c ∧
    (d.partialCoefficient method).coefficient = some c

/-- The two agree on all data for which the regressions determine the residuals. -/
def ConsistentPartial : Prop := d.Admissible method → d.Agrees method

/-! ## When they agree -/

variable {d method}

/-- The cross products of the clusters add up to the comoments of all attempts. -/
theorem centered_once :
    d.centered method (fun _ ↦ 1) = comoments univ (d.values method) := by
  have hn : d.totalN (fun _ ↦ 1) = (univ : Finset ι).card := Attempts.card_clusters
  have hsum : ∀ a, d.totalSum method (fun _ ↦ 1) a = ∑ i, d.values method a i := fun a ↦
    Attempts.sum_clusters fun _ ↦ d.values method a
  have hcross : ∀ a b, d.totalCross method (fun _ ↦ 1) a b =
      ∑ i, d.values method a i * d.values method b i := fun a b ↦
    Attempts.sum_clusters fun _ i ↦ d.values method a i * d.values method b i
  ext a b
  change d.totalCross method (fun _ ↦ 1) a b -
    d.totalSum method (fun _ ↦ 1) a * d.totalSum method (fun _ ↦ 1) b / d.totalN (fun _ ↦ 1) =
      comoment univ (d.values method a) (d.values method b)
  rw [hn, hsum, hsum, hcross, comoment_eq]

omit [DecidableEq κ] in
theorem precisionCoefficient_eq_some_iff {c : ℝ}
    {P : Matrix (Fin 2 ⊕ (Fin m ⊕ d.dummies)) (Fin 2 ⊕ (Fin m ⊕ d.dummies)) ℝ} :
    d.precisionCoefficient P = some c ↔ 0 < P (.inl 0) (.inl 0) * P (.inl 1) (.inl 1) ∧
      -P (.inl 0) (.inl 1) / √(P (.inl 0) (.inl 0) * P (.inl 1) (.inl 1)) = c := by
  rw [precisionCoefficient]
  split
  case isTrue h => exact Option.some_inj.trans (and_iff_right h).symm
  case isFalse h => exact iff_of_false (Option.some_ne_none c).symm fun h' ↦ h h'.1

theorem ne_zero_of_not_isConstant {x : ι → ℝ} (h : ¬ IsConstant univ x) : x ≠ 0 := by
  rintro rfl
  exact h fun _ _ _ _ ↦ rfl

/-- When the draw has the coefficient of the residuals. -/
theorem drawPartial_eq_iff (h : d.Admissible method) :
    d.drawPartial method (fun _ ↦ 1) = some (pearson univ
        (d.residualize method (d.target method 0)) (d.residualize method (d.target method 1))) ↔
      LinearIndependent ℝ (withConst (d.values method)) := by
  rw [drawPartial, centered_once, precisionCoefficient_eq_some_iff]
  exact partial_iff (r := fun t ↦ d.residualize method (d.target method t))
    (fun t ↦ isResidual_residual _ _) h.fullRank (ne_zero_of_not_isConstant h.left)
    (ne_zero_of_not_isConstant h.right) (isMoorePenrose_pinv isSymm_comoments)

omit [DecidableEq κ] in
/-- For independent columns there are enough attempts. -/
theorem card_lt (h : LinearIndependent ℝ (withConst (d.values method))) :
    m + 2 < (univ : Finset ι).card := by
  have hcard := h.fintype_card_le_finrank
  rw [Module.finrank_fintype_fun_eq_card, Fintype.card_option, Fintype.card_sum, Fintype.card_sum,
    Fintype.card_fin, Fintype.card_fin] at hcard
  rw [card_univ]
  omega

theorem agrees_iff_independent (h : d.Admissible method) :
    d.Agrees method ↔ LinearIndependent ℝ (withConst (d.values method)) := by
  rw [← drawPartial_eq_iff h]
  constructor
  · rintro ⟨c, hdraw, hcoefficient⟩
    rw [partialCoefficient] at hcoefficient
    split at hcoefficient
    · exact absurd hcoefficient (Option.some_ne_none c).symm
    · rw [hdraw, eq_of_coefficient hcoefficient]
      rfl
  · intro hdraw
    have hcard := card_lt ((drawPartial_eq_iff h).mp hdraw)
    refine ⟨_, hdraw, ?_⟩
    rw [partialCoefficient, if_neg (not_le.mpr hcard),
      safeCorrelation_eq (Nat.succ_le_of_lt (Nat.lt_of_le_of_lt (Nat.le_add_left 2 m) hcard))
        h.left h.right]
    rfl

omit [DecidableEq κ] in
theorem dummies_eq_empty (h : ∀ i j, d.run i = d.run j) : d.dummies = ∅ := by
  refine if_neg (not_lt.mpr (card_le_one.mpr fun r hr s hs ↦ ?_))
  obtain ⟨i, -, rfl⟩ := mem_image.mp hr
  obtain ⟨j, -, rfl⟩ := mem_image.mp hs
  exact h i j

/-- Without controls, in one run, two equal columns are an example. -/
theorem not_consistentPartial {d : ControlledAttempts ι κ ρ 0} (hrun : ∀ i j, d.run i = d.run j)
    (hxy : d.x = d.y) (hx : ¬ IsConstant univ d.x) : ¬ d.ConsistentPartial .pearson := by
  intro hconsistent
  have : IsEmpty (Fin 0 ⊕ d.dummies) := by
    rw [dummies_eq_empty hrun]
    infer_instance
  have : Nonempty ι := by
    obtain ⟨i, -⟩ := Function.ne_iff.mp (ne_zero_of_not_isConstant hx)
    exact ⟨i⟩
  have hresidual : ¬ IsConstant univ (d.residualize .pearson d.x) := by
    refine fun hconstant ↦ hx fun i hi j hj ↦ ?_
    have h := hconstant i hi j hj
    rwa [residualize, residual_of_isEmpty, center, center, sub_left_inj] at h
  have hresidual' : ¬ IsConstant univ (d.residualize .pearson d.y) := hxy ▸ hresidual
  have hadmissible : d.Admissible .pearson :=
    ⟨linearIndependent_withConst_of_isEmpty, hresidual, hresidual'⟩
  have hindependent := (agrees_iff_independent hadmissible).mp (hconsistent hadmissible)
  have hcolumns : withConst (d.values .pearson) (some (.inl 0)) =
      withConst (d.values .pearson) (some (.inl 1)) := hxy
  exact zero_ne_one (Sum.inl_injective (Option.some_injective _ (hindependent.injective hcolumns)))

end ControlledAttempts

/-- Where the regressions have full column rank and leave something, the draw of every cluster once
has the coefficient that is reported if and only if the two columns are independent as well. -/
theorem partial_consistent_iff (d : ControlledAttempts ι κ ρ m) (method : Method) :
    d.ConsistentPartial method ↔
      (d.Admissible method → LinearIndependent ℝ (withConst (d.values method))) :=
  forall_congr' ControlledAttempts.agrees_iff_independent

/-- Four attempts of two cases, in one run, and twice the same column. -/
theorem not_partial_consistent :
    ¬ (⟨⟨![0, 0, 1, 1], ![0, 1, 2, 3], ![0, 1, 2, 3]⟩, fun _ ↦ 0, ![]⟩ :
      ControlledAttempts (Fin 4) ℕ ℕ 0).ConsistentPartial .pearson := by
  refine ControlledAttempts.not_consistentPartial (fun _ _ ↦ rfl) rfl fun hconstant ↦ ?_
  exact zero_ne_one (hconstant 0 (mem_univ 0) 1 (mem_univ 1))

end

end PeripheralBench.Analysis

import Mathlib.Analysis.InnerProductSpace.PiL2
import Mathlib.LinearAlgebra.Matrix.DotProduct
import PeripheralBench.Statistics.Correlation
import PeripheralBench.Statistics.Pseudoinverse

/-!
# Partial correlation

What least squares leave of some families of real numbers when a constant and other families
explain them, and how this is read off the Moore–Penrose inverse of the comoments of all the
families.  If they are independent, the block of the inverse that belongs to the explained families
is the inverse of the comoments of what is left (`precision_mul_residuals`), so for two of them it
has the correlation of the residuals up to sign.  If they are not, it never has (`partial_iff`).
-/

open Finset Matrix

namespace PeripheralBench.Statistics

variable {ι J T W : Type*}

/-! ## Comoments -/

section Comoments

variable {s : Finset ι} {c : J → ι → ℝ}

/-- The comoments of a family of families. -/
noncomputable def comoments (s : Finset ι) (c : J → ι → ℝ) : Matrix J J ℝ :=
  of fun a b ↦ comoment s (c a) (c b)

theorem comoment_comm (v w : ι → ℝ) : comoment s v w = comoment s w v :=
  sum_congr rfl fun _ _ ↦ mul_comm _ _

theorem isSymm_comoments : (comoments s c).IsSymm := by
  ext a b
  exact comoment_comm _ _

/-- It is enough to center one of the two. -/
theorem comoment_eq_sum_mul_center (v w : ι → ℝ) :
    comoment s v w = ∑ i ∈ s, v i * center s w i := by
  calc comoment s v w
      = ∑ i ∈ s, (v i * center s w i - mean s v * center s w i) :=
        sum_congr rfl fun i _ ↦ sub_mul _ _ _
    _ = ∑ i ∈ s, v i * center s w i := by
        rw [sum_sub_distrib, ← mul_sum, sum_center, mul_zero, sub_zero]

variable [Fintype J] {u : J → ℝ}

theorem center_sum (i : ι) : center s (∑ j, u j • c j) i = ∑ j, u j * center s (c j) i := by
  have hmean : mean s (∑ j, u j • c j) = ∑ j, u j * mean s (c j) := by
    simp only [mean, Finset.sum_apply, Pi.smul_apply, smul_eq_mul]
    rw [sum_comm, sum_div]
    exact sum_congr rfl fun j _ ↦ by rw [← mul_sum, mul_div_assoc]
  rw [center, hmean, Finset.sum_apply, ← sum_sub_distrib]
  exact sum_congr rfl fun j _ ↦ (mul_sub _ _ _).symm

theorem comoments_mulVec (a : J) :
    (comoments s c *ᵥ u) a = comoment s (c a) (∑ j, u j • c j) := by
  simp only [comoment, center_sum, mul_sum]
  rw [sum_comm]
  refine sum_congr rfl fun j _ ↦ ?_
  change comoment s (c a) (c j) * u j = _
  rw [comoment, sum_mul]
  exact sum_congr rfl fun i _ ↦ by rw [mul_left_comm, mul_comm (u j)]

/-- The form of the comoments, as a sum of squares. -/
theorem dotProduct_comoments :
    u ⬝ᵥ comoments s c *ᵥ u = ∑ i ∈ s, center s (∑ j, u j • c j) i ^ 2 := by
  calc u ⬝ᵥ comoments s c *ᵥ u
      = ∑ j, u j * ∑ i ∈ s, center s (c j) i * center s (∑ j, u j • c j) i :=
        sum_congr rfl fun j _ ↦ by rw [comoments_mulVec, comoment]
    _ = ∑ i ∈ s, (∑ j, u j * center s (c j) i) * center s (∑ j, u j • c j) i := by
        simp only [mul_sum, sum_mul]
        rw [sum_comm]
        exact sum_congr rfl fun i _ ↦ sum_congr rfl fun j _ ↦ (mul_assoc _ _ _).symm
    _ = ∑ i ∈ s, center s (∑ j, u j • c j) i ^ 2 :=
        sum_congr rfl fun i _ ↦ by rw [← center_sum, sq]

theorem center_eq_zero_of_dotProduct (h : u ⬝ᵥ comoments s c *ᵥ u = 0) :
    ∀ i ∈ s, center s (∑ j, u j • c j) i = 0 := by
  rw [dotProduct_comoments, sum_eq_zero_iff_of_nonneg fun i _ ↦ sq_nonneg _] at h
  exact fun i hi ↦ pow_eq_zero_iff two_ne_zero |>.mp (h i hi)

theorem comoments_mulVec_eq_zero_iff :
    comoments s c *ᵥ u = 0 ↔ ∀ i ∈ s, center s (∑ j, u j • c j) i = 0 := by
  constructor
  · intro h
    exact center_eq_zero_of_dotProduct (by rw [h, dotProduct_zero])
  · intro h
    funext a
    rw [comoments_mulVec, comoment_eq_sum_mul_center]
    exact sum_eq_zero fun i hi ↦ by rw [h i hi, mul_zero]

end Comoments

/-! ## Residuals -/

section Residuals

variable [Fintype ι] [Fintype J] {c : J → ι → ℝ} {v w r r' : ι → ℝ}

/-- The families with a constant. -/
def withConst (c : J → ι → ℝ) : Option J → ι → ℝ := fun j ↦ j.elim (fun _ ↦ 1) c

/-- `r` is what least squares leave of `v`: the rest is a combination of the families and the
constant, and `r` is orthogonal to these. -/
structure IsResidual (c : J → ι → ℝ) (v r : ι → ℝ) : Prop where
  exists_coeff : ∃ u : Option J → ℝ, v = ∑ j, u j • withConst c j + r
  orthogonal : ∀ j, withConst c j ⬝ᵥ r = 0

theorem exists_isResidual (c : J → ι → ℝ) (v : ι → ℝ) : ∃ r, IsResidual c v r := by
  obtain ⟨y, hy, z, hz, hv⟩ := (Submodule.span ℝ (Set.range fun j ↦
    (WithLp.toLp 2 (withConst c j) : EuclideanSpace ℝ ι))).exists_add_mem_mem_orthogonal
      (WithLp.toLp 2 v)
  obtain ⟨u, rfl⟩ := (Submodule.mem_span_range_iff_exists_fun ℝ).mp hy
  refine ⟨z.ofLp, ⟨u, ?_⟩, fun j ↦ ?_⟩
  · have h := congrArg WithLp.ofLp hv
    rw [WithLp.ofLp_add, WithLp.ofLp_sum] at h
    exact h
  · have h := (Submodule.mem_orthogonal _ _).mp hz _ (Submodule.subset_span ⟨j, rfl⟩)
    rw [EuclideanSpace.inner_eq_star_dotProduct, star_trivial] at h
    rw [dotProduct_comm]
    exact h

/-- The residuals of least squares. -/
noncomputable def residual (c : J → ι → ℝ) (v : ι → ℝ) : ι → ℝ :=
  Classical.choose (exists_isResidual c v)

theorem isResidual_residual (c : J → ι → ℝ) (v : ι → ℝ) : IsResidual c v (residual c v) :=
  Classical.choose_spec (exists_isResidual c v)

namespace IsResidual

theorem sum_eq_zero (h : IsResidual c v r) : ∑ i, r i = 0 := by
  have hconst := h.orthogonal none
  rw [dotProduct] at hconst
  simpa only [withConst, Option.elim_none, one_mul] using hconst

/-- A combination of the families and the constant that is orthogonal to them is zero. -/
theorem eq_zero_of_orthogonal {u : Option J → ℝ} (hr : r = ∑ j, u j • withConst c j)
    (h : ∀ j, withConst c j ⬝ᵥ r = 0) : r = 0 := by
  have hself : (∑ j, u j • withConst c j) ⬝ᵥ r = 0 := by
    rw [sum_dotProduct]
    exact Finset.sum_eq_zero fun j _ ↦ by rw [smul_dotProduct, h j, smul_zero]
  rw [← hr] at hself
  exact dotProduct_self_eq_zero.mp hself

theorem unique (h : IsResidual c v r) (h' : IsResidual c v r') : r = r' := by
  obtain ⟨u, hu⟩ := h.exists_coeff
  obtain ⟨u', hu'⟩ := h'.exists_coeff
  have hdiff : r - r' = ∑ j, (u' j - u j) • withConst c j := by
    simp only [sub_smul, sum_sub_distrib]
    rw [sub_eq_sub_iff_add_eq_add, add_comm r, ← hu, ← hu']
  refine sub_eq_zero.mp (eq_zero_of_orthogonal hdiff fun j ↦ ?_)
  rw [dotProduct_sub, h.orthogonal, h'.orthogonal, sub_zero]

/-- With a residual, a family is multiplied as with what is left of it. -/
theorem dotProduct_eq (h : IsResidual c v r) (h' : IsResidual c w r') : v ⬝ᵥ r' = r ⬝ᵥ r' := by
  obtain ⟨u, rfl⟩ := h.exists_coeff
  rw [add_dotProduct, sum_dotProduct]
  rw [Finset.sum_eq_zero fun j _ ↦ by rw [smul_dotProduct, h'.orthogonal, smul_zero], zero_add]

end IsResidual

end Residuals

/-! ## The precision -/

section Precision

variable [Fintype T] [Fintype W] {x r : T → ι → ℝ} {w : W → ι → ℝ} {t : T}
  {P : Matrix (T ⊕ W) (T ⊕ W) ℝ}

theorem sum_withConst {c : W → ι → ℝ} (u : Option W → ℝ) :
    ∑ j, u j • withConst c j = (fun _ ↦ u none) + ∑ k, u (some k) • c k := by
  rw [Fintype.sum_option]
  refine congrArg (· + _) (funext fun i ↦ ?_)
  exact mul_one _

theorem sum_columns (u : T ⊕ W → ℝ) :
    ∑ j, u j • Sum.elim x w j = ∑ s, u (.inl s) • x s + ∑ k, u (.inr k) • w k :=
  Fintype.sum_sum_type _

variable [Fintype ι]

theorem center_const_add {v : ι → ℝ} (hv : ∑ i, v i = 0) (a : ℝ) (i : ι) :
    center univ ((fun _ ↦ a) + v) i = v i := by
  have hcard : ((univ : Finset ι).card : ℝ) ≠ 0 :=
    Nat.cast_ne_zero.mpr (card_ne_zero_of_mem (mem_univ i))
  have hmean : mean univ ((fun _ ↦ a) + v) = a := by
    simp only [mean, Pi.add_apply, sum_add_distrib, hv, sum_const, nsmul_eq_mul, add_zero]
    exact mul_div_cancel_left₀ _ hcard
  rw [center, hmean, Pi.add_apply, add_sub_cancel_left]

/-- What is left of a family, as a combination of the columns. -/
theorem exists_weights [DecidableEq T] (h : IsResidual w (x t) (r t)) :
    ∃ u : T ⊕ W → ℝ, (∀ s, u (.inl s) = if s = t then 1 else 0) ∧
      ∀ i, center univ (∑ j, u j • Sum.elim x w j) i = r t i := by
  obtain ⟨u, hu⟩ := h.exists_coeff
  refine ⟨Sum.elim (fun s ↦ if s = t then 1 else 0) fun k ↦ -u (some k), fun s ↦ rfl, fun i ↦ ?_⟩
  have hsum : ∑ j, (Sum.elim (fun s ↦ if s = t then 1 else 0) fun k ↦ -u (some k) :
      T ⊕ W → ℝ) j • Sum.elim x w j = (fun _ ↦ u none) + r t := by
    rw [sum_columns]
    simp only [Sum.elim_inl, Sum.elim_inr, ite_smul, one_smul, zero_smul, sum_ite_eq', mem_univ,
      if_true, neg_smul, sum_neg_distrib]
    rw [hu, sum_withConst]
    abel
  rw [hsum, center_const_add h.sum_eq_zero]

/-- The comoments of the columns, applied to these weights. -/
theorem comoments_mulVec_weights (h : ∀ t, IsResidual w (x t) (r t)) {u : T ⊕ W → ℝ}
    (hu : ∀ i, center univ (∑ j, u j • Sum.elim x w j) i = r t i) :
    comoments univ (Sum.elim x w) *ᵥ u = Sum.elim (fun s ↦ r s ⬝ᵥ r t) 0 := by
  funext j
  rw [comoments_mulVec, comoment_eq_sum_mul_center]
  simp only [hu]
  cases j with
  | inl s => exact (h s).dotProduct_eq (h t)
  | inr k => exact (h t).orthogonal (some k)

/-- If the comoments have an inverse, its block for the explained families is the inverse of the
comoments of their residuals. -/
theorem precision_mul_residuals [DecidableEq T] [DecidableEq W]
    (h : ∀ t, IsResidual w (x t) (r t)) (hP : P * comoments univ (Sum.elim x w) = 1) :
    P.toBlocks₁₁ * of (fun s t ↦ r s ⬝ᵥ r t) = 1 := by
  ext s t
  obtain ⟨u, hu, hcenter⟩ := exists_weights (h t)
  have hsolve : P *ᵥ Sum.elim (fun s ↦ r s ⬝ᵥ r t) 0 = u := by
    rw [← comoments_mulVec_weights h hcenter, mulVec_mulVec, hP, one_mulVec]
  have hentry := congrFun hsolve (.inl s)
  rw [mulVec, dotProduct, Fintype.sum_sum_type, hu] at hentry
  simp only [Sum.elim_inl, Sum.elim_inr, Pi.zero_apply, mul_zero, sum_const_zero, add_zero]
    at hentry
  rw [one_apply, ← hentry]
  rfl

/-- If the comoments of the columns have a kernel, it relates the residuals. -/
theorem sum_residuals_eq_zero (h : ∀ t, IsResidual w (x t) (r t)) {u : T ⊕ W → ℝ}
    (hu : comoments univ (Sum.elim x w) *ᵥ u = 0) : ∑ s, u (.inl s) • r s = 0 := by
  choose β hβ using fun t ↦ (h t).exists_coeff
  obtain ⟨m, hm⟩ : ∃ m : ℝ, ∑ j, u j • Sum.elim x w j = fun _ ↦ m :=
    ⟨_, funext fun i ↦ sub_eq_zero.mp (comoments_mulVec_eq_zero_iff.mp hu i (mem_univ i))⟩
  have hcombination : ∑ s, u (.inl s) • r s =
      ∑ j, (j.elim m (fun k ↦ -u (.inr k)) - ∑ s, u (.inl s) * β s j) • withConst w j := by
    have hx : ∑ j : Option W, j.elim m (fun k ↦ -u (.inr k)) • withConst w j =
        ∑ s, u (.inl s) • x s := by
      rw [sum_withConst]
      simp only [Option.elim_none, Option.elim_some, neg_smul, sum_neg_distrib]
      rw [← hm, sum_columns, add_neg_cancel_right]
    have hexplained : ∑ j, (∑ s, u (.inl s) * β s j) • withConst w j =
        ∑ s, u (.inl s) • ∑ j, β s j • withConst w j := by
      simp only [sum_smul, smul_sum, mul_smul]
      exact sum_comm
    simp only [sub_smul, sum_sub_distrib]
    rw [hx, hexplained, ← sum_sub_distrib]
    refine sum_congr rfl fun s _ ↦ ?_
    rw [← smul_sub, eq_sub_of_add_eq' (hβ s).symm]
  refine IsResidual.eq_zero_of_orthogonal hcombination fun j ↦ ?_
  rw [dotProduct_sum]
  exact sum_eq_zero fun s _ ↦ by rw [dotProduct_smul, (h s).orthogonal, smul_zero]

end Precision

/-! ## Independence -/

section Independence

variable [Fintype ι] [Fintype J] {c : J → ι → ℝ}

theorem linearIndependent_withConst_iff [Nonempty ι] : LinearIndependent ℝ (withConst c) ↔
    ∀ u : J → ℝ, comoments univ c *ᵥ u = 0 → u = 0 := by
  rw [Fintype.linearIndependent_iff]
  constructor
  · intro h u hu
    rw [comoments_mulVec_eq_zero_iff] at hu
    obtain ⟨m, hm⟩ : ∃ m : ℝ, ∑ j, u j • c j = fun _ ↦ m :=
      ⟨_, funext fun i ↦ sub_eq_zero.mp (hu i (mem_univ i))⟩
    have hzero : ∑ j : Option J, j.elim (-m) u • withConst c j = 0 := by
      rw [sum_withConst]
      simp only [Option.elim_none, Option.elim_some]
      rw [hm]
      exact funext fun _ ↦ neg_add_cancel m
    exact funext fun j ↦ h _ hzero (some j)
  · intro h g hg
    rw [sum_withConst] at hg
    have hconst : ∑ j, g (some j) • c j = fun _ ↦ -g none := eq_neg_of_add_eq_zero_right hg
    have hzero := h (fun j ↦ g (some j)) (comoments_mulVec_eq_zero_iff.mpr fun i hi ↦ by
      rw [hconst]
      exact center_eq_zero hi fun _ _ ↦ rfl)
    have hsome : ∀ j, g (some j) = 0 := congrFun hzero
    rintro (_ | j)
    · simp only [hsome, zero_smul, sum_const_zero, add_zero] at hg
      exact congrFun hg (Classical.arbitrary ι)
    · exact hsome j

theorem isUnit_comoments [Nonempty ι] [DecidableEq J] (h : LinearIndependent ℝ (withConst c)) :
    IsUnit (comoments univ c) := by
  refine mulVec_injective_iff_isUnit.mp fun u u' huu' ↦ sub_eq_zero.mp ?_
  exact linearIndependent_withConst_iff.mp h _ (by rw [mulVec_sub, sub_eq_zero]; exact huu')

/-- A constant alone is independent, and leaves the deviations from the mean. -/
theorem linearIndependent_withConst_of_isEmpty [Nonempty ι] [IsEmpty J] :
    LinearIndependent ℝ (withConst c) :=
  linearIndependent_withConst_iff.mpr fun _ _ ↦ funext isEmptyElim

theorem residual_of_isEmpty [IsEmpty J] (v : ι → ℝ) : residual c v = center univ v := by
  refine (isResidual_residual c v).unique ⟨⟨fun _ ↦ mean univ v, ?_⟩, ?_⟩
  · rw [sum_withConst, sum_of_isEmpty, add_zero]
    exact funext fun i ↦ (add_sub_cancel _ _).symm
  · rintro (_ | j)
    · exact (sum_congr rfl fun i _ ↦ one_mul _).trans sum_center
    · exact isEmptyElim j

end Independence

/-! ## Singular comoments -/

section Singular

variable [Fintype ι] [Fintype J] {c : J → ι → ℝ} {P : Matrix J J ℝ} {z : J → ℝ}

theorem dotProduct_precision (hP : IsMoorePenrose (comoments univ c) P) :
    z ⬝ᵥ P *ᵥ z = (P *ᵥ z) ⬝ᵥ comoments univ c *ᵥ (P *ᵥ z) := by
  have hsymm : z ᵥ* P = P *ᵥ z := by rw [← mulVec_transpose, (hP.isSymm isSymm_comoments).eq]
  calc z ⬝ᵥ P *ᵥ z = z ⬝ᵥ P *ᵥ (comoments univ c *ᵥ (P *ᵥ z)) := by
        rw [mulVec_mulVec, mulVec_mulVec, hP.mul_mul']
    _ = (P *ᵥ z) ⬝ᵥ comoments univ c *ᵥ (P *ᵥ z) := by rw [dotProduct_mulVec, hsymm]

theorem dotProduct_precision_nonneg (hP : IsMoorePenrose (comoments univ c) P) :
    0 ≤ z ⬝ᵥ P *ᵥ z := by
  rw [dotProduct_precision hP, dotProduct_comoments]
  exact sum_nonneg fun _ _ ↦ sq_nonneg _

/-- Where the form of the inverse vanishes, the comoments do. -/
theorem mulVec_eq_zero_of_precision (hP : IsMoorePenrose (comoments univ c) P)
    (hz : z ⬝ᵥ P *ᵥ z = 0) : comoments univ c *ᵥ z = 0 := by
  rw [dotProduct_precision hP] at hz
  have hzero : comoments univ c *ᵥ (P *ᵥ z) = 0 :=
    comoments_mulVec_eq_zero_iff.mpr (center_eq_zero_of_dotProduct hz)
  calc comoments univ c *ᵥ z = comoments univ c *ᵥ (P *ᵥ (comoments univ c *ᵥ z)) := by
        rw [mulVec_mulVec, mulVec_mulVec, hP.mul_mul]
    _ = comoments univ c *ᵥ (comoments univ c *ᵥ (P *ᵥ z)) := by
        rw [mulVec_mulVec z P, hP.mul_comm isSymm_comoments, ← mulVec_mulVec]
    _ = 0 := by rw [hzero, mulVec_zero]

end Singular

/-! ## Two families -/

section Pair

/-- The coefficient from the inverse of two by two comoments. -/
theorem coefficient_of_inverse {a b c p q q' s : ℝ} (ha : 0 < a) (hc : 0 < c)
    (hbc : b ^ 2 ≤ a * c) (h₀₀ : p * a + q * b = 1) (h₀₁ : p * b + q * c = 0)
    (h₁₀ : q' * a + s * b = 0) (h₁₁ : q' * b + s * c = 1) :
    0 < p * s ∧ -q / √(p * s) = b / √(a * c) := by
  have hp : p * (a * c - b ^ 2) = c := by linear_combination c * h₀₀ - b * h₀₁
  have hs : s * (a * c - b ^ 2) = a := by linear_combination a * h₁₁ - b * h₁₀
  have hq : q * (a * c - b ^ 2) = -b := by linear_combination a * h₀₁ - b * h₀₀
  have hdet : 0 < a * c - b ^ 2 := by
    refine lt_of_le_of_ne (sub_nonneg.mpr hbc) fun h ↦ hc.ne ?_
    rw [← hp, ← h, mul_zero]
  have hps : p * s = a * c / (a * c - b ^ 2) ^ 2 := by
    rw [eq_div_iff (pow_pos hdet 2).ne']
    linear_combination a * hp + p * (a * c - b ^ 2) * hs
  have hq' : -q = b / (a * c - b ^ 2) := by
    rw [eq_div_iff hdet.ne']
    linear_combination -hq
  have hac : 0 < a * c := mul_pos ha hc
  refine ⟨hps ▸ div_pos hac (pow_pos hdet 2), ?_⟩
  rw [hps, hq', Real.sqrt_div hac.le, Real.sqrt_sq hdet.le, div_div_div_cancel_right₀ hdet.ne']

/-- A coefficient of size one, for singular comoments. -/
theorem sq_eq_of_coefficient {a b c p q s : ℝ} (hac : 0 < a * c) (hbc : b ^ 2 = a * c)
    (hps : 0 < p * s) (heq : -q / √(p * s) = b / √(a * c)) : q ^ 2 = p * s := by
  have hsq : (-q / √(p * s)) ^ 2 = (b / √(a * c)) ^ 2 := by rw [heq]
  rw [div_pow, div_pow, Real.sq_sqrt hps.le, Real.sq_sqrt hac.le, hbc, div_self hac.ne',
    div_eq_one_iff_eq hps.ne', neg_sq] at hsq
  exact hsq

/-- The sign of the inverse is the wrong one if the inverse relates the residuals. -/
theorem false_of_related {a b c p q s : ℝ} (ha : 0 < a) (hac : 0 < a * c) (hbc : b ^ 2 = a * c)
    (hs : 0 ≤ s) (hps : 0 < p * s) (heq : -q / √(p * s) = b / √(a * c))
    (hrelated : s * a = q * b) : False := by
  rw [div_eq_div_iff (Real.sqrt_pos.mpr hps).ne' (Real.sqrt_pos.mpr hac).ne'] at heq
  have hpos : 0 < b ^ 2 * √(p * s) := mul_pos (hbc ▸ hac) (Real.sqrt_pos.mpr hps)
  have hneg : b ^ 2 * √(p * s) = -(s * a * √(a * c)) := by
    rw [hrelated]
    linear_combination -b * heq
  have hnonneg : 0 ≤ s * a * √(a * c) := mul_nonneg (mul_nonneg hs ha.le) (Real.sqrt_nonneg _)
  linarith

variable [Fintype ι] [Fintype W] {x r : Fin 2 → ι → ℝ} {w : W → ι → ℝ}
  {P : Matrix (Fin 2 ⊕ W) (Fin 2 ⊕ W) ℝ}

omit [Fintype ι] in
/-- The form of the inverse on the explained families. -/
theorem dotProduct_elim (q : Fin 2 → ℝ) :
    (Sum.elim q 0 : Fin 2 ⊕ W → ℝ) ⬝ᵥ P *ᵥ Sum.elim q 0 =
      q 0 * (P (.inl 0) (.inl 0) * q 0 + P (.inl 0) (.inl 1) * q 1) +
        q 1 * (P (.inl 1) (.inl 0) * q 0 + P (.inl 1) (.inl 1) * q 1) := by
  simp only [dotProduct, mulVec, Fintype.sum_sum_type, Fin.sum_univ_two, Sum.elim_inl,
    Sum.elim_inr, Pi.zero_apply, zero_mul, mul_zero, sum_const_zero, add_zero]

theorem dotProduct_self_pos {v : ι → ℝ} (h : v ≠ 0) : 0 < v ⬝ᵥ v :=
  lt_of_le_of_ne (sum_nonneg fun _ _ ↦ mul_self_nonneg _)
    (Ne.symm (mt dotProduct_self_eq_zero.mp h))

theorem dotProduct_sq_le (v v' : ι → ℝ) : (v ⬝ᵥ v') ^ 2 ≤ (v ⬝ᵥ v) * (v' ⬝ᵥ v') := by
  have h := sum_mul_sq_le_sq_mul_sq univ v v'
  simp only [sq (v _), sq (v' _)] at h
  exact h

/-- If the columns are not independent, but those that explain are, the residuals are related. -/
theorem exists_related (h : ∀ t, IsResidual w (x t) (r t))
    (hw : LinearIndependent ℝ (withConst w)) [Nonempty ι]
    (hdependent : ¬ LinearIndependent ℝ (withConst (Sum.elim x w))) :
    ∃ q : Fin 2 → ℝ, (q 0 ≠ 0 ∨ q 1 ≠ 0) ∧ q 0 • r 0 + q 1 • r 1 = 0 := by
  rw [linearIndependent_withConst_iff] at hdependent
  push Not at hdependent
  obtain ⟨u, hu, hne⟩ := hdependent
  refine ⟨fun s ↦ u (.inl s), ?_, ?_⟩
  · by_contra hzero
    push Not at hzero
    have hexplained : ∀ s, u (.inl s) = 0 := Fin.forall_fin_two.mpr hzero
    have hcolumns : ∑ j, u j • Sum.elim x w j = ∑ k, u (.inr k) • w k := by
      rw [sum_columns]
      simp only [hexplained, zero_smul, sum_const_zero, zero_add]
    have hinr : (fun k ↦ u (.inr k)) = 0 := by
      refine linearIndependent_withConst_iff.mp hw _ (comoments_mulVec_eq_zero_iff.mpr ?_)
      rw [← hcolumns]
      exact comoments_mulVec_eq_zero_iff.mp hu
    refine hne (funext fun j ↦ ?_)
    cases j with
    | inl s => exact hexplained s
    | inr k => exact congrFun hinr k
  · rw [← sum_residuals_eq_zero h hu, Fin.sum_univ_two]

/-- Related residuals have comoments of size one. -/
theorem dotProduct_sq_eq {v v' : ι → ℝ} {q : Fin 2 → ℝ} (hq : q 0 ≠ 0 ∨ q 1 ≠ 0)
    (h : q 0 • v + q 1 • v' = 0) : (v ⬝ᵥ v') ^ 2 = (v ⬝ᵥ v) * (v' ⬝ᵥ v') := by
  have hdot : ∀ z : ι → ℝ, q 0 * (z ⬝ᵥ v) + q 1 * (z ⬝ᵥ v') = 0 := by
    intro z
    have hz := congrArg (z ⬝ᵥ ·) h
    simpa only [dotProduct_add, dotProduct_smul, smul_eq_mul, dotProduct_zero] using hz
  have h₀ := hdot v
  have h₁ := hdot v'
  rw [dotProduct_comm v' v] at h₁
  rcases hq with hq | hq
  · refine mul_left_cancel₀ hq ?_
    linear_combination (v ⬝ᵥ v') * h₁ - (v' ⬝ᵥ v') * h₀
  · refine mul_left_cancel₀ hq ?_
    linear_combination (v ⬝ᵥ v') * h₀ - (v ⬝ᵥ v) * h₁

/-- Where the block of the inverse is singular, its own entries relate the residuals. -/
theorem residuals_related (h : ∀ t, IsResidual w (x t) (r t))
    (hP : IsMoorePenrose (comoments univ (Sum.elim x w)) P)
    (hsq : P (.inl 0) (.inl 1) ^ 2 = P (.inl 0) (.inl 0) * P (.inl 1) (.inl 1)) :
    P (.inl 1) (.inl 1) • r 0 - P (.inl 0) (.inl 1) • r 1 = 0 := by
  have hsymm : P (.inl 1) (.inl 0) = P (.inl 0) (.inl 1) :=
    (hP.isSymm isSymm_comoments).apply _ _
  have hform : (Sum.elim ![P (.inl 1) (.inl 1), -P (.inl 0) (.inl 1)] 0 : Fin 2 ⊕ W → ℝ) ⬝ᵥ
      P *ᵥ Sum.elim ![P (.inl 1) (.inl 1), -P (.inl 0) (.inl 1)] 0 = 0 := by
    rw [dotProduct_elim, hsymm]
    simp only [cons_val_zero, cons_val_one]
    linear_combination -P (.inl 1) (.inl 1) * hsq
  have hresiduals := sum_residuals_eq_zero h (mulVec_eq_zero_of_precision hP hform)
  simp only [Fin.sum_univ_two, Sum.elim_inl, cons_val_zero, cons_val_one, neg_smul] at hresiduals
  rw [sub_eq_add_neg]
  exact hresiduals

theorem precision_nonneg (hP : IsMoorePenrose (comoments univ (Sum.elim x w)) P) :
    0 ≤ P (.inl 1) (.inl 1) := by
  have hform := dotProduct_precision_nonneg (z := Sum.elim ![0, 1] 0) hP
  rw [dotProduct_elim] at hform
  simpa only [cons_val_zero, cons_val_one, zero_mul, mul_zero, zero_add, one_mul, mul_one]
    using hform

theorem pearson_residuals (h : ∀ t, IsResidual w (x t) (r t)) :
    pearson univ (r 0) (r 1) = (r 0 ⬝ᵥ r 1) / √((r 0 ⬝ᵥ r 0) * (r 1 ⬝ᵥ r 1)) := by
  rw [pearson, comoment_of_sum_eq_zero (h 0).sum_eq_zero (h 1).sum_eq_zero,
    comoment_of_sum_eq_zero (h 0).sum_eq_zero (h 0).sum_eq_zero,
    comoment_of_sum_eq_zero (h 1).sum_eq_zero (h 1).sum_eq_zero]
  rfl

/-- The precision has the correlation of the residuals, up to sign, if and only if the columns and
the constant are independent. -/
theorem partial_iff (h : ∀ t, IsResidual w (x t) (r t)) (hw : LinearIndependent ℝ (withConst w))
    (h₀ : r 0 ≠ 0) (h₁ : r 1 ≠ 0) (hP : IsMoorePenrose (comoments univ (Sum.elim x w)) P) :
    (0 < P (.inl 0) (.inl 0) * P (.inl 1) (.inl 1) ∧
        -P (.inl 0) (.inl 1) / √(P (.inl 0) (.inl 0) * P (.inl 1) (.inl 1)) =
          pearson univ (r 0) (r 1)) ↔
      LinearIndependent ℝ (withConst (Sum.elim x w)) := by
  classical
  have : Nonempty ι := by
    obtain ⟨i, -⟩ := Function.ne_iff.mp h₀
    exact ⟨i⟩
  have ha := dotProduct_self_pos h₀
  have hc := dotProduct_self_pos h₁
  rw [pearson_residuals h]
  constructor
  · rintro ⟨hps, heq⟩
    by_contra hdependent
    obtain ⟨q, hq, hrelated⟩ := exists_related h hw hdependent
    have hbc := dotProduct_sq_eq hq hrelated
    have hsq := sq_eq_of_coefficient (mul_pos ha hc) hbc hps heq
    have hdot := congrArg (r 0 ⬝ᵥ ·) (residuals_related h hP hsq)
    simp only [dotProduct_sub, dotProduct_smul, smul_eq_mul, dotProduct_zero] at hdot
    exact false_of_related ha (mul_pos ha hc) hbc (precision_nonneg hP) hps heq
      (sub_eq_zero.mp hdot)
  · intro hindependent
    have hinv := hP.mul_eq_one (isUnit_comoments hindependent)
    have hentry : ∀ s t,
        P (.inl s) (.inl 0) * (r 0 ⬝ᵥ r t) + P (.inl s) (.inl 1) * (r 1 ⬝ᵥ r t) =
          (1 : Matrix (Fin 2) (Fin 2) ℝ) s t := by
      intro s t
      rw [← precision_mul_residuals h hinv, mul_apply, Fin.sum_univ_two]
      rfl
    have hcomm : r 1 ⬝ᵥ r 0 = r 0 ⬝ᵥ r 1 := dotProduct_comm _ _
    refine coefficient_of_inverse ha hc (dotProduct_sq_le _ _) ?_ (hentry 0 1) ?_ (hentry 1 1)
    · exact hcomm ▸ hentry 0 0
    · exact hcomm ▸ hentry 1 0

end Pair

end PeripheralBench.Statistics

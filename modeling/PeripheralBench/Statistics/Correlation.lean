import Mathlib.Algebra.BigOperators.Field
import Mathlib.Algebra.BigOperators.Ring.Finset
import Mathlib.Algebra.Order.BigOperators.Ring.Finset
import Mathlib.Analysis.Real.Sqrt
import Mathlib.Tactic

/-!
# Correlation and ranks

Pearson's coefficient of two families of real numbers over a finite set, and the average ranks that
make Spearman's coefficient of it.  The coefficient can be had from six sums
(`coefficient_moments`), and it does not change when a family is multiplied by a positive number
(`pearson_mul`).
-/

open Finset

namespace PeripheralBench.Statistics

noncomputable section

variable {α : Type*} (s : Finset α) (x y : α → ℝ)

/-! ## Moments -/

def mean : ℝ := (∑ i ∈ s, x i) / s.card

/-- The deviation from the mean. -/
def center (i : α) : ℝ := x i - mean s x

/-- The sum of the products of the deviations. -/
def comoment : ℝ := ∑ i ∈ s, center s x i * center s y i

/-- Pearson's coefficient. -/
def pearson : ℝ := comoment s x y / √(comoment s x x * comoment s y y)

/-- The six sums. -/
@[ext] structure Moments where
  n : ℝ
  sumX : ℝ
  sumY : ℝ
  sumXX : ℝ
  sumYY : ℝ
  sumXY : ℝ

def moments : Moments where
  n := s.card
  sumX := ∑ i ∈ s, x i
  sumY := ∑ i ∈ s, y i
  sumXX := ∑ i ∈ s, x i * x i
  sumYY := ∑ i ∈ s, y i * y i
  sumXY := ∑ i ∈ s, x i * y i

/-- The coefficient from the sums. -/
def Moments.coefficient (m : Moments) : ℝ :=
  (m.sumXY - m.sumX * m.sumY / m.n) /
    √((m.sumXX - m.sumX ^ 2 / m.n) * (m.sumYY - m.sumY ^ 2 / m.n))

variable {s x y}

theorem mean_congr {x' : α → ℝ} (h : ∀ i ∈ s, x i = x' i) : mean s x = mean s x' := by
  rw [mean, mean, sum_congr rfl h]

theorem sum_center : ∑ i ∈ s, center s x i = 0 := by
  by_cases hs : s.card = 0
  · rw [card_eq_zero.mp hs, sum_empty]
  · simp only [center, sum_sub_distrib, sum_const, nsmul_eq_mul]
    rw [mean, mul_div_cancel₀ _ (Nat.cast_ne_zero.mpr hs), sub_self]

theorem center_of_sum_eq_zero (h : ∑ i ∈ s, x i = 0) (i : α) : center s x i = x i := by
  rw [center, mean, h, zero_div, sub_zero]

theorem center_congr {x' : α → ℝ} {i : α} (h : ∀ i ∈ s, x i = x' i) (hi : i ∈ s) :
    center s x i = center s x' i := by
  rw [center, center, mean_congr h, h i hi]

theorem center_mul (a : ℝ) (i : α) : center s (fun i ↦ a * x i) i = a * center s x i := by
  rw [center, center, mean, mean, ← mul_sum, mul_div_assoc, mul_sub]

/-- Where all values are the same, they do not deviate. -/
theorem center_eq_zero {i : α} (hi : i ∈ s) (h : ∀ j ∈ s, x j = x i) : center s x i = 0 := by
  have hs : (s.card : ℝ) ≠ 0 := Nat.cast_ne_zero.mpr (card_ne_zero_of_mem hi)
  rw [center, mean, sum_congr rfl h, sum_const, nsmul_eq_mul, mul_div_cancel_left₀ _ hs, sub_self]

theorem comoment_eq :
    comoment s x y = ∑ i ∈ s, x i * y i - (∑ i ∈ s, x i) * (∑ i ∈ s, y i) / s.card := by
  calc comoment s x y
      = ∑ i ∈ s, (center s x i * y i - center s x i * mean s y) :=
        sum_congr rfl fun i _ ↦ mul_sub _ _ _
    _ = ∑ i ∈ s, center s x i * y i := by
        rw [sum_sub_distrib, ← sum_mul, sum_center, zero_mul, sub_zero]
    _ = ∑ i ∈ s, (x i * y i - mean s x * y i) := sum_congr rfl fun i _ ↦ sub_mul _ _ _
    _ = ∑ i ∈ s, x i * y i - (∑ i ∈ s, x i) * (∑ i ∈ s, y i) / s.card := by
        rw [sum_sub_distrib, ← mul_sum, mean, div_mul_eq_mul_div]

theorem comoment_of_sum_eq_zero (hx : ∑ i ∈ s, x i = 0) (hy : ∑ i ∈ s, y i = 0) :
    comoment s x y = ∑ i ∈ s, x i * y i :=
  sum_congr rfl fun i _ ↦ by rw [center_of_sum_eq_zero hx, center_of_sum_eq_zero hy]

theorem coefficient_moments : (moments s x y).coefficient = pearson s x y := by
  rw [pearson, comoment_eq, comoment_eq, comoment_eq, ← sq, ← sq]
  rfl

theorem comoment_mul (a b : ℝ) :
    comoment s (fun i ↦ a * x i) (fun i ↦ b * y i) = a * b * comoment s x y := by
  rw [comoment, comoment, mul_sum]
  refine sum_congr rfl fun i _ ↦ ?_
  rw [center_mul, center_mul, mul_mul_mul_comm]

/-- The coefficient does not depend on the scale. -/
theorem pearson_mul {a b : ℝ} (ha : 0 < a) (hb : 0 < b) :
    pearson s (fun i ↦ a * x i) (fun i ↦ b * y i) = pearson s x y := by
  have hab : 0 < a * b := mul_pos ha hb
  have hsqrt : √(a * a * comoment s x x * (b * b * comoment s y y)) =
      a * b * √(comoment s x x * comoment s y y) := by
    rw [mul_mul_mul_comm, mul_mul_mul_comm a a b b, ← sq, Real.sqrt_mul (sq_nonneg _),
      Real.sqrt_sq hab.le]
  rw [pearson, comoment_mul, comoment_mul, comoment_mul, hsqrt, mul_div_mul_left _ _ hab.ne']
  rfl

/-! ## Ranks -/

variable (s x) in
/-- The rank among the members of `s`, where equal values share the mean of their ranks. -/
def rank (i : α) : ℝ := #{j ∈ s | x j < x i} + (#{j ∈ s | x j = x i} + 1) / 2

variable (s x y) in
/-- Spearman's coefficient. -/
def spearman : ℝ := pearson s (rank s x) (rank s y)

variable {i j : α}

theorem rank_congr {x' : α → ℝ} (h : ∀ i ∈ s, x i = x' i) (hi : i ∈ s) :
    rank s x i = rank s x' i := by
  have hlt : {j ∈ s | x j < x i} = {j ∈ s | x' j < x' i} :=
    filter_congr fun j hj ↦ by rw [h j hj, h i hi]
  have heq : {j ∈ s | x j = x i} = {j ∈ s | x' j = x' i} :=
    filter_congr fun j hj ↦ by rw [h j hj, h i hi]
  rw [rank, rank, hlt, heq]

theorem rank_eq_of_eq (h : x i = x j) : rank s x i = rank s x j := by rw [rank, rank, h]

theorem card_lt_add_card_eq (c : ℝ) :
    #{j ∈ s | x j < c} + #{j ∈ s | x j = c} = #{j ∈ s | x j ≤ c} := by
  classical
  rw [← card_union_of_disjoint (disjoint_filter.mpr fun j _ hlt heq ↦ hlt.ne heq), ← filter_or]
  exact congrArg card (filter_congr fun j _ ↦ le_iff_lt_or_eq.symm)

theorem rank_lt_rank (hj : j ∈ s) (h : x j < x i) : rank s x j < rank s x i := by
  have hbelow : #{k ∈ s | x k < x j} + #{k ∈ s | x k = x j} ≤ #{k ∈ s | x k < x i} := by
    rw [card_lt_add_card_eq]
    exact card_le_card (monotone_filter_right s fun k _ hk ↦ lt_of_le_of_lt hk h)
  have hlevel : 1 ≤ #{k ∈ s | x k = x j} := card_pos.mpr ⟨j, mem_filter.mpr ⟨hj, rfl⟩⟩
  have hbelow' : (#{k ∈ s | x k < x j} + #{k ∈ s | x k = x j} : ℝ) ≤ #{k ∈ s | x k < x i} := by
    exact_mod_cast hbelow
  have hlevel' : (1 : ℝ) ≤ #{k ∈ s | x k = x j} := by exact_mod_cast hlevel
  have hnonneg : (0 : ℝ) ≤ #{k ∈ s | x k = x i} := Nat.cast_nonneg _
  rw [rank, rank]
  linarith

/-- From the other end. -/
theorem rank_neg (i : α) : rank s (fun i ↦ -x i) i = s.card + 1 - rank s x i := by
  have hcard : (#{j ∈ s | x j < x i} + #{j ∈ s | x j = x i} + #{j ∈ s | x i < x j} : ℝ) =
      s.card := by
    have habove := card_filter_add_card_filter_not (s := s) fun j ↦ x j ≤ x i
    rw [← card_lt_add_card_eq] at habove
    simp only [not_le] at habove
    exact_mod_cast habove
  simp only [rank, neg_lt_neg_iff, neg_inj]
  linarith

theorem center_rank_neg (hs : s.Nonempty) (i : α) :
    center s (rank s fun i ↦ -x i) i = -center s (rank s x) i := by
  have hmean : mean s (rank s fun i ↦ -x i) = s.card + 1 - mean s (rank s x) := by
    have hcard : (s.card : ℝ) ≠ 0 := Nat.cast_ne_zero.mpr (card_ne_zero.mpr hs)
    simp only [mean, rank_neg, sum_sub_distrib, sum_const, nsmul_eq_mul]
    rw [sub_div, mul_div_cancel_left₀ _ hcard]
  rw [center, center, hmean, rank_neg]
  ring

end

end PeripheralBench.Statistics

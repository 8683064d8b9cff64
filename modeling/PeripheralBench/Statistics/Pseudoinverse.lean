import Mathlib.Analysis.Matrix.Spectrum
import Mathlib.Tactic

/-!
# The Moore–Penrose inverse

The inverse that a square matrix of real numbers has even if it is singular, by its four equations.
There is at most one (`IsMoorePenrose.unique`), and a symmetric matrix has one
(`exists_isMoorePenrose`): the inverse of the spectrum, with zero for zero.
-/

open Matrix

namespace PeripheralBench.Statistics

variable {n : Type*} [Fintype n] {A P Q : Matrix n n ℝ}

structure IsMoorePenrose (A P : Matrix n n ℝ) : Prop where
  mul_mul : A * P * A = A
  mul_mul' : P * A * P = P
  isSymm_mul : (A * P).IsSymm
  isSymm_mul' : (P * A).IsSymm

namespace IsMoorePenrose

theorem transpose (h : IsMoorePenrose A P) : IsMoorePenrose Aᵀ Pᵀ where
  mul_mul := by rw [← transpose_mul, ← transpose_mul, ← mul_assoc, h.mul_mul]
  mul_mul' := by rw [← transpose_mul, ← transpose_mul, ← mul_assoc, h.mul_mul']
  isSymm_mul := by
    rw [← transpose_mul]
    exact h.isSymm_mul'.transpose
  isSymm_mul' := by
    rw [← transpose_mul]
    exact h.isSymm_mul.transpose

/-- The product from the left does not depend on the inverse. -/
theorem mul_eq_mul (hP : IsMoorePenrose A P) (hQ : IsMoorePenrose A Q) : A * P = A * Q := by
  calc A * P = A * Q * (A * P) := by rw [← mul_assoc, hQ.mul_mul]
    _ = (A * P * (A * Q))ᵀ := by rw [transpose_mul, hP.isSymm_mul.eq, hQ.isSymm_mul.eq]
    _ = (A * Q)ᵀ := by rw [← mul_assoc, hP.mul_mul]
    _ = A * Q := hQ.isSymm_mul.eq

theorem mul_eq_mul' (hP : IsMoorePenrose A P) (hQ : IsMoorePenrose A Q) : P * A = Q * A := by
  have h := hP.transpose.mul_eq_mul hQ.transpose
  rw [← transpose_mul, ← transpose_mul] at h
  exact transpose_injective h

theorem unique (hP : IsMoorePenrose A P) (hQ : IsMoorePenrose A Q) : P = Q := by
  rw [← hP.mul_mul', ← hQ.mul_mul', hP.mul_eq_mul' hQ, mul_assoc, mul_assoc, hP.mul_eq_mul hQ]

theorem isSymm (hA : A.IsSymm) (h : IsMoorePenrose A P) : P.IsSymm :=
  IsMoorePenrose.unique (hA ▸ h.transpose) h

theorem mul_comm (hA : A.IsSymm) (h : IsMoorePenrose A P) : P * A = A * P := by
  rw [← h.isSymm_mul'.eq, transpose_mul, hA.eq, (h.isSymm hA).eq]

/-- The inverse, if there is one. -/
theorem mul_eq_one [DecidableEq n] (h : IsMoorePenrose A P) (hA : IsUnit A) : P * A = 1 := by
  have hmul : A * (P * A) = A * 1 := by rw [← mul_assoc, h.mul_mul, mul_one]
  exact hA.mul_left_cancel hmul

end IsMoorePenrose

theorem exists_isMoorePenrose [DecidableEq n] (hA : A.IsSymm) : ∃ P, IsMoorePenrose A P := by
  have hermitian : A.IsHermitian := by
    rw [IsHermitian, conjTranspose_eq_transpose_of_trivial]
    exact hA
  obtain ⟨φ, d, rfl⟩ : ∃ (φ : Matrix n n ℝ ≃⋆ₐ[ℝ] Matrix n n ℝ) (d : n → ℝ),
      A = φ (diagonal d) := ⟨_, _, hermitian.spectral_theorem⟩
  have hsymm : ∀ e : n → ℝ, (φ (diagonal e)).IsSymm := by
    intro e
    have hstar : star (φ (diagonal e)) = φ (diagonal e) := by
      rw [← map_star, star_eq_conjTranspose, diagonal_conjTranspose, star_trivial]
    rwa [star_eq_conjTranspose, conjTranspose_eq_transpose_of_trivial] at hstar
  have hmul : ∀ e f : n → ℝ,
      φ (diagonal e) * φ (diagonal f) = φ (diagonal fun i ↦ e i * f i) := by
    intro e f
    rw [← map_mul, diagonal_mul_diagonal]
  -- zero for zero
  refine ⟨φ (diagonal fun i ↦ (d i)⁻¹), ?_, ?_, ?_, ?_⟩
  · rw [hmul, hmul]
    exact congrArg φ (congrArg diagonal (funext fun i ↦ mul_inv_mul_cancel (d i)))
  · rw [hmul, hmul]
    refine congrArg φ (congrArg diagonal (funext fun i ↦ ?_))
    have hinv := mul_inv_mul_cancel (d i)⁻¹
    rwa [inv_inv] at hinv
  · rw [hmul]
    exact hsymm _
  · rw [hmul]
    exact hsymm _

/-- The Moore–Penrose inverse. -/
noncomputable def pinv (A : Matrix n n ℝ) : Matrix n n ℝ := Classical.epsilon (IsMoorePenrose A)

theorem isMoorePenrose_pinv [DecidableEq n] (hA : A.IsSymm) : IsMoorePenrose A (pinv A) :=
  Classical.epsilon_spec (exists_isMoorePenrose hA)

end PeripheralBench.Statistics

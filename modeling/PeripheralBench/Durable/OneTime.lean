import Mathlib.Data.Finset.Basic
import Mathlib.Logic.Function.Basic
import Mathlib.Tactic

/-!
# One-time keys that are not used twice

A stateful signer signs with the next of its one-time keys, and is another state afterwards.  A
`Ledger` lists the one-time keys that signatures have been given out for.  Signers are *held* in
places: in a file, or in the memory of a program.

`Ledger.Safe` is what has to be kept for no one-time key to be used twice: the signers in different
places have different keys, and each is ahead of everything its key has signed.  The lemmas are
about what may be done with a signer: it may be lost, made, moved on, or used.
-/

namespace PeripheralBench.Durable

/-- Signers with states `μ`, whose keys are `κ`, of different kinds `ι`. -/
structure Signer (κ μ ι : Type) where
  /-- The key of a signer. -/
  key : μ → κ
  /-- Its next one-time key. -/
  next : μ → ℕ
  /-- The signer made with the `n`th random numbers. -/
  make : ι → ℕ → μ
  /-- The signer after the next signature, if there is one. -/
  step : μ → Option μ

/-- A signer keeps its key and moves on, and keys are not made twice. -/
structure Signer.Lawful {κ μ ι : Type} (S : Signer κ μ ι) : Prop where
  key_step : ∀ {m m'}, S.step m = some m' → S.key m' = S.key m
  next_step : ∀ {m m'}, S.step m = some m' → S.next m < S.next m'
  key_make : ∀ {a b : ι} {i j : ℕ}, S.key (S.make a i) = S.key (S.make b j) → i = j

/-- How many keys have been made, and which one-time keys have been used. -/
structure Ledger (κ : Type) where
  made : ℕ
  used : List (κ × ℕ)

namespace Ledger

variable {κ μ ι ν : Type} {S : Signer κ μ ι} {l : Ledger κ} {held held' : ν → Set μ}

/-- A key that has been made. -/
def Made (S : Signer κ μ ι) (l : Ledger κ) (k : κ) : Prop :=
  ∃ a, ∃ j < l.made, k = S.key (S.make a j)

/-- No one-time key has been used twice, or can be with the signers that are held. -/
structure Safe (S : Signer κ μ ι) (l : Ledger κ) (held : ν → Set μ) : Prop where
  nodup : l.used.Nodup
  made_used : ∀ u ∈ l.used, l.Made S u.1
  made_held : ∀ i, ∀ m ∈ held i, l.Made S (S.key m)
  ahead : ∀ i, ∀ m ∈ held i, ∀ u ∈ l.used, u.1 = S.key m → u.2 < S.next m
  apart : ∀ {i j}, i ≠ j → ∀ m ∈ held i, ∀ m' ∈ held j, S.key m ≠ S.key m'

theorem Made.mono {l' : Ledger κ} (h : l.made ≤ l'.made) {k : κ} : l.Made S k → l'.Made S k :=
  fun ⟨a, j, hj, hk⟩ ↦ ⟨a, j, hj.trans_le h, hk⟩

/-- The next key has not been made. -/
theorem not_made (hS : S.Lawful) (a : ι) : ¬l.Made S (S.key (S.make a l.made)) := by
  rintro ⟨b, j, hj, hk⟩
  exact absurd (hS.key_make hk) hj.ne'

/-- Nothing is held, and nothing has been used. -/
theorem Safe.empty : Safe (ν := ν) S ⟨0, []⟩ fun _ ↦ ∅ where
  nodup := List.nodup_nil
  made_used _ hu := absurd hu List.not_mem_nil
  made_held _ _ hm := absurd hm (Set.notMem_empty _)
  ahead _ _ hm := absurd hm (Set.notMem_empty _)
  apart _ _ hm := absurd hm (Set.notMem_empty _)

namespace Safe

/-- Signers may be lost. -/
theorem mono (h : l.Safe S held) (hsub : ∀ i, held' i ⊆ held i) : l.Safe S held' where
  nodup := h.nodup
  made_used := h.made_used
  made_held i m hm := h.made_held i m (hsub i hm)
  ahead i m hm := h.ahead i m (hsub i hm)
  apart hij m hm m' hm' := h.apart hij m (hsub _ hm) m' (hsub _ hm')

/-- Random numbers may be used for something else. -/
theorem skip (h : l.Safe S held) : Safe S ⟨l.made + 1, l.used⟩ held where
  nodup := h.nodup
  made_used u hu := (h.made_used u hu).mono (Nat.le_succ _)
  made_held i m hm := (h.made_held i m hm).mono (Nat.le_succ _)
  ahead := h.ahead
  apart := h.apart

variable [DecidableEq ν]

/-- A signer is made, and held where another one may have been. -/
theorem make (h : l.Safe S held) (hS : S.Lawful) (i : ν) (a : ι) :
    Safe S ⟨l.made + 1, l.used⟩ (Function.update held i {S.make a l.made}) := by
  have hnew : ∀ j, ∀ m ∈ held j, S.key m ≠ S.key (S.make a l.made) :=
    fun j m hm hk ↦ not_made hS a (hk ▸ h.made_held j m hm)
  refine ⟨h.nodup, h.skip.made_used, fun j m hm ↦ ?_, fun j m hm u hu hk ↦ ?_,
    fun {j j'} hjj' m hm m' hm' ↦ ?_⟩
  · rcases eq_or_ne j i with rfl | hji
    · rw [Function.update_self] at hm
      exact ⟨a, l.made, Nat.lt_succ_self _, by rw [Set.mem_singleton_iff.mp hm]⟩
    · rw [Function.update_of_ne hji] at hm
      exact h.skip.made_held j m hm
  · rcases eq_or_ne j i with rfl | hji
    · rw [Function.update_self] at hm
      rw [Set.mem_singleton_iff.mp hm] at hk
      exact absurd (hk ▸ h.made_used u hu) (not_made hS a)
    · rw [Function.update_of_ne hji] at hm
      exact h.ahead j m hm u hu hk
  · rcases eq_or_ne j i with rfl | hji
    · rw [Function.update_self] at hm
      rw [Function.update_of_ne hjj'.symm] at hm'
      rw [Set.mem_singleton_iff.mp hm]
      exact (hnew j' m' hm').symm
    · rw [Function.update_of_ne hji] at hm
      rcases eq_or_ne j' i with rfl | hj'i
      · rw [Function.update_self] at hm'
        rw [Set.mem_singleton_iff.mp hm']
        exact hnew j m hm
      · rw [Function.update_of_ne hj'i] at hm'
        exact h.apart hjj' m hm m' hm'

/-- A signer may be moved on without signing anything. -/
theorem advance (h : l.Safe S held) (hS : S.Lawful) {i : ν} {m m' : μ} (hm : m ∈ held i)
    (hstep : S.step m = some m') : Safe S l (Function.update held i {m'}) := by
  have hkey := hS.key_step hstep
  refine ⟨h.nodup, h.made_used, fun j m₁ hm₁ ↦ ?_, fun j m₁ hm₁ u hu hk ↦ ?_,
    fun {j j'} hjj' m₁ hm₁ m₂ hm₂ ↦ ?_⟩
  · rcases eq_or_ne j i with rfl | hji
    · rw [Function.update_self] at hm₁
      rw [Set.mem_singleton_iff.mp hm₁, hkey]
      exact h.made_held j m hm
    · rw [Function.update_of_ne hji] at hm₁
      exact h.made_held j m₁ hm₁
  · rcases eq_or_ne j i with rfl | hji
    · rw [Function.update_self] at hm₁
      rw [Set.mem_singleton_iff.mp hm₁] at hk ⊢
      exact (h.ahead j m hm u hu (hk.trans hkey)).trans (hS.next_step hstep)
    · rw [Function.update_of_ne hji] at hm₁
      exact h.ahead j m₁ hm₁ u hu hk
  · rcases eq_or_ne j i with rfl | hji
    · rw [Function.update_self] at hm₁
      rw [Function.update_of_ne hjj'.symm] at hm₂
      rw [Set.mem_singleton_iff.mp hm₁, hkey]
      exact h.apart hjj' m hm m₂ hm₂
    · rw [Function.update_of_ne hji] at hm₁
      rcases eq_or_ne j' i with rfl | hj'i
      · rw [Function.update_self] at hm₂
        rw [Set.mem_singleton_iff.mp hm₂, hkey]
        exact h.apart hjj' m₁ hm₁ m hm
      · rw [Function.update_of_ne hj'i] at hm₂
        exact h.apart hjj' m₁ hm₁ m₂ hm₂

/-- A signer has been moved on, and the signature with the one-time key it had before is given
out. -/
theorem sign (h : l.Safe S held) (hS : S.Lawful) {i : ν} {m m' : μ} (hm : m ∈ held i)
    (hstep : S.step m = some m') :
    Safe S ⟨l.made, (S.key m, S.next m) :: l.used⟩ (Function.update held i {m'}) := by
  have hadv := h.advance hS hm hstep
  refine ⟨List.nodup_cons.mpr ⟨fun hmem ↦ ?_, h.nodup⟩, fun u hu ↦ ?_, hadv.made_held,
    fun j m₁ hm₁ u hu hk ↦ ?_, hadv.apart⟩
  · exact absurd (h.ahead i m hm _ hmem rfl) (lt_irrefl _)
  · rcases List.mem_cons.mp hu with rfl | hu
    · exact h.made_held i m hm
    · exact h.made_used u hu
  · rcases List.mem_cons.mp hu with rfl | hu
    · rcases eq_or_ne j i with rfl | hji
      · rw [Function.update_self] at hm₁
        rw [Set.mem_singleton_iff.mp hm₁]
        exact hS.next_step hstep
      · rw [Function.update_of_ne hji] at hm₁
        exact absurd hk.symm (h.apart hji m₁ hm₁ m hm)
    · exact hadv.ahead j m₁ hm₁ u hu hk

end Safe

end Ledger

end PeripheralBench.Durable

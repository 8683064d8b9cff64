import Mathlib.Data.Fintype.Defs
import Mathlib.Order.WellFounded
import Mathlib.Order.RelClasses
import Mathlib.Tactic

/-!
# The layers of a strict order

The minimal elements of a finite strict order are its first layer, those that are minimal among the
others the second, and so on.  An element is one layer above the highest layer of what is below it.
`IsLayering` says so of a ranking, and determines it; `IsPeeled` is what holds when the first layers
have been taken off.
-/

universe u

namespace PeripheralBench.Layers

variable {ι : Type u} (r : ι → ι → Prop)

/-! ## Layerings -/

/-- The layers are counted from one. -/
structure IsLayering (rank : ι → ℕ) : Prop where
  pos : ∀ i, 1 ≤ rank i
  lt : ∀ {i j}, r i j → rank i < rank j
  below : ∀ j, 1 < rank j → ∃ i, r i j ∧ rank i + 1 = rank j

namespace IsLayering

variable {r} {rank : ι → ℕ} {i j : ι}

/-- The first layer. -/
theorem eq_one_iff (h : IsLayering r rank) : rank j = 1 ↔ ∀ i, ¬ r i j := by
  constructor
  · intro hone i hij
    exact Nat.not_lt_of_le (h.pos i) (hone ▸ h.lt hij)
  · intro hnone
    by_contra hne
    obtain ⟨i, hij, -⟩ := h.below j (Nat.lt_of_le_of_ne (h.pos j) (Ne.symm hne))
    exact hnone i hij

/-- An element is as high as another if it is above the same elements. -/
theorem le_of_forall (h : IsLayering r rank) (hbelow : ∀ k, r k i → r k j) : rank i ≤ rank j := by
  by_contra hlt
  rw [not_le] at hlt
  obtain ⟨k, hki, hk⟩ := h.below i ((h.pos j).trans_lt hlt)
  rw [← hk] at hlt
  exact Nat.not_lt_of_le (Nat.le_of_lt_succ hlt) (h.lt (hbelow k hki))

theorem eq_of_forall (h : IsLayering r rank) (hbelow : ∀ k, r k i ↔ r k j) : rank i = rank j :=
  (h.le_of_forall fun k ↦ (hbelow k).mp).antisymm (h.le_of_forall fun k ↦ (hbelow k).mpr)

end IsLayering

/-! ## Taking layers off -/

/-- The minimal ones among the elements that remain. -/
def IsMinimal (remaining : ι → Prop) (i : ι) : Prop := remaining i ∧ ∀ j, remaining j → ¬ r j i

/-- The layers below `k` have been taken off. -/
structure IsPeeled (rank : ι → ℕ) (remaining : ι → Prop) (k : ℕ) : Prop where
  one_le : 1 ≤ k
  pos : ∀ i, ¬ remaining i → 1 ≤ rank i
  lt : ∀ i, ¬ remaining i → rank i < k
  closed : ∀ {i j}, r i j → ¬ remaining j → ¬ remaining i ∧ rank i < rank j
  below : ∀ j, ¬ remaining j → 1 < rank j → ∃ i, r i j ∧ rank i + 1 = rank j
  /-- What remains is above the last of these layers. -/
  above : ∀ j, remaining j → 1 < k → ∃ i, r i j ∧ ¬ remaining i ∧ rank i + 1 = k

variable {r} {rank rank' : ι → ℕ} {remaining remaining' : ι → Prop} {k : ℕ}

theorem isPeeled_start (hall : ∀ i, remaining i) : IsPeeled r rank remaining 1 where
  one_le := le_rfl
  pos i h := absurd (hall i) h
  lt i h := absurd (hall i) h
  closed {_ j} _ h := absurd (hall j) h
  below j h := absurd (hall j) h
  above _ _ h := absurd h (lt_irrefl 1)

theorem IsPeeled.isLayering (h : IsPeeled r rank remaining k) (hdone : ∀ i, ¬ remaining i) :
    IsLayering r rank where
  pos i := h.pos i (hdone i)
  lt {_ j} hij := (h.closed hij (hdone j)).2
  below j := h.below j (hdone j)

section

variable [Finite ι] [IsTrans ι r] [Std.Irrefl r]

/-- There is a minimal element below each element that remains. -/
theorem exists_isMinimal {j : ι} (hj : remaining j) :
    IsMinimal r remaining j ∨ ∃ i, IsMinimal r remaining i ∧ r i j := by
  by_cases hmin : IsMinimal r remaining j
  · exact .inl hmin
  have hbelow : {i | remaining i ∧ r i j}.Nonempty := by
    by_contra hempty
    exact hmin ⟨hj, fun i hi hij ↦ hempty ⟨i, hi, hij⟩⟩
  obtain ⟨i, ⟨hi, hij⟩, hleast⟩ := (Finite.wellFounded_of_trans_of_irrefl r).has_min _ hbelow
  refine .inr ⟨i, ⟨hi, fun l hl hli ↦ ?_⟩, hij⟩
  exact hleast l ⟨hl, IsTrans.trans l i j hli hij⟩ hli

/-- The minimal ones are the next layer. -/
theorem IsPeeled.next (h : IsPeeled r rank remaining k)
    (hremaining : ∀ i, remaining' i ↔ remaining i ∧ ¬ IsMinimal r remaining i)
    (hfront : ∀ i, IsMinimal r remaining i → rank' i = k)
    (hother : ∀ i, ¬ IsMinimal r remaining i → rank' i = rank i) :
    IsPeeled r rank' remaining' (k + 1) := by
  have hdone : ∀ i, ¬ remaining' i → IsMinimal r remaining i ∨ ¬ remaining i := by
    intro i hi
    rw [hremaining, not_and_or, not_not] at hi
    exact hi.symm
  have hkept : ∀ {i}, ¬ remaining i → rank' i = rank i := fun hi ↦ hother _ fun hmin ↦ hi hmin.1
  constructor
  · exact Nat.le_add_left 1 k
  · intro i hi
    rcases hdone i hi with hmin | hi
    · exact hfront i hmin ▸ h.one_le
    · exact hkept hi ▸ h.pos i hi
  · intro i hi
    rcases hdone i hi with hmin | hi
    · exact hfront i hmin ▸ Nat.lt_succ_self k
    · exact hkept hi ▸ (h.lt i hi).trans (Nat.lt_succ_self k)
  · intro i j hij hj
    rcases hdone j hj with hmin | hj
    · have hi : ¬ remaining i := fun hi ↦ hmin.2 i hi hij
      refine ⟨fun hi' ↦ hi ((hremaining i).mp hi').1, ?_⟩
      rw [hfront j hmin, hkept hi]
      exact h.lt i hi
    · obtain ⟨hi, hlt⟩ := h.closed hij hj
      refine ⟨fun hi' ↦ hi ((hremaining i).mp hi').1, ?_⟩
      rwa [hkept hi, hkept hj]
  · intro j hj hlt
    rcases hdone j hj with hmin | hj
    · rw [hfront j hmin] at hlt ⊢
      obtain ⟨i, hij, hi, hk⟩ := h.above j hmin.1 hlt
      exact ⟨i, hij, by rw [hkept hi, hk]⟩
    · rw [hkept hj] at hlt ⊢
      obtain ⟨i, hij, hk⟩ := h.below j hj hlt
      exact ⟨i, hij, by rw [hkept (h.closed hij hj).1, hk]⟩
  · intro j hj _
    obtain ⟨hj, hmin⟩ := (hremaining j).mp hj
    obtain ⟨i, hi, hij⟩ := (exists_isMinimal hj).resolve_left hmin
    refine ⟨i, hij, fun hi' ↦ ((hremaining i).mp hi').2 hi, ?_⟩
    rw [hfront i hi]

end

end PeripheralBench.Layers

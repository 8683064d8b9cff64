import Mathlib.Algebra.Order.BigOperators.Group.List
import Mathlib.Data.List.Basic
import Mathlib.Tactic

/-!
# First fit

Items are put into bins one after the other, each into the first bin that has room for it, or into a
new bin behind the others.  Whatever the order of the items, the packing is *tight*: no item fits
into a bin before its own, not even into what that bin holds in the end.
-/

universe u v

namespace PeripheralBench.Packing

variable {α : Type u} {M : Type v} [AddCommMonoid M]

/-- What the items of a bin weigh together. -/
def weight (size : α → M) (bin : List α) : M := (bin.map size).sum

theorem weight_append (size : α → M) (a b : List α) :
    weight size (a ++ b) = weight size a + weight size b := by
  rw [weight, List.map_append, List.sum_append]
  rfl

theorem weight_singleton (size : α → M) (x : α) : weight size [x] = size x := by
  rw [weight, List.map_singleton, List.sum_singleton]

variable [LinearOrder M]

/-- The item goes into the first bin that has room for it. -/
def place (size : α → M) (capacity : M) (x : α) : List (List α) → List (List α)
  | [] => [[x]]
  | bin :: bins =>
      if weight size bin + size x ≤ capacity then (bin ++ [x]) :: bins
      else bin :: place size capacity x bins

/-- The items are placed in their order. -/
def firstFit (size : α → M) (capacity : M) (items : List α) (bins : List (List α)) :
    List (List α) :=
  items.foldl (fun bins x ↦ place size capacity x bins) bins

/-- A packing without waste. -/
structure Tight (size : α → M) (capacity : M) (bins : List (List α)) : Prop where
  ne_nil : ∀ bin ∈ bins, bin ≠ []
  fits : ∀ bin ∈ bins, weight size bin ≤ capacity
  /-- No item of a later bin fits into an earlier bin. -/
  full : bins.Pairwise fun earlier later ↦ ∀ x ∈ later, capacity < weight size earlier + size x

variable {size : α → M} {capacity : M} {bins : List (List α)} {x : α}

theorem Tight.nil : Tight size capacity ([] : List (List α)) :=
  ⟨nofun, nofun, .nil⟩

/-- What is in the bins afterwards. -/
theorem place_perm (size : α → M) (capacity : M) (x : α) (bins : List (List α)) :
    (place size capacity x bins).flatten.Perm (x :: bins.flatten) := by
  induction bins with
  | nil => exact .refl _
  | cons bin bins ih =>
      rw [place]
      split
      · rw [List.flatten_cons, List.flatten_cons, List.append_assoc]
        exact List.perm_middle
      · rw [List.flatten_cons, List.flatten_cons]
        exact (ih.append_left bin).trans List.perm_middle

theorem firstFit_perm (size : α → M) (capacity : M) (items : List α) (bins : List (List α)) :
    (firstFit size capacity items bins).flatten.Perm (items ++ bins.flatten) := by
  induction items generalizing bins with
  | nil => exact .refl _
  | cons x items ih =>
      refine (ih (place size capacity x bins)).trans ?_
      exact ((place_perm size capacity x bins).append_left items).trans List.perm_middle

/-- An item that is placed behind a bin it does not fit into, or was there before. -/
theorem mem_place {bin : List α} {y : α} (hbin : bin ∈ place size capacity x bins) (hy : y ∈ bin) :
    y = x ∨ ∃ bin ∈ bins, y ∈ bin := by
  have hflatten : y ∈ (place size capacity x bins).flatten := List.mem_flatten.mpr ⟨bin, hbin, hy⟩
  rcases List.mem_cons.mp ((place_perm size capacity x bins).mem_iff.mp hflatten) with h | h
  · exact .inl h
  · exact .inr (List.mem_flatten.mp h)

section Ordered

variable [IsOrderedAddMonoid M]

theorem weight_nonneg (hsize : ∀ x, 0 ≤ size x) (bin : List α) : 0 ≤ weight size bin := by
  apply List.sum_nonneg
  intro w hw
  obtain ⟨x, -, rfl⟩ := List.mem_map.mp hw
  exact hsize x

/-- An item weighs no more than its bin. -/
theorem size_le_weight (hsize : ∀ x, 0 ≤ size x) {bin : List α} (hx : x ∈ bin) :
    size x ≤ weight size bin := by
  apply List.single_le_sum _ _ (List.mem_map_of_mem hx)
  intro w hw
  obtain ⟨x, -, rfl⟩ := List.mem_map.mp hw
  exact hsize x

/-- Placing an item keeps a packing tight: the bins before the one it goes to have refused it, and
the bin itself has only become heavier. -/
theorem Tight.place (h : Tight size capacity bins) (hsize : ∀ x, 0 ≤ size x)
    (hx : size x ≤ capacity) :
    Tight size capacity (place size capacity x bins) := by
  induction bins with
  | nil =>
      refine ⟨?_, ?_, List.pairwise_singleton _ _⟩
      · intro bin hbin
        rw [List.mem_singleton.mp hbin]
        exact List.cons_ne_nil _ _
      · intro bin hbin
        rw [List.mem_singleton.mp hbin, weight_singleton]
        exact hx
  | cons bin bins ih =>
      obtain ⟨hbefore, hrest⟩ := List.pairwise_cons.mp h.full
      have htail : Tight size capacity bins :=
        ⟨fun b hb ↦ h.ne_nil b (.tail _ hb), fun b hb ↦ h.fits b (.tail _ hb), hrest⟩
      rw [Packing.place]
      split
      case isTrue hroom =>
        have hweight : weight size (bin ++ [x]) = weight size bin + size x := by
          rw [weight_append, weight_singleton]
        refine ⟨?_, ?_, List.pairwise_cons.mpr ⟨fun later hlater y hy ↦ ?_, hrest⟩⟩
        · intro b hb
          rcases List.mem_cons.mp hb with rfl | hb
          · exact List.append_ne_nil_of_right_ne_nil _ (List.cons_ne_nil _ _)
          · exact htail.ne_nil b hb
        · intro b hb
          rcases List.mem_cons.mp hb with rfl | hb
          · rw [hweight]
            exact hroom
          · exact htail.fits b hb
        · refine (hbefore later hlater y hy).trans_le (add_le_add_left ?_ _)
          rw [hweight]
          exact le_add_of_nonneg_right (hsize x)
      case isFalse hroom =>
        have hplaced := ih htail
        refine ⟨?_, ?_, List.pairwise_cons.mpr ⟨fun later hlater y hy ↦ ?_, hplaced.full⟩⟩
        · intro b hb
          rcases List.mem_cons.mp hb with rfl | hb
          · exact h.ne_nil b (.head _)
          · exact hplaced.ne_nil b hb
        · intro b hb
          rcases List.mem_cons.mp hb with rfl | hb
          · exact h.fits b (.head _)
          · exact hplaced.fits b hb
        · rcases mem_place hlater hy with rfl | ⟨b, hb, hyb⟩
          · exact not_le.mp hroom
          · exact hbefore b hb y hyb

theorem Tight.firstFit {items : List α} (h : Tight size capacity bins) (hsize : ∀ x, 0 ≤ size x)
    (hitems : ∀ x ∈ items, size x ≤ capacity) :
    Tight size capacity (firstFit size capacity items bins) := by
  induction items generalizing bins with
  | nil => exact h
  | cons x items ih =>
      exact ih (h.place hsize (hitems x (.head _))) fun y hy ↦ hitems y (.tail _ hy)

/-- No two bins of a tight packing can be made one. -/
theorem Tight.not_mergeable (h : Tight size capacity bins) (hsize : ∀ x, 0 ≤ size x) :
    bins.Pairwise fun earlier later ↦ capacity < weight size earlier + weight size later := by
  refine h.full.imp_of_mem fun {earlier later} _ hlater hfull ↦ ?_
  obtain ⟨x, hx⟩ := List.exists_mem_of_ne_nil later (h.ne_nil later hlater)
  exact (hfull x hx).trans_le (add_le_add_right (size_le_weight hsize hx) _)

end Ordered

end PeripheralBench.Packing

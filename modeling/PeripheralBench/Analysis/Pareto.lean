import Mathlib.Data.List.FinRange
import Mathlib.Order.Lattice
import PeripheralBench.Layers.Ranking

/-!
# Pareto ranks

`pareto_ranks` of `analyze_time_energy.py`.  The points that no other point dominates get the first
rank and are taken away, and so on until no point remains.  The ranks are the layers of dominance
(`paretoRanks_spec`).
-/

open PeripheralBench.Layers

universe u

namespace PeripheralBench.Analysis

variable {α : Type u} [LinearOrder α] {m n : ℕ}

/-! ## The function -/

/-- `np.all(a <= b) & np.any(a < b)`. -/
def dominates (a b : Fin m → α) : Bool := decide ((∀ k, a k ≤ b k) ∧ ∃ k, a k < b k)

/-- `dominated_by`. -/
def dominatedBy (values : Fin n → Fin m → α) (index : Fin n) : ℕ :=
  (List.finRange n).countP fun i ↦ dominates (values i) (values index)

/-- `np.flatnonzero(mask)`. -/
def flatnonzero (mask : Fin n → Bool) : List (Fin n) := (List.finRange n).filter mask

theorem mem_flatnonzero {mask : Fin n → Bool} {i : Fin n} : i ∈ flatnonzero mask ↔ mask i = true :=
  List.mem_filter.trans (and_iff_right (List.mem_finRange i))

/-- `front`: the indexes whose column of `dominance` has the sum zero. -/
def front (values : Fin n → Fin m → α) (indexes : List (Fin n)) : List (Fin n) :=
  indexes.filter fun j ↦ (indexes.countP fun i ↦ dominates (values i) (values j)) == 0

/-- The variables of the loop. -/
structure Peeling (n : ℕ) where
  ranks : Fin n → ℕ := fun _ ↦ 0
  remaining : Fin n → Bool := fun _ ↦ true
  rank : ℕ := 1
  /-- The branch for an empty front has been taken. -/
  stuck : Bool := false

/-- `ranks[front] = rank`. -/
def setRanks (ranks : Fin n → ℕ) (indexes : List (Fin n)) (rank : ℕ) (i : Fin n) : ℕ :=
  if i ∈ indexes then rank else ranks i

/-- `remaining[front] = False`. -/
def clear (remaining : Fin n → Bool) (indexes : List (Fin n)) (i : Fin n) : Bool :=
  if i ∈ indexes then false else remaining i

theorem clear_eq_true_iff {remaining : Fin n → Bool} {indexes : List (Fin n)} {i : Fin n} :
    clear remaining indexes i = true ↔ remaining i = true ∧ i ∉ indexes := by
  rw [clear]
  split
  case isTrue h => exact iff_of_false Bool.false_ne_true fun h' ↦ h'.2 h
  case isFalse h => exact (and_iff_left h).symm

theorem length_flatnonzero_clear {remaining : Fin n → Bool} {indexes : List (Fin n)} {i : Fin n}
    (hi : i ∈ indexes) (hremaining : remaining i = true) :
    (flatnonzero (clear remaining indexes)).length < (flatnonzero remaining).length := by
  have hfilter : flatnonzero (clear remaining indexes) =
      (flatnonzero remaining).filter fun i ↦ decide (i ∉ indexes) := by
    rw [flatnonzero, flatnonzero, List.filter_filter]
    refine List.filter_congr fun j _ ↦ Bool.eq_iff_iff.mpr ?_
    rw [clear_eq_true_iff, Bool.and_eq_true, decide_eq_true_iff, and_comm]
  rw [hfilter, List.length_filter_lt_length_iff_exists]
  refine ⟨i, mem_flatnonzero.mpr hremaining, ?_⟩
  rw [decide_eq_true_iff]
  exact not_not.mpr hi

/-- The loop. -/
def peel (values : Fin n → Fin m → α) (s : Peeling n) : Peeling n :=
  let indexes := flatnonzero s.remaining
  if indexes = [] then s
  else
    let front := front values indexes
    if front = [] then { s with ranks := setRanks s.ranks indexes s.rank, stuck := true }
    else
      peel values { s with
        ranks := setRanks s.ranks front s.rank
        remaining := clear s.remaining front
        rank := s.rank + 1 }
termination_by (flatnonzero s.remaining).length
decreasing_by
  rename_i hfront
  obtain ⟨i, hi⟩ := List.exists_mem_of_ne_nil _ hfront
  exact length_flatnonzero_clear hi (mem_flatnonzero.mp (List.mem_filter.mp hi).1)

/-- `pareto_ranks`. -/
def paretoRanks (values : Fin n → Fin m → α) : (Fin n → ℕ) × (Fin n → ℕ) :=
  ((peel values {}).ranks, dominatedBy values)

/-! ## Dominance -/

/-- Dominance between the points of a list. -/
def Dominates (values : Fin n → Fin m → α) (i j : Fin n) : Prop :=
  dominates (values i) (values j) = true

theorem dominates_iff {a b : Fin m → α} :
    dominates a b = true ↔ (∀ k, a k ≤ b k) ∧ ∃ k, a k < b k := decide_eq_true_iff

instance (values : Fin n → Fin m → α) : IsTrans (Fin n) (Dominates values) where
  trans i j l hij hjl := by
    obtain ⟨hle, k, hlt⟩ := dominates_iff.mp hij
    have hle' := (dominates_iff.mp hjl).1
    exact dominates_iff.mpr ⟨fun k ↦ (hle k).trans (hle' k), k, hlt.trans_le (hle' k)⟩

instance (values : Fin n → Fin m → α) : Std.Irrefl (Dominates values) where
  irrefl i hi := by
    obtain ⟨-, k, hlt⟩ := dominates_iff.mp hi
    exact lt_irrefl _ hlt

theorem dominatedBy_eq_zero_iff {values : Fin n → Fin m → α} {j : Fin n} :
    dominatedBy values j = 0 ↔ ∀ i, ¬ Dominates values i j := by
  rw [dominatedBy, List.countP_eq_zero]
  exact ⟨fun h i ↦ h i (List.mem_finRange i), fun h i _ ↦ h i⟩

/-- The front is the minimal part of what remains. -/
theorem mem_front_iff {values : Fin n → Fin m → α} {remaining : Fin n → Bool} {j : Fin n} :
    j ∈ front values (flatnonzero remaining) ↔
      IsMinimal (Dominates values) (fun i ↦ remaining i = true) j := by
  rw [front, List.mem_filter, mem_flatnonzero, beq_iff_eq, List.countP_eq_zero]
  exact and_congr_right fun _ ↦ forall_congr' fun i ↦ imp_congr_left mem_flatnonzero

/-! ## The loop -/

/-- The invariant of the loop. -/
structure Peeling.Valid (values : Fin n → Fin m → α) (s : Peeling n) : Prop where
  isPeeled : IsPeeled (Dominates values) s.ranks (fun i ↦ s.remaining i = true) s.rank
  stuck : s.stuck = false

theorem Peeling.valid_start (values : Fin n → Fin m → α) : Peeling.Valid values {} where
  isPeeled := isPeeled_start fun _ ↦ rfl
  stuck := rfl

/-- There is a front as long as a point remains. -/
theorem front_ne_nil {values : Fin n → Fin m → α} {remaining : Fin n → Bool}
    (h : flatnonzero remaining ≠ []) : front values (flatnonzero remaining) ≠ [] := by
  obtain ⟨j, hj⟩ := List.exists_mem_of_ne_nil _ h
  have hbelow : IsMinimal (Dominates values) (fun i ↦ remaining i = true) j ∨
      ∃ i, IsMinimal (Dominates values) (fun i ↦ remaining i = true) i ∧ Dominates values i j :=
    exists_isMinimal (mem_flatnonzero.mp hj)
  rcases hbelow with hmin | ⟨i, hmin, -⟩
  · exact List.ne_nil_of_mem (mem_front_iff.mpr hmin)
  · exact List.ne_nil_of_mem (mem_front_iff.mpr hmin)

/-- One turn of the loop. -/
theorem Peeling.Valid.next {values : Fin n → Fin m → α} {s : Peeling n} (h : s.Valid values) :
    Peeling.Valid values { s with
      ranks := setRanks s.ranks (front values (flatnonzero s.remaining)) s.rank
      remaining := clear s.remaining (front values (flatnonzero s.remaining))
      rank := s.rank + 1 } where
  isPeeled := by
    refine h.isPeeled.next (fun i ↦ ?_) (fun i hi ↦ ?_) fun i hi ↦ ?_
    · rw [← mem_front_iff]
      exact clear_eq_true_iff
    · exact if_pos (mem_front_iff.mpr hi)
    · exact if_neg (mem_front_iff.not.mpr hi)
  stuck := h.stuck

/-- The loop ends when every point has its rank. -/
theorem peel_spec (values : Fin n → Fin m → α) (s : Peeling n) (h : s.Valid values) :
    (peel values s).Valid values ∧ ∀ i, (peel values s).remaining i = false := by
  induction s using peel.induct values with
  | case1 s indexes hnil =>
      rw [peel, if_pos hnil]
      refine ⟨h, fun i ↦ ?_⟩
      have hi : i ∉ flatnonzero s.remaining := List.eq_nil_iff_forall_not_mem.mp hnil i
      rw [mem_flatnonzero] at hi
      exact Bool.eq_false_iff.mpr hi
  | case2 s indexes hne front hnil => exact absurd hnil (front_ne_nil hne)
  | case3 s indexes hne front hfront ih =>
      rw [peel, if_neg hne]
      simp only
      rw [if_neg hfront]
      exact ih h.next

/-! ## The ranks -/

/-- What the two arrays that `pareto_ranks` returns say. -/
structure ParetoRanked (values : Fin n → Fin m → α) (ranks dominatedBy : Fin n → ℕ) : Prop where
  ranked : ∀ i, 1 ≤ ranks i
  first : ∀ i, ranks i = 1 ↔ dominatedBy i = 0
  lt : ∀ i j, dominates (values i) (values j) = true → ranks i < ranks j
  below : ∀ j, 1 < ranks j → ∃ i, dominates (values i) (values j) = true ∧ ranks i + 1 = ranks j
  equal : ∀ i j, values i = values j → ranks i = ranks j

/-- The loop ends with every point ranked and never gets stuck, and the ranks are those of the
layers. -/
theorem paretoRanks_spec (values : Fin n → Fin m → α) :
    (∀ i, (peel values {}).remaining i = false) ∧ (peel values {}).stuck = false ∧
      ParetoRanked values (paretoRanks values).1 (paretoRanks values).2 := by
  obtain ⟨hvalid, hdone⟩ := peel_spec values {} (Peeling.valid_start values)
  have hlayers := hvalid.isPeeled.isLayering fun i ↦ Bool.eq_false_iff.mp (hdone i)
  refine ⟨hdone, hvalid.stuck, hlayers.pos, fun i ↦ ?_, fun i j ↦ hlayers.lt, hlayers.below,
    fun i j heq ↦ hlayers.eq_of_forall fun k ↦ ?_⟩
  · exact hlayers.eq_one_iff.trans dominatedBy_eq_zero_iff.symm
  · rw [Dominates, Dominates, heq]

end PeripheralBench.Analysis

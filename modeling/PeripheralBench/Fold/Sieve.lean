import Mathlib.Data.List.Basic
import Mathlib.Data.List.Count
import Mathlib.Data.List.Dedup
import Mathlib.Algebra.BigOperators.Group.List.Basic
import Mathlib.Tactic

/-!
# Sieves

Rows pass a chain of filters, and a counter tells under which key each filter has thrown out how
many.  A row falls to the first filter that rejects it, whatever the later ones say, so it is
counted once (`run_total`) or kept (`run_kept`).
-/

namespace PeripheralBench.Fold

variable {ρ κ R : Type*}

/-! ## Counters -/

/-- A counter: its items in the order in which the keys have come up. -/
abbrev Counter (κ : Type*) : Type _ := List (κ × ℕ)

namespace Counter

/-- Count `n` more under `k`. -/
def add [DecidableEq κ] : Counter κ → κ → ℕ → Counter κ
  | [], k, n => [(k, n)]
  | (k', m) :: c, k, n => if k' = k then (k', m + n) :: c else (k', m) :: add c k n

/-- Count what has been counted elsewhere. -/
def update [DecidableEq κ] (c : Counter κ) (d : List (κ × ℕ)) : Counter κ :=
  d.foldl (fun c i ↦ c.add i.1 i.2) c

/-- What has been counted under the keys with a property. -/
def total (p : κ → Bool) (c : List (κ × ℕ)) : ℕ := ((c.filter fun i ↦ p i.1).map Prod.snd).sum

variable {p : κ → Bool}

@[simp] theorem total_nil : total p ([] : Counter κ) = 0 := rfl

@[simp] theorem total_cons (i : κ × ℕ) (c : Counter κ) :
    total p (i :: c) = (if p i.1 then i.2 else 0) + total p c := by
  rw [total, List.filter_cons]
  split
  · exact List.sum_cons
  · exact (Nat.zero_add _).symm

@[simp] theorem total_append (c d : Counter κ) : total p (c ++ d) = total p c + total p d := by
  rw [total, List.filter_append, List.map_append, List.sum_append]
  rfl

theorem total_perm {c d : Counter κ} (h : c.Perm d) : total p c = total p d :=
  ((h.filter _).map _).sum_eq

/-- Nothing is counted under keys that do not come up. -/
theorem total_eq_zero {c : Counter κ} (h : ∀ i ∈ c, p i.1 = false) : total p c = 0 := by
  have hfilter : (c.filter fun i ↦ p i.1) = [] :=
    List.filter_eq_nil_iff.mpr fun i hi hp ↦ Bool.false_ne_true ((h i hi).symm.trans hp)
  rw [total, hfilter]
  rfl

theorem total_filter_eq_zero {c : Counter κ} (q : κ × ℕ → Bool) (h : total p c = 0) :
    total p (c.filter q) = 0 := by
  have hsub : ((c.filter q).filter fun i ↦ p i.1).Sublist (c.filter fun i ↦ p i.1) :=
    List.filter_sublist.filter _
  refine Nat.le_zero.mp ?_
  rw [← h]
  exact (hsub.map Prod.snd).sum_le_sum fun n _ ↦ Nat.zero_le n

variable [DecidableEq κ]

theorem total_add (c : Counter κ) (k : κ) (n : ℕ) :
    total p (c.add k n) = total p c + if p k then n else 0 := by
  induction c with
  | nil => rw [add, total_cons, total_nil, Nat.add_comm]
  | cons i c ih =>
      obtain ⟨k', m⟩ := i
      rw [add]
      by_cases hk : k' = k
      · subst hk
        rw [if_pos rfl, total_cons, total_cons]
        split
        · exact Nat.add_right_comm m n _
        · rfl
      · rw [if_neg hk, total_cons, total_cons, ih, Nat.add_assoc]

theorem total_update (c d : Counter κ) : total p (c.update d) = total p c + total p d := by
  induction d generalizing c with
  | nil => rfl
  | cons i d ih =>
      rw [update, List.foldl_cons, ← update, ih, total_add, total_cons, Nat.add_assoc]

end Counter

variable [DecidableEq κ]

/-- How often each of the values of a list is there. -/
def tally (l : List κ) : Counter κ := l.dedup.map fun k ↦ (k, l.count k)

theorem total_tally (p : κ → Bool) (l : List κ) : Counter.total p (tally l) = l.countP p := by
  rw [Counter.total, tally, List.filter_map, List.map_map]
  exact List.sum_map_count_dedup_filter_eq_countP p l

theorem mem_of_mem_tally {l : List κ} {i : κ × ℕ} (h : i ∈ tally l) : i.1 ∈ l := by
  obtain ⟨k, hk, rfl⟩ := List.mem_map.mp h
  exact List.mem_dedup.mp hk

/-! ## Chains of filters -/

/-- A filter rejects some rows, for a reason. -/
structure Filter (ρ R : Type*) where
  rejects : ρ → Bool
  reason : R

/-- Why a row is rejected, if it is: the first filter decides. -/
def firstFailure : List (Filter ρ R) → ρ → Option R
  | [], _ => none
  | f :: fs, r => if f.rejects r then some f.reason else firstFailure fs r

theorem isNone_firstFailure {fs : List (Filter ρ R)} {r : ρ} :
    (firstFailure fs r).isNone = true ↔ ∀ f ∈ fs, f.rejects r = false := by
  induction fs with
  | nil => exact iff_of_true rfl fun f hf ↦ absurd hf List.not_mem_nil
  | cons f fs ih =>
      rw [firstFailure, List.forall_mem_cons, ← ih]
      cases f.rejects r with
      | true => exact iff_of_false Bool.false_ne_true fun h ↦ Bool.false_ne_true h.1.symm
      | false => exact (and_iff_right rfl).symm

theorem exists_of_firstFailure {fs : List (Filter ρ R)} {r : ρ} {reason : R}
    (h : firstFailure fs r = some reason) : ∃ f ∈ fs, f.reason = reason := by
  induction fs with
  | nil => cases h
  | cons f fs ih =>
      rw [firstFailure] at h
      split at h
      · exact ⟨f, .head _, Option.some.inj h⟩
      · obtain ⟨g, hg, hreason⟩ := ih h
        exact ⟨g, .tail _ hg, hreason⟩

/-- The rows that are still there, and the counter. -/
structure Sieve (ρ κ : Type*) where
  kept : List ρ
  counts : Counter κ := []

namespace Sieve

variable {key : R → ρ → κ} {p : κ → Bool} {f : Filter ρ R} {fs : List (Filter ρ R)}

/-- Apply a filter, and count the rows that it rejects under their keys. -/
def reject (key : R → ρ → κ) (s : Sieve ρ κ) (f : Filter ρ R) : Sieve ρ κ where
  kept := s.kept.filter fun r ↦ !f.rejects r
  counts := s.counts.update (tally ((s.kept.filter f.rejects).map (key f.reason)))

/-- Apply a chain of filters. -/
def run (key : R → ρ → κ) (fs : List (Filter ρ R)) (s : Sieve ρ κ) : Sieve ρ κ :=
  fs.foldl (reject key) s

theorem run_cons (s : Sieve ρ κ) : run key (f :: fs) s = run key fs (s.reject key f) := rfl

theorem total_reject (s : Sieve ρ κ) : Counter.total p (s.reject key f).counts =
    Counter.total p s.counts + s.kept.countP fun r ↦ f.rejects r && p (key f.reason r) := by
  rw [reject, Counter.total_update, total_tally, List.countP_map, List.countP_filter]
  exact congrArg _ (List.countP_congr fun r _ ↦ by rw [Bool.and_comm]; rfl)

/-- What is kept is what no filter rejects. -/
theorem run_kept (s : Sieve ρ κ) :
    (s.run key fs).kept = s.kept.filter fun r ↦ (firstFailure fs r).isNone := by
  induction fs generalizing s with
  | nil => exact (List.filter_true _).symm
  | cons f fs ih =>
      rw [run_cons, ih, reject, List.filter_filter]
      refine List.filter_congr fun r _ ↦ ?_
      rw [firstFailure]
      cases f.rejects r with
      | true => exact Bool.and_false _
      | false => exact Bool.and_true _

/-- Every row that is rejected is counted under its key, for the reason of the first filter that
rejects it. -/
theorem run_total (s : Sieve ρ κ) : Counter.total p (s.run key fs).counts =
    Counter.total p s.counts +
      s.kept.countP fun r ↦ (firstFailure fs r).any fun reason ↦ p (key reason r) := by
  induction fs generalizing s with
  | nil =>
      have hnone : (s.kept.countP fun r ↦
          (firstFailure ([] : List (Filter ρ R)) r).any fun reason ↦ p (key reason r)) = 0 :=
        List.countP_eq_zero.mpr fun r _ h ↦ Bool.false_ne_true h
      rw [hnone]
      rfl
  | cons f fs ih =>
      -- the rows that `f` rejects, and those that it passes on
      have hrejected : ((s.kept.filter f.rejects).countP fun r ↦
          (firstFailure (f :: fs) r).any fun reason ↦ p (key reason r)) =
            s.kept.countP fun r ↦ f.rejects r && p (key f.reason r) := by
        rw [List.countP_filter]
        refine List.countP_congr fun r _ ↦ ?_
        rw [firstFailure]
        cases f.rejects r with
        | true => rw [if_pos rfl, Option.any_some, Bool.and_true, Bool.true_and]
        | false => rw [Bool.and_false, Bool.false_and]
      have hpassed : ((s.kept.filter fun r ↦ !f.rejects r).countP fun r ↦
          (firstFailure (f :: fs) r).any fun reason ↦ p (key reason r)) =
            (s.reject key f).kept.countP fun r ↦
              (firstFailure fs r).any fun reason ↦ p (key reason r) := by
        refine List.countP_congr fun r hr ↦ ?_
        rw [List.mem_filter, Bool.not_eq_true'] at hr
        rw [firstFailure, if_neg (Bool.not_eq_true _ ▸ hr.2)]
      have hsplit := List.countP_eq_countP_filter_add s.kept
        (fun r ↦ (firstFailure (f :: fs) r).any fun reason ↦ p (key reason r)) f.rejects
      rw [run_cons, ih, total_reject, Nat.add_assoc, hsplit, hrejected, hpassed]

end Sieve

end PeripheralBench.Fold

import Mathlib.Data.List.Basic
import Mathlib.Tactic

/-!
# Nested calls

What a thread does is seen through some instrumented functions: each call is a mark when it is
entered and a mark when it is left, and there may be others in between.  `Calls` are such calls as a
tree, and `Calls.marks` are the marks in the order in which they happen.

A machine that follows the marks may count how deeply calls of each kind are nested.  After all of
them its counters are back where they were (`Calls.foldl_marks`), as long as they are wide enough
for the `height` of the calls.
-/

universe u v w

namespace PeripheralBench.Trace

/-- Calls, one after another: each has calls inside it. -/
inductive Calls (α : Type u) where
  | nil
  | call (label : α) (inside next : Calls α)
deriving DecidableEq

/-- What is seen of a call. -/
inductive Mark (α : Type u) where
  | enter (label : α)
  | leave (label : α)
deriving DecidableEq

namespace Calls

variable {α : Type u}

/-- The marks of calls. -/
def marks : Calls α → List (Mark α)
  | nil => []
  | call a inside next => .enter a :: (inside.marks ++ .leave a :: next.marks)

/-- How deeply calls of a kind are nested. -/
def height (p : α → Bool) : Calls α → ℕ
  | nil => 0
  | call a inside next => max (inside.height p + if p a then 1 else 0) (next.height p)

/-- The calls of a kind that are not inside another one of it, in order. -/
def outermost (p : α → Bool) : Calls α → List α
  | nil => []
  | call a inside next => (if p a then [a] else inside.outermost p) ++ next.outermost p

/-- The depths inside a call. -/
def deeper {κ : Type v} (p : κ → α → Bool) (a : α) (depth : κ → ℕ) : κ → ℕ :=
  fun k ↦ if p k a then depth k + 1 else depth k

/-- If entering a call makes the depths in an invariant deeper, and leaving it takes that back,
calls keep the invariant with its depths. -/
theorem foldl_marks {σ : Type w} {κ : Type v} {p : κ → α → Bool} {step : σ → Mark α → σ}
    {I : (κ → ℕ) → σ → Prop} (bound : ℕ)
    (henter : ∀ a depth s, (∀ k, deeper p a depth k ≤ bound) → I depth s →
      I (deeper p a depth) (step s (.enter a)))
    (hleave : ∀ a depth s, (∀ k, deeper p a depth k ≤ bound) → I (deeper p a depth) s →
      I depth (step s (.leave a)))
    (c : Calls α) {depth : κ → ℕ} {s : σ} (hc : ∀ k, depth k + c.height (p k) ≤ bound)
    (h : I depth s) : I depth (c.marks.foldl step s) := by
  induction c generalizing depth s with
  | nil => exact h
  | call a inside next ih ih' =>
      have hinside : ∀ k, deeper p a depth k + inside.height (p k) ≤ bound := by
        intro k
        have hk := (Nat.add_le_add_left (le_max_left _ _) _).trans (hc k)
        rw [deeper]
        split at hk
        case isTrue hp =>
          rw [if_pos hp]
          omega
        case isFalse hp =>
          rw [if_neg hp]
          exact hk
      have hdeep : ∀ k, deeper p a depth k ≤ bound :=
        fun k ↦ (Nat.le_add_right _ _).trans (hinside k)
      have hnext : ∀ k, depth k + next.height (p k) ≤ bound :=
        fun k ↦ (Nat.add_le_add_left (le_max_right _ _) _).trans (hc k)
      rw [marks, List.foldl_cons, List.foldl_append, List.foldl_cons]
      exact ih' hnext (hleave a depth _ hdeep (ih hinside (henter a depth s hdeep h)))

end Calls

end PeripheralBench.Trace

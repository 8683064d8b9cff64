import PeripheralBench.Durable.Rewrite

/-!
# Runs in rounds

Several parties take steps in any order.  What is left to do gets less, or it stays what it is, and
so does the party whose turn it is, until that party takes a step (`Course`).  Then everything is
done after as many rounds as there were things to do, if every party takes a step in every round
(`Course.done`).
-/

universe u v w x

open PeripheralBench.Durable

namespace PeripheralBench.Trace

variable {σ : Type u} {κ : Type v} {ι : Type w} {τ : Type x}

/-- How one point of a course follows another: there is less to do, or the party whose turn it is
has not taken a step. -/
def Advances (left : ι → ℕ) (turn : ι → Option τ) (Takes : τ → κ → Prop) (l : κ) (i j : ι) : Prop :=
  left j < left i ∨ left j = left i ∧ turn j = turn i ∧ ∀ party ∈ turn i, ¬ Takes party l

/-- The points of a course, each with the states in which a system is there. -/
structure Course (step : σ → κ → σ) (P : σ → κ → Prop) (Takes : τ → κ → Prop) where
  /-- The states at a point. -/
  At : ι → σ → Prop
  /-- What is left to do. -/
  left : ι → ℕ
  /-- Whose turn it is. -/
  turn : ι → Option τ
  /-- It is somebody's turn as long as there is something to do. -/
  turn_of_left : ∀ i, 0 < left i → ∃ party, turn i = some party
  advance : ∀ i s l, At i s → P s l → ∃ j, At j (step s l) ∧ Advances left turn Takes l i j

/-- Every party takes a step. -/
def IsRound (Takes : τ → κ → Prop) (ls : List κ) : Prop := ∀ party, ∃ l ∈ ls, Takes party l

theorem along_append {step : σ → κ → σ} {P : σ → κ → Prop} {s : σ} {ls ls' : List κ} :
    Along step P s (ls ++ ls') ↔ Along step P s ls ∧ Along step P (lives step s ls) ls' := by
  induction ls generalizing s with
  | nil => exact (and_iff_right trivial).symm
  | cons l ls ih => exact (and_congr_right fun _ ↦ ih).trans and_assoc.symm

theorem lives_append {step : σ → κ → σ} (s : σ) (ls ls' : List κ) :
    lives step s (ls ++ ls') = lives step (lives step s ls) ls' := List.foldl_append

namespace Course

variable {step : σ → κ → σ} {P : σ → κ → Prop} {Takes : τ → κ → Prop}
  (c : Course (ι := ι) step P Takes)

/-- What there is to do does not get more. -/
theorem exists_at {i : ι} {s : σ} (hs : c.At i s) {ls : List κ} (h : Along step P s ls) :
    ∃ j, c.At j (lives step s ls) ∧ c.left j ≤ c.left i := by
  induction ls generalizing i s with
  | nil => exact ⟨i, hs, le_rfl⟩
  | cons l ls ih =>
      obtain ⟨j, hj, hadvance⟩ := c.advance i s l hs h.1
      obtain ⟨k, hk, hle⟩ := ih hj h.2
      refine ⟨k, hk, hle.trans ?_⟩
      rcases hadvance with hless | ⟨hsame, -⟩
      · exact hless.le
      · exact hsame.le

/-- It gets less when the party whose turn it is takes a step. -/
theorem exists_less {i : ι} {s : σ} (hs : c.At i s) {ls : List κ} (h : Along step P s ls)
    {party : τ} (hturn : c.turn i = some party) (htakes : ∃ l ∈ ls, Takes party l) :
    ∃ j, c.At j (lives step s ls) ∧ c.left j < c.left i := by
  induction ls generalizing i s with
  | nil =>
      obtain ⟨_, hl, -⟩ := htakes
      exact absurd hl List.not_mem_nil
  | cons l ls ih =>
      obtain ⟨j, hj, hless | ⟨hsame, hsameTurn, hnot⟩⟩ := c.advance i s l hs h.1
      · obtain ⟨k, hk, hle⟩ := c.exists_at hj h.2
        exact ⟨k, hk, hle.trans_lt hless⟩
      · obtain ⟨l', hl', htakes⟩ := htakes
        rcases List.mem_cons.mp hl' with rfl | hl'
        · exact absurd htakes (hnot party hturn)
        · obtain ⟨k, hk, hlt⟩ := ih hj h.2 (hsameTurn.trans hturn) ⟨l', hl', htakes⟩
          exact ⟨k, hk, hlt.trans_eq hsame⟩

/-- After enough rounds there is nothing left to do. -/
theorem done {i : ι} {s : σ} (hs : c.At i s) {rounds : List (List κ)}
    (hrounds : ∀ ls ∈ rounds, IsRound Takes ls) (hmany : c.left i ≤ rounds.length)
    (h : Along step P s rounds.flatten) :
    ∃ j, c.At j (lives step s rounds.flatten) ∧ c.left j = 0 := by
  induction rounds generalizing i s with
  | nil => exact ⟨i, hs, Nat.le_zero.mp hmany⟩
  | cons ls rounds ih =>
      rw [List.flatten_cons] at h ⊢
      obtain ⟨hfirst, hrest⟩ := along_append.mp h
      have hround := hrounds ls (.head _)
      have hlater : ∀ ls ∈ rounds, IsRound Takes ls := fun ls hls ↦ hrounds ls (.tail _ hls)
      rw [lives_append]
      rcases Nat.eq_zero_or_pos (c.left i) with hzero | hpos
      · obtain ⟨j, hj, hle⟩ := c.exists_at hs hfirst
        exact ih hj hlater (hle.trans (hzero.trans_le (Nat.zero_le _))) hrest
      · obtain ⟨party, hturn⟩ := c.turn_of_left i hpos
        obtain ⟨j, hj, hlt⟩ := c.exists_less hs hfirst hturn (hround party)
        exact ih hj hlater (Nat.le_of_lt_succ (hlt.trans_le hmany)) hrest

end Course

end PeripheralBench.Trace

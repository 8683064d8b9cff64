import Mathlib.Data.List.Basic
import Mathlib.Data.List.Sort
import Mathlib.Tactic

/-!
# Pulses of a sampled signal

A signal is a list of samples, each of which is *up* or not.  A *pulse* is a longest stretch of
samples that are up, together with the sample after it, which is not: the end of the signal does not
end a pulse.  `edges` finds the pulses as the samples come in, by remembering where the signal rose.
-/

universe u

namespace PeripheralBench.Signal

variable {α : Type u} (up : α → Bool)

/-! ## Pulses -/

/-- The signal is up at this place. -/
def level (xs : List α) (i : ℕ) : Bool := xs[i]?.any up

/-- The signal rises at this place, if it is up there. -/
def Rises (xs : List α) (i : ℕ) : Prop := ∀ j, j + 1 = i → level up xs j = false

/-- The samples from `q.1` to before `q.2` are a pulse. -/
structure IsPulse (xs : List α) (q : ℕ × ℕ) : Prop where
  lt : q.1 < q.2
  lt_length : q.2 < xs.length
  rises : Rises up xs q.1
  high : ∀ i, q.1 ≤ i → i < q.2 → level up xs i = true
  falls : level up xs q.2 = false

/-- The samples from `a` on are up, and the pulse is not finished. -/
structure IsUnfinished (xs : List α) (a : ℕ) : Prop where
  lt_length : a < xs.length
  rises : Rises up xs a
  high : ∀ i, a ≤ i → i < xs.length → level up xs i = true

section

variable {up} {xs : List α} {x : α}

theorem level_append_left {i : ℕ} (h : i < xs.length) :
    level up (xs ++ [x]) i = level up xs i := by
  rw [level, level, List.getElem?_append_left h]

theorem level_append_self : level up (xs ++ [x]) xs.length = up x := by
  rw [level, List.getElem?_concat_length]
  rfl

theorem rises_append {i : ℕ} (h : i ≤ xs.length) : Rises up (xs ++ [x]) i ↔ Rises up xs i := by
  refine forall₂_congr fun j hj ↦ ?_
  rw [level_append_left (Nat.lt_of_lt_of_le (Nat.lt_of_lt_of_eq (Nat.lt_succ_self j) hj) h)]

namespace IsPulse

variable {q r : ℕ × ℕ}

/-- A pulse that begins later begins after the end. -/
theorem lt_of_lt (hq : IsPulse up xs q) (hr : IsPulse up xs r) (h : q.1 < r.1) : q.2 < r.1 := by
  by_contra hle
  have hfirst := hr.high r.1 le_rfl hr.lt
  rcases (Nat.not_lt.mp hle).lt_or_eq with hlt | heq
  · have hbefore : r.1 - 1 + 1 = r.1 := Nat.sub_add_cancel (Nat.one_le_of_lt h)
    have hhigh := hq.high (r.1 - 1) (Nat.le_sub_one_of_lt h) ((Nat.sub_le _ _).trans_lt hlt)
    rw [hr.rises _ hbefore] at hhigh
    exact Bool.noConfusion hhigh
  · rw [heq, hq.falls] at hfirst
    exact Bool.noConfusion hfirst

theorem eq_of_fst_eq (hq : IsPulse up xs q) (hr : IsPulse up xs r) (h : q.1 = r.1) : q = r := by
  refine Prod.ext h ?_
  rcases lt_trichotomy q.2 r.2 with hlt | heq | hlt
  · have hhigh := hr.high q.2 (h ▸ hq.lt.le) hlt
    rw [hq.falls] at hhigh
    exact Bool.noConfusion hhigh
  · exact heq
  · have hhigh := hq.high r.2 (h ▸ hr.lt.le) hlt
    rw [hr.falls] at hhigh
    exact Bool.noConfusion hhigh

/-- Two pulses with a place in common. -/
theorem eq_of_mem (hq : IsPulse up xs q) (hr : IsPulse up xs r) {i : ℕ} (hiq : q.1 ≤ i ∧ i < q.2)
    (hir : r.1 ≤ i ∧ i < r.2) : q = r := by
  rcases lt_trichotomy q.1 r.1 with hlt | heq | hlt
  · exact absurd (hiq.2.trans (hq.lt_of_lt hr hlt)) (Nat.not_lt.mpr hir.1)
  · exact hq.eq_of_fst_eq hr heq
  · exact absurd (hir.2.trans (hr.lt_of_lt hq hlt)) (Nat.not_lt.mpr hiq.1)

end IsPulse

/-- Another sample finishes the unfinished pulse, or no pulse. -/
theorem isPulse_append (q : ℕ × ℕ) : IsPulse up (xs ++ [x]) q ↔
    IsPulse up xs q ∨ q.2 = xs.length ∧ IsUnfinished up xs q.1 ∧ up x = false := by
  constructor
  · intro h
    have hlength := h.lt_length
    rw [List.length_append, List.length_singleton, Nat.lt_succ_iff_lt_or_eq] at hlength
    rcases hlength with hlt | heq
    · refine .inl ⟨h.lt, hlt, (rises_append (h.lt.trans hlt).le).mp h.rises, ?_, ?_⟩
      · intro i ha hb
        rw [← h.high i ha hb, level_append_left (hb.trans hlt)]
      · rw [← h.falls, level_append_left hlt]
    · have hstart : q.1 < xs.length := heq ▸ h.lt
      refine .inr ⟨heq, ⟨hstart, (rises_append hstart.le).mp h.rises, ?_⟩, ?_⟩
      · intro i ha hb
        rw [← h.high i ha (heq ▸ hb), level_append_left hb]
      · rw [← h.falls, heq, level_append_self]
  · rintro (h | ⟨heq, h, hx⟩)
    · refine ⟨h.lt, ?_, (rises_append (h.lt.trans h.lt_length).le).mpr h.rises, ?_, ?_⟩
      · exact h.lt_length.trans (List.length_append ▸ Nat.lt_succ_self _)
      · intro i ha hb
        rw [level_append_left (hb.trans h.lt_length), h.high i ha hb]
      · rw [level_append_left h.lt_length, h.falls]
    · refine ⟨heq ▸ h.lt_length, ?_, (rises_append h.lt_length.le).mpr h.rises, ?_, ?_⟩
      · rw [heq, List.length_append]
        exact Nat.lt_succ_self _
      · intro i ha hb
        rw [level_append_left (heq ▸ hb), h.high i ha (heq ▸ hb)]
      · rw [heq, level_append_self, hx]

/-- Another sample continues the unfinished pulse, or begins one. -/
theorem isUnfinished_append (a : ℕ) : IsUnfinished up (xs ++ [x]) a ↔
    up x = true ∧ (IsUnfinished up xs a ∨ a = xs.length ∧ Rises up xs a) := by
  constructor
  · intro h
    have hlength := h.lt_length
    rw [List.length_append, List.length_singleton, Nat.lt_succ_iff_lt_or_eq] at hlength
    have hx : up x = true := by
      have hlast := h.high xs.length (hlength.elim le_of_lt le_of_eq)
        (List.length_append ▸ Nat.lt_succ_self _)
      rwa [level_append_self] at hlast
    refine ⟨hx, hlength.imp ?_ ?_⟩
    · intro hlt
      refine ⟨hlt, (rises_append hlt.le).mp h.rises, fun i ha hi ↦ ?_⟩
      rw [← level_append_left hi]
      refine h.high i ha ?_
      rw [List.length_append]
      exact hi.trans (Nat.lt_succ_self _)
    · exact fun heq ↦ ⟨heq, (rises_append heq.le).mp h.rises⟩
  · rintro ⟨hx, h | ⟨rfl, h⟩⟩
    · refine ⟨h.lt_length.trans ?_, (rises_append h.lt_length.le).mpr h.rises, fun i ha hi ↦ ?_⟩
      · rw [List.length_append]
        exact Nat.lt_succ_self _
      · rw [List.length_append, List.length_singleton, Nat.lt_succ_iff_lt_or_eq] at hi
        rcases hi with hi | rfl
        · rw [level_append_left hi, h.high i ha hi]
        · rw [level_append_self, hx]
    · refine ⟨?_, (rises_append le_rfl).mpr h, fun i ha hi ↦ ?_⟩
      · rw [List.length_append]
        exact Nat.lt_succ_self _
      · rw [List.length_append, List.length_singleton, Nat.lt_succ_iff] at hi
        rw [Nat.le_antisymm hi ha, level_append_self, hx]

end

/-! ## Finding them -/

/-- What is known about the samples that have come in. -/
structure Edges where
  /-- Where the unfinished pulse begins. -/
  rise : Option ℕ := none
  /-- The pulses, in order. -/
  pulses : List (ℕ × ℕ) := []
deriving DecidableEq

/-- Another sample, which is up or not. -/
def Edges.next (e : Edges) (i : ℕ) (high : Bool) : Edges :=
  match e.rise, high with
  | none, true => { e with rise := some i }
  | some a, false => { rise := none, pulses := e.pulses ++ [(a, i)] }
  | none, false => e
  | some _, true => e

/-- The pulses of a signal. -/
def edges (xs : List α) : Edges := xs.zipIdx.foldl (fun e (x, i) ↦ e.next i (up x)) {}

theorem edges_concat (xs : List α) (x : α) :
    edges up (xs ++ [x]) = (edges up xs).next xs.length (up x) := by
  rw [edges, List.zipIdx_append, List.foldl_append, Nat.zero_add]
  rfl

/-- What has been found is all there is. -/
structure Edges.Finds (xs : List α) (e : Edges) : Prop where
  rise : ∀ a, e.rise = some a ↔ IsUnfinished up xs a
  low : e.rise = none → Rises up xs xs.length
  pulses : ∀ q, q ∈ e.pulses ↔ IsPulse up xs q
  sorted : e.pulses.Pairwise fun q r ↦ q.2 < r.1

variable {up}

theorem Edges.Finds.next {xs : List α} {e : Edges} (h : e.Finds up xs) (x : α) :
    (e.next xs.length (up x)).Finds up (xs ++ [x]) := by
  have hlength : (xs ++ [x]).length = xs.length + 1 := List.length_append
  have hsame : up x = true → ∀ q, IsPulse up (xs ++ [x]) q ↔ IsPulse up xs q := by
    intro hx q
    rw [isPulse_append, hx]
    exact or_iff_left fun h ↦ Bool.noConfusion h.2.2
  have hrises : up x = false → Rises up (xs ++ [x]) (xs ++ [x]).length := by
    intro hx j hj
    rw [hlength, Nat.succ_inj] at hj
    rw [hj, level_append_self, hx]
  obtain ⟨rise, pulses⟩ := e
  cases rise with
  | none =>
      have hnone : ∀ a, ¬ IsUnfinished up xs a := fun a ha ↦ nomatch (h.rise a).mpr ha
      cases hx : up x with
      | true =>
          refine ⟨fun a ↦ ?_, nofun, fun q ↦ (h.pulses q).trans (hsame hx q).symm, h.sorted⟩
          change some xs.length = some a ↔ _
          rw [isUnfinished_append, or_iff_right (hnone a), and_iff_right hx, Option.some_inj]
          exact ⟨fun heq ↦ ⟨heq.symm, heq ▸ h.low rfl⟩, fun ha ↦ ha.1.symm⟩
      | false =>
          refine ⟨fun a ↦ ?_, fun _ ↦ hrises hx, fun q ↦ (h.pulses q).trans ?_, h.sorted⟩
          · rw [isUnfinished_append, hx]
            exact iff_of_false nofun fun ha ↦ Bool.noConfusion ha.1
          · rw [isPulse_append, or_iff_left fun hq ↦ hnone _ hq.2.1]
  | some a =>
      have ha : IsUnfinished up xs a := (h.rise a).mp rfl
      cases hx : up x with
      | true =>
          refine ⟨fun b ↦ (h.rise b).trans ?_, nofun, fun q ↦ (h.pulses q).trans (hsame hx q).symm,
            h.sorted⟩
          -- the last sample is up, so that the signal does not rise here
          have hhigh := ha.high (xs.length - 1) (Nat.le_sub_one_of_lt ha.lt_length)
            (Nat.sub_one_lt_of_lt ha.lt_length)
          rw [isUnfinished_append, and_iff_right hx, or_iff_left]
          rintro ⟨rfl, hrises⟩
          rw [hrises _ (Nat.sub_add_cancel (Nat.one_le_of_lt ha.lt_length))] at hhigh
          exact Bool.noConfusion hhigh
      | false =>
          refine ⟨fun b ↦ ?_, fun _ ↦ hrises hx, fun q ↦ ?_, ?_⟩
          · rw [isUnfinished_append, hx]
            exact iff_of_false nofun fun hb ↦ Bool.noConfusion hb.1
          · change q ∈ pulses ++ [(a, xs.length)] ↔ _
            rw [isPulse_append, List.mem_append, List.mem_singleton, ← h.pulses]
            refine or_congr_right ⟨?_, ?_⟩
            · rintro rfl
              exact ⟨rfl, ha, hx⟩
            · rintro ⟨hend, hq, -⟩
              exact Prod.ext (Option.some_inj.mp ((h.rise q.1).mpr hq)).symm hend
          · change (pulses ++ [(a, xs.length)]).Pairwise _
            rw [List.pairwise_append]
            refine ⟨h.sorted, List.pairwise_singleton _ _, fun q hq r hr ↦ ?_⟩
            rw [List.mem_singleton.mp hr]
            have hq := (h.pulses q).mp hq
            by_contra hle
            have hhigh := ha.high q.2 (Nat.not_lt.mp hle) hq.lt_length
            rw [hq.falls] at hhigh
            exact Bool.noConfusion hhigh

variable (up)

theorem finds_edges (xs : List α) : (edges up xs).Finds up xs := by
  induction xs using List.reverseRecOn with
  | nil =>
      refine ⟨fun a ↦ iff_of_false nofun fun h ↦ Nat.not_lt_zero _ h.lt_length, fun _ ↦ nofun,
        fun q ↦ iff_of_false List.not_mem_nil fun h ↦ Nat.not_lt_zero _ h.lt_length,
        List.Pairwise.nil⟩
  | append_singleton xs x ih =>
      rw [edges_concat]
      exact ih.next x

/-- The signal is up in the last sample if there is an unfinished pulse. -/
theorem isSome_rise_edges (xs : List α) : (edges up xs).rise.isSome = xs.getLast?.any up := by
  induction xs using List.reverseRecOn with
  | nil => rfl
  | append_singleton xs x ih =>
      rw [edges_concat, List.getLast?_concat, Option.any_some]
      obtain ⟨rise, pulses⟩ := edges up xs
      cases rise <;> cases up x <;> rfl

variable {up}

/-- The pulse that begins last. -/
theorem getLast?_pulses {xs : List α} {q : ℕ × ℕ} (hq : IsPulse up xs q)
    (hlast : ∀ r, IsPulse up xs r → r.1 ≤ q.1) : (edges up xs).pulses.getLast? = some q := by
  have h := finds_edges up xs
  have hmem := (h.pulses q).mpr hq
  have hsorted := h.sorted
  obtain ⟨l, r, hl⟩ := (List.eq_nil_or_concat' _).resolve_left (List.ne_nil_of_mem hmem)
  have hr : IsPulse up xs r := (h.pulses r).mp (hl ▸ List.mem_concat_self)
  rw [hl, List.mem_append, List.mem_singleton] at hmem
  rw [hl, List.getLast?_concat]
  rcases hmem with hmem | rfl
  · rw [hl, List.pairwise_append] at hsorted
    have hlt := hq.lt.trans (hsorted.2.2 q hmem r (List.mem_singleton_self r))
    exact absurd hlt (Nat.not_lt.mpr (hlast r hr))
  · rfl

/-- Pulses that meet a condition, listed in order. -/
theorem eq_filter_pulses {xs : List α} {ps : List (ℕ × ℕ)} {P : ℕ × ℕ → Prop} [DecidablePred P]
    (hmem : ∀ q, q ∈ ps ↔ IsPulse up xs q ∧ P q) (hsorted : ps.Pairwise fun q r ↦ q.1 < r.1) :
    ps = (edges up xs).pulses.filter fun q ↦ decide (P q) := by
  have h := finds_edges up xs
  have hpulses : (edges up xs).pulses.Pairwise fun q r ↦ q.1 < r.1 :=
    h.sorted.imp_of_mem fun hq _ hlt ↦ ((h.pulses _).mp hq).lt.trans hlt
  have hfilter := hpulses.filter fun q ↦ decide (P q)
  have hne : ∀ {q r : ℕ × ℕ}, q.1 < r.1 → q ≠ r := fun hlt heq ↦ hlt.ne (congrArg Prod.fst heq)
  refine List.Perm.eq_of_pairwise (fun q r _ _ hqr hrq ↦ absurd hqr hrq.asymm) hsorted hfilter ?_
  refine (List.perm_ext_iff_of_nodup (hsorted.imp hne) (hfilter.imp hne)).mpr fun q ↦ ?_
  rw [hmem, List.mem_filter, h.pulses, decide_eq_true_iff]

end PeripheralBench.Signal

import PeripheralBench.Signal.Pulse

/-!
# A signal in stretches

A signal that is low at first, and then high and low in turns, has its pulses where it is high: one
for each stretch (`edges_stretches`).
-/

universe u

namespace PeripheralBench.Signal

variable {α : Type u} {up : α → Bool}

/-- Samples that are up. -/
def High (up : α → Bool) (xs : List α) : Prop := xs ≠ [] ∧ ∀ x ∈ xs, up x = true

/-- Samples that are not. -/
def Low (up : α → Bool) (xs : List α) : Prop := xs ≠ [] ∧ ∀ x ∈ xs, up x = false

/-- Stretches that are high and low in turns. -/
def joined (pairs : List (List α × List α)) : List α := pairs.flatMap fun p ↦ p.1 ++ p.2

theorem joined_cons (p : List α × List α) (pairs : List (List α × List α)) :
    joined (p :: pairs) = p.1 ++ p.2 ++ joined pairs := List.flatMap_cons

/-- The stretches one by one. -/
theorem flatten_stretches (pairs : List (List α × List α)) :
    (pairs.flatMap fun p ↦ [p.1, p.2]).flatten = joined pairs := by
  induction pairs with
  | nil => rfl
  | cons p pairs ih =>
      rw [joined_cons, List.flatMap_cons, List.flatten_append, ih, List.flatten_cons,
        List.flatten_singleton]

/-- Where the high ones are, if the first is here. -/
def bounds : ℕ → List (List α × List α) → List (ℕ × ℕ)
  | _, [] => []
  | i, (high, low) :: pairs =>
      (i, i + high.length) :: bounds (i + high.length + low.length) pairs

@[simp] theorem length_bounds (i : ℕ) (pairs : List (List α × List α)) :
    (bounds i pairs).length = pairs.length := by
  induction pairs generalizing i with
  | nil => rfl
  | cons p pairs ih => exact congrArg Nat.succ (ih _)

namespace Edges

variable {e : Edges} {a : ℕ}

theorem next_rise (h : e.rise = none) (i : ℕ) : e.next i true = ⟨some i, e.pulses⟩ := by
  obtain ⟨rise, pulses⟩ := e
  cases h
  rfl

theorem next_high (h : e.rise = some a) (i : ℕ) : e.next i true = e := by
  obtain ⟨rise, pulses⟩ := e
  cases h
  rfl

theorem next_fall (h : e.rise = some a) (i : ℕ) :
    e.next i false = ⟨none, e.pulses ++ [(a, i)]⟩ := by
  obtain ⟨rise, pulses⟩ := e
  cases h
  rfl

theorem next_low (h : e.rise = none) (i : ℕ) : e.next i false = e := by
  obtain ⟨rise, pulses⟩ := e
  cases h
  rfl

end Edges

/-- While the signal stays high, nothing more happens. -/
theorem edges_append_of_rise {xs high : List α} {a : ℕ} (ha : (edges up xs).rise = some a)
    (hhigh : ∀ x ∈ high, up x = true) : edges up (xs ++ high) = edges up xs := by
  induction high using List.reverseRecOn with
  | nil => rw [List.append_nil]
  | append_singleton high x ih =>
      have hx := hhigh x (List.mem_append_right _ (List.mem_singleton_self x))
      rw [← List.append_assoc, edges_concat, ih fun y hy ↦ hhigh y (List.mem_append_left _ hy), hx,
        Edges.next_high ha]

theorem edges_append_high {xs high : List α} (hrise : (edges up xs).rise = none)
    (hhigh : High up high) :
    edges up (xs ++ high) = ⟨some xs.length, (edges up xs).pulses⟩ := by
  obtain ⟨hne, hall⟩ := hhigh
  obtain ⟨x, high, rfl⟩ := List.exists_cons_of_ne_nil hne
  obtain ⟨hx, hhigh⟩ := List.forall_mem_cons.mp hall
  have hfirst : edges up (xs ++ [x]) = ⟨some xs.length, (edges up xs).pulses⟩ := by
    rw [edges_concat, hx, Edges.next_rise hrise]
  rw [List.append_cons, edges_append_of_rise (congrArg Edges.rise hfirst) hhigh, hfirst]

theorem edges_append_of_low {xs low : List α} (hrise : (edges up xs).rise = none)
    (hlow : ∀ x ∈ low, up x = false) : edges up (xs ++ low) = edges up xs := by
  induction low using List.reverseRecOn with
  | nil => rw [List.append_nil]
  | append_singleton low x ih =>
      have hx := hlow x (List.mem_append_right _ (List.mem_singleton_self x))
      rw [← List.append_assoc, edges_concat, ih fun y hy ↦ hlow y (List.mem_append_left _ hy), hx,
        Edges.next_low hrise]

/-- The first low sample ends the pulse. -/
theorem edges_append_low {xs low : List α} {a : ℕ} (hrise : (edges up xs).rise = some a)
    (hlow : Low up low) :
    edges up (xs ++ low) = ⟨none, (edges up xs).pulses ++ [(a, xs.length)]⟩ := by
  obtain ⟨hne, hall⟩ := hlow
  obtain ⟨x, low, rfl⟩ := List.exists_cons_of_ne_nil hne
  obtain ⟨hx, hlow⟩ := List.forall_mem_cons.mp hall
  have hfirst : edges up (xs ++ [x]) = ⟨none, (edges up xs).pulses ++ [(a, xs.length)]⟩ := by
    rw [edges_concat, hx, Edges.next_fall hrise]
  rw [List.append_cons, edges_append_of_low (congrArg Edges.rise hfirst) hlow, hfirst]

/-- After a signal that is low, each high stretch is a pulse. -/
theorem edges_stretches {xs : List α} (pairs : List (List α × List α))
    (hrise : (edges up xs).rise = none) (hpairs : ∀ p ∈ pairs, High up p.1 ∧ Low up p.2) :
    edges up (xs ++ joined pairs) = ⟨none, (edges up xs).pulses ++ bounds xs.length pairs⟩ := by
  induction pairs generalizing xs with
  | nil =>
      rw [joined, List.flatMap_nil, List.append_nil, bounds, List.append_nil]
      exact congrArg (Edges.mk · _) hrise
  | cons p pairs ih =>
      obtain ⟨⟨hhigh, hlow⟩, hpairs⟩ := List.forall_mem_cons.mp hpairs
      have hfirst := edges_append_high hrise hhigh
      have hsecond := edges_append_low (congrArg Edges.rise hfirst) hlow
      have hnext := ih (congrArg Edges.rise hsecond) hpairs
      rw [joined_cons, ← List.append_assoc, ← List.append_assoc, hnext, hsecond, hfirst, bounds]
      simp only [List.length_append, List.append_assoc, List.singleton_append, Nat.add_assoc]

/-- A signal that is low all the time. -/
theorem edges_of_low {xs : List α} (hlow : ∀ x ∈ xs, up x = false) : edges up xs = {} := by
  have hnil : (edges up ([] : List α)).rise = none := rfl
  exact edges_append_of_low hnil hlow

theorem le_of_mem_bounds {i : ℕ} {pairs : List (List α × List α)} {q : ℕ × ℕ}
    (hq : q ∈ bounds i pairs) : i ≤ q.1 := by
  induction pairs generalizing i with
  | nil => exact absurd hq List.not_mem_nil
  | cons p pairs ih =>
      rcases List.mem_cons.mp hq with rfl | hq
      · exact le_rfl
      · have hle := ih hq
        omega

/-- Something that is said about each pulse, said about the stretches. -/
theorem map_bounds {β : Type*} {f : ℕ × ℕ → β} {g : List α → β} {xs before : List α}
    (hfg : ∀ pre high post, xs = pre ++ high ++ post →
      f (pre.length, pre.length + high.length) = g high)
    {pairs : List (List α × List α)} (hxs : xs = before ++ joined pairs) :
    (bounds before.length pairs).map f = pairs.map fun p ↦ g p.1 := by
  induction pairs generalizing before with
  | nil => rfl
  | cons p pairs ih =>
      have hfirst : xs = before ++ p.1 ++ (p.2 ++ joined pairs) := by
        rw [hxs, joined_cons, List.append_assoc, List.append_assoc]
      have hlater : xs = (before ++ p.1 ++ p.2) ++ joined pairs := by
        rw [hxs, joined_cons, List.append_assoc, List.append_assoc, List.append_assoc]
      have hrest := ih hlater
      rw [List.length_append, List.length_append] at hrest
      rw [bounds, List.map_cons, List.map_cons, hrest, hfg before p.1 _ hfirst]

/-- The samples of a stretch that can be up. -/
theorem mem_stretch_of_level {before middle after : List α} (hbefore : ∀ x ∈ before, up x = false)
    (hafter : ∀ x ∈ after, up x = false) {i : ℕ}
    (hi : level up (before ++ middle ++ after) i = true) :
    before.length ≤ i ∧ i < before.length + middle.length := by
  rw [level] at hi
  obtain ⟨x, hx, hup⟩ := (Option.any_eq_true _ _).mp hi
  constructor
  · by_contra hlt
    rw [Nat.not_le] at hlt
    rw [List.append_assoc, List.getElem?_append_left hlt] at hx
    rw [hbefore x (List.mem_of_getElem? hx)] at hup
    exact Bool.false_ne_true hup
  · by_contra hle
    rw [Nat.not_lt, ← List.length_append] at hle
    rw [List.getElem?_append_right hle] at hx
    rw [hafter x (List.mem_of_getElem? hx)] at hup
    exact Bool.false_ne_true hup

/-- A sample that is up is in a pulse, if the signal is low in the end. -/
theorem pulses_ne_nil {xs : List α} {x : α} (hx : x ∈ xs) (hup : up x = true)
    (hrise : (edges up xs).rise = none) : (edges up xs).pulses ≠ [] := by
  suffices h : (edges up xs).rise ≠ none ∨ (edges up xs).pulses ≠ [] from
    h.resolve_left (not_not.mpr hrise)
  clear hrise
  induction xs using List.reverseRecOn with
  | nil => exact absurd hx List.not_mem_nil
  | append_singleton xs y ih =>
      rw [edges_concat]
      generalize edges up xs = e at ih ⊢
      rcases List.mem_append.mp hx with hmem | hmem
      · have h := ih hmem
        cases hrise : e.rise with
        | none =>
            have hpulses := h.resolve_left (not_not.mpr hrise)
            cases up y with
            | true =>
                rw [Edges.next_rise hrise]
                exact .inl (Option.some_ne_none _)
            | false => exact .inr ((Edges.next_low hrise xs.length).symm ▸ hpulses)
        | some a =>
            cases up y with
            | true => exact (Edges.next_high hrise xs.length).symm ▸ h
            | false =>
                rw [Edges.next_fall hrise]
                exact .inr (List.append_ne_nil_of_right_ne_nil _ (List.cons_ne_nil _ _))
      · obtain rfl := List.mem_singleton.mp hmem
        rw [hup]
        cases hrise : e.rise with
        | none =>
            rw [Edges.next_rise hrise]
            exact .inl (Option.some_ne_none _)
        | some a =>
            rw [Edges.next_high hrise, hrise]
            exact .inl (Option.some_ne_none _)

/-- If the signal is up somewhere and low in the end, there is a pulse that begins last. -/
theorem exists_last_pulse (before : List α) {middle after : List α}
    (hup : ∃ x ∈ middle, up x = true)
    (hafter : Low up after) :
    ∃ q, IsPulse up (before ++ middle ++ after) q ∧
      ∀ r, IsPulse up (before ++ middle ++ after) r → r.1 ≤ q.1 := by
  obtain ⟨x, hx, hxup⟩ := hup
  have hrise : (edges up (before ++ middle ++ after)).rise = none := by
    cases hrise : (edges up (before ++ middle)).rise with
    | none => rw [edges_append_of_low hrise hafter.2, hrise]
    | some a => rw [edges_append_low hrise hafter]
  have hne := pulses_ne_nil
    (List.mem_append_left after (List.mem_append_right before hx)) hxup hrise
  have hfound := finds_edges up (before ++ middle ++ after)
  obtain ⟨l, q, hl⟩ := (List.eq_nil_or_concat' _).resolve_left hne
  refine ⟨q, (hfound.pulses q).mp (hl ▸ List.mem_concat_self), fun r hr ↦ ?_⟩
  have hmem := (hfound.pulses r).mpr hr
  have hsorted := hfound.sorted
  rw [hl, List.mem_append, List.mem_singleton] at hmem
  rw [hl, List.pairwise_append] at hsorted
  rcases hmem with hmem | rfl
  · exact (hr.lt.trans (hsorted.2.2 r hmem q (List.mem_singleton_self q))).le
  · exact le_rfl

end PeripheralBench.Signal

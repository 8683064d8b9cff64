import PeripheralBench.Signal.Pulse

/-!
# Pulses within a pulse

A signal that is up only while another one is has its pulses within those of the other.  So all its
places within a pulse of the other are in pulses that are finished there (`mem_places_iff`), and two
signals that share a third one between them share its places (`places_perm`).
-/

universe u

namespace PeripheralBench.Signal

variable {α : Type u} {up enclosing : α → Bool} {xs : List α}

/-! ## Every place is in a pulse -/

/-- Before a place where the signal is up it has risen. -/
theorem exists_rises {i : ℕ} (h : level up xs i = true) :
    ∃ a ≤ i, Rises up xs a ∧ ∀ k, a ≤ k → k ≤ i → level up xs k = true := by
  induction i with
  | zero =>
      refine ⟨0, le_rfl, fun j hj ↦ absurd hj (Nat.succ_ne_zero j), fun k _ hk ↦ ?_⟩
      rwa [Nat.le_zero.mp hk]
  | succ i ih =>
      cases hbefore : level up xs i with
      | false =>
          refine ⟨i + 1, le_rfl, fun j hj ↦ ?_, fun k hle hge ↦ ?_⟩
          · rwa [Nat.succ_injective hj]
          · rwa [le_antisymm hge hle]
      | true =>
          obtain ⟨a, ha, hrises, hhigh⟩ := ih hbefore
          refine ⟨a, ha.trans (Nat.le_succ i), hrises, fun k hle hge ↦ ?_⟩
          rcases Nat.le_succ_iff.mp hge with hk | rfl
          · exact hhigh k hle hk
          · exact h

/-- If it falls later the place is in a pulse, and the pulse ends no later. -/
theorem exists_isPulse {i b : ℕ} (h : level up xs i = true) (hib : i ≤ b) (hb : b < xs.length)
    (hlow : level up xs b = false) : ∃ q, IsPulse up xs q ∧ q.1 ≤ i ∧ i < q.2 ∧ q.2 ≤ b := by
  obtain ⟨a, ha, hrises, hbefore⟩ := exists_rises h
  have hfalls : ∃ j, i ≤ j ∧ level up xs j = false := ⟨b, hib, hlow⟩
  obtain ⟨hij, hfall⟩ := Nat.find_spec hfalls
  have hjb : Nat.find hfalls ≤ b := Nat.find_min' hfalls ⟨hib, hlow⟩
  have hne : i ≠ Nat.find hfalls := fun heq ↦ by
    rw [← heq, h] at hfall
    exact Bool.noConfusion hfall
  have hlt : i < Nat.find hfalls := lt_of_le_of_ne hij hne
  refine ⟨(a, Nat.find hfalls), ⟨ha.trans_lt hlt, hjb.trans_lt hb, hrises,
    fun k hk hkj ↦ ?_, hfall⟩,
    ha, hlt, hjb⟩
  rcases le_total k i with hki | hik
  · exact hbefore k hk hki
  · exact (Bool.not_eq_false _).mp fun hlow ↦ Nat.find_min hfalls hkj ⟨hik, hlow⟩

/-! ## The pulses in a stretch -/

/-- The pulses that begin and end within a stretch. -/
def pulsesWithin (up : α → Bool) (xs : List α) (t : ℕ × ℕ) : List (ℕ × ℕ) :=
  (edges up xs).pulses.filter fun q ↦ decide (t.1 ≤ q.1) && decide (q.2 ≤ t.2)

/-- The places of a pulse. -/
def places (q : ℕ × ℕ) : List ℕ := List.range' q.1 (q.2 - q.1)

theorem mem_pulsesWithin {t q : ℕ × ℕ} :
    q ∈ pulsesWithin up xs t ↔ IsPulse up xs q ∧ t.1 ≤ q.1 ∧ q.2 ≤ t.2 := by
  rw [pulsesWithin, List.mem_filter, (finds_edges up xs).pulses, Bool.and_eq_true,
    decide_eq_true_iff, decide_eq_true_iff]

theorem mem_places {q : ℕ × ℕ} {i : ℕ} : i ∈ places q ↔ q.1 ≤ i ∧ i < q.2 := by
  rw [places, List.mem_range'_1]
  omega

/-- No place is in two pulses. -/
theorem nodup_places (up : α → Bool) (xs : List α) (t : ℕ × ℕ) :
    ((pulsesWithin up xs t).flatMap places).Nodup := by
  have hfound := finds_edges up xs
  refine List.nodup_flatMap.mpr ⟨fun q _ ↦ List.nodup_range', ?_⟩
  refine (hfound.sorted.filter _).imp_of_mem fun {q r} hq hr hlt i hiq hir ↦ ?_
  have hend := (mem_places.mp hiq).2.trans hlt
  exact (mem_places.mp hir).1.not_gt hend

/-- The signal is up only while the other one is. -/
def Encloses (enclosing up : α → Bool) (xs : List α) : Prop :=
  ∀ x ∈ xs, up x = true → enclosing x = true

theorem Encloses.level (h : Encloses enclosing up xs) {i : ℕ} (hi : level up xs i = true) :
    level enclosing xs i = true := by
  rw [Signal.level] at hi ⊢
  cases hx : xs[i]? with
  | none =>
      rw [hx] at hi
      exact hi
  | some x =>
      rw [hx] at hi
      exact h x (List.mem_of_getElem? hx) hi

/-- The places at which the signal is up, in a pulse of the enclosing one, are the places of its own
pulses there. -/
theorem mem_places_iff (h : Encloses enclosing up xs) {t : ℕ × ℕ}
    (ht : IsPulse enclosing xs t) (i : ℕ) :
    i ∈ (pulsesWithin up xs t).flatMap places ↔ (t.1 ≤ i ∧ i < t.2) ∧ level up xs i = true := by
  rw [List.mem_flatMap]
  constructor
  · rintro ⟨q, hq, hi⟩
    obtain ⟨hpulse, hstart, hstop⟩ := mem_pulsesWithin.mp hq
    obtain ⟨hle, hlt⟩ := mem_places.mp hi
    exact ⟨⟨hstart.trans hle, hlt.trans_le hstop⟩, hpulse.high i hle hlt⟩
  · rintro ⟨⟨hle, hlt⟩, hi⟩
    have hlow : level up xs t.2 = false := by
      refine (Bool.not_eq_true _).mp fun hhigh ↦ ?_
      have henclosing := h.level hhigh
      rw [ht.falls] at henclosing
      exact Bool.noConfusion henclosing
    obtain ⟨q, hq, hqi, hiq, hqt⟩ := exists_isPulse hi hlt.le ht.lt_length hlow
    refine ⟨q, mem_pulsesWithin.mpr ⟨hq, ?_, hqt⟩, mem_places.mpr ⟨hqi, hiq⟩⟩
    -- before its rise the enclosing signal is down, but it is up in the whole pulse
    by_contra hbefore
    have hup := h.level (hq.high (t.1 - 1) (by omega) (by omega))
    rw [ht.rises (t.1 - 1) (by omega)] at hup
    exact Bool.noConfusion hup

/-! ## Shared signals -/

/-- The signal is shared between two others: one of them is up when it is, and never both. -/
structure Shared (up left right : α → Bool) : Prop where
  or_eq : ∀ x, up x = (left x || right x)
  disjoint : ∀ x, left x = true → right x = false

variable {left right : α → Bool}

theorem Shared.level (h : Shared up left right) (i : ℕ) :
    level up xs i = (level left xs i || level right xs i) := by
  rw [Signal.level, Signal.level, Signal.level]
  cases xs[i]? with
  | none => rfl
  | some x => exact h.or_eq x

theorem Shared.level_right (h : Shared up left right) {i : ℕ} (hi : Signal.level left xs i = true) :
    Signal.level right xs i = false := by
  rw [Signal.level] at hi ⊢
  cases hx : xs[i]? with
  | none => rfl
  | some x =>
      rw [hx] at hi
      exact h.disjoint x hi

/-- The places are shared as well. -/
theorem places_perm (h : Shared up left right) (henclosed : Encloses enclosing up xs) {t : ℕ × ℕ}
    (ht : IsPulse enclosing xs t) :
    ((pulsesWithin left xs t).flatMap places ++ (pulsesWithin right xs t).flatMap places).Perm
      ((pulsesWithin up xs t).flatMap places) := by
  have hleft : Encloses enclosing left xs := fun x hx hl ↦
    henclosed x hx (by rw [h.or_eq, hl, Bool.true_or])
  have hright : Encloses enclosing right xs := fun x hx hr ↦
    henclosed x hx (by rw [h.or_eq, hr, Bool.or_true])
  have hnodup : ((pulsesWithin left xs t).flatMap places ++
      (pulsesWithin right xs t).flatMap places).Nodup := by
    refine List.nodup_append'.mpr ⟨nodup_places left xs t, nodup_places right xs t, ?_⟩
    intro i hil hir
    have hup := ((mem_places_iff hright ht i).mp hir).2
    rw [h.level_right ((mem_places_iff hleft ht i).mp hil).2] at hup
    exact Bool.noConfusion hup
  refine (List.perm_ext_iff_of_nodup hnodup (nodup_places up xs t)).mpr fun i ↦ ?_
  rw [List.mem_append, mem_places_iff hleft ht, mem_places_iff hright ht,
    mem_places_iff henclosed ht, h.level, Bool.or_eq_true, ← and_or_left]

end PeripheralBench.Signal

import PeripheralBench.Power.Profiler
import PeripheralBench.Signal.Enclosed

/-!
# The energy of the key exchange

`_measurements` gives the energy of the key exchange as a whole, and of its two components.  Each of
the three is followed by itself through the samples, and is summed up over its windows within the
total window that was chosen.

If the key exchange is only active during a total execution, its samples are shared between the
components (`kem_partition`).
-/

open PeripheralBench.Signal

namespace PeripheralBench.Power

/-! ## Entries -/

namespace Capture

variable (c : Capture)

/-- `total` and `transfer_totals`, if there is a total window. -/
def chosen : Option (Window × List Window) :=
  (c.completed .totalExecution).getLast?.map (c.totals (c.completed .totalExecution).dropLast)

/-- `contained`. -/
def contained (total : Window) (name : WindowName) : List Window :=
  (c.completed name).filter fun window ↦
    decide (total.start ≤ window.start) && decide (window.stop ≤ total.stop)

/-- `selected.get(name)`. -/
def entry (total : Window) (name : WindowName) : Option Window := (c.selected total).lookup name

/-- The sample count of an entry. -/
def entryCount (total : Window) (name : WindowName) : ℕ :=
  (c.entry total name).elim 0 Window.sampleCount

/-- `charge_uc` of an entry. -/
def entryCharge (total : Window) (name : WindowName) : ℚ :=
  (c.entry total name).elim 0 fun window ↦ window.currentSumUa / nativeSampleRateHz

end Capture

/-- The indices of the samples of a window. -/
def Window.samples (window : Window) : List ℕ := places (window.start, window.stop)

/-- The indices of the samples that count for an entry. -/
def Capture.counted (c : Capture) (total : Window) (name : WindowName) : List ℕ :=
  (c.contained total name).flatMap Window.samples

/-- The current of a sample. -/
def currentAt (xs : List Sample) (i : ℕ) : ℚ := (xs[i]?.map Sample.currentUa).getD 0

/-- The charge of some samples. -/
def chargeOf (xs : List Sample) (indices : List ℕ) : ℚ :=
  (indices.map (currentAt xs)).sum / nativeSampleRateHz

/-- What the entries of the key exchange are, for a stream and a total window. -/
structure KemPartition (xs : List Sample) (c : Capture) (total : Window) : Prop where
  /-- An entry is about its samples, each of which counts once. -/
  count : ∀ name ∈ windowNames.tail, c.entryCount total name = (c.counted total name).length
  charge : ∀ name ∈ windowNames.tail, c.entryCharge total name = chargeOf xs (c.counted total name)
  nodup : ∀ name, (c.counted total name).Nodup
  /-- The samples of the key exchange are those in the total window with D5 high. -/
  mem_iff : ∀ i, i ∈ c.counted total .clientKem ↔
    (total.start ≤ i ∧ i < total.stop) ∧ ∃ x, xs[i]? = some x ∧ maskBit x.mask 5 = true
  /-- Each of them counts for one of the components. -/
  shared : (c.counted total .mlkem ++ c.counted total .classicalKex).Perm
    (c.counted total .clientKem)
  count_add : c.entryCount total .clientKem =
    c.entryCount total .mlkem + c.entryCount total .classicalKex
  charge_add : c.entryCharge total .clientKem =
    c.entryCharge total .mlkem + c.entryCharge total .classicalKex

/-! ## The windows -/

namespace Capture

variable {c : Capture} {xs : List Sample}

/-- Looking up a key, where each key makes its own entry. -/
theorem lookup_filterMap {f : WindowName → Option (WindowName × Window)}
    (hf : ∀ name p, f name = some p → p.1 = name) {names : List WindowName} {name : WindowName}
    (h : name ∈ names) : (names.filterMap f).lookup name = (f name).map Prod.snd := by
  induction names with
  | nil => exact nomatch h
  | cons other names ih =>
      by_cases heq : name = other
      · subst heq
        cases hentry : f name with
        | none =>
            rw [List.filterMap_cons_none hentry]
            by_cases hmem : name ∈ names
            · rw [ih hmem, hentry]
            · refine List.lookup_eq_none_iff.mpr fun p hp ↦ ?_
              obtain ⟨other, hother, hsome⟩ := List.mem_filterMap.mp hp
              rw [hf other p hsome]
              exact bne_iff_ne.mpr fun heq ↦ hmem (heq ▸ hother)
        | some p =>
            obtain ⟨key, window⟩ := p
            have hkey : key = name := hf name _ hentry
            rw [List.filterMap_cons_some hentry, hkey, List.lookup_cons_self]
            rfl
      · have hmem := (List.mem_cons.mp h).resolve_left heq
        cases hentry : f other with
        | none => rw [List.filterMap_cons_none hentry, ih hmem]
        | some p =>
            obtain ⟨key, window⟩ := p
            have hkey : key = other := hf other _ hentry
            rw [List.filterMap_cons_some hentry, hkey, List.lookup_cons, beq_false_of_ne heq]
            exact ih hmem

/-- The entry of another name than that of the total window. -/
theorem entry_eq (total : Window) {name : WindowName} (h : name ∈ windowNames.tail) :
    c.entry total name = match c.contained total name with
      | [] => none
      | window :: windows => some (combineWindows window windows) := by
  have hne : (name == WindowName.totalExecution) = false := by
    refine beq_false_of_ne fun heq ↦ ?_
    subst heq
    revert h
    decide
  rw [entry, selected, List.lookup_cons, hne, lookup_filterMap ?_ h]
  · change Option.map Prod.snd (match c.contained total name with
      | [] => none
      | window :: windows => some (name, combineWindows window windows)) = _
    cases c.contained total name <;> rfl
  · intro name p hp
    split at hp
    · exact nomatch hp
    · exact (congrArg Prod.fst (Option.some_inj.mp hp)).symm

theorem entryCount_eq (total : Window) {name : WindowName} (h : name ∈ windowNames.tail) :
    c.entryCount total name = ((c.contained total name).map Window.sampleCount).sum := by
  rw [entryCount, entry_eq total h]
  cases c.contained total name <;> rfl

theorem entryCharge_eq (total : Window) {name : WindowName} (h : name ∈ windowNames.tail) :
    c.entryCharge total name =
      ((c.contained total name).map Window.currentSumUa).sum / nativeSampleRateHz := by
  rw [entryCharge, entry_eq total h]
  cases c.contained total name with
  | nil => exact (zero_div _).symm
  | cons window windows => rfl

end Capture

theorem currents_eq {xs : List Sample} {a b : ℕ} (hab : a ≤ b) (hb : b ≤ xs.length) :
    currents xs a b = (places (a, b)).map (currentAt xs) := by
  have hlength : ((xs.map Sample.currentUa).take b).length = b := by
    rw [List.length_take, List.length_map, min_eq_left hb]
  refine List.ext_getElem ?_ fun i hi hi' ↦ ?_
  · rw [currents, List.length_drop, hlength, List.length_map, places, List.length_range']
  · rw [currents, List.length_drop, hlength] at hi
    have hget : a + i < xs.length := by omega
    simp only [currents, places, List.getElem_drop, List.getElem_take, List.getElem_map,
      List.getElem_range', one_mul, currentAt, List.getElem?_eq_getElem hget]
    rfl

/-- The sum over windows is the sum over their samples. -/
theorem sum_windowOf {xs : List Sample} {qs : List (ℕ × ℕ)}
    (h : ∀ q ∈ qs, q.1 ≤ q.2 ∧ q.2 ≤ xs.length) :
    ((qs.map (windowOf xs)).map Window.sampleCount).sum = (qs.flatMap places).length ∧
      ((qs.map (windowOf xs)).map Window.currentSumUa).sum =
        ((qs.flatMap places).map (currentAt xs)).sum := by
  induction qs with
  | nil => exact ⟨rfl, rfl⟩
  | cons q qs ih =>
      obtain ⟨hcount, hsum⟩ := ih fun r hr ↦ h r (.tail _ hr)
      obtain ⟨hq, hlength⟩ := h q (.head _)
      rw [List.map_cons, List.map_cons, List.map_cons, List.sum_cons, List.sum_cons, hcount, hsum,
        List.flatMap_cons, List.length_append, List.map_append, List.sum_append]
      constructor
      · rw [places, List.length_range']
        rfl
      · rw [windowOf, currents_eq hq hlength]

namespace Capture.Records

variable {c : Capture} {xs : List Sample}

/-- The windows in a total window are the pulses in its pulse. -/
theorem contained (h : c.Records xs) (t : ℕ × ℕ) (name : WindowName) :
    c.contained (windowOf xs t) name = (pulsesWithin (marked name) xs t).map (windowOf xs) := by
  rw [Capture.contained, h.completed, List.filter_map]
  rfl

theorem counted (h : c.Records xs) (t : ℕ × ℕ) (name : WindowName) :
    c.counted (windowOf xs t) name = (pulsesWithin (marked name) xs t).flatMap places := by
  rw [Capture.counted, h.contained, List.flatMap_map]
  rfl

theorem sums (h : c.Records xs) (t : ℕ × ℕ) {name : WindowName} (hname : name ∈ windowNames.tail) :
    c.entryCount (windowOf xs t) name = (c.counted (windowOf xs t) name).length ∧
      c.entryCharge (windowOf xs t) name = chargeOf xs (c.counted (windowOf xs t) name) := by
  have hpulses : ∀ q ∈ pulsesWithin (marked name) xs t, q.1 ≤ q.2 ∧ q.2 ≤ xs.length := by
    intro q hq
    obtain ⟨hpulse, -⟩ := mem_pulsesWithin.mp hq
    exact ⟨hpulse.lt.le, hpulse.lt_length.le⟩
  obtain ⟨hcount, hsum⟩ := sum_windowOf hpulses
  rw [Capture.entryCount_eq _ hname, Capture.entryCharge_eq _ hname, chargeOf, h.counted,
    h.contained, hcount, hsum]
  exact ⟨rfl, rfl⟩

theorem headD_mem_concat (before : List Window) (last : Window) :
    before.headD last ∈ before ++ [last] := by
  cases before with
  | nil => exact List.mem_singleton_self last
  | cons window windows => exact List.mem_cons_self

/-- The total window that is chosen is one of the completed ones, and so are those that follow it.
-/
theorem chosen_pulse (h : c.Records xs) {total : Window} {transfers : List Window}
    (hchosen : c.chosen = some (total, transfers)) :
    (∃ t, IsPulse (marked .totalExecution) xs t ∧ total = windowOf xs t) ∧
      ∀ window ∈ transfers, ∃ t, IsPulse (marked .totalExecution) xs t ∧
      window = windowOf xs t := by
  have hcompleted : ∀ window ∈ c.completed .totalExecution,
      ∃ t, IsPulse (marked .totalExecution) xs t ∧ window = windowOf xs t := by
    intro window hwindow
    rw [h.completed] at hwindow
    obtain ⟨t, ht, rfl⟩ := List.mem_map.mp hwindow
    exact ⟨t, ((finds_edges _ xs).pulses t).mp ht, rfl⟩
  obtain ⟨last, hlast, htotals⟩ := Option.map_eq_some_iff.mp hchosen
  have hsplit := List.dropLast_append_getLast? last hlast
  rw [Capture.totals] at htotals
  split at htotals
  · obtain ⟨rfl, rfl⟩ := Prod.mk.inj htotals
    rw [hsplit]
    constructor
    · cases hfind : (c.completed .totalExecution).find? _ with
      | some window => exact hcompleted window (List.mem_of_find?_eq_some hfind)
      | none =>
          have hfirst := headD_mem_concat (c.completed .totalExecution).dropLast last
          rw [hsplit] at hfirst
          exact hcompleted _ hfirst
    · intro window hwindow
      exact hcompleted window (List.mem_filter.mp hwindow).1
  · obtain ⟨rfl, rfl⟩ := Prod.mk.inj htotals
    exact ⟨hcompleted _ (List.mem_of_getLast? hlast), nofun⟩

/-- No window is empty. -/
theorem sampleCount_ne_zero (h : c.Records xs) {t : ℕ × ℕ}
    (ht : IsPulse (marked .totalExecution) xs t) {e : WindowName × Window}
    (he : e ∈ c.selected (windowOf xs t)) : e.2.sampleCount ≠ 0 := by
  rcases List.mem_cons.mp he with rfl | he
  · exact (Nat.sub_pos_of_lt ht.lt).ne'
  · obtain ⟨name, -, hentry⟩ := List.mem_filterMap.mp he
    change (match c.contained (windowOf xs t) name with
      | [] => none
      | window :: windows => some (name, combineWindows window windows)) = some e at hentry
    rw [h.contained] at hentry
    cases hpulses : pulsesWithin (marked name) xs t with
    | nil =>
        rw [hpulses] at hentry
        exact nomatch hentry
    | cons q qs =>
        rw [hpulses] at hentry
        cases hentry
        have hq : q ∈ pulsesWithin (marked name) xs t := hpulses ▸ List.mem_cons_self
        have hlt := (mem_pulsesWithin.mp hq).1.lt
        have hpos : 0 < q.2 - q.1 := Nat.sub_pos_of_lt hlt
        exact (Nat.add_pos_left hpos _).ne'

end Capture.Records

/-! ## The partition -/

/-- D5 stands for the one component without D4, and for the other with it. -/
theorem shared_clientKem : Shared (marked .clientKem) (marked .mlkem) (marked .classicalKex) where
  or_eq x := by
    simp only [marked, windowActive]
    cases maskBit x.mask 5 <;> cases maskBit x.mask 4 <;> rfl
  disjoint x := by
    simp only [marked, windowActive]
    cases maskBit x.mask 5 <;> cases maskBit x.mask 4 <;> decide

theorem Capture.Records.partition {c : Capture} {xs : List Sample} (h : c.Records xs) {t : ℕ × ℕ}
    (ht : IsPulse (marked .totalExecution) xs t)
    (hpins : Encloses (marked .totalExecution) (marked .clientKem) xs) :
    KemPartition xs c (windowOf xs t) := by
  have hperm : (c.counted (windowOf xs t) .mlkem ++ c.counted (windowOf xs t) .classicalKex).Perm
      (c.counted (windowOf xs t) .clientKem) := by
    rw [h.counted, h.counted, h.counted]
    exact places_perm shared_clientKem hpins ht
  obtain ⟨hkem, hkemCharge⟩ := h.sums t (show WindowName.clientKem ∈ windowNames.tail by decide)
  obtain ⟨hmlkem, hmlkemCharge⟩ := h.sums t (show WindowName.mlkem ∈ windowNames.tail by decide)
  obtain ⟨hkex, hkexCharge⟩ := h.sums t (show WindowName.classicalKex ∈ windowNames.tail by decide)
  refine ⟨fun name hname ↦ (h.sums t hname).1, fun name hname ↦ (h.sums t hname).2, fun name ↦ ?_,
    fun i ↦ ?_, hperm, ?_, ?_⟩
  · rw [h.counted]
    exact nodup_places _ _ _
  · rw [h.counted, mem_places_iff hpins ht, level, Option.any_eq_true]
    rfl
  · rw [hkem, hmlkem, hkex, ← List.length_append, hperm.length_eq]
  · rw [hkemCharge, hmlkemCharge, hkexCharge, chargeOf, chargeOf, chargeOf, ← add_div,
      ← List.sum_append, ← List.map_append, (hperm.map (currentAt xs)).sum_eq]

/-- The averages of all entries are defined, and the key exchange is shared between its components
if D5 is only high while D7 is. -/
theorem kem_partition (vddMv outputRate : ℕ) (transferMode : Bool) (xs : List Sample)
    (total : Window)
    (transfers : List Window)
    (h : ((Capture.fresh vddMv outputRate transferMode).run xs).chosen = some (total, transfers)) :
    (∀ e ∈ ((Capture.fresh vddMv outputRate transferMode).run xs).selected total,
        e.2.sampleCount ≠ 0) ∧
      (∀ window ∈ transfers, window.sampleCount ≠ 0) ∧
      ((∀ x ∈ xs, maskBit x.mask 5 = true → maskBit x.mask 7 = true) →
        KemPartition xs ((Capture.fresh vddMv outputRate transferMode).run xs) total) := by
  have hrecords := Capture.records_run vddMv outputRate transferMode xs
  obtain ⟨⟨t, ht, rfl⟩, htransfers⟩ := hrecords.chosen_pulse h
  refine ⟨fun e he ↦ hrecords.sampleCount_ne_zero ht he, fun window hwindow ↦ ?_,
    fun hpins ↦ hrecords.partition ht hpins⟩
  obtain ⟨q, hq, rfl⟩ := htransfers window hwindow
  exact (Nat.sub_pos_of_lt hq.lt).ne'

/-- One pulse of each component. -/
theorem kem_partition_both :
    let xs := [0x00, 0xC0, 0xE0, 0xC0, 0xF0, 0xC0, 0xD0, 0xC0, 0x00].map (Sample.mk 100)
    KemPartition xs ((Capture.fresh 3000 100 false).run xs) ⟨1, 8, 7, 700, 100⟩ := by
  intro xs
  have hchosen : ((Capture.fresh 3000 100 false).run xs).chosen =
      some (⟨1, 8, 7, 700, 100⟩, []) := by
    decide +kernel
  exact (kem_partition 3000 100 false xs _ [] hchosen).2.2 (by decide)

end PeripheralBench.Power

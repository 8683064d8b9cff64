import Mathlib.Order.Bounds.Basic
import PeripheralBench.Power.Profiler

/-!
# The windows of a capture

Every energy figure is taken from the windows that `_process_sample` completes.  They decompose the
stream: the completed windows of a name are its pulses, one window for each, in order, and a window
is open as long as its marker is up (`windows_decompose`).
-/

open PeripheralBench.Signal

namespace PeripheralBench.Power

/-- These windows are the longest stretches of samples that satisfy the predicate of the name and
are followed by a sample that does not. -/
structure Decomposes (name : WindowName) (xs : List Sample) (windows : List Window) : Prop where
  isPulse : ∀ w ∈ windows, IsPulse (marked name) xs (w.start, w.stop)
  exists_window : ∀ q, IsPulse (marked name) xs q → ∃ w ∈ windows, (w.start, w.stop) = q
  sorted : windows.Pairwise fun v w ↦ v.stop < w.start
  sampleCount : ∀ w ∈ windows, w.sampleCount = w.stop - w.start
  one_le : ∀ w ∈ windows, 1 ≤ w.sampleCount
  sum : ∀ w ∈ windows, w.currentSumUa = (currents xs w.start w.stop).sum
  peak : ∀ w ∈ windows, IsGreatest {x | x ∈ currents xs w.start w.stop} w.peakCurrentUa

theorem isGreatest_foldl_max (a : ℚ) (l : List ℚ) :
    IsGreatest {x | x ∈ a :: l} (l.foldl max a) := by
  induction l generalizing a with
  | nil =>
      refine ⟨List.mem_cons_self, fun x hx ↦ ?_⟩
      exact (List.mem_singleton.mp hx).le
  | cons b l ih =>
      obtain ⟨hmem, hle⟩ := ih (max a b)
      rw [List.foldl_cons]
      constructor
      · rcases List.mem_cons.mp hmem with heq | hmem
        · rw [Set.mem_ofPred_eq, heq]
          rcases max_choice a b with h | h <;> rw [h]
          · exact List.mem_cons_self
          · exact List.mem_cons_of_mem _ List.mem_cons_self
        · exact List.mem_cons_of_mem _ (List.mem_cons_of_mem _ hmem)
      · intro x hx
        have hmax := hle List.mem_cons_self
        rcases List.mem_cons.mp hx with rfl | hx
        · exact (le_max_left _ _).trans hmax
        · rcases List.mem_cons.mp hx with rfl | hx
          · exact (le_max_right _ _).trans hmax
          · exact hle (List.mem_cons_of_mem _ hx)

/-- The peak is the greatest of the currents. -/
theorem isGreatest_peak {l : List ℚ} (h : l ≠ []) : IsGreatest {x | x ∈ l} (peak l) := by
  obtain ⟨a, l, rfl⟩ := List.exists_cons_of_ne_nil h
  rw [peak, List.headD_cons, List.foldl_cons, max_self]
  exact isGreatest_foldl_max a l

theorem currents_ne_nil {xs : List Sample} {a b : ℕ} (hlt : a < b) (hb : b ≤ xs.length) :
    currents xs a b ≠ [] := by
  rw [currents]
  refine List.drop_eq_nil_iff.not.mpr (Nat.not_le.mpr ?_)
  rwa [List.length_take, List.length_map, Nat.min_eq_left hb]

/-- The windows of the pulses decompose the stream. -/
theorem decomposes_pulses (name : WindowName) (xs : List Sample) :
    Decomposes name xs ((edges (marked name) xs).pulses.map (windowOf xs)) := by
  have h := finds_edges (marked name) xs
  have hpulse : ∀ w ∈ (edges (marked name) xs).pulses.map (windowOf xs),
      ∃ q, IsPulse (marked name) xs q ∧ windowOf xs q = w := by
    intro w hw
    obtain ⟨q, hq, rfl⟩ := List.mem_map.mp hw
    exact ⟨q, (h.pulses q).mp hq, rfl⟩
  constructor
  · intro w hw
    obtain ⟨q, hq, rfl⟩ := hpulse w hw
    exact hq
  · intro q hq
    exact ⟨windowOf xs q, List.mem_map_of_mem ((h.pulses q).mpr hq), rfl⟩
  · exact List.pairwise_map.mpr h.sorted
  · intro w hw
    obtain ⟨q, -, rfl⟩ := hpulse w hw
    rfl
  · intro w hw
    obtain ⟨q, hq, rfl⟩ := hpulse w hw
    exact Nat.sub_pos_of_lt hq.lt
  · intro w hw
    obtain ⟨q, -, rfl⟩ := hpulse w hw
    rfl
  · intro w hw
    obtain ⟨q, hq, rfl⟩ := hpulse w hw
    exact isGreatest_peak (currents_ne_nil hq.lt hq.lt_length.le)

/-- After any samples, the completed windows are the finished runs, and the open windows are those
of the last sample. -/
theorem Capture.windows_decompose (vddMv outputRate : ℕ) (transferMode : Bool) (xs : List Sample)
    (name : WindowName) :
    Decomposes name xs (((fresh vddMv outputRate transferMode).run xs).completed name) ∧
      ((((fresh vddMv outputRate transferMode).run xs).active name).isSome = true ↔
        ∃ x ∈ xs.getLast?, windowActive name x.mask = true) := by
  have h := records_run vddMv outputRate transferMode xs
  constructor
  · rw [h.completed]
    exact decomposes_pulses name xs
  · rw [h.active, Option.isSome_map, isSome_rise_edges, Option.any_eq_true]
    rfl

end PeripheralBench.Power

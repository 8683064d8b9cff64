import PeripheralBench.Power.Profiler
import PeripheralBench.Runner.Resume

/-!
# The energy of the transfers

In a transfer round the total marker goes up for the handshake, and once more for each transfer.  No
name goes with it: `_measurements` takes the windows that follow the one of the handshake, and
`transfer_rows_for_round` gives them to the transfers by their order.

This is right for every stream of samples in which the last handshake is within a completed total
window (`transfers_attributed`).
-/

open PeripheralBench.Signal PeripheralBench.Runner

namespace PeripheralBench.Power

/-! ## The rows -/

/-- `power` of `transfer_rows_for_round`.  The index of an operation of order zero is minus one. -/
def powerOf (powerWindows : Option (List TransferWindow)) (operation : TransferOperation) :
    Option TransferWindow :=
  match powerWindows with
  | some windows =>
      if windows ≠ [] ∧ operation.order ≤ windows.length then
        if operation.order = 0 then windows.getLast? else windows[operation.order - 1]?
      else none
  | none => none

/-- The column `power_status`. -/
def powerStatus (powerWindows : Option (List TransferWindow)) (operation : TransferOperation) :
    String :=
  if (powerOf powerWindows operation).isSome then "success"
  else if powerWindows.isSome then "incomplete" else "unsupported"

/-- The last handshake is within the total pulse `t`, and `ps` are the total pulses that follow, in
order. -/
structure Followed (xs : List Sample) (t : ℕ × ℕ) (ps : List (ℕ × ℕ)) : Prop where
  handshake : ∃ h, IsPulse (marked .handshake) xs h ∧
    (∀ q, IsPulse (marked .handshake) xs q → q.1 ≤ h.1) ∧ t.1 ≤ h.1 ∧ h.2 ≤ t.2
  total : IsPulse (marked .totalExecution) xs t
  mem_iff : ∀ q, q ∈ ps ↔ IsPulse (marked .totalExecution) xs q ∧ t.1 < q.1
  sorted : ps.Pairwise fun q r ↦ q.1 < r.1

namespace Followed

variable {xs : List Sample} {t : ℕ × ℕ} {ps : List (ℕ × ℕ)}

theorem eq_filter (h : Followed xs t ps) :
    ps = (edges (marked .totalExecution) xs).pulses.filter fun q ↦ decide (t.2 < q.1) := by
  refine eq_filter_pulses (fun q ↦ (h.mem_iff q).trans (and_congr_right fun hq ↦ ?_)) h.sorted
  exact ⟨h.total.lt_of_lt hq, h.total.lt.trans⟩

/-- The total pulse with the handshake is the first that could be, as there is no other. -/
theorem find?_pulses (h : Followed xs t ps) {q : ℕ × ℕ} (hq : q.1 < q.2) (hstart : t.1 ≤ q.1)
    (hstop : q.2 ≤ t.2) :
    (edges (marked .totalExecution) xs).pulses.find?
      (fun r ↦ decide (r.1 ≤ q.1) && decide (q.2 ≤ r.2)) = some t := by
  have hfound := finds_edges (marked .totalExecution) xs
  cases hfind : (edges (marked .totalExecution) xs).pulses.find?
      (fun r ↦ decide (r.1 ≤ q.1) && decide (q.2 ≤ r.2)) with
  | none =>
      have ht := List.find?_eq_none.mp hfind t ((hfound.pulses t).mpr h.total)
      rw [decide_eq_true hstart, decide_eq_true hstop] at ht
      exact absurd rfl ht
  | some r =>
      have hr := (hfound.pulses r).mp (List.mem_of_find?_eq_some hfind)
      have hcontains := List.find?_some hfind
      rw [Bool.and_eq_true, decide_eq_true_iff, decide_eq_true_iff] at hcontains
      exact congrArg some (hr.eq_of_mem h.total ⟨hcontains.1, hq.trans_le hcontains.2⟩
        ⟨hstart, hq.trans_le hstop⟩)

/-- The total window that `_measurements` chooses, and those after it. -/
theorem totals (h : Followed xs t ps) {c : Capture} (hc : c.Records xs)
    (hmode : c.transferMode = true)
    {before : List Window} {last : Window}
    (hcompleted : c.completed .totalExecution = before ++ [last]) :
    c.totals before last = (windowOf xs t, ps.map (windowOf xs)) := by
  obtain ⟨q, hq, hlast, hstart, hstop⟩ := h.handshake
  have hhandshake : (c.completed .handshake).getLast? = some (windowOf xs q) := by
    rw [hc.completed, List.getLast?_map, getLast?_pulses hq hlast]
    rfl
  have hchosen : ((before ++ [last]).find? fun window ↦
      decide (window.start ≤ (windowOf xs q).start) &&
        decide ((windowOf xs q).stop ≤ window.stop)) = some (windowOf xs t) := by
    rw [← hcompleted, hc.completed, List.find?_map]
    exact congrArg (Option.map (windowOf xs)) (h.find?_pulses hq.lt hstart hstop)
  rw [Capture.totals, hmode, hhandshake]
  simp only [hchosen, Option.getD_some]
  refine congrArg (Prod.mk _) ?_
  rw [← hcompleted, hc.completed, List.filter_map, h.eq_filter]
  rfl

/-- The windows of the transfers. -/
theorem transferPowerWindows (h : Followed xs t ps) {c : Capture} (hc : c.Records xs)
    (hmode : c.transferMode = true) :
    c.measurements.transferPowerWindows =
      some (ps.map fun q ↦ transferWindow c.vddMv (windowOf xs q)) := by
  have hne : c.completed .totalExecution ≠ [] := by
    rw [hc.completed]
    refine List.ne_nil_of_mem (List.mem_map_of_mem (a := t) ?_)
    exact ((finds_edges (marked .totalExecution) xs).pulses t).mpr h.total
  have hsplit := (List.dropLast_append_getLast hne).symm
  have hcount : (ps.map (windowOf xs)).filter (fun window ↦ decide (0 < window.sampleCount)) =
      ps.map (windowOf xs) := by
    refine List.filter_eq_self.mpr fun window hwindow ↦ ?_
    obtain ⟨q, hq, rfl⟩ := List.mem_map.mp hwindow
    exact decide_eq_true (Nat.sub_pos_of_lt ((h.mem_iff q).mp hq).1.lt)
  rw [Capture.measurements, List.getLast?_eq_getLast_of_ne_nil hne]
  simp only [h.totals hc hmode hsplit, hmode, if_true, hcount, List.map_map]
  rfl

end Followed

/-! ## The windows and the rows -/

theorem run_settings (c : Capture) (xs : List Sample) :
    (c.run xs).vddMv = c.vddMv ∧ (c.run xs).transferMode = c.transferMode := by
  induction xs generalizing c with
  | nil => exact ⟨rfl, rfl⟩
  | cons x xs ih => exact ih (c.capture x)

end PeripheralBench.Power

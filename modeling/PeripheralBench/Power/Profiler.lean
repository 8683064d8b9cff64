import Mathlib.Data.Nat.Bitwise
import Mathlib.Data.Rat.Floor
import PeripheralBench.Signal.Pulse

/-!
# The power profiler

The host samples the current and the marker pins together.  `_process_sample` adds each sample to
the windows that are active in it, and completes a window when its markers go down; `_measurements`
picks the windows that belong to the measured execution.  The arithmetic is exact here.

The windows of a capture are the pulses of the marker signals (`records_run`).
-/

open PeripheralBench.Signal

namespace PeripheralBench.Power

/-! ## The windows -/

/-- The keys of `WINDOW_ACTIVE`. -/
inductive WindowName where
  | totalExecution
  | handshake
  | clientKem
  | mlkem
  | classicalKex
  | clientSignature
deriving DecidableEq

/-- The string in the source. -/
def WindowName.toString : WindowName → String
  | totalExecution => "total_execution"
  | handshake => "handshake"
  | clientKem => "client_kem"
  | mlkem => "mlkem"
  | classicalKex => "classical_kex"
  | clientSignature => "client_signature"

/-- The order of the keys. -/
def windowNames : List WindowName :=
  [.totalExecution, .handshake, .clientKem, .mlkem, .classicalKex, .clientSignature]

/-- `bool(mask & (1 << i))`. -/
def maskBit (mask i : ℕ) : Bool := mask &&& (1 <<< i) ≠ 0

/-- `WINDOW_ACTIVE`. -/
def windowActive : WindowName → ℕ → Bool
  | .totalExecution, mask => maskBit mask 7
  | .handshake, mask => maskBit mask 6
  | .clientKem, mask => maskBit mask 5
  | .mlkem, mask => maskBit mask 5 && !maskBit mask 4
  | .classicalKex, mask => maskBit mask 5 && maskBit mask 4
  | .clientSignature, mask => maskBit mask 4 && !maskBit mask 5

/-- `REQUIRED_WINDOWS`. -/
def requiredWindows : List WindowName := [.totalExecution, .handshake, .clientKem, .clientSignature]

@[simp] theorem maskBit_eq (mask i : ℕ) : maskBit mask i = mask.testBit i := by
  rw [maskBit, Nat.one_shiftLeft, Nat.land_comm, Nat.two_pow_and]
  cases mask.testBit i with
  | false => rw [Bool.toNat_false, Nat.mul_zero, decide_eq_false (not_not.mpr rfl)]
  | true => rw [Bool.toNat_true, Nat.mul_one, decide_eq_true (Nat.two_pow_pos i).ne']

/-- No window is active when all pins are down. -/
theorem windowActive_zero (name : WindowName) : windowActive name 0 = false := by
  cases name <;> rfl

/-! ## Samples -/

/-- A sample: its current in microamperes, and its mask. -/
structure Sample where
  currentUa : ℚ
  mask : ℕ
deriving DecidableEq

/-- The values of `_active`. -/
structure ActiveWindow where
  start : ℕ
  count : ℕ
  sum : ℚ
  peak : ℚ
deriving DecidableEq

/-- `_Window`. -/
structure Window where
  start : ℕ
  stop : ℕ
  sampleCount : ℕ
  currentSumUa : ℚ
  peakCurrentUa : ℚ
deriving DecidableEq

/-- `PowerProfilerCapture`, without its thread and its trace. -/
structure Capture where
  vddMv : ℕ
  outputRate : ℕ
  transferMode : Bool
  sampleIndex : ℕ := 0
  active : WindowName → Option ActiveWindow := fun _ ↦ none
  completed : WindowName → List Window := fun _ ↦ []
  lastMask : ℕ := 0

namespace ActiveWindow

/-- A sample is added. -/
def add (state : ActiveWindow) (currentUa : ℚ) : ActiveWindow where
  start := state.start
  count := state.count + 1
  sum := state.sum + currentUa
  peak := max state.peak currentUa

/-- The window that is completed by the sample with this index. -/
def complete (state : ActiveWindow) (index : ℕ) : Window where
  start := state.start
  stop := index
  sampleCount := state.count
  currentSumUa := state.sum
  peakCurrentUa := state.peak

end ActiveWindow

namespace Capture

/-- `self._active.get(name)`, after the first condition of `_process_sample`. -/
def opened (c : Capture) (name : WindowName) (index : ℕ) (x : Sample) : Option ActiveWindow :=
  if windowActive name x.mask && !windowActive name c.lastMask then
    some { start := index, count := 0, sum := 0, peak := x.currentUa }
  else c.active name

/-- The second condition: the sample is added to the window. -/
def adds (c : Capture) (name : WindowName) (index : ℕ) (x : Sample) : Bool :=
  windowActive name x.mask && (c.opened name index x).isSome

/-- `self._active.get(name)`, after the second condition. -/
def added (c : Capture) (name : WindowName) (index : ℕ) (x : Sample) : Option ActiveWindow :=
  if c.adds name index x then (c.opened name index x).map fun state ↦ state.add x.currentUa
  else c.opened name index x

/-- The third condition: the window is completed. -/
def completes (c : Capture) (name : WindowName) (index : ℕ) (x : Sample) : Bool :=
  !windowActive name x.mask && windowActive name c.lastMask && (c.added name index x).isSome

/-- `_process_sample`. -/
def processSample (c : Capture) (index : ℕ) (x : Sample) : Capture :=
  { c with
    active := fun name ↦ if c.completes name index x then none else c.added name index x
    completed := fun name ↦
      if c.completes name index x then
        c.completed name ++ (c.added name index x).toList.map fun state ↦ state.complete index
      else c.completed name
    lastMask := x.mask }

/-- The body of the loop in `_capture_loop`, for one sample. -/
def capture (c : Capture) (x : Sample) : Capture :=
  { c.processSample c.sampleIndex x with sampleIndex := c.sampleIndex + 1 }

/-- The capture after these samples. -/
def run (c : Capture) (xs : List Sample) : Capture := xs.foldl capture c

end Capture

/-! ## Measurements -/

/-- Rounding to the nearest integer, and to the even one of two. -/
def roundHalfEven (x : ℚ) : ℕ :=
  let n := ⌊x⌋₊
  if x - n < 1 / 2 then n else if 1 / 2 < x - n then n + 1 else if n % 2 = 0 then n else n + 1

/-- `f"{x:.{digits}f}"`. -/
def fixed (digits : ℕ) (x : ℚ) : String :=
  let n := roundHalfEven (|x| * 10 ^ digits)
  let fraction := toString (n % 10 ^ digits)
  (if x < 0 then "-" else "") ++ toString (n / 10 ^ digits) ++ "." ++
    String.ofList (List.replicate (digits - fraction.length) '0') ++ fraction

/-- `NATIVE_SAMPLE_RATE_HZ`. -/
def nativeSampleRateHz : ℚ := 100000

/-- An element of `transfer_power_windows`. -/
structure TransferWindow where
  durationMs : String
  chargeUc : String
  energyUj : String
  avgCurrentUa : String
  peakCurrentUa : String
deriving DecidableEq

/-- The element for a window. -/
def transferWindow (vddMv : ℕ) (window : Window) : TransferWindow where
  durationMs := fixed 3 (window.sampleCount * 1000 / nativeSampleRateHz)
  chargeUc := fixed 6 (window.currentSumUa / nativeSampleRateHz)
  energyUj := fixed 6 (window.currentSumUa / nativeSampleRateHz * vddMv / 1000)
  avgCurrentUa := fixed 3 (window.currentSumUa / window.sampleCount)
  peakCurrentUa := fixed 3 window.peakCurrentUa

/-- The result of `_measurements`. -/
structure Measurements where
  powerStatus : String
  powerProfilerSampleCount : ℕ
  powerProfilerWindowCount : ℕ
  powerProfilerVddMv : ℕ
  powerProfilerOutputSamplesPerSecond : ℕ
  /-- The values of the selected windows. -/
  values : List (String × String) := []
  transferPowerWindows : Option (List TransferWindow) := none
deriving DecidableEq

/-- `_combine_windows`, of a window and more windows. -/
def combineWindows (window : Window) (windows : List Window) : Window where
  start := windows.foldl (fun n w ↦ min n w.start) window.start
  stop := windows.foldl (fun n w ↦ max n w.stop) window.stop
  sampleCount := ((window :: windows).map Window.sampleCount).sum
  currentSumUa := ((window :: windows).map Window.currentSumUa).sum
  peakCurrentUa := windows.foldl (fun x w ↦ max x w.peakCurrentUa) window.peakCurrentUa

/-- The values of a selected window. -/
def windowValues (vddMv : ℕ) (name : WindowName) (window : Window) : List (String × String) :=
  let durationS := window.sampleCount / nativeSampleRateHz
  let chargeUc := window.currentSumUa / nativeSampleRateHz
  [(name.toString ++ "_duration_ms", fixed 3 (durationS * 1000)),
    (name.toString ++ "_charge_uc", fixed 6 chargeUc),
    (name.toString ++ "_energy_uj", fixed 6 (chargeUc * vddMv / 1000)),
    (name.toString ++ "_avg_current_ua", fixed 3 (window.currentSumUa / window.sampleCount)),
    (name.toString ++ "_peak_current_ua", fixed 3 window.peakCurrentUa)]

namespace Capture

/-- `_empty_result`. -/
def emptyResult (c : Capture) (status : String) : Measurements where
  powerStatus := status
  powerProfilerSampleCount := c.sampleIndex
  powerProfilerWindowCount := (c.completed .totalExecution).length
  powerProfilerVddMv := c.vddMv
  powerProfilerOutputSamplesPerSecond := c.outputRate

/-- `total` and `transfer_totals`, from `totals` without its last element, and that. -/
def totals (c : Capture) (before : List Window) (last : Window) : Window × List Window :=
  match c.transferMode, (c.completed .handshake).getLast? with
  | true, some handshake =>
      let windows := before ++ [last]
      let total := (windows.find? fun window ↦
        decide (window.start ≤ handshake.start) && decide (handshake.stop ≤ window.stop)).getD
          (before.headD last)
      (total, windows.filter fun window ↦ decide (total.stop < window.start))
  | _, _ => (last, [])

/-- `selected`. -/
def selected (c : Capture) (total : Window) : List (WindowName × Window) :=
  (.totalExecution, total) :: windowNames.tail.filterMap fun name ↦
    match (c.completed name).filter fun window ↦
      decide (total.start ≤ window.start) && decide (window.stop ≤ total.stop) with
    | [] => none
    | window :: windows => some (name, combineWindows window windows)

/-- `_measurements`. -/
def measurements (c : Capture) : Measurements :=
  match (c.completed .totalExecution).getLast? with
  | none => c.emptyResult "incomplete"
  | some last =>
      let (total, transferTotals) := c.totals (c.completed .totalExecution).dropLast last
      let selected := c.selected total
      let status :=
        if requiredWindows.all fun name ↦ (selected.map Prod.fst).contains name then "success"
        else "incomplete"
      { c.emptyResult status with
        values := selected.flatMap fun (name, window) ↦ windowValues c.vddMv name window
        transferPowerWindows :=
          if c.transferMode then
            some ((transferTotals.filter fun window ↦ decide (0 < window.sampleCount)).map
              (transferWindow c.vddMv))
          else none }

end Capture

/-! ## The windows are the pulses -/

/-- The marker signal of a window. -/
def marked (name : WindowName) (x : Sample) : Bool := windowActive name x.mask

/-- The currents in a stretch of the samples. -/
def currents (xs : List Sample) (a b : ℕ) : List ℚ := ((xs.map Sample.currentUa).take b).drop a

/-- The greatest of some currents. -/
def peak (l : List ℚ) : ℚ := l.foldl max (l.headD 0)

/-- The window of a pulse. -/
def windowOf (xs : List Sample) (q : ℕ × ℕ) : Window where
  start := q.1
  stop := q.2
  sampleCount := q.2 - q.1
  currentSumUa := (currents xs q.1 q.2).sum
  peakCurrentUa := peak (currents xs q.1 q.2)

/-- The window of an unfinished pulse. -/
def activeOf (xs : List Sample) (a : ℕ) : ActiveWindow where
  start := a
  count := xs.length - a
  sum := (currents xs a xs.length).sum
  peak := peak (currents xs a xs.length)

theorem currents_append {xs : List Sample} {a b : ℕ} (hb : b ≤ xs.length) (x : Sample) :
    currents (xs ++ [x]) a b = currents xs a b := by
  rw [currents, currents, List.map_append, List.take_append_of_le_length]
  rwa [List.length_map]

theorem currents_append_self {xs : List Sample} {a : ℕ} (ha : a ≤ xs.length) (x : Sample) :
    currents (xs ++ [x]) a (xs ++ [x]).length = currents xs a xs.length ++ [x.currentUa] := by
  have hlength : (xs.map Sample.currentUa).length = xs.length := List.length_map _
  rw [currents, currents, ← List.length_map Sample.currentUa, List.take_length, ← hlength,
    List.take_length, List.map_append, List.drop_append_of_le_length (hlength.symm ▸ ha)]
  rfl

theorem windowOf_append {xs : List Sample} {q : ℕ × ℕ} (hq : q.2 ≤ xs.length) (x : Sample) :
    windowOf (xs ++ [x]) q = windowOf xs q := by
  rw [windowOf, windowOf, currents_append hq]

theorem complete_activeOf {xs : List Sample} (a : ℕ) (x : Sample) :
    (activeOf xs a).complete xs.length = windowOf (xs ++ [x]) (a, xs.length) := by
  rw [windowOf_append le_rfl]
  rfl

theorem add_activeOf {xs : List Sample} {a : ℕ} (ha : a < xs.length) (x : Sample) :
    (activeOf xs a).add x.currentUa = activeOf (xs ++ [x]) a := by
  have hne : currents xs a xs.length ≠ [] := by
    rw [currents, ← List.length_map Sample.currentUa, List.take_length]
    exact List.drop_eq_nil_iff.not.mpr (Nat.not_le.mpr (by rwa [List.length_map]))
  rw [activeOf, activeOf, ActiveWindow.add, currents_append_self ha.le, List.sum_append,
    List.sum_singleton, peak, peak, List.foldl_concat, List.length_append, List.length_singleton,
    Nat.succ_sub ha.le]
  obtain ⟨y, ys, hcons⟩ := List.exists_cons_of_ne_nil hne
  rw [hcons]
  rfl

/-- The first sample of a window. -/
theorem add_opened (xs : List Sample) (x : Sample) :
    ({ start := xs.length, count := 0, sum := 0, peak := x.currentUa } : ActiveWindow).add
      x.currentUa = activeOf (xs ++ [x]) xs.length := by
  have hnil : currents xs xs.length xs.length = [] :=
    List.drop_eq_nil_of_le (List.length_take_le _ _)
  rw [activeOf, ActiveWindow.add, currents_append_self le_rfl, hnil, List.length_append,
    Nat.add_sub_cancel_left, List.nil_append, List.sum_singleton]
  exact congrArg (ActiveWindow.mk xs.length 1 · (max x.currentUa x.currentUa)) (zero_add _)

namespace Capture

/-- The capture has seen these samples. -/
structure Records (c : Capture) (xs : List Sample) : Prop where
  sampleIndex : c.sampleIndex = xs.length
  lastMask : ∀ name, windowActive name c.lastMask = xs.getLast?.any (marked name)
  active : ∀ name, c.active name = (edges (marked name) xs).rise.map (activeOf xs)
  completed : ∀ name, c.completed name = (edges (marked name) xs).pulses.map (windowOf xs)

variable {c : Capture} {xs : List Sample}

theorem Records.isSome_active (h : c.Records xs) (name : WindowName) :
    (c.active name).isSome = windowActive name c.lastMask := by
  rw [h.active, Option.isSome_map, isSome_rise_edges, h.lastMask]

/-- A sample is added to exactly the windows that are active in it. -/
theorem Records.adds (h : c.Records xs) (name : WindowName) (index : ℕ) (x : Sample) :
    c.adds name index x = windowActive name x.mask := by
  have hactive := h.isSome_active name
  rw [Capture.adds, opened]
  cases windowActive name x.mask with
  | false => rfl
  | true =>
      cases hwas : windowActive name c.lastMask with
      | false => rfl
      | true => rwa [hwas] at hactive

/-- The windows that are not completed, with another sample. -/
theorem Records.added (h : c.Records xs) (name : WindowName) (x : Sample) :
    c.added name c.sampleIndex x =
      if windowActive name x.mask then
        some (activeOf (xs ++ [x]) ((edges (marked name) xs).rise.getD xs.length))
      else (edges (marked name) xs).rise.map (activeOf xs) := by
  have hactive := h.isSome_active name
  have hadds := h.adds name c.sampleIndex x
  rw [h.active, Option.isSome_map] at hactive
  rw [Capture.added, hadds, opened, h.sampleIndex, h.active, ← hactive]
  cases hhigh : windowActive name x.mask with
  | false => rfl
  | true =>
      cases hrise : (edges (marked name) xs).rise with
      | none => exact congrArg some (add_opened xs x)
      | some a =>
          have ha := ((finds_edges (marked name) xs).rise a).mp hrise
          exact congrArg some (add_activeOf ha.lt_length x)

/-- The windows that are completed. -/
theorem Records.completes (h : c.Records xs) (name : WindowName) (x : Sample) :
    c.completes name c.sampleIndex x =
      (!windowActive name x.mask && (edges (marked name) xs).rise.isSome) := by
  have hactive := h.isSome_active name
  rw [h.active, Option.isSome_map] at hactive
  rw [Capture.completes, h.added, ← hactive]
  cases windowActive name x.mask with
  | true => rfl
  | false => cases (edges (marked name) xs).rise <;> rfl

theorem Records.completed_append (h : c.Records xs) (name : WindowName) (x : Sample) :
    c.completed name = (edges (marked name) xs).pulses.map (windowOf (xs ++ [x])) := by
  rw [h.completed]
  refine List.map_congr_left fun q hq ↦ (windowOf_append ?_ x).symm
  exact (((finds_edges (marked name) xs).pulses q).mp hq).lt_length.le

theorem Records.capture (h : c.Records xs) (x : Sample) : (c.capture x).Records (xs ++ [x]) := by
  constructor
  · rw [List.length_append, ← h.sampleIndex]
    rfl
  · intro name
    rw [List.getLast?_concat]
    rfl
  · intro name
    change (if c.completes name c.sampleIndex x then none else c.added name c.sampleIndex x) = _
    rw [h.completes, h.added, edges_concat]
    obtain ⟨rise, pulses⟩ := edges (marked name) xs
    have hmarked : marked name x = windowActive name x.mask := rfl
    rw [hmarked]
    cases rise <;> cases windowActive name x.mask <;> rfl
  · intro name
    change (if c.completes name c.sampleIndex x then
      c.completed name ++ (c.added name c.sampleIndex x).toList.map fun state ↦
        state.complete c.sampleIndex else c.completed name) = _
    rw [h.completes, h.added, h.completed_append name x, h.sampleIndex, edges_concat]
    obtain ⟨rise, pulses⟩ := edges (marked name) xs
    have hmarked : marked name x = windowActive name x.mask := rfl
    rw [hmarked]
    cases rise with
    | none => cases windowActive name x.mask <;> rfl
    | some a =>
        cases windowActive name x.mask with
        | true => rfl
        | false =>
            change _ ++ [(activeOf xs a).complete xs.length] = (pulses ++ [_]).map _
            rw [complete_activeOf a x, List.map_append]
            rfl

/-- A capture that begins, with these settings. -/
def fresh (vddMv outputRate : ℕ) (transferMode : Bool) : Capture where
  vddMv := vddMv
  outputRate := outputRate
  transferMode := transferMode

theorem records_run (vddMv outputRate : ℕ) (transferMode : Bool) (xs : List Sample) :
    ((fresh vddMv outputRate transferMode).run xs).Records xs := by
  induction xs using List.reverseRecOn with
  | nil => exact ⟨rfl, windowActive_zero, fun _ ↦ rfl, fun _ ↦ rfl⟩
  | append_singleton xs x ih =>
      rw [run, List.foldl_concat]
      exact ih.capture x

end Capture

end PeripheralBench.Power

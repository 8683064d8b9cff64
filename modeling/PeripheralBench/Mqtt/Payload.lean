import PeripheralBench.Text
import Mathlib.Data.List.Range

/-!
# Deterministic payloads

The bytes of a data payload are a function of a seed and of their offset.  The C programs compute
them one by one (`patternByte`); the Python programs cut them out of a table with one period
(`payloadSlice`).  `payloadSlice_eq` says that the two agree, wherever the slice begins and however
often it runs through the table.
-/

open PeripheralBench.Text

namespace PeripheralBench.Mqtt

/-- `pattern_byte`. -/
def patternByte (seed offset : UInt32) : UInt8 :=
  (seed + offset * (31 : UInt32) + (offset >>> (8 : UInt32)) * (17 : UInt32)).toUInt8

/-- The bytes of the payload of `seed` from `offset` on. -/
def patternFrom (seed : UInt32) (offset count : ℕ) : Bytes :=
  (List.range' offset count).map fun k ↦ patternByte seed (UInt32.ofNat k)

/-- The payload of `seed` of this size. -/
def pattern (seed : UInt32) (size : ℕ) : Bytes := patternFrom seed 0 size

@[simp] theorem length_patternFrom (seed : UInt32) (offset count : ℕ) :
    (patternFrom seed offset count).length = count := by
  rw [patternFrom, List.length_map, List.length_range']

@[simp] theorem length_pattern (seed : UInt32) (size : ℕ) : (pattern seed size).length = size :=
  length_patternFrom seed 0 size

theorem patternFrom_append (seed : UInt32) (offset a b : ℕ) :
    patternFrom seed offset a ++ patternFrom seed (offset + a) b =
      patternFrom seed offset (a + b) := by
  rw [patternFrom, patternFrom, patternFrom, ← List.map_append, ← List.range'_append_1]

/-- A list is the table of a function exactly if its pieces are. -/
theorem append_eq_map_range'_iff {α : Type} (f : ℕ → α) (offset : ℕ) {a b : List α} :
    a ++ b = (List.range' offset (a ++ b).length).map f ↔
      a = (List.range' offset a.length).map f ∧
        b = (List.range' (offset + a.length) b.length).map f := by
  rw [List.length_append, ← List.range'_append_1, List.map_append]
  constructor
  · intro h
    exact List.append_inj h (by rw [List.length_map, List.length_range'])
  · rintro ⟨ha, hb⟩
    rw [← ha, ← hb]

/-- Bytes are the pattern exactly if their pieces are. -/
theorem append_eq_patternFrom_iff {seed : UInt32} {offset : ℕ} {a b : Bytes} :
    a ++ b = patternFrom seed offset (a ++ b).length ↔
      a = patternFrom seed offset a.length ∧
        b = patternFrom seed (offset + a.length) b.length :=
  append_eq_map_range'_iff _ offset

/-! ## The table of the Python programs -/

/-- `PAYLOAD_PERIOD_SIZE`. -/
def payloadPeriodSize : ℕ := 1 <<< 16

/-- `_BASE_PAYLOAD_PERIOD`. -/
def basePayloadPeriod : Bytes :=
  (List.range payloadPeriodSize).map fun offset ↦
    UInt8.ofNat ((offset * 31 + (offset >>> 8) * 17) &&& 0xFF)

/-- `payload_period`. -/
def payloadPeriod (seedLowByte : ℕ) : Bytes :=
  basePayloadPeriod.map fun value ↦ UInt8.ofNat ((value.toNat + seedLowByte) &&& 0xFF)

/-- `payload_slice`. -/
def payloadSlice (seed offset size : ℕ) : Bytes :=
  let period := payloadPeriod (seed &&& 0xFF)
  let start := offset % payloadPeriodSize
  let first := min size (payloadPeriodSize - start)
  let remaining := size - first
  (period.drop start).take first
    ++ (List.replicate (remaining / payloadPeriodSize) period).flatten
    ++ period.take (remaining % payloadPeriodSize)

/-- `payload_byte`. -/
def payloadByte (seed offset : ℕ) : UInt8 :=
  UInt8.ofNat ((seed + offset * 31 + (offset >>> 8) * 17) &&& 0xFF)

theorem toNat_payloadByte (seed offset : ℕ) :
    (payloadByte seed offset).toNat = (seed + offset * 31 + offset / 2 ^ 8 * 17) % 2 ^ 8 := by
  have hand : ∀ n : ℕ, n &&& 0xFF = n % 2 ^ 8 := fun n ↦ Nat.and_two_pow_sub_one_eq_mod n 8
  rw [payloadByte, UInt8.toNat_ofNat', hand, Nat.mod_mod, Nat.shiftRight_eq_div_pow]

theorem patternByte_eq (seed : UInt32) {k : ℕ} (h : k < 2 ^ 32) :
    patternByte seed (UInt32.ofNat k) = payloadByte seed.toNat k := by
  apply UInt8.toNat_inj.mp
  simp only [patternByte, toNat_payloadByte, UInt32.toNat_toUInt8, UInt32.toNat_add,
    UInt32.toNat_mul, UInt32.toNat_shiftRight, UInt32.toNat_ofNat', UInt32.reduceToNat,
    Nat.mod_eq_of_lt h, Nat.shiftRight_eq_div_pow, Nat.reduceMod]
  omega

/-- The payload repeats after one period. -/
theorem payloadByte_add_period (seed k n : ℕ) :
    payloadByte seed (k + n * payloadPeriodSize) = payloadByte seed k := by
  apply UInt8.toNat_inj.mp
  have hdiv : (k + n * 2 ^ 16) / 2 ^ 8 = k / 2 ^ 8 + n * 2 ^ 8 := by omega
  simp only [toNat_payloadByte, payloadPeriodSize, Nat.one_shiftLeft, hdiv]
  omega

theorem payloadPeriod_eq (seed : ℕ) :
    payloadPeriod (seed &&& 0xFF) = (List.range' 0 payloadPeriodSize).map (payloadByte seed) := by
  rw [payloadPeriod, basePayloadPeriod, List.map_map, ← List.range_eq_range']
  apply List.map_congr_left
  intro k _
  have hand : ∀ n : ℕ, n &&& 0xFF = n % 2 ^ 8 := fun n ↦ Nat.and_two_pow_sub_one_eq_mod n 8
  apply UInt8.toNat_inj.mp
  simp only [Function.comp_apply, hand, UInt8.toNat_ofNat', toNat_payloadByte,
    Nat.shiftRight_eq_div_pow]
  omega

theorem map_range'_add_period (seed start n count : ℕ) :
    (List.range' (start + n * payloadPeriodSize) count).map (payloadByte seed) =
      (List.range' start count).map (payloadByte seed) := by
  rw [Nat.add_comm start, ← List.map_add_range', List.map_map]
  apply List.map_congr_left
  intro k _
  rw [Function.comp_apply, Nat.add_comm, payloadByte_add_period]

theorem flatten_replicate_period (seed n : ℕ) :
    (List.replicate n (payloadPeriod (seed &&& 0xFF))).flatten =
      (List.range' 0 (n * payloadPeriodSize)).map (payloadByte seed) := by
  induction n with
  | zero => simp
  | succ n ih =>
      rw [List.replicate_succ', List.flatten_append, ih, List.flatten_singleton, payloadPeriod_eq,
        Nat.succ_mul, ← List.range'_append_1, List.map_append]
      congr 1
      have h := map_range'_add_period seed 0 n payloadPeriodSize
      rw [← h]

/-- Whole periods, and the beginning of another one. -/
theorem flatten_replicate_append_take (seed rest : ℕ) :
    (List.replicate (rest / payloadPeriodSize) (payloadPeriod (seed &&& 0xFF))).flatten
      ++ (payloadPeriod (seed &&& 0xFF)).take (rest % payloadPeriodSize) =
        (List.range' 0 rest).map (payloadByte seed) := by
  have hP : 0 < payloadPeriodSize := by norm_num [payloadPeriodSize]
  have hmod : rest % payloadPeriodSize ≤ payloadPeriodSize := (Nat.mod_lt _ hP).le
  have hshift := map_range'_add_period seed 0 (rest / payloadPeriodSize) (rest % payloadPeriodSize)
  rw [Nat.zero_add] at hshift
  rw [flatten_replicate_period, payloadPeriod_eq, ← List.map_take,
    List.take_range'_of_length_ge hmod, ← hshift, ← List.map_append]
  have happend := List.range'_append_1 (s := 0) (m := rest / payloadPeriodSize * payloadPeriodSize)
    (n := rest % payloadPeriodSize)
  rw [Nat.zero_add] at happend
  rw [happend, Nat.mul_comm, Nat.div_add_mod]

/-- The table gives the bytes of the definition. -/
theorem payloadSlice_eq_map (seed offset size : ℕ) :
    payloadSlice seed offset size = (List.range' offset size).map (payloadByte seed) := by
  have hP : 0 < payloadPeriodSize := by norm_num [payloadPeriodSize]
  set f := payloadByte seed
  set start := offset % payloadPeriodSize
  have hstart : start < payloadPeriodSize := Nat.mod_lt _ hP
  have hoffset : (List.range' offset size).map f = (List.range' start size).map f := by
    rw [← map_range'_add_period seed start (offset / payloadPeriodSize),
      Nat.mul_comm, Nat.mod_add_div]
  rw [hoffset, payloadSlice, List.append_assoc, flatten_replicate_append_take]
  have hfirst : ((payloadPeriod (seed &&& 0xFF)).drop start).take
      (min size (payloadPeriodSize - start)) =
        (List.range' start (min size (payloadPeriodSize - start))).map f := by
    rw [payloadPeriod_eq, ← List.map_drop, ← List.map_take, List.drop_range', Nat.zero_add,
      Nat.mul_one, List.take_range'_of_length_ge (Nat.min_le_right _ _)]
  rw [hfirst]
  by_cases hsize : size ≤ payloadPeriodSize - start
  · rw [Nat.min_eq_left hsize, Nat.sub_self]
    exact List.append_nil _
  · have hmin : min size (payloadPeriodSize - start) = payloadPeriodSize - start := by omega
    have hwrap : start + (payloadPeriodSize - start) = 0 + 1 * payloadPeriodSize := by omega
    rw [hmin, ← map_range'_add_period seed 0 1, ← hwrap, ← List.map_append,
      List.range'_append_1, Nat.add_sub_cancel' (by omega)]

/-- The two programs agree on every slice. -/
theorem payloadSlice_eq (seed : UInt32) (offset size : ℕ) (h : offset + size ≤ 2 ^ 32) :
    payloadSlice seed.toNat offset size = patternFrom seed offset size := by
  rw [payloadSlice_eq_map]
  apply List.map_congr_left
  intro k hk
  obtain ⟨i, hi, rfl⟩ := List.mem_range'.mp hk
  exact (patternByte_eq seed (by omega)).symm

end PeripheralBench.Mqtt

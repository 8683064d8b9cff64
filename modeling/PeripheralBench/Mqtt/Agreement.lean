import PeripheralBench.Mqtt.Firmware

/-!
# The payload that everybody generates

The runner, the controller and the firmware generate the payload of a transfer independently of each
other, slice by slice, and compute its digest.  `payloads_agree` says that they do not differ,
neither in what they generate nor in what they feed to SHA-256.
-/

open PeripheralBench.Stream PeripheralBench.Text PeripheralBench.Mqtt.Firmware

namespace PeripheralBench.Mqtt

/-! ## The generators of the runner -/

namespace Benchmarklib

/-- `payload_slice` of `benchmarklib/transfer.py`. -/
def payloadSlice (seed : ℕ) (offset size : ℤ) : Except String Bytes :=
  if offset < 0 ∨ size < 0 then .error "payload offset and size must be non-negative"
  else .ok (Mqtt.payloadSlice seed offset.toNat size.toNat)

/-- `payload_bytes`. -/
def payloadBytes (seed : ℕ) (size : ℤ) : Except String Bytes := payloadSlice seed 0 size

end Benchmarklib

/-- `make_payload` of the controller. -/
def makePayload (seed size : ℕ) : Bytes := payloadSlice seed 0 size

/-- A payload that is cut into slices of these sizes. -/
def slices (seed : ℕ) : ℕ → List ℕ → List Bytes
  | _, [] => []
  | offset, size :: sizes => payloadSlice seed offset size :: slices seed (offset + size) sizes

theorem flatten_slices (seed : UInt32) {offset : ℕ} {sizes : List ℕ}
    (h : offset + sizes.sum ≤ 2 ^ 32) :
    (slices seed.toNat offset sizes).flatten = payloadSlice seed.toNat offset sizes.sum := by
  rw [payloadSlice_eq seed offset _ h]
  induction sizes generalizing offset with
  | nil => rfl
  | cons size sizes ih =>
      rw [List.sum_cons] at h
      rw [List.sum_cons, slices, List.flatten_cons, ih (by omega), ← patternFrom_append,
        payloadSlice_eq seed offset size (by omega)]

/-! ## Digests -/

/-- What is fed to SHA-256 for a payload: whole periods, and the beginning of another one. -/
def periodUpdates (period : Bytes) (size : ℕ) : List Bytes :=
  List.replicate (size / payloadPeriodSize) period ++ [period.take (size % payloadPeriodSize)]

/-- What `payload_sha256` feeds to SHA-256. -/
def Benchmarklib.payloadSha256Updates (seed : ℕ) (size chunkSize : ℤ) :
    Except String (List Bytes) :=
  if size < 0 ∨ chunkSize ≤ 0 then .error "payload size and chunk size must be positive"
  else .ok (periodUpdates (payloadPeriod (seed &&& 0xFF)) size.toNat)

/-- What `payload_hash` of the controller feeds to SHA-256. -/
def payloadHashUpdates (seed size : ℕ) : List Bytes :=
  periodUpdates (payloadPeriod (seed &&& 0xFF)) size

theorem flatten_periodUpdates (seed : UInt32) {size : ℕ} (h : size ≤ 2 ^ 32) :
    (periodUpdates (payloadPeriod (seed.toNat &&& 0xFF)) size).flatten = pattern seed size := by
  have hslice := payloadSlice_eq_map seed.toNat 0 size
  rw [periodUpdates, List.flatten_append, List.flatten_singleton]
  rw [flatten_replicate_append_take, ← hslice, payloadSlice_eq seed 0 size (by omega), pattern]

/-! ## Agreement -/

/-- The programs agree on the payloads of a seed. -/
structure PayloadsAgree (seed : UInt32) : Prop where
  /-- The tables give the bytes of `payload_byte` and of `pattern_byte`. -/
  slice : ∀ offset size : ℕ, offset + size ≤ 2 ^ 32 →
    Benchmarklib.payloadSlice seed.toNat offset size =
        .ok ((List.range' offset size).map (payloadByte seed.toNat)) ∧
      payloadSlice seed.toNat offset size =
        (List.range' offset size).map (payloadByte seed.toNat) ∧
      payloadSlice seed.toNat offset size =
        (List.range' offset size).map fun k ↦ patternByte seed (UInt32.ofNat k)
  whole : ∀ size : ℕ, size ≤ 2 ^ 32 →
    Benchmarklib.payloadBytes seed.toNat size = .ok (pattern seed size) ∧
      makePayload seed.toNat size = pattern seed size
  chunks : ∀ (offset : ℕ) (sizes : List ℕ), offset + sizes.sum ≤ 2 ^ 32 →
    (slices seed.toNat offset sizes).flatten = payloadSlice seed.toNat offset sizes.sum
  /-- The Python programs hash the payload. -/
  digest : ∀ size : ℕ, size ≤ 2 ^ 32 →
    (∀ chunkSize : ℤ, 0 < chunkSize →
      (Benchmarklib.payloadSha256Updates seed.toNat size chunkSize).map List.flatten =
        .ok (pattern seed size)) ∧
      (payloadHashUpdates seed.toNat size).flatten = pattern seed size
  /-- The device sends the payload, and hashes what it sends. -/
  sent : ∀ (operation : ℕ) (size : UInt32),
    (sendPattern operation seed size.toNat 0 []).proc.Produces
      (placed operation 0 (pattern seed size.toNat)) [] (.ret (.ok (pattern seed size.toNat)))
  /-- The device accepts the payload, however it arrives, and hashes what it has received. -/
  received : ∀ (size : UInt32) (smallCapacity : ℕ) (small : Bytes), smallCapacity ≤ small.length →
    ∃ small', (readPayload smallCapacity size seed size.toNat 0 small true []).proc.Consumes
      (pattern seed size.toNat) [] (.ret (.ok (small', true, pattern seed size.toNat)))

theorem payloads_agree (seed : UInt32) : PayloadsAgree seed where
  slice offset size h := by
    have hslice := payloadSlice_eq_map seed.toNat offset size
    refine ⟨?_, hslice, payloadSlice_eq seed offset size h⟩
    rw [Benchmarklib.payloadSlice, if_neg (by omega), ← hslice]
    rfl
  whole size h := by
    have hslice := payloadSlice_eq seed 0 size ((Nat.zero_add size).trans_le h)
    refine ⟨?_, hslice⟩
    rw [Benchmarklib.payloadBytes, Benchmarklib.payloadSlice, if_neg (by omega), pattern, ← hslice]
    rfl
  chunks offset sizes := flatten_slices seed
  digest size h := by
    have hupdates := flatten_periodUpdates seed h
    refine ⟨fun chunkSize hchunk ↦ ?_, hupdates⟩
    rw [Benchmarklib.payloadSha256Updates, if_neg (by omega), ← hupdates]
    rfl
  sent operation size := by
    have hsend := produces_sendPattern operation seed size.toNat 0 []
    rwa [Nat.sub_zero, List.nil_append] at hsend
  received size smallCapacity small h := by
    obtain ⟨small', -, hread⟩ := consumes_readPayload smallCapacity size seed 0 small true []
      (pattern seed size.toNat) h
    rw [length_pattern, Nat.zero_add, List.nil_append, pattern, decide_eq_true rfl, Bool.or_true,
      Bool.and_true] at hread
    exact ⟨small', hread⟩

end PeripheralBench.Mqtt

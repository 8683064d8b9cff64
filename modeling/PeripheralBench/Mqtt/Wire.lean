import PeripheralBench.Stream.Io
import PeripheralBench.Text
import Mathlib.Data.Nat.Bitwise

/-!
# The MQTT wire format

What the three implementations have to agree on, and the two pieces of it that they all spell out
by hand.

`Publish` is a QoS 1 PUBLISH packet that fits the format, and `Publish.encode` its bytes.  The
Remaining Length is a `varint`: groups of seven bits, lowest first, with a continuation bit on every
byte but the last.  `encodeRemaining` and `readRemaining` are the writer's and the reader's loop
over those groups as the programs have them; the first agrees with `varint` (`encodeRemaining_eq`)
and the second undoes it for every fragmentation of the bytes (`consumes_readRemaining`), and
refuses a fourth byte that asks for a fifth (`consumes_readRemaining_long`).

The two C programs write `Item`s: bytes that know which place of which data payload they were
written for.  The place is there for the links of `Transfer.Session` to tamper with data payloads
only; no program can see it.
-/

open PeripheralBench.Stream PeripheralBench.Text

namespace PeripheralBench.Mqtt

/-- A byte on its way, and its place in a data payload if it belongs to one: the operation and the
offset. -/
structure Item where
  /-- The operation whose data payload the byte belongs to, and the offset in that payload. -/
  place : Option (ℕ × ℕ)
  /-- The byte itself. -/
  byte : UInt8
deriving DecidableEq

/-- Bytes that belong to no data payload. -/
def plain (bs : Bytes) : List Item := bs.map fun b ↦ ⟨none, b⟩

/-- The bytes of a data payload, from `offset` on. -/
def placed (operation : ℕ) : ℕ → Bytes → List Item
  | _, [] => []
  | offset, b :: bs => ⟨some (operation, offset), b⟩ :: placed operation (offset + 1) bs

/-- Bytes of the data payload of an operation, or of no data payload. -/
def items (operation : Option ℕ) (offset : ℕ) (bs : Bytes) : List Item :=
  match operation with
  | some operation => placed operation offset bs
  | none => plain bs

@[simp] theorem plain_append (a b : Bytes) : plain (a ++ b) = plain a ++ plain b :=
  List.map_append

theorem placed_append (operation offset : ℕ) (a b : Bytes) :
    placed operation offset (a ++ b) =
      placed operation offset a ++ placed operation (offset + a.length) b := by
  induction a generalizing offset with
  | nil => rfl
  | cons c a ih =>
      simp only [List.cons_append, placed, ih, List.length_cons, Nat.add_assoc, Nat.add_comm 1]

theorem items_append (operation : Option ℕ) (offset : ℕ) (a b : Bytes) :
    items operation offset (a ++ b) =
      items operation offset a ++ items operation (offset + a.length) b := by
  cases operation with
  | none => exact plain_append a b
  | some operation => exact placed_append operation offset a b

@[simp] theorem map_byte_plain (bs : Bytes) : (plain bs).map Item.byte = bs := by
  simp [plain, Function.comp_def]

@[simp] theorem map_byte_placed (operation offset : ℕ) (bs : Bytes) :
    (placed operation offset bs).map Item.byte = bs := by
  induction bs generalizing offset with
  | nil => rfl
  | cons b bs ih => rw [placed, List.map_cons, ih]

@[simp] theorem map_byte_items (operation : Option ℕ) (offset : ℕ) (bs : Bytes) :
    (items operation offset bs).map Item.byte = bs := by
  cases operation with
  | none => exact map_byte_plain bs
  | some operation => exact map_byte_placed operation offset bs

/-- What the two C programs let the outside see: the packets they read, the operations they enter
and the results they record. -/
inductive Event where
  /-- A packet of this type has been read where one of type `expected` is due. -/
  | packet (type expected : UInt8)
  /-- A PUBLISH on this topic has been read where one on `expected` is due. -/
  | topic (topic expected : Bytes)
  /-- A PUBACK for this packet has been read where one for `expected` is due. -/
  | puback (id expected : ℕ)
  /-- The program has entered this operation of the plan. -/
  | operation (index : ℕ)
  /-- The program has recorded this operation as a success or a failure, in this line. -/
  | record (index : ℕ) (success : Bool) (line : Bytes)
  /-- The program has printed another line. -/
  | print (line : Bytes)
deriving DecidableEq

/-- A SHA-256 digest. -/
abbrev Digest : Type := Fin 32 → UInt8

/-- The digits of `hash_to_hex`. -/
def hexDigits : Bytes := ascii "0123456789abcdef"

/-- `hash_to_hex`: a digest in lower case hexadecimal. -/
def hashToHex (digest : Digest) : Bytes :=
  (List.ofFn digest).flatMap fun b : UInt8 ↦
    [hexDigits.getD (b >>> 4).toNat 0, hexDigits.getD (b &&& 0x0F).toNat 0]

@[simp] theorem length_hashToHex (digest : Digest) : (hashToHex digest).length = 64 := by
  rw [hashToHex, List.length_flatMap]
  simp

theorem mem_hexDigits_of_mem {digest : Digest} {c : UInt8} (h : c ∈ hashToHex digest) :
    c ∈ hexDigits := by
  obtain ⟨b, -, hb⟩ := List.mem_flatMap.mp h
  have hdigit : ∀ n < 16, hexDigits.getD n 0 ∈ hexDigits := by decide
  have hhigh : (b >>> 4).toNat < 16 := by
    have := b.toNat_lt
    rw [UInt8.toNat_shiftRight, Nat.shiftRight_eq_div_pow]
    simp only [UInt8.reduceToNat, Nat.reduceMod]
    omega
  have hlow : (b &&& 0x0F).toNat < 16 := by
    rw [UInt8.toNat_and]
    exact (Nat.and_lt_two_pow b.toNat (by decide : (0x0F : UInt8).toNat < 2 ^ 4))
  simp only [List.mem_cons, List.not_mem_nil, or_false] at hb
  rcases hb with rfl | rfl
  · exact hdigit _ hhigh
  · exact hdigit _ hlow

theorem isSpace_hashToHex {digest : Digest} {c : UInt8} (h : c ∈ hashToHex digest) :
    isSpace c = false := by
  have key : hexDigits.all (fun c ↦ !isSpace c) = true := rfl
  simpa using List.all_eq_true.mp key c (mem_hexDigits_of_mem h)

theorem zero_notMem_hashToHex (digest : Digest) : 0 ∉ hashToHex digest := by
  have key : hexDigits.all (· != 0) = true := rfl
  intro h
  simpa using List.all_eq_true.mp key 0 (mem_hexDigits_of_mem h)

/-! ## Sixteen-bit numbers -/

/-- A number in two bytes, the high one first. -/
def be16 (n : ℕ) : Bytes := [UInt8.ofNat (n >>> 8), UInt8.ofNat n]

/-- `(hi << 8) | lo`. -/
def word16 (hi lo : UInt8) : ℕ := hi.toNat <<< 8 ||| lo.toNat

theorem word16_be16 {n : ℕ} (h : n < 2 ^ 16) :
    word16 (UInt8.ofNat (n >>> 8)) (UInt8.ofNat n) = n := by
  rw [word16, ← Nat.shiftLeft_add_eq_or_of_lt (UInt8.toNat_lt _), Nat.shiftLeft_eq,
    UInt8.toNat_ofNat', UInt8.toNat_ofNat', Nat.shiftRight_eq_div_pow]
  omega

/-- Read a sixteen-bit number. -/
def readWord16 {χ ω ε : Type} (e : χ) : Io χ ω UInt8 ε ℕ := do
  let word ← Io.readExact 2 e
  pure (word16 (word.getD 0 0) (word.getD 1 0))

theorem consumes_readWord16 {χ ω ε : Type} {n : ℕ} (h : n < 2 ^ 16) (e : χ) :
    (readWord16 e : Io χ ω UInt8 ε ℕ).proc.Consumes (be16 n) [] (.ret (.ok n)) := by
  have h₁ : (Io.readExact 2 e : Io χ ω UInt8 ε _).proc.Consumes (be16 n) [] (.ret (.ok (be16 n))) :=
    Io.consumes_readExact (show (be16 n).length = 2 from rfl) e
  have h₂ := Io.consumes_bind (f := fun word : Bytes ↦
    (pure (word16 (word.getD 0 0) (word.getD 1 0)) : Io χ ω UInt8 ε ℕ)) h₁ (.refl _)
  simp only [List.append_nil, Io.proc_pure] at h₂
  have hword : word16 ((be16 n).getD 0 0) ((be16 n).getD 1 0) = n := word16_be16 h
  rwa [hword] at h₂

/-! ## Remaining Length -/

/-- Groups of seven bits, lowest first, all but the last with the continuation bit. -/
def varint (n : ℕ) : Bytes :=
  if n < 128 then [UInt8.ofNat n] else UInt8.ofNat (n % 128 + 128) :: varint (n / 128)
termination_by n

theorem varint_of_lt {n : ℕ} (h : n < 128) : varint n = [UInt8.ofNat n] := by
  rw [varint, if_pos h]

theorem varint_of_le {n : ℕ} (h : 128 ≤ n) :
    varint n = UInt8.ofNat (n % 128 + 128) :: varint (n / 128) := by
  rw [varint, if_neg (Nat.not_lt.mpr h)]

/-- `encode_remaining` of the two C programs: at most `groups` bytes. -/
def encodeRemaining : ℕ → UInt32 → Bytes
  | 0, _ => []
  | groups + 1, value =>
      let digit := (value % 128).toUInt8
      let value := value / 128
      if value ≠ 0 then (digit ||| 0x80) :: encodeRemaining groups value else [digit]

/-- At most `groups` bytes of seven bits each, lowest first: the loop of all three readers.  The
C programs compute in 32 bits, which four groups do not exceed. -/
def readRemaining {χ ω ε : Type} (eof malformed : χ) : ℕ → ℕ → ℕ → Io χ ω UInt8 ε ℕ
  | 0, _, _ => throw malformed
  | groups + 1, multiplier, remaining => do
      let digit ← Io.readOne eof
      let remaining := remaining + (digit &&& 0x7F).toNat * multiplier
      if digit &&& 0x80 = 0 then pure remaining
      else readRemaining eof malformed groups (multiplier * 128) remaining

theorem and_7F_toNat (b : UInt8) : (b &&& 0x7F).toNat = b.toNat % 128 := by
  rw [UInt8.toNat_and]
  exact Nat.and_two_pow_sub_one_eq_mod b.toNat 7

theorem and_80_eq_zero_iff (b : UInt8) : b &&& 0x80 = 0 ↔ b.toNat < 128 := by
  have hb := b.toNat_lt
  have hand : (b &&& 0x80).toNat = (b.toNat.testBit 7).toNat * 2 ^ 7 := by
    rw [UInt8.toNat_and]
    exact Nat.and_two_pow b.toNat 7
  rw [← UInt8.toNat_inj, hand, Nat.testBit_eq_decide_div_mod_eq]
  by_cases h : b.toNat < 128
  · simp [h, Nat.div_eq_of_lt h]
  · have hdiv : b.toNat / 2 ^ 7 % 2 = 1 := by omega
    simpa [h] using hdiv

theorem ofNat_or_80 {n : ℕ} (h : n < 128) : UInt8.ofNat n ||| 0x80 = UInt8.ofNat (n + 128) := by
  have key : ∀ i : Fin 128, UInt8.ofNat i.val ||| 0x80 = UInt8.ofNat (i.val + 128) := by decide
  exact key ⟨n, h⟩

theorem encodeRemaining_eq {n k : ℕ} (h : n < 128 ^ (k + 1)) (hn : n < 2 ^ 32) :
    encodeRemaining (k + 1) (UInt32.ofNat n) = varint n := by
  have hdigit : (UInt32.ofNat n % 128).toUInt8 = UInt8.ofNat (n % 128) := by
    apply UInt8.toNat_inj.mp
    simp only [UInt32.toNat_toUInt8, UInt32.toNat_mod, UInt32.toNat_ofNat', UInt8.toNat_ofNat',
      UInt32.reduceToNat, Nat.mod_eq_of_lt hn]
  have hrest : UInt32.ofNat n / 128 = UInt32.ofNat (n / 128) := by
    apply UInt32.toNat_inj.mp
    simp only [UInt32.toNat_div, UInt32.toNat_ofNat', UInt32.reduceToNat, Nat.mod_eq_of_lt hn]
    omega
  have hzero : UInt32.ofNat (n / 128) = 0 ↔ n < 128 := by
    rw [← UInt32.toNat_inj, UInt32.toNat_ofNat', UInt32.toNat_zero]
    omega
  simp only [encodeRemaining, hdigit, hrest]
  by_cases hlt : n < 128
  · rw [if_neg (not_not.mpr (hzero.mpr hlt)), varint_of_lt hlt, Nat.mod_eq_of_lt hlt]
  · rw [if_pos (fun h0 ↦ hlt (hzero.mp h0)), varint_of_le (Nat.not_lt.mp hlt),
      ofNat_or_80 (Nat.mod_lt _ (by norm_num))]
    cases k with
    | zero => exact absurd (by simpa using h) hlt
    | succ k =>
        have hdiv : n / 128 < 128 ^ (k + 1) :=
          Nat.div_lt_of_lt_mul (by rw [pow_succ'] at h; exact h)
        rw [encodeRemaining_eq hdiv (by omega)]
termination_by k

/-- The reader's loop undoes `varint`. -/
theorem consumes_readRemaining {χ ω ε : Type} {n k : ℕ} (h : n < 128 ^ (k + 1)) (eof malformed : χ)
    (multiplier remaining : ℕ) :
    (readRemaining eof malformed (k + 1) multiplier remaining :
        Io χ ω UInt8 ε ℕ).proc.Consumes (varint n) []
      (.ret (.ok (remaining + n * multiplier))) := by
  induction k generalizing n multiplier remaining with
  | zero =>
      have hlt : n < 128 := by simpa using h
      have hb : (UInt8.ofNat n).toNat = n := by rw [UInt8.toNat_ofNat']; omega
      rw [varint_of_lt hlt, readRemaining]
      refine Io.consumes_bind (Io.consumes_readOne _ eof) ?_
      rw [if_pos ((and_80_eq_zero_iff _).mpr (by rwa [hb])), and_7F_toNat, hb,
        Nat.mod_eq_of_lt hlt]
      exact .refl _
  | succ k ih =>
      rw [readRemaining]
      by_cases hlt : n < 128
      · have hb : (UInt8.ofNat n).toNat = n := by rw [UInt8.toNat_ofNat']; omega
        rw [varint_of_lt hlt]
        refine Io.consumes_bind (Io.consumes_readOne _ eof) ?_
        rw [if_pos ((and_80_eq_zero_iff _).mpr (by rwa [hb])), and_7F_toNat, hb,
          Nat.mod_eq_of_lt hlt]
        exact .refl _
      · have hb : (UInt8.ofNat (n % 128 + 128)).toNat = n % 128 + 128 := by
          rw [UInt8.toNat_ofNat']; omega
        have hdiv : n / 128 < 128 ^ (k + 1) :=
          Nat.div_lt_of_lt_mul (by rw [pow_succ'] at h; exact h)
        have hvalue : remaining + (n % 128 + 128) % 128 * multiplier + n / 128 * (multiplier * 128)
            = remaining + n * multiplier := by
          have hn : n = n % 128 + 128 * (n / 128) := (Nat.mod_add_div n 128).symm
          rw [Nat.add_mod_right, Nat.mod_mod]
          nlinarith [hn]
        rw [varint_of_le (Nat.not_lt.mp hlt), ← List.singleton_append]
        refine Io.consumes_bind (Io.consumes_readOne _ eof) ?_
        have hcont : ¬ UInt8.ofNat (n % 128 + 128) &&& 0x80 = 0 := by
          rw [and_80_eq_zero_iff, hb]; omega
        rw [if_neg hcont, and_7F_toNat, hb, ← hvalue]
        exact ih hdiv _ _

/-- The reader's loop gives up on a byte that continues the number when no further one is
allowed. -/
theorem consumes_readRemaining_long {χ ω ε : Type} {groups : Bytes}
    (h : ∀ b ∈ groups, 128 ≤ b.toNat) (eof malformed : χ) (multiplier remaining : ℕ) :
    (readRemaining eof malformed groups.length multiplier remaining :
        Io χ ω UInt8 ε ℕ).proc.Consumes groups [] (.ret (.error malformed)) := by
  induction groups generalizing multiplier remaining with
  | nil => exact .refl _
  | cons b groups ih =>
      have hb : ¬ b &&& 0x80 = 0 := by
        rw [and_80_eq_zero_iff]
        exact Nat.not_lt.mpr (h b (List.mem_cons_self ..))
      rw [List.length_cons, readRemaining, ← List.singleton_append]
      refine Io.consumes_bind (Io.consumes_readOne _ eof) ?_
      rw [if_neg hb]
      exact ih (fun c hc ↦ h c (List.mem_cons_of_mem _ hc)) _ _

/-! ## PUBLISH packets -/

/-- The bytes of a QoS 1 PUBLISH before its payload. -/
def headerBytes (topic : Bytes) (id payloadSize : ℕ) : Bytes :=
  0x32 :: (varint (2 + topic.length + 2 + payloadSize) ++ be16 topic.length ++ topic ++ be16 id)

/-- The bytes of a QoS 1 PUBLISH. -/
def publishBytes (topic : Bytes) (id : ℕ) (payload : Bytes) : Bytes :=
  headerBytes topic id payload.length ++ payload

/-- A QoS 1 PUBLISH packet: its topic fits the two length bytes and its Remaining Length four
groups. -/
structure Publish where
  /-- The bytes of the topic. -/
  topic : Bytes
  /-- The packet identifier. -/
  id : UInt16
  /-- The application message. -/
  payload : Bytes
  topic_lt : topic.length < 2 ^ 16
  remaining_lt : 2 + topic.length + 2 + payload.length < 2 ^ 28

namespace Publish

variable (p : Publish)

/-- The number of bytes behind the Remaining Length. -/
def remaining : ℕ := 2 + p.topic.length + 2 + p.payload.length

/-- The bytes before the payload. -/
def header : Bytes := headerBytes p.topic p.id.toNat p.payload.length

/-- The bytes of the packet. -/
def encode : Bytes := publishBytes p.topic p.id.toNat p.payload

/-- The bytes behind the Remaining Length. -/
def body : Bytes := be16 p.topic.length ++ p.topic ++ be16 p.id.toNat ++ p.payload

theorem encode_eq_header : p.encode = p.header ++ p.payload := rfl

theorem encode_eq : p.encode = 0x32 :: (varint p.remaining ++ p.body) := by
  simp only [encode, publishBytes, headerBytes, remaining, body, List.cons_append,
    List.append_assoc]

theorem length_body : p.body.length = p.remaining := by
  simp only [body, remaining, be16, List.length_append, List.length_cons, List.length_nil]

end Publish

/-- The fields of a PUBLISH fit the format. -/
structure PublishFits (topic : Bytes) (id payloadSize : ℕ) : Prop where
  topic_lt : topic.length < 2 ^ 16
  id_lt : id < 2 ^ 16
  remaining_lt : 2 + topic.length + 2 + payloadSize < 2 ^ 28

theorem PublishFits.exists_publish {topic payload : Bytes} {id : ℕ}
    (h : PublishFits topic id payload.length) :
    ∃ p : Publish, p.topic = topic ∧ p.id.toNat = id ∧ p.payload = payload :=
  ⟨⟨topic, UInt16.ofNat id, payload, h.topic_lt, h.remaining_lt⟩, rfl,
    UInt16.toNat_ofNat_of_lt' h.id_lt, rfl⟩

/-- The bytes of a PUBACK. -/
def pubackBytes (id : ℕ) : Bytes := [0x40, 0x02] ++ be16 id

end PeripheralBench.Mqtt

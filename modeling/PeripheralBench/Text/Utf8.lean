import Mathlib.Data.List.Basic
import Mathlib.Tactic

/-!
# Decoding UTF-8

What `bytes.decode("utf-8", errors="replace")` makes of any bytes.  The bytes are read one after the
other; a character that is not completed, and a byte that begins none, become U+FFFD.
-/

namespace PeripheralBench.Text.Utf8

/-- A character that is not complete: its bits so far, the number of bytes after the next, and the
range of the next. -/
structure Partial where
  value : ℕ
  more : ℕ
  low : ℕ := 0x80
  high : ℕ := 0xBF

/-- U+FFFD. -/
def replacement : Char := Char.ofNat 0xFFFD

/-- What the first byte of a character says. -/
def lead (b : UInt8) : Char ⊕ Partial :=
  let n := b.toNat
  if n < 0x80 then .inl (Char.ofNat n)
  else if n < 0xC2 then .inl replacement
  else if n < 0xE0 then .inr { value := n - 0xC0, more := 0 }
  else if n = 0xE0 then .inr { value := 0, more := 1, low := 0xA0 }
  else if n = 0xED then .inr { value := n - 0xE0, more := 1, high := 0x9F }
  else if n < 0xF0 then .inr { value := n - 0xE0, more := 1 }
  else if n = 0xF0 then .inr { value := 0, more := 2, low := 0x90 }
  else if n < 0xF4 then .inr { value := n - 0xF0, more := 2 }
  else if n = 0xF4 then .inr { value := 4, more := 2, high := 0x8F }
  else .inl replacement

/-- The next byte of a character, if it is one. -/
def Partial.next (p : Partial) (b : UInt8) : Option (Char ⊕ Partial) :=
  if p.low ≤ b.toNat ∧ b.toNat ≤ p.high then
    let value := p.value * 64 + (b.toNat - 0x80)
    match p.more with
    | 0 => some (.inl (Char.ofNat value))
    | more + 1 => some (.inr { value := value, more := more })
  else none

/-- The characters, after the beginning of one. -/
def decodeFrom : Option Partial → List UInt8 → List Char
  | none, [] => []
  | some _, [] => [replacement]
  | none, b :: bytes =>
      match lead b with
      | .inl c => c :: decodeFrom none bytes
      | .inr p => decodeFrom (some p) bytes
  | some p, b :: bytes =>
      match p.next b with
      | some (.inl c) => c :: decodeFrom none bytes
      | some (.inr p) => decodeFrom (some p) bytes
      | none =>
          match lead b with
          | .inl c => replacement :: c :: decodeFrom none bytes
          | .inr p => replacement :: decodeFrom (some p) bytes

/-- `raw.decode("utf-8", errors="replace")`. -/
def decode (raw : List UInt8) : List Char := decodeFrom none raw

theorem decode_singleton (b : UInt8) : ∃ c, decode [b] = [c] := by
  rw [decode, decodeFrom]
  cases lead b with
  | inl c => exact ⟨c, rfl⟩
  | inr p => exact ⟨replacement, rfl⟩

/-- ASCII is what it is. -/
theorem decode_of_lt {raw : List UInt8} (h : ∀ b ∈ raw, b.toNat < 0x80) :
    decode raw = raw.map fun b ↦ Char.ofNat b.toNat := by
  induction raw with
  | nil => rfl
  | cons b raw ih =>
      have hlead : lead b = .inl (Char.ofNat b.toNat) := if_pos (h b (.head _))
      rw [decode, decodeFrom, hlead, List.map_cons]
      exact congrArg (List.cons _) (ih fun c hc ↦ h c (.tail _ hc))

end PeripheralBench.Text.Utf8

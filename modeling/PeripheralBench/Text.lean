import Mathlib.Data.List.Basic
import Mathlib.Data.List.Infix
import Mathlib.Data.List.TakeWhile
import Mathlib.Data.Nat.Digits.Lemmas
import Mathlib.Tactic

/-!
# Byte strings as the C library sees them

The two C programs build and take apart short texts with `snprintf`, `sscanf`, `strcmp` and
`memcpy`.  This file has those functions over lists of bytes, as far as the programs use them: the
conversions `%u`, `%lld` and `%s` on the way out, and `%u`, `%Ns`, white space and literal text on
the way in.  The round trips (`unsigned_decimal`, `word_append`) say that a number or a word is read
back from the text it was printed to.
-/

namespace PeripheralBench

/-- Raw bytes. -/
abbrev Bytes : Type := List UInt8

namespace Text

/-- The bytes of a text all of whose characters are ASCII. -/
def ascii (s : String) : Bytes := s.toList.map fun c ↦ UInt8.ofNat c.toNat

/-- The C string that starts a buffer. -/
def cstr (bs : Bytes) : Bytes := bs.takeWhile (· ≠ 0)

/-- `strcmp(a, b) == 0`. -/
def strEq (a b : Bytes) : Bool := cstr a = cstr b

/-- The contents of `buffer` after `memcpy(buffer + offset, data, …)`. -/
def memcpy (buffer : Bytes) (offset : ℕ) (data : Bytes) : Bytes :=
  buffer.take offset ++ data ++ buffer.drop (offset + data.length)

/-- The contents of a buffer of `capacity` bytes after `snprintf` has put `text` there, without the
terminating NUL. -/
def snprintf (capacity : ℕ) (text : Bytes) : Bytes := text.take (capacity - 1)

theorem cstr_of_notMem {bs : Bytes} (h : 0 ∉ bs) : cstr bs = bs := by
  apply List.takeWhile_eq_self_iff.mpr
  intro b hb
  simpa using fun h0 : b = 0 ↦ h (h0 ▸ hb)

theorem cstr_append_zero {bs : Bytes} (h : 0 ∉ bs) (rest : Bytes) :
    cstr (bs ++ 0 :: rest) = bs := by
  rw [cstr, List.takeWhile_append_of_pos]
  · simp
  · intro b hb
    simpa using fun h0 : b = 0 ↦ h (h0 ▸ hb)

theorem strEq_iff {a b : Bytes} (ha : 0 ∉ a) (hb : 0 ∉ b) : strEq a b = true ↔ a = b := by
  rw [strEq, cstr_of_notMem ha, cstr_of_notMem hb, decide_eq_true_iff]

@[simp] theorem strEq_self (a : Bytes) : strEq a a = true := decide_eq_true rfl

theorem snprintf_of_lt {capacity : ℕ} {text : Bytes} (h : text.length < capacity) :
    snprintf capacity text = text := List.take_of_length_le (by omega)

theorem length_memcpy {buffer data : Bytes} {offset : ℕ}
    (h : offset + data.length ≤ buffer.length) :
    (memcpy buffer offset data).length = buffer.length := by
  simp only [memcpy, List.length_append, List.length_take, List.length_drop]
  omega

theorem memcpy_nil (buffer : Bytes) (offset : ℕ) : memcpy buffer offset [] = buffer := by
  rw [memcpy, List.append_nil, List.length_nil, Nat.add_zero, List.take_append_drop]

/-- Copying two pieces one behind the other copies the whole. -/
theorem memcpy_memcpy {buffer a b : Bytes} {offset : ℕ}
    (h : offset + a.length + b.length ≤ buffer.length) :
    memcpy (memcpy buffer offset a) (offset + a.length) b = memcpy buffer offset (a ++ b) := by
  have htake : (memcpy buffer offset a).take (offset + a.length) = buffer.take offset ++ a := by
    rw [memcpy, List.take_left']
    simp only [List.length_append, List.length_take]
    omega
  have hdrop : (memcpy buffer offset a).drop (offset + a.length + b.length) =
      buffer.drop (offset + (a.length + b.length)) := by
    have hlen : (buffer.take offset ++ a).length = offset + a.length := by
      simp only [List.length_append, List.length_take]
      omega
    rw [memcpy, Nat.add_assoc, ← Nat.add_assoc, ← List.drop_drop, ← hlen, List.drop_left, hlen,
      List.drop_drop, Nat.add_assoc]
  rw [memcpy, htake, hdrop, memcpy, List.length_append, List.append_assoc (buffer.take offset)]

/-! ## Numbers -/

/-- The text of `%u`. -/
def decimal (n : ℕ) : Bytes :=
  if n = 0 then [48] else (Nat.digits 10 n).reverse.map fun d ↦ UInt8.ofNat (48 + d)

/-- The text of `%d` and `%lld`. -/
def signedDecimal (z : ℤ) : Bytes := if z < 0 then 45 :: decimal z.natAbs else decimal z.natAbs

/-- `isdigit`. -/
def isDigit (b : UInt8) : Bool := 48 ≤ b.toNat && b.toNat ≤ 57

/-- `isspace`. -/
def isSpace (b : UInt8) : Bool := b.toNat = 32 || 9 ≤ b.toNat && b.toNat ≤ 13

/-- The value of a string of digits. -/
def digitsValue (bs : Bytes) : ℕ := bs.foldl (fun v b ↦ 10 * v + (b.toNat - 48)) 0

theorem toNat_digit {d : ℕ} (h : d < 10) : (UInt8.ofNat (48 + d)).toNat = 48 + d := by
  rw [UInt8.toNat_ofNat']
  omega

theorem decimal_ne_nil (n : ℕ) : decimal n ≠ [] := by
  rw [decimal]
  split
  · exact List.cons_ne_nil _ _
  · simpa [Nat.digits_ne_nil_iff_ne_zero] using ‹n ≠ 0›

theorem isDigit_of_mem_decimal {n : ℕ} {b : UInt8} (h : b ∈ decimal n) : isDigit b = true := by
  rw [decimal] at h
  split at h
  · rw [List.mem_singleton.mp h]; rfl
  · obtain ⟨d, hd, rfl⟩ := List.mem_map.mp h
    have hlt : d < 10 := Nat.digits_lt_base (by norm_num) (List.mem_reverse.mp hd)
    simp only [isDigit, toNat_digit hlt, Bool.and_eq_true, decide_eq_true_eq]
    omega

theorem digitsValue_decimal (n : ℕ) : digitsValue (decimal n) = n := by
  rw [decimal]
  split
  · subst_vars; rfl
  · have key : ∀ l : List ℕ, (∀ d ∈ l, d < 10) →
        digitsValue (l.reverse.map fun d ↦ UInt8.ofNat (48 + d)) = Nat.ofDigits 10 l := by
      intro l
      induction l with
      | nil => intro _; rfl
      | cons d l ih =>
          intro h
          have hd := toNat_digit (h d (List.mem_cons_self ..))
          have ih' := ih fun e he ↦ h e (List.mem_cons_of_mem _ he)
          rw [digitsValue] at ih'
          rw [digitsValue, List.reverse_cons, List.map_append, List.foldl_append, ih']
          simp only [List.map_cons, List.map_nil, List.foldl_cons, List.foldl_nil, hd,
            Nat.ofDigits_cons]
          omega
    rw [key _ fun d hd ↦ Nat.digits_lt_base (by norm_num) hd, Nat.ofDigits_digits]

theorem length_decimal_le {n k : ℕ} (hk : k ≠ 0) (h : n < 10 ^ k) : (decimal n).length ≤ k := by
  rw [decimal]
  split
  · simpa using Nat.one_le_iff_ne_zero.mpr hk
  · rw [List.length_map, List.length_reverse]
    exact (Nat.digits_length_le_iff (by norm_num) n).mpr h

theorem length_signedDecimal_le {z : ℤ} {k : ℕ} (hk : k ≠ 0) (h : z.natAbs < 10 ^ k) :
    (signedDecimal z).length ≤ k + 1 := by
  have := length_decimal_le hk h
  rw [signedDecimal]
  split
  · simpa using this
  · omega

theorem isSpace_of_isDigit {b : UInt8} (h : isDigit b = true) : isSpace b = false := by
  simp only [isDigit, isSpace, Bool.and_eq_true, decide_eq_true_eq, Bool.or_eq_false_iff,
    decide_eq_false_iff_not, Bool.and_eq_false_iff] at h ⊢
  omega

theorem ne_zero_of_isDigit {b : UInt8} (h : isDigit b = true) : b ≠ 0 := by
  rintro rfl
  exact Bool.noConfusion h

/-! ## Scanning -/

/-- A piece of an `sscanf` format: what it converts, and the text behind it. -/
abbrev Scan : Type → Type := StateT Bytes Option

namespace Scan

/-- White space in a format. -/
def space : Scan Unit := fun bs ↦ some ((), bs.dropWhile isSpace)

/-- Literal text in a format. -/
def literal (text : Bytes) : Scan Unit := fun bs ↦
  if text <+: bs then some ((), bs.drop text.length) else none

/-- `%u`: white space, an optional sign and digits, converted as `strtoul` does. -/
def unsigned : Scan UInt32 := fun bs ↦
  let bs := bs.dropWhile isSpace
  let negative := bs.head? = some 45
  let bs := if negative ∨ bs.head? = some 43 then bs.drop 1 else bs
  let digits := bs.takeWhile isDigit
  if digits = [] then none
  else
    let value := digitsValue digits
    -- `strtoul` answers `ULONG_MAX` when the number does not fit.
    some (if 2 ^ 32 ≤ value then UInt32.ofNat (2 ^ 32 - 1)
      else if negative then 0 - UInt32.ofNat value else UInt32.ofNat value, bs.drop digits.length)

/-- `%Ns`: white space and then at most `max` other characters. -/
def word (max : ℕ) : Scan Bytes := fun bs ↦
  let bs := bs.dropWhile isSpace
  let text := (bs.takeWhile fun b ↦ !isSpace b).take max
  if text = [] then none else some (text, bs.drop text.length)

/-- `sscanf` of a C string: what the format converts, if it converts everything. -/
def run {α : Type} (format : Scan α) (buffer : Bytes) : Option α :=
  (format (cstr buffer)).map Prod.fst

theorem run_eq {α : Type} {format : Scan α} {buffer text rest : Bytes} {a : α}
    (hbuffer : cstr buffer = text) (h : format text = some (a, rest)) :
    format.run buffer = some a := by
  rw [run, hbuffer, h]
  rfl

/-- A piece of a format after another. -/
theorem bind_of_eq {α γ : Type} {x : Scan α} {f : α → Scan γ} {bs rest : Bytes} {a : α}
    (h : x bs = some (a, rest)) : (x >>= f) bs = f a rest := by
  simp only [bind, StateT.bind, h, Option.bind_some]

theorem space_cons {b : UInt8} {bs : Bytes} (hb : isSpace b = false) :
    space (32 :: b :: bs) = some ((), b :: bs) := by
  simp [space, hb, show isSpace 32 = true from rfl]

theorem literal_append (text rest : Bytes) : literal text (text ++ rest) = some ((), rest) := by
  rw [literal, if_pos (List.prefix_append _ _), List.drop_left]

theorem takeWhile_append_of_stop {α : Type} {p : α → Bool} {xs rest : List α}
    (hxs : ∀ x ∈ xs, p x = true) (hrest : ∀ x ∈ rest.head?, p x = false) :
    (xs ++ rest).takeWhile p = xs := by
  rw [List.takeWhile_append_of_pos hxs]
  cases rest with
  | nil => simp
  | cons x rest => simp [hrest x rfl]

/-- A printed number is read back, up to the first character that is not a digit. -/
theorem unsigned_decimal {n : ℕ} (hn : n < 2 ^ 32) {rest : Bytes}
    (hrest : ∀ b ∈ rest.head?, isDigit b = false) :
    unsigned (decimal n ++ rest) = some (UInt32.ofNat n, rest) := by
  obtain ⟨b, bs, hb⟩ := List.exists_cons_of_ne_nil (decimal_ne_nil n)
  have hdigit : isDigit b = true := isDigit_of_mem_decimal (n := n) (by rw [hb]; simp)
  have hdrop : (decimal n ++ rest).dropWhile isSpace = decimal n ++ rest := by
    rw [hb, List.cons_append, List.dropWhile_cons_of_neg (by simp [isSpace_of_isDigit hdigit])]
  have hhead : (decimal n ++ rest).head? = some b := by rw [hb]; rfl
  have hsign : ∀ c : UInt8, isDigit c = false → some b ≠ some c := by
    rintro c hc ⟨⟩
    rw [hdigit] at hc
    exact Bool.noConfusion hc
  have hminus : some b ≠ some (45 : UInt8) := hsign _ rfl
  have hplus : some b ≠ some (43 : UInt8) := hsign _ rfl
  have htake : (decimal n ++ rest).takeWhile isDigit = decimal n :=
    takeWhile_append_of_stop (fun c hc ↦ isDigit_of_mem_decimal hc) hrest
  simp only [unsigned, hdrop, hhead, hminus, hplus, or_self, if_false, htake, decimal_ne_nil,
    digitsValue_decimal, List.drop_left, Nat.not_le.mpr hn]

/-- A word is read back, up to the first white space. -/
theorem word_append {text rest : Bytes} {max : ℕ} (hne : text ≠ []) (hlen : text.length ≤ max)
    (htext : ∀ b ∈ text, isSpace b = false) (hrest : ∀ b ∈ rest.head?, isSpace b = true) :
    word max (text ++ rest) = some (text, rest) := by
  obtain ⟨b, bs, hb⟩ := List.exists_cons_of_ne_nil hne
  have hspace : isSpace b = false := htext b (by rw [hb]; simp)
  have hdrop : (text ++ rest).dropWhile isSpace = text ++ rest := by
    rw [hb, List.cons_append, List.dropWhile_cons_of_neg (by simp [hspace])]
  have htake : (text ++ rest).takeWhile (fun b ↦ !isSpace b) = text :=
    takeWhile_append_of_stop (fun c hc ↦ by simp [htext c hc]) fun c hc ↦ by simp [hrest c hc]
  simp only [word, hdrop, htake, List.take_of_length_le hlen, hne, if_false, List.drop_left]

end Scan

end Text

end PeripheralBench

import PeripheralBench.Codec.Delimited

/-!
# JSON texts

What `json.dumps` makes of strings, truth values, lists of strings and dictionaries of these.  All
its texts are self-delimiting: a string ends with the first quotation mark that is not escaped, and
a list and a dictionary with a bracket that no element begins with.
-/

namespace PeripheralBench.Codec.Json

/-! ## Strings -/

/-- A hexadecimal digit. -/
def hexDigit (n : ℕ) : Char := if n < 10 then Char.ofNat (48 + n) else Char.ofNat (87 + n)

/-- The value of a hexadecimal digit. -/
def hexValue (c : Char) : ℕ := if c.toNat < 58 then c.toNat - 48 else c.toNat - 87

/-- `f"\\u{n:04x}"`. -/
def unicodeEscape (n : ℕ) : List Char :=
  ['\\', 'u', hexDigit (n / 4096), hexDigit (n / 256 % 16), hexDigit (n / 16 % 16),
    hexDigit (n % 16)]

/-- A character in a string, with `ensure_ascii`. -/
def escape (c : Char) : List Char :=
  if c = '"' then ['\\', '"']
  else if c = '\\' then ['\\', '\\']
  else if c = '\n' then ['\\', 'n']
  else if c = '\r' then ['\\', 'r']
  else if c = '\t' then ['\\', 't']
  else if c.toNat = 12 then ['\\', 'f']
  else if c.toNat = 8 then ['\\', 'b']
  else if 32 ≤ c.toNat ∧ c.toNat ≤ 126 then [c]
  else if c.toNat < 0x10000 then unicodeEscape c.toNat
  else
    -- a surrogate pair
    unicodeEscape (0xD800 + (c.toNat - 0x10000) / 1024) ++
      unicodeEscape (0xDC00 + (c.toNat - 0x10000) % 1024)

/-- The number behind `\u`. -/
def unicodeValue (a b c d : Char) : ℕ :=
  hexValue a * 4096 + hexValue b * 256 + hexValue c * 16 + hexValue d

/-- The character that an escape stands for, from what is behind its backslash. -/
def escaped : List Char → Option Char
  | 'u' :: a :: b :: c :: d :: rest =>
      let high := unicodeValue a b c d
      if 0xD800 ≤ high ∧ high < 0xDC00 then
        match rest with
        | _ :: _ :: a :: b :: c :: d :: _ =>
            some (Char.ofNat (0x10000 + (high - 0xD800) * 1024 + (unicodeValue a b c d - 0xDC00)))
        | _ => none
      else some (Char.ofNat high)
  | c :: _ =>
      if c = 'n' then some '\n'
      else if c = 'r' then some '\r'
      else if c = 't' then some '\t'
      else if c = 'f' then some (Char.ofNat 12)
      else if c = 'b' then some (Char.ofNat 8)
      else some c
  | [] => none

/-- The character that a text begins with. -/
def unescape : List Char → Option Char
  | [] => none
  | c :: rest => if c = '\\' then escaped rest else some c

theorem hexValue_hexDigit {n : ℕ} (h : n < 16) : hexValue (hexDigit n) = n := by
  have hall : ∀ n < 16, hexValue (hexDigit n) = n := by decide
  exact hall n h

theorem unicodeValue_hexDigit {n : ℕ} (h : n < 0x10000) :
    unicodeValue (hexDigit (n / 4096)) (hexDigit (n / 256 % 16)) (hexDigit (n / 16 % 16))
      (hexDigit (n % 16)) = n := by
  rw [unicodeValue, hexValue_hexDigit (by omega), hexValue_hexDigit (by omega),
    hexValue_hexDigit (by omega), hexValue_hexDigit (by omega)]
  omega

theorem eq_ofNat {c : Char} {n : ℕ} (h : c.toNat = n) : c = Char.ofNat n := by
  rw [← h, Char.ofNat_toNat]

theorem unescape_escape (c : Char) (rest : List Char) : unescape (escape c ++ rest) = some c := by
  rw [escape]
  split
  case isTrue h => rw [h]; rfl
  split
  case isTrue h => rw [h]; rfl
  split
  case isTrue h => rw [h]; rfl
  split
  case isTrue h => rw [h]; rfl
  split
  case isTrue h => rw [h]; rfl
  split
  case isTrue h => rw [eq_ofNat h]; rfl
  split
  case isTrue h => rw [eq_ofNat h]; rfl
  split
  case isTrue h => exact if_neg ‹¬ c = '\\'›
  have hvalid : c.toNat < 0xD800 ∨ 0xDFFF < c.toNat ∧ c.toNat < 0x110000 := c.valid
  split
  case isTrue h =>
    have hvalue := unicodeValue_hexDigit h
    rw [unicodeEscape, List.cons_append, unescape, if_pos rfl]
    simp only [List.cons_append, List.nil_append, escaped]
    rw [hvalue, if_neg (by omega), Char.ofNat_toNat]
  case isFalse h =>
    have hhigh := unicodeValue_hexDigit (n := 0xD800 + (c.toNat - 0x10000) / 1024) (by omega)
    have hlow := unicodeValue_hexDigit (n := 0xDC00 + (c.toNat - 0x10000) % 1024) (by omega)
    rw [unicodeEscape, List.cons_append, List.cons_append, unescape, if_pos rfl]
    simp only [unicodeEscape, List.cons_append, List.nil_append, escaped]
    rw [hhigh, hlow, if_pos (by omega)]
    refine congrArg some (eq_ofNat ?_).symm
    omega

/-- `json.dumps` of a string. -/
def dumpsStr (s : List Char) : List Char := '"' :: (s.flatMap escape ++ ['"'])

theorem delimited_escape : Delimited escape := .of_decode unescape unescape_escape

theorem escape_start (c : Char) : ∃ x xs, escape c = x :: xs ∧ x ≠ '"' := by
  rw [escape]
  split
  · exact ⟨_, _, rfl, by decide⟩
  split
  · exact ⟨_, _, rfl, by decide⟩
  split
  · exact ⟨_, _, rfl, by decide⟩
  split
  · exact ⟨_, _, rfl, by decide⟩
  split
  · exact ⟨_, _, rfl, by decide⟩
  split
  · exact ⟨_, _, rfl, by decide⟩
  split
  · exact ⟨_, _, rfl, by decide⟩
  split
  · exact ⟨_, _, rfl, ‹_›⟩
  split
  · exact ⟨_, _, rfl, by decide⟩
  · exact ⟨_, _, rfl, by decide⟩

theorem delimited_dumpsStr : Delimited dumpsStr :=
  (delimited_escape.closed escape_start).after ['"']

/-! ## Values and dictionaries -/

/-- A value. -/
inductive Value where
  | str (s : List Char)
  | bool (b : Bool)
  | list (l : List (List Char))
deriving DecidableEq

/-- `json.dumps` of a value. -/
def dumps : Value → List Char
  | .str s => dumpsStr s
  | .bool b => (if b then "true" else "false").toList
  | .list l => '[' :: (join [',', ' '] (l.map dumpsStr) ++ [']'])

/-- `json.dumps` of a dictionary with these entries. -/
def dumpsObject (entries : List (List Char × Value)) : List Char :=
  '{' :: (join [',', ' ']
    (entries.map fun (key, value) ↦ dumpsStr key ++ ([':', ' '] ++ dumps value)) ++
    ['}'])

theorem delimited_dumpsList :
    Delimited fun l : List (List Char) ↦ '[' :: (join [',', ' '] (l.map dumpsStr) ++ [']']) :=
  (delimited_dumpsStr.separated (x := ',') (c := ']') (by decide)
    fun _ ↦ ⟨_, _, rfl, by decide⟩).after ['[']

theorem delimited_dumps : Delimited dumps := by
  refine .of_eq fun a b r s heq ↦ ?_
  cases a with
  | str t =>
      cases b with
      | str t' => exact congrArg Value.str (delimited_dumpsStr heq).1
      | bool b => cases b <;> exact absurd (List.cons.inj heq).1 (by decide)
      | list l => exact absurd (List.cons.inj heq).1 (by decide)
  | bool t =>
      cases b with
      | str _ => cases t <;> exact absurd (List.cons.inj heq).1 (by decide)
      | bool t' =>
          cases t <;> cases t' <;> first | rfl | exact absurd (List.cons.inj heq).1 (by decide)
      | list _ => cases t <;> exact absurd (List.cons.inj heq).1 (by decide)
  | list l =>
      cases b with
      | str t => exact absurd (List.cons.inj heq).1 (by decide)
      | bool b => cases b <;> exact absurd (List.cons.inj heq).1 (by decide)
      | list l' => exact congrArg Value.list (delimited_dumpsList heq).1

theorem delimited_dumpsObject : Delimited dumpsObject :=
  (((delimited_dumpsStr.prod (delimited_dumps.after [':', ' '])).separated (x := ',') (c := '}')
    (by decide) fun _ ↦ ⟨_, _, rfl, by decide⟩).after ['{'])

end PeripheralBench.Codec.Json

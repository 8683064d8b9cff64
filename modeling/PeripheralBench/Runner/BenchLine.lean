import Mathlib.Data.List.DropRight
import Mathlib.Data.List.Infix
import Mathlib.Data.List.TakeWhile
import Mathlib.Tactic

/-!
# Lines of the logs

The board, the bridge and the servers report in lines of the form `[BENCH_KIND] key=value …`, which
`parse_bench_line` of `benchmarklib/metrics.py` takes apart.  A `str` is its list of characters, and
a dictionary of strings the list of its entries.
-/

namespace PeripheralBench.Runner

/-- A `str`. -/
abbrev Str : Type := List Char

namespace Str

/-- `str.isspace` of a character, which is also `\s` of a regular expression. -/
def isSpace (c : Char) : Bool :=
  let n := c.toNat
  (9 ≤ n && n ≤ 13) || (28 ≤ n && n ≤ 32) || n = 0x85 || n = 0xA0 || n = 0x1680
    || (0x2000 ≤ n && n ≤ 0x200A) || n = 0x2028 || n = 0x2029 || n = 0x202F || n = 0x205F
    || n = 0x3000

/-- `str.strip()`. -/
def strip (s : Str) : Str := (s.dropWhile isSpace).rdropWhile isSpace

/-- `str.split()`. -/
def split (s : Str) : List Str := (s.splitOnP isSpace).filter (· ≠ [])

/-- `token.split("=", 1)`, if there is a `=` in the token. -/
def keyValue (token : Str) : Option (Str × Str) :=
  if '=' ∈ token then some (token.takeWhile (· ≠ '='), (token.dropWhile (· ≠ '=')).drop 1) else none

end Str

/-- A `dict` from strings to strings: its entries, with different keys. -/
abbrev Values : Type := List (Str × Str)

namespace Values

/-- `d[key] = value`. -/
def set (key value : Str) : Values → Values
  | [] => [(key, value)]
  | entry :: d => if entry.1 = key then (key, value) :: d else entry :: set key value d

/-- `d.update(e)`. -/
def update (d e : Values) : Values := e.foldl (fun d entry ↦ d.set entry.1 entry.2) d

/-- `d.get(key)`. -/
def get? (d : Values) (key : Str) : Option Str := d.lookup key

/-- `d.get(key, default)`. -/
def get (d : Values) (key default : Str) : Str := (d.get? key).getD default

end Values

/-- The characters of `[A-Z_]`. -/
def isKindChar (c : Char) : Bool := ('A' ≤ c && c ≤ 'Z') || c = '_'

/-- The dictionary of the body of a line. -/
def bodyValues (body : Str) : Values :=
  (Str.split body).foldl (fun d token ↦
    match Str.keyValue token with
    | some (key, value) => d.set key value
    | none => d) []

/-- `parse_bench_line` of a single line: its kind and its dictionary. -/
def parseBenchLine (line : Str) : Option (Str × Values) :=
  let line := Str.strip line
  if "[BENCH_".toList <+: line then
    let rest := line.drop 7
    let kind := rest.takeWhile isKindChar
    match rest.drop kind.length with
    | ']' :: body => if kind = [] then none else some (kind, bodyValues body)
    | _ => none
  else none

/-- The characters of a line that starts with `[BENCH_RESULT]`. -/
def resultTag : Str := "[BENCH_RESULT]".toList

theorem rdropWhile_append {α : Type} {p : α → Bool} {a : List α}
    (hlast : ∀ c ∈ a.getLast?, p c = false) (b : List α) :
    (a ++ b).rdropWhile p = a ++ b.rdropWhile p := by
  induction b using List.reverseRecOn with
  | nil =>
      rw [List.append_nil, List.rdropWhile_nil, List.append_nil, List.rdropWhile_eq_self_iff]
      intro hne
      rw [hlast _ (List.getLast?_eq_some_getLast hne)]
      exact Bool.false_ne_true
  | append_singleton b c ih =>
      rw [← List.append_assoc, List.rdropWhile_concat, List.rdropWhile_concat]
      split
      · exact ih
      · exact List.append_assoc a b [c]

/-- Stripping a line that starts with the tag leaves the tag. -/
theorem strip_resultTag (rest : Str) :
    Str.strip (resultTag ++ rest) = resultTag ++ rest.rdropWhile Str.isSpace := by
  have hdrop : (resultTag ++ rest).dropWhile Str.isSpace = resultTag ++ rest := rfl
  rw [Str.strip, hdrop]
  exact rdropWhile_append (by rintro c ⟨⟩; rfl) rest

/-- A line that starts with the tag is a result, also after stripping. -/
theorem parseBenchLine_result {line : Str} (h : resultTag <+: line) :
    ∃ values, parseBenchLine line = some ("RESULT".toList, values) ∧
      parseBenchLine (Str.strip line) = some ("RESULT".toList, values) := by
  obtain ⟨rest, rfl⟩ := h
  have hstrip : Str.strip (Str.strip (resultTag ++ rest)) = Str.strip (resultTag ++ rest) := by
    rw [strip_resultTag, strip_resultTag, List.rdropWhile_idempotent]
  have hsame : parseBenchLine (Str.strip (resultTag ++ rest)) =
      parseBenchLine (resultTag ++ rest) := by
    rw [parseBenchLine, parseBenchLine, hstrip]
  simp only [hsame, and_self]
  refine ⟨bodyValues (rest.rdropWhile Str.isSpace), ?_⟩
  have htag : "[BENCH_".toList <+: resultTag ++ rest.rdropWhile Str.isSpace :=
    ⟨"RESULT]".toList ++ rest.rdropWhile Str.isSpace, rfl⟩
  rw [parseBenchLine, strip_resultTag]
  exact if_pos htag

end PeripheralBench.Runner

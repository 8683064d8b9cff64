import PeripheralBench.Fold.Overwrite
import PeripheralBench.Runner.BenchLine

/-!
# Dictionaries

What `d.get(key)` finds in a dictionary that has been written to: the latest value for the key.
-/

open PeripheralBench.Fold

namespace PeripheralBench.Runner

namespace Values

variable {d e : Values} {key k value : Str}

/-- What an entry says about a key. -/
def entryAt (k : Str) (entry : Str × Str) : Option Str := if entry.1 = k then some entry.2 else none

theorem get?_cons (entry : Str × Str) (d : Values) (k : Str) :
    get? (entry :: d) k = (entryAt k entry).or (d.get? k) := by
  rw [get?, List.lookup_cons, entryAt]
  by_cases h : entry.1 = k
  · rw [if_pos h, h, beq_self_eq_true]; rfl
  · rw [if_neg h, beq_false_of_ne (Ne.symm h)]; rfl

theorem get?_set (key value k : Str) (d : Values) :
    (d.set key value).get? k = (entryAt k (key, value)).or (d.get? k) := by
  induction d with
  | nil => rw [set, get?_cons]
  | cons entry d ih =>
      rw [set]
      by_cases hentry : entry.1 = key
      · rw [if_pos hentry, get?_cons, get?_cons]
        by_cases h : key = k
        · rw [entryAt, if_pos h, Option.some_or, Option.some_or]
        · rw [entryAt, entryAt, if_neg h, if_neg (hentry ▸ h), Option.none_or, Option.none_or]
      · rw [if_neg hentry, get?_cons, ih, get?_cons, ← Option.or_assoc, ← Option.or_assoc]
        by_cases h : key = k
        · rw [entryAt, entryAt, if_neg (h ▸ hentry), if_pos h, Option.none_or, Option.or_none]
        · rw [entryAt, entryAt, if_neg h, Option.none_or, Option.or_none]

theorem get?_set_self (key value : Str) (d : Values) : (d.set key value).get? key = some value := by
  rw [get?_set, entryAt, if_pos rfl, Option.some_or]

theorem get?_set_of_ne (h : key ≠ k) (value : Str) (d : Values) :
    (d.set key value).get? k = d.get? k := by
  rw [get?_set, entryAt, if_neg h, Option.none_or]

theorem overwrites_set (k : Str) :
    Overwrites (fun d entry ↦ Values.set entry.1 entry.2 d) (fun d ↦ d.get? k) (entryAt k) :=
  fun d entry ↦ get?_set entry.1 entry.2 k d

/-- The value that `d.update(e)` puts at a key. -/
theorem get?_update (d e : Values) (k : Str) :
    (d.update e).get? k = (latest (entryAt k) e).or (d.get? k) :=
  (overwrites_set k).look_foldl d e

end Values

end PeripheralBench.Runner

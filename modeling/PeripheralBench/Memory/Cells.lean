import Mathlib.Data.List.Basic
import Mathlib.Data.List.Infix
import Mathlib.Data.List.TakeWhile
import Mathlib.Tactic

/-!
# Cells of memory

What is in an array or in an allocated block, cell by cell.  A cell that has not been written to has
no value, and cannot be read.

Most blocks are filled from their beginning.  What has been written then is a prefix of the cells,
which the next piece extends (`prefix_overwrite`) and from which everything can be read
(`slice_of_begins`, `text_of_begins`).
-/

namespace PeripheralBench.Memory

/-- What is in a block.  A cell is `none` before something is written to it. -/
abbrev Cells (β : Type) : Type := List (Option β)

namespace Cells

variable {β : Type}

/-- The cells with some values in them. -/
def ofList (data : List β) : Cells β := data.map some

/-- Cells that have not been written to. -/
def blank (n : ℕ) : Cells β := List.replicate n none

/-- Nothing can be read from the cells. -/
def Wiped [Zero β] (cells : Cells β) : Prop := ∀ c ∈ cells, c = none ∨ c = some 0

/-- The values of the cells, if all have one. -/
def values? (cells : Cells β) : Option (List β) := cells.mapM id

/-- The cells after some values have been written to them, from `off` on. -/
def overwrite (off : ℕ) (data : List β) (cells : Cells β) : Cells β :=
  cells.take off ++ (ofList data ++ cells.drop (data.length + off))

/-- The `n` values from `off` on, if they are all there. -/
def slice (off n : ℕ) (cells : Cells β) : Option (List β) :=
  if n + off ≤ cells.length then values? ((cells.drop off).take n) else none

/-- The text up to the first zero, if there is one. -/
def text [Zero β] [DecidableEq β] (cells : Cells β) : Option (List β) :=
  if some 0 ∈ cells then values? (cells.takeWhile (· ≠ some 0)) else none

@[simp] theorem length_ofList (data : List β) : (ofList data).length = data.length :=
  List.length_map ..

@[simp] theorem length_blank (n : ℕ) : (blank n : Cells β).length = n := List.length_replicate

theorem ofList_append (a b : List β) : ofList (a ++ b) = ofList a ++ ofList b := List.map_append

theorem length_overwrite {off : ℕ} {data : List β} {cells : Cells β}
    (h : data.length + off ≤ cells.length) : (overwrite off data cells).length = cells.length := by
  rw [overwrite, List.length_append, List.length_append, length_ofList, List.length_take,
    List.length_drop]
  omega

theorem overwrite_of_length {data : List β} {cells : Cells β} (h : data.length = cells.length) :
    overwrite 0 data cells = ofList data := by
  rw [overwrite, List.take_zero, List.nil_append, Nat.add_zero, List.drop_of_length_le h.ge,
    List.append_nil]

theorem none_notMem_ofList (data : List β) : none ∉ ofList data := by
  intro h
  obtain ⟨b, -, hb⟩ := List.mem_map.mp h
  cases hb

theorem none_notMem_overwrite {off : ℕ} {data : List β} {cells : Cells β} (h : none ∉ cells) :
    none ∉ overwrite off data cells := by
  intro hmem
  rcases List.mem_append.mp hmem with hmem | hmem
  · exact h (List.mem_of_mem_take hmem)
  · rcases List.mem_append.mp hmem with hmem | hmem
    · exact none_notMem_ofList data hmem
    · exact h (List.mem_of_mem_drop hmem)

theorem wiped_zero [Zero β] (n : ℕ) : Wiped (ofList (List.replicate n (0 : β))) := by
  intro c hc
  rw [ofList, List.map_replicate] at hc
  exact .inr (List.eq_of_mem_replicate hc)

theorem values?_ofList (data : List β) : (ofList data).values? = some data := by
  induction data with
  | nil => rfl
  | cons b data ih =>
      rw [values?] at ih ⊢
      rw [ofList, List.map_cons, List.mapM_cons]
      change (do let bs ← (ofList data).mapM id; pure (b :: bs)) = some (b :: data)
      rw [ih]
      rfl

theorem exists_ofList {cells : Cells β} (h : none ∉ cells) : ∃ data, cells = ofList data := by
  induction cells with
  | nil => exact ⟨[], rfl⟩
  | cons c cells ih =>
      obtain ⟨data, rfl⟩ := ih fun hmem ↦ h (List.mem_cons_of_mem _ hmem)
      cases c with
      | none => exact absurd List.mem_cons_self h
      | some b => exact ⟨b :: data, rfl⟩

/-! ## Cells that are filled from their beginning -/

theorem prefix_overwrite {data : List β} {cells : Cells β} (h : ofList data <+: cells)
    (more : List β) : ofList (data ++ more) <+: overwrite data.length more cells := by
  obtain ⟨rest, rfl⟩ := h
  rw [overwrite, ← length_ofList data, List.take_left, ofList_append]
  exact (List.prefix_append_right_inj _).mpr (List.prefix_append _ _)

theorem prefix_overwrite_zero {data : List β} (cells : Cells β) :
    ofList data <+: overwrite 0 data cells :=
  List.prefix_append _ _

theorem length_le_of_begins {data : List β} {cells : Cells β} (h : ofList data <+: cells) :
    data.length ≤ cells.length := (length_ofList data).symm.le.trans h.length_le

theorem slice_of_begins {data : List β} {cells : Cells β} (h : ofList data <+: cells) {off n : ℕ}
    (hfit : n + off ≤ data.length) : slice off n cells = some ((data.drop off).take n) := by
  obtain ⟨rest, rfl⟩ := h
  have hlen : (ofList data).length = data.length := length_ofList data
  have htake : ((ofList data ++ rest).drop off).take n = ofList ((data.drop off).take n) := by
    rw [List.drop_append_of_le_length (by omega), List.take_append_of_le_length, ofList, ofList,
      List.map_take, List.map_drop]
    rw [List.length_drop]
    omega
  rw [slice, if_pos, htake, values?_ofList]
  rw [List.length_append]
  omega

/-- Everything that has been written is read. -/
theorem slice_zero {data : List β} {cells : Cells β} (h : ofList data <+: cells) :
    slice 0 data.length cells = some data := by
  rw [slice_of_begins h le_rfl, List.drop_zero, List.take_length]

theorem text_of_begins [Zero β] [DecidableEq β] {data : List β} {cells : Cells β}
    (h : ofList (data ++ [0]) <+: cells) : text cells = some (data.takeWhile (· ≠ 0)) := by
  obtain ⟨rest, rfl⟩ := h
  have hmem : some 0 ∈ ofList (data ++ [0]) ++ rest := by
    apply List.mem_append_left
    exact List.mem_map_of_mem (List.mem_append_right data (List.mem_singleton_self 0))
  have hwhile : (ofList (data ++ [0]) ++ rest).takeWhile (· ≠ some 0) =
      ofList (data.takeWhile (· ≠ 0)) := by
    clear hmem
    induction data with
    | nil => simp [ofList]
    | cons b data ih =>
        by_cases hb : b = 0
        · simp [ofList, hb]
        · have hcons : ofList (b :: data ++ [0]) ++ rest =
              some b :: (ofList (data ++ [0]) ++ rest) := rfl
          rw [hcons, List.takeWhile_cons_of_pos (by simpa using hb), ih,
            List.takeWhile_cons_of_pos (by simpa using hb)]
          rfl
  rw [text, if_pos hmem, hwhile, values?_ofList]

end Cells

end PeripheralBench.Memory

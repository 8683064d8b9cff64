import PeripheralBench.Memory.Cells
import Mathlib.Data.Set.Basic
import Mathlib.Logic.Function.Basic

/-!
# Blocks of memory

A program allocates blocks, fills them, reads them, and gives them back.  What a C program must not
do - use a block that is not there, go past its end, read what has not been written - sets a flag. A
block that is given back keeps what is in it.

A memory is `Sound` if nothing of that has happened, and if all that has been given back was left
`clean`.  Allocating, writing within a block and giving it back keep it sound.  `Blocks.Holds` is
what a program that tidies up after itself maintains: apart from the blocks that it holds the memory
is as it was.
-/

namespace PeripheralBench.Memory

variable {β : Type}

/-! ## Blocks by their addresses -/

/-- Something is written to a block, from `off` on. -/
def put (p off : ℕ) (data : List β) (cells : ℕ → Option (Cells β)) : ℕ → Option (Cells β) :=
  Function.update cells p ((cells p).map (Cells.overwrite off data))

/-- What is read from a block, from `off` on, if there is enough. -/
def look (p off n : ℕ) (cells : ℕ → Option (Cells β)) : Option (List β) :=
  (cells p).bind (Cells.slice off n)

/-- The size of a block, if it is there. -/
def sizeAt (cells : ℕ → Option (Cells β)) (p : ℕ) : Option ℕ := (cells p).map List.length

section

variable {cells cells' : ℕ → Option (Cells β)} {p q off n : ℕ} {data : List β}

theorem put_self {old : Cells β} (h : cells p = some old) :
    put p off data cells p = some (old.overwrite off data) := by
  rw [put, Function.update_self, h, Option.map_some]

theorem put_of_ne (h : q ≠ p) : put p off data cells q = cells q := Function.update_of_ne h _ _

theorem sizeAt_congr (h : cells p = cells' q) : sizeAt cells p = sizeAt cells' q := by
  rw [sizeAt, sizeAt, h]

theorem exists_of_sizeAt (h : sizeAt cells p = some n) :
    ∃ old : Cells β, cells p = some old ∧ old.length = n := Option.map_eq_some_iff.mp h

theorem sizeAt_put (h : sizeAt cells p = some n) (hdata : data.length + off ≤ n) (q : ℕ) :
    sizeAt (put p off data cells) q = sizeAt cells q := by
  obtain ⟨old, hold, rfl⟩ := exists_of_sizeAt h
  rcases eq_or_ne q p with rfl | hne
  · rw [sizeAt, put_self hold, h, Option.map_some, Cells.length_overwrite hdata]
  · exact sizeAt_congr (put_of_ne hne)

/-- A block that is filled from its beginning to its end. -/
theorem put_full (h : sizeAt cells p = some data.length) :
    put p 0 data cells p = some (Cells.ofList data) := by
  obtain ⟨old, hold, hlen⟩ := exists_of_sizeAt h
  rw [put_self hold, Cells.overwrite_of_length hlen.symm]

theorem look_of_full (h : cells p = some (Cells.ofList data)) :
    look p 0 data.length cells = some data := by
  rw [look, h, Option.bind_some, Cells.slice_zero List.prefix_rfl]

/-- What has been written is read. -/
theorem look_put_self (h : sizeAt cells p = some n) :
    look p 0 data.length (put p 0 data cells) = some data := by
  obtain ⟨old, hold, rfl⟩ := exists_of_sizeAt h
  rw [look, put_self hold, Option.bind_some, Cells.slice_zero (Cells.prefix_overwrite_zero old)]

theorem look_congr (h : cells p = cells' p) (off n : ℕ) :
    look p off n cells = look p off n cells' := by
  rw [look, look, h]

end

/-- All cells have been written to. -/
def Filled (cells : ℕ → Option (Cells β)) : Prop := ∀ p c, cells p = some c → none ∉ c

/-- A block with room for this much. -/
def Room (sizes : ℕ → Option ℕ) (p n : ℕ) : Prop := ∃ size, sizes p = some size ∧ n ≤ size

theorem Filled.exists_look {cells : ℕ → Option (Cells β)} (h : Filled cells) {p n : ℕ}
    (hroom : Room (sizeAt cells) p n) : ∃ data, look p 0 n cells = some data := by
  obtain ⟨size, hsize, hn⟩ := hroom
  obtain ⟨c, hc, rfl⟩ := exists_of_sizeAt hsize
  obtain ⟨data, rfl⟩ := Cells.exists_ofList (h p c hc)
  rw [Cells.length_ofList] at hn
  refine ⟨data.take n, ?_⟩
  rw [look, hc, Option.bind_some, Cells.slice_of_begins List.prefix_rfl hn, List.drop_zero]

/-- The blocks of one memory are those of another, with something else in some of them. -/
structure Like (outputs : Set ℕ) (cells cells' : ℕ → Option (Cells β)) : Prop where
  sizes : sizeAt cells' = sizeAt cells
  kept : ∀ p ∉ outputs, cells' p = cells p
  filled : Filled cells'

namespace Like

variable {outputs outputs' : Set ℕ} {cells cells' cells'' : ℕ → Option (Cells β)}

theorem refl (h : Filled cells) : Like outputs cells cells := ⟨rfl, fun _ _ ↦ rfl, h⟩

theorem mono (h : Like outputs cells cells') (hsub : outputs ⊆ outputs') :
    Like outputs' cells cells' :=
  ⟨h.sizes, fun p hp ↦ h.kept p fun hmem ↦ hp (hsub hmem), h.filled⟩

theorem trans (h : Like outputs cells cells') (h' : Like outputs cells' cells'') :
    Like outputs cells cells'' :=
  ⟨h'.sizes.trans h.sizes, fun p hp ↦ (h'.kept p hp).trans (h.kept p hp), h'.filled⟩

/-- Something is written to one of these blocks. -/
theorem put (h : Like outputs cells cells') {p : ℕ} (hp : p ∈ outputs) {off : ℕ} {data : List β}
    (hroom : Room (sizeAt cells') p (data.length + off)) :
    Like outputs cells (put p off data cells') := by
  obtain ⟨size, hsize, hdata⟩ := hroom
  obtain ⟨old, hold, -⟩ := exists_of_sizeAt hsize
  refine ⟨(funext (sizeAt_put hsize hdata)).trans h.sizes, fun q hq ↦ ?_, fun q c hc ↦ ?_⟩
  · exact (put_of_ne (by rintro rfl; exact hq hp)).trans (h.kept q hq)
  · rcases eq_or_ne q p with rfl | hne
    · rw [put_self hold] at hc
      cases hc
      exact Cells.none_notMem_overwrite (h.filled q old hold)
    · rw [put_of_ne hne] at hc
      exact h.filled q c hc

end Like

/-- What a pointer points to, besides the blocks in `base`; nothing if it is a null pointer. -/
inductive Owned (base : ℕ → Option (Cells β)) : Option ℕ → Cells β → (ℕ → Option (Cells β)) → Prop
  | null : Owned base none [] base
  | block {p : ℕ} (cells : Cells β) (hp : base p = none) :
      Owned base (some p) cells (Function.update base p (some cells))

/-- The blocks of the rest of the memory are there. -/
theorem Owned.kept {base cells : ℕ → Option (Cells β)} {p : Option ℕ} {c old : Cells β}
    (h : Owned base p c cells) {q : ℕ} (hq : base q = some old) : cells q = some old := by
  cases h with
  | null => exact hq
  | @block p _ hp =>
      have hne : q ≠ p := by
        rintro rfl
        rw [hp] at hq
        cases hq
      rw [Function.update_of_ne hne, hq]

/-! ## The memory of a program -/

/-- The memory.  Blocks are at addresses that have not been used before. -/
structure Blocks (β : Type) where
  cells : ℕ → Option (Cells β) := fun _ ↦ none
  next : ℕ := 0
  /-- What was in the blocks that have been given back, when they were. -/
  released : List (Cells β) := []
  /-- There has been an access that is not allowed. -/
  fault : Bool := false

namespace Blocks

/-- A block of this size. -/
def alloc (size : ℕ) (m : Blocks β) : Blocks β :=
  { m with
    cells := Function.update m.cells m.next (some (Cells.blank size))
    next := m.next + 1 }

/-- Something is written to a block, from `off` on. -/
def store (p off : ℕ) (data : List β) (m : Blocks β) : Blocks β :=
  match m.cells p with
  | none => { m with fault := true }
  | some old =>
      if data.length + off ≤ old.length then { m with cells := put p off data m.cells }
      else { m with fault := true }

/-- What is in a block from `off` on, if it may be read. -/
def load (p off n : ℕ) (m : Blocks β) : Option (List β) := look p off n m.cells

/-- A block is given back. -/
def free (p : ℕ) (m : Blocks β) : Blocks β :=
  match m.cells p with
  | none => { m with fault := true }
  | some old =>
      { m with cells := Function.update m.cells p none, released := m.released ++ [old] }

/-- A block is replaced by one of another size, with what has been in it as far as that fits. -/
def realloc (p : Option ℕ) (size : ℕ) (m : Blocks β) : Blocks β :=
  match p with
  | none => m.alloc size
  | some p =>
      match m.cells p with
      | none => { m with fault := true }
      | some old =>
          { cells := Function.update (Function.update m.cells p none) m.next
              (some ((old ++ Cells.blank size).take size))
            next := m.next + 1
            released := m.released ++ [old]
            fault := m.fault }

/-- Nothing has gone wrong, and what has been given back was left clean. -/
structure Sound (clean : Cells β → Prop) (m : Blocks β) : Prop where
  fault : m.fault = false
  cleaned : ∀ cells ∈ m.released, clean cells
  fresh : ∀ p, m.next ≤ p → m.cells p = none

/-- A sound memory with the blocks `own`, each with its size, besides those in `base`. -/
structure Holds (clean : Cells β → Prop) (base : ℕ → Option (Cells β)) (own : List (ℕ × ℕ))
    (m : Blocks β) : Prop where
  sound : m.Sound clean
  nodup : (own.map Prod.fst).Nodup
  sized : ∀ b ∈ own, sizeAt m.cells b.1 = some b.2
  kept : ∀ p ∉ own.map Prod.fst, m.cells p = base p
  new : ∀ b ∈ own, base b.1 = none

section

variable {clean : Cells β → Prop} {m : Blocks β} {p off n : ℕ} {data : List β}

theorem store_eq (hroom : Room (sizeAt m.cells) p (data.length + off)) :
    m.store p off data = { m with cells := put p off data m.cells } := by
  obtain ⟨size, hsize, hdata⟩ := hroom
  obtain ⟨old, hold, rfl⟩ := exists_of_sizeAt hsize
  rw [store, hold]
  exact if_pos hdata

theorem free_eq {old : Cells β} (h : m.cells p = some old) :
    m.free p =
      { m with cells := Function.update m.cells p none, released := m.released ++ [old] } := by
  rw [free, h]

theorem Sound.alloc (h : m.Sound clean) (n : ℕ) : (m.alloc n).Sound clean := by
  refine ⟨h.fault, h.cleaned, fun q hq ↦ ?_⟩
  exact (Function.update_of_ne (Nat.lt_of_succ_le hq).ne' _ _).trans
    (h.fresh q (Nat.le_of_succ_le hq))

theorem Sound.store (h : m.Sound clean) (hroom : Room (sizeAt m.cells) p (data.length + off)) :
    (m.store p off data).Sound clean := by
  rw [store_eq hroom]
  refine ⟨h.fault, h.cleaned, fun q hq ↦ ?_⟩
  obtain ⟨size, hsize, -⟩ := hroom
  have hne : q ≠ p := by
    rintro rfl
    rw [sizeAt, h.fresh q hq] at hsize
    cases hsize
  exact (put_of_ne hne).trans (h.fresh q hq)

theorem Sound.free (h : m.Sound clean) {old : Cells β} (hold : m.cells p = some old)
    (hclean : clean old) : (m.free p).Sound clean := by
  rw [free_eq hold]
  refine ⟨h.fault, fun cells hcells ↦ ?_, fun q hq ↦ ?_⟩
  · rcases List.mem_append.mp hcells with hcells | hcells
    · exact h.cleaned cells hcells
    · rw [List.mem_singleton.mp hcells]
      exact hclean
  · rcases eq_or_ne q p with rfl | hqp
    · exact Function.update_self ..
    · exact (Function.update_of_ne hqp _ _).trans (h.fresh q hq)

end

section

variable {clean : Cells β → Prop} {base : ℕ → Option (Cells β)} {own own' : List (ℕ × ℕ)}
  {m : Blocks β} {p off n : ℕ} {data : List β}

theorem Sound.holds (h : m.Sound clean) : m.Holds clean m.cells [] where
  sound := h
  nodup := List.nodup_nil
  sized _ hb := absurd hb List.not_mem_nil
  kept _ _ := rfl
  new _ hb := absurd hb List.not_mem_nil

/-- When nothing is held, the memory is as it was. -/
theorem Holds.cells_eq (h : m.Holds clean base []) : m.cells = base :=
  funext fun p ↦ h.kept p List.not_mem_nil

theorem Holds.sizeAt_of_mem (h : m.Holds clean base own) (hp : (p, n) ∈ own) :
    sizeAt m.cells p = some n := h.sized _ hp

/-- A block of the rest of the memory is not one that is held. -/
theorem Holds.kept_of_base (h : m.Holds clean base own) {old : Cells β} (hp : base p = some old) :
    m.cells p = base p := by
  refine h.kept p fun hmem ↦ ?_
  obtain ⟨b, hb, rfl⟩ := List.mem_map.mp hmem
  rw [h.new b hb] at hp
  cases hp

/-- A new block. -/
theorem Holds.alloc (h : m.Holds clean base own) (n : ℕ) :
    (m.alloc n).Holds clean base ((m.next, n) :: own) := by
  have hnext : m.cells m.next = none := h.sound.fresh _ le_rfl
  have hnew : m.next ∉ own.map Prod.fst := by
    intro hmem
    obtain ⟨b, hb, heq⟩ := List.mem_map.mp hmem
    have hsize := h.sized b hb
    rw [heq, sizeAt, hnext] at hsize
    cases hsize
  have hself : (m.alloc n).cells m.next = some (Cells.blank n) := Function.update_self ..
  have hrest : ∀ {q}, q ≠ m.next → (m.alloc n).cells q = m.cells q :=
    fun hne ↦ Function.update_of_ne hne _ _
  refine ⟨h.sound.alloc n, List.nodup_cons.mpr ⟨hnew, h.nodup⟩, ?_, ?_, ?_⟩
  · intro b hb
    rcases List.mem_cons.mp hb with rfl | hb
    · rw [sizeAt, hself, Option.map_some, Cells.length_blank]
    · refine (sizeAt_congr (hrest fun heq ↦ hnew ?_)).trans (h.sized b hb)
      exact heq ▸ List.mem_map_of_mem hb
  · intro q hq
    obtain ⟨hne, hq⟩ := not_or.mp (mt List.mem_cons.mpr hq)
    exact (hrest hne).trans (h.kept q hq)
  · intro b hb
    rcases List.mem_cons.mp hb with rfl | hb
    · exact (h.kept _ hnew).symm.trans hnext
    · exact h.new b hb

/-- A block that is held is written to. -/
theorem Holds.store (h : m.Holds clean base own) (hp : (p, n) ∈ own)
    (hdata : data.length + off ≤ n) : (m.store p off data).Holds clean base own := by
  have hsize := h.sizeAt_of_mem hp
  have hsound := h.sound.store ⟨n, hsize, hdata⟩
  rw [store_eq ⟨n, hsize, hdata⟩] at hsound ⊢
  refine ⟨hsound, h.nodup, fun b hb ↦ ?_, fun q hq ↦ ?_, h.new⟩
  · exact (sizeAt_put hsize hdata b.1).trans (h.sized b hb)
  · have hne : q ≠ p := by
      rintro rfl
      exact hq (List.mem_map_of_mem (f := Prod.fst) hp)
    exact (put_of_ne hne).trans (h.kept q hq)

/-- A block of the rest of the memory is written to. -/
theorem Holds.storeBase (h : m.Holds clean base own)
    (hroom : Room (sizeAt base) p (data.length + off)) :
    (m.store p off data).Holds clean (put p off data base) own := by
  obtain ⟨size, hsize, hdata⟩ := hroom
  obtain ⟨old, hold, -⟩ := exists_of_sizeAt hsize
  have hcells := h.kept_of_base hold
  have hsize' := (sizeAt_congr hcells).trans hsize
  have hsound := h.sound.store ⟨size, hsize', hdata⟩
  rw [store_eq ⟨size, hsize', hdata⟩] at hsound ⊢
  refine ⟨hsound, h.nodup, fun b hb ↦ ?_, fun q hq ↦ ?_, fun b hb ↦ ?_⟩
  · exact (sizeAt_put hsize' hdata b.1).trans (h.sized b hb)
  · rcases eq_or_ne q p with rfl | hne
    · rw [put_self hold]
      exact put_self (hcells.trans hold)
    · rw [put_of_ne hne]
      exact (put_of_ne hne).trans (h.kept q hq)
  · have hne : b.1 ≠ p := by
      intro heq
      rw [← heq, h.new b hb] at hold
      cases hold
    rw [put_of_ne hne]
    exact h.new b hb

/-- A block that is held is filled with something clean and given back. -/
theorem Holds.discard (h : m.Holds clean base (own ++ (p, n) :: own'))
    (hlen : data.length = n) (hclean : clean (Cells.ofList data)) :
    ((m.store p 0 data).free p).Holds clean base (own ++ own') := by
  have hp : (p, n) ∈ own ++ (p, n) :: own' := List.mem_append_right _ List.mem_cons_self
  have hmem : ∀ b, b ∈ own ++ (p, n) :: own' ↔ b = (p, n) ∨ b ∈ own ++ own' := by
    intro b
    rw [List.mem_append, List.mem_cons, List.mem_append]
    exact or_left_comm
  have hnodup : p ∉ (own ++ own').map Prod.fst ∧ ((own ++ own').map Prod.fst).Nodup := by
    have hmiddle := h.nodup
    rw [List.map_append, List.map_cons] at hmiddle
    rw [List.map_append]
    exact List.nodup_cons.mp (List.nodup_middle.mp hmiddle)
  have hne : ∀ b ∈ own ++ own', b.1 ≠ p := by
    rintro b hb rfl
    exact hnodup.1 (List.mem_map_of_mem hb)
  have hsize := h.sizeAt_of_mem hp
  have hfull : (m.store p 0 data).cells p = some (Cells.ofList data) := by
    rw [store_eq ⟨n, hsize, hlen.le⟩]
    exact put_full (hsize.trans (congrArg some hlen.symm))
  have hstore : (m.store p 0 data).Holds clean base (own ++ (p, n) :: own') := h.store hp hlen.le
  have hsound := hstore.sound.free hfull hclean
  rw [free_eq hfull] at hsound ⊢
  refine ⟨hsound, hnodup.2, ?_, ?_, ?_⟩
  · intro b hb
    exact (sizeAt_congr (Function.update_of_ne (hne b hb) _ _)).trans
      (hstore.sized b ((hmem b).mpr (.inr hb)))
  · intro q hq
    rcases eq_or_ne q p with rfl | hqp
    · exact (Function.update_self ..).trans (h.new _ hp).symm
    · refine (Function.update_of_ne hqp _ _).trans (hstore.kept q fun hown ↦ hq ?_)
      obtain ⟨b, hb, rfl⟩ := List.mem_map.mp hown
      rcases (hmem b).mp hb with rfl | hb
      · exact absurd rfl hqp
      · exact List.mem_map_of_mem hb
  · exact fun b hb ↦ h.new b ((hmem b).mpr (.inr hb))

end

/-- A sound memory with these blocks. -/
structure Consists (clean : Cells β → Prop) (blocks : ℕ → Option (Cells β)) (m : Blocks β) :
    Prop where
  sound : m.Sound clean
  cells_eq : m.cells = blocks

namespace Consists

variable {clean : Cells β → Prop} {blocks : ℕ → Option (Cells β)} {m : Blocks β} {p off n : ℕ}
  {cells : Cells β} {data : List β}

theorem next_eq_none (h : m.Consists clean blocks) : blocks m.next = none :=
  h.cells_eq ▸ h.sound.fresh _ le_rfl

theorem self (h : m.Consists clean (Function.update blocks p (some cells))) :
    m.cells p = some cells := by
  rw [h.cells_eq, Function.update_self]

theorem alloc (h : m.Consists clean blocks) (n : ℕ) :
    (m.alloc n).Consists clean (Function.update blocks m.next (some (Cells.blank n))) :=
  ⟨h.sound.alloc n, h.cells_eq ▸ rfl⟩

theorem store (h : m.Consists clean (Function.update blocks p (some cells)))
    (hfit : data.length + off ≤ cells.length) :
    (m.store p off data).Consists clean
      (Function.update blocks p (some (cells.overwrite off data))) := by
  have hroom : Room (sizeAt m.cells) p (data.length + off) := by
    refine ⟨cells.length, ?_, hfit⟩
    rw [sizeAt, h.self, Option.map_some]
  refine ⟨h.sound.store hroom, ?_⟩
  rw [store_eq hroom]
  change put p off data m.cells = _
  rw [put, h.self, h.cells_eq, Function.update_idem, Option.map_some]

/-- A block that was not there before is given back. -/
theorem free (h : m.Consists clean (Function.update blocks p (some cells)))
    (hp : blocks p = none) (hclean : clean cells) : (m.free p).Consists clean blocks := by
  refine ⟨h.sound.free h.self hclean, ?_⟩
  rw [free_eq h.self]
  change Function.update m.cells p none = blocks
  rw [h.cells_eq, Function.update_idem, ← hp, Function.update_eq_self]

/-- A block is given another size. -/
theorem realloc {base : ℕ → Option (Cells β)} {p : Option ℕ} (h : m.Consists clean blocks)
    (howned : Owned base p cells blocks) (hclean : clean cells) (n : ℕ) :
    base m.next = none ∧ (m.realloc p n).Consists clean
      (Function.update base m.next (some ((cells ++ Cells.blank n).take n))) := by
  cases howned with
  | null =>
      refine ⟨h.next_eq_none, ?_⟩
      rw [List.nil_append, List.take_of_length_le (Cells.length_blank n).le]
      exact h.alloc n
  | @block p _ hp =>
      have hfree := h.free hp hclean
      rw [free_eq h.self] at hfree
      refine ⟨hfree.next_eq_none, ?_⟩
      rw [Blocks.realloc]
      simp only [h.self]
      refine ⟨⟨hfree.sound.fault, hfree.sound.cleaned, fun q hq ↦ ?_⟩, ?_⟩
      · exact (Function.update_of_ne (Nat.lt_of_succ_le hq).ne' _ _).trans
          (hfree.sound.fresh q (Nat.le_of_succ_le hq))
      · exact congrArg (Function.update · m.next _) hfree.cells_eq

end Consists

end Blocks

end PeripheralBench.Memory

import Mathlib.Data.List.Basic
import Mathlib.Logic.Function.Basic
import Mathlib.Tactic

/-!
# Folds that overwrite

Whoever reads a log from the beginning and lets every entry overwrite what the entries before it
have left keeps, at each place of the state, what the latest entry about this place has put there.
The same holds where an entry can make the fold fail.
-/

namespace PeripheralBench.Fold

variable {σ ι β : Type*}

/-- What the latest of the entries puts, if one of them puts something. -/
def latest (put : ι → Option β) (l : List ι) : Option β := l.foldl (fun b i ↦ (put i).or b) none

/-- Each step of the fold overwrites what is looked at by what its entry puts there. -/
def Overwrites (f : σ → ι → σ) (look : σ → Option β) (put : ι → Option β) : Prop :=
  ∀ s i, look (f s i) = (put i).or (look s)

/-- The same for a step that can fail, and does so on the entries that are not fit. -/
structure OverwritesM (f : σ → ι → Option σ) (fit : ι → Prop) (look : σ → Option β)
    (put : ι → Option β) : Prop where
  isSome_step : ∀ s i, (f s i).isSome ↔ fit i
  look_step : ∀ s s' i, f s i = some s' → look s' = (put i).or (look s)

variable {f : σ → ι → σ} {look : σ → Option β} {put : ι → Option β} {l l' : List ι}

theorem foldl_or (b : Option β) (l : List ι) :
    l.foldl (fun b i ↦ (put i).or b) b = (latest put l).or b := by
  induction l generalizing b with
  | nil => exact (Option.none_or).symm
  | cons i l ih =>
      rw [latest, List.foldl_cons, List.foldl_cons, ih, ih, Option.or_none, Option.or_assoc]

theorem latest_append (put : ι → Option β) (l l' : List ι) :
    latest put (l ++ l') = (latest put l').or (latest put l) := by
  rw [latest, List.foldl_append, foldl_or, ← latest]

theorem latest_cons (put : ι → Option β) (i : ι) (l : List ι) :
    latest put (i :: l) = (latest put l).or (put i) := by
  rw [latest, List.foldl_cons, foldl_or, Option.or_none]

theorem isSome_latest_iff : (latest put l).isSome ↔ ∃ i ∈ l, (put i).isSome := by
  induction l with
  | nil => simp [latest]
  | cons i l ih => simp only [latest_cons, Option.isSome_or, Bool.or_eq_true, ih, List.mem_cons,
      exists_eq_or_imp, or_comm]

theorem exists_of_latest_eq_some {b : β} (h : latest put l = some b) : ∃ i ∈ l, put i = some b := by
  induction l with
  | nil => cases h
  | cons i l ih =>
      rw [latest_cons, Option.or_eq_some_iff] at h
      rcases h with h | ⟨-, h⟩
      · obtain ⟨j, hj, hput⟩ := ih h
        exact ⟨j, .tail _ hj, hput⟩
      · exact ⟨i, .head _, h⟩

/-- The later entries put something, or the earlier ones do not. -/
def Answered (put : ι → Option β) (l l' : List ι) : Prop :=
  (latest put l').isSome ∨ latest put l = none

/-- It does not depend on the earlier entries exactly then. -/
theorem latest_append_eq_iff : latest put (l ++ l') = latest put l' ↔ Answered put l l' := by
  rw [latest_append, Answered]
  cases latest put l' with
  | none => simp
  | some b => simp

/-- A fold that overwrites leaves what its latest entry has put. -/
theorem Overwrites.look_foldl (h : Overwrites f look put) (s : σ) (l : List ι) :
    look (l.foldl f s) = (latest put l).or (look s) := by
  induction l generalizing s with
  | nil => exact (Option.none_or).symm
  | cons i l ih => rw [List.foldl_cons, ih, h, latest_cons, Option.or_assoc]

namespace OverwritesM

variable {f : σ → ι → Option σ} {fit : ι → Prop}

/-- The fold fails when one of its entries is not fit. -/
theorem isSome_foldlM (h : OverwritesM f fit look put) (s : σ) (l : List ι) :
    (l.foldlM f s).isSome ↔ ∀ i ∈ l, fit i := by
  induction l generalizing s with
  | nil => simp
  | cons i l ih =>
      rw [List.foldlM_cons, List.forall_mem_cons, ← h.isSome_step s i]
      cases f s i with
      | none => simp
      | some s' => simpa using ih s'

theorem look_foldlM (h : OverwritesM f fit look put) {s s' : σ} {l : List ι}
    (hs : l.foldlM f s = some s') : look s' = (latest put l).or (look s) := by
  induction l generalizing s with
  | nil => cases hs; exact (Option.none_or).symm
  | cons i l ih =>
      rw [List.foldlM_cons] at hs
      obtain ⟨t, ht, hs⟩ := Option.bind_eq_some_iff.mp hs
      rw [ih hs, h.look_step s t i ht, latest_cons, Option.or_assoc]

end OverwritesM

/-! ## Maps that can fail -/

/-- What a map that can fail returns belongs to its argument element by element. -/
theorem forall₂_mapM {α γ : Type} {f : α → Option γ} {l : List α} {r : List γ}
    (h : l.mapM f = some r) : List.Forall₂ (fun x y ↦ f x = some y) l r := by
  induction l generalizing r with
  | nil =>
      cases h
      exact .nil
  | cons x l ih =>
      rw [List.mapM_cons] at h
      obtain ⟨y, hy, h⟩ := Option.bind_eq_some_iff.mp h
      obtain ⟨ys, hys, h⟩ := Option.bind_eq_some_iff.mp h
      cases h
      exact .cons hy (ih hys)

/-- It returns if it does for every element. -/
theorem exists_mapM {α γ : Type} {f : α → Option γ} {l : List α} (h : ∀ x ∈ l, ∃ y, f x = some y) :
    ∃ r, l.mapM f = some r := by
  induction l with
  | nil => exact ⟨[], rfl⟩
  | cons x l ih =>
      obtain ⟨⟨y, hy⟩, hl⟩ := List.forall_mem_cons.mp h
      obtain ⟨ys, hys⟩ := ih hl
      rw [List.mapM_cons, hy, hys]
      exact ⟨y :: ys, rfl⟩

/-- What is known of each element is known of the lists. -/
theorem map_eq_map_of_mapM {α γ δ : Type} {f : α → Option γ} {g : γ → δ} {k : α → δ} {l : List α}
    {r : List γ} (h : l.mapM f = some r) (hf : ∀ x y, f x = some y → g y = k x) :
    r.map g = l.map k := by
  have hforall := forall₂_mapM h
  clear h
  induction hforall with
  | nil => rfl
  | cons hxy _ ih => rw [List.map_cons, List.map_cons, hf _ _ hxy, ih]

theorem mapM_congr {α γ : Type} {f g : α → Option γ} {l : List α} (h : ∀ x ∈ l, f x = g x) :
    l.mapM f = l.mapM g := by
  induction l with
  | nil => rfl
  | cons x l ih =>
      obtain ⟨hx, hl⟩ := List.forall_mem_cons.mp h
      rw [List.mapM_cons, List.mapM_cons, hx, ih hl]

theorem exists_of_mem_mapM {α γ : Type} {f : α → Option γ} {l : List α} {r : List γ}
    (h : l.mapM f = some r) :
    (∀ x ∈ l, ∃ y ∈ r, f x = some y) ∧ ∀ y ∈ r, ∃ x ∈ l, f x = some y := by
  have hforall := forall₂_mapM h
  clear h
  induction hforall with
  | nil => exact ⟨nofun, nofun⟩
  | cons hxy _ ih =>
      rw [List.forall_mem_cons, List.forall_mem_cons]
      refine ⟨⟨⟨_, .head _, hxy⟩, fun x hx ↦ ?_⟩, ⟨_, .head _, hxy⟩, fun y hy ↦ ?_⟩
      · obtain ⟨y, hy, h⟩ := ih.1 x hx
        exact ⟨y, .tail _ hy, h⟩
      · obtain ⟨x, hx, h⟩ := ih.2 y hy
        exact ⟨x, .tail _ hx, h⟩

end PeripheralBench.Fold

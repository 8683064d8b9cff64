import Mathlib.Data.List.Basic
import Mathlib.Data.List.Infix
import Mathlib.Tactic

/-!
# Durable state and programs that are killed

A `Medium` is a state that survives the program which changes it, with the indivisible operations on
that state.  A program that is killed has performed a prefix of its operations, and may leave the
next one half done.  A `Part` of a medium is a smaller medium that can be looked at alone: a file on
a disk.

The file that matters here is a file of records that is *rewritten in place*: truncated, given its
header, and filled again record by record.

The last section is about runs of programs that are killed and started again.
-/

universe u v w

namespace PeripheralBench.Durable

/-! ## Media -/

/-- A durable state with its operations. -/
structure Medium (σ : Type u) (ω : Type v) (φ : Type w) where
  /-- The effect of an operation. -/
  apply : ω → σ → σ
  /-- What is left of an operation that is cut short. -/
  cut : φ → ω → σ → σ

namespace Medium

variable {σ : Type u} {ω : Type v} {φ : Type w} (M : Medium σ ω φ)

/-- The effect of several operations. -/
def perform (ops : List ω) (s : σ) : σ := ops.foldl (fun s o ↦ M.apply o s) s

/-- The state after `k` of the operations, if the program is killed in the next one. -/
def interrupted (ops : List ω) (k : ℕ) (f : φ) (s : σ) : σ :=
  match ops[k]? with
  | none => M.perform ops s
  | some o => M.cut f o (M.perform (ops.take k) s)

@[simp] theorem perform_nil (s : σ) : M.perform [] s = s := rfl

@[simp] theorem perform_cons (o : ω) (ops : List ω) (s : σ) :
    M.perform (o :: ops) s = M.perform ops (M.apply o s) := rfl

theorem perform_append (ops ops' : List ω) (s : σ) :
    M.perform (ops ++ ops') s = M.perform ops' (M.perform ops s) :=
  List.foldl_append

theorem interrupted_of_length_le {ops : List ω} {k : ℕ} (h : ops.length ≤ k) (f : φ) (s : σ) :
    M.interrupted ops k f s = M.perform ops s := by
  rw [interrupted, List.getElem?_eq_none h]

/-- The program is killed in the second part of its operations. -/
theorem interrupted_append {ops ops' : List ω} {k : ℕ} (h : ops.length ≤ k) (f : φ) (s : σ) :
    M.interrupted (ops ++ ops') k f s =
      M.interrupted ops' (k - ops.length) f (M.perform ops s) := by
  rw [interrupted, interrupted, List.getElem?_append_right h, List.take_append,
    List.take_of_length_le h]
  cases ops'[k - ops.length]? with
  | none => exact M.perform_append ops ops' s
  | some o => exact congrArg (M.cut f o) (M.perform_append ops _ s)

/-- What every operation preserves is preserved by all of them. -/
theorem perform_invariant {P : σ → Prop} {ops : List ω}
    (happly : ∀ o ∈ ops, ∀ s, P s → P (M.apply o s)) {s : σ} (h : P s) : P (M.perform ops s) := by
  induction ops generalizing s with
  | nil => exact h
  | cons o ops ih => exact ih (fun o ho ↦ happly o (.tail _ ho)) (happly o (.head _) s h)

/-- What every operation preserves, whole or cut short, a killed program preserves. -/
theorem interrupted_invariant {P : σ → Prop} {ops : List ω} {k : ℕ} {f : φ}
    (happly : ∀ o ∈ ops.take k, ∀ s, P s → P (M.apply o s))
    (hcut : ∀ o, ops[k]? = some o → ∀ s, P s → P (M.cut f o s)) {s : σ} (h : P s) :
    P (M.interrupted ops k f s) := by
  rw [interrupted]
  cases hk : ops[k]? with
  | none =>
      rw [List.take_of_length_le (List.getElem?_eq_none_iff.mp hk)] at happly
      exact M.perform_invariant happly h
  | some o => exact hcut o hk _ (M.perform_invariant happly h)

end Medium

/-! ## Parts of a medium -/

/-- A part of a medium: some operations are about it, and the others do not touch it. -/
structure Part {σ τ : Type u} {ω ω' : Type v} {φ φ' : Type w} (M : Medium σ ω φ)
    (N : Medium τ ω' φ') where
  /-- The part. -/
  get : σ → τ
  /-- What an operation does to the part, if it is about it. -/
  view : ω → Option ω'
  /-- What is left behind in the part. -/
  fragment : φ → φ'
  apply_of_some : ∀ {o o'} s, view o = some o' → get (M.apply o s) = N.apply o' (get s)
  apply_of_none : ∀ {o} s, view o = none → get (M.apply o s) = get s
  cut_of_some : ∀ {o o'} f s, view o = some o' → get (M.cut f o s) = N.cut (fragment f) o' (get s)
  cut_of_none : ∀ {o} f s, view o = none → get (M.cut f o s) = get s

namespace Part

variable {σ τ : Type u} {ω ω' : Type v} {φ φ' : Type w} {M : Medium σ ω φ} {N : Medium τ ω' φ'}
  (p : Part M N)

/-- A part sees the operations that are about it. -/
theorem get_perform (ops : List ω) (s : σ) :
    p.get (M.perform ops s) = N.perform (ops.filterMap p.view) (p.get s) := by
  induction ops generalizing s with
  | nil => rfl
  | cons o ops ih =>
      rw [Medium.perform_cons, ih]
      cases ho : p.view o with
      | none => rw [List.filterMap_cons_none ho, p.apply_of_none s ho]
      | some o' => rw [List.filterMap_cons_some ho, p.apply_of_some s ho, Medium.perform_cons]

theorem get_perform_of_none {ops : List ω} (h : ∀ o ∈ ops, p.view o = none) (s : σ) :
    p.get (M.perform ops s) = p.get s := by
  rw [p.get_perform, List.filterMap_eq_nil_iff.mpr h]; rfl

/-- No operation is about the part. -/
theorem get_interrupted_of_none {ops : List ω} (h : ∀ o ∈ ops, p.view o = none) (k : ℕ) (f : φ)
    (s : σ) : p.get (M.interrupted ops k f s) = p.get s :=
  M.interrupted_invariant (P := fun t ↦ p.get t = p.get s)
    (fun o ho t ht ↦ (p.apply_of_none t (h o (List.mem_of_mem_take ho))).trans ht)
    (fun o ho t ht ↦ (p.cut_of_none f t (h o (List.mem_of_getElem? ho))).trans ht) rfl

/-- The program is killed before it comes to the operations about the part. -/
theorem get_interrupted_of_lt {ops ops' : List ω} (h : ∀ o ∈ ops, p.view o = none) {k : ℕ}
    (hk : k < ops.length) (f : φ) (s : σ) : p.get (M.interrupted (ops ++ ops') k f s) = p.get s :=
  M.interrupted_invariant (P := fun t ↦ p.get t = p.get s)
    (fun o ho t ht ↦ by
      rw [List.take_append_of_le_length hk.le] at ho
      exact (p.apply_of_none t (h o (List.mem_of_mem_take ho))).trans ht)
    (fun o ho t ht ↦ by
      rw [List.getElem?_append_left hk] at ho
      exact (p.cut_of_none f t (h o (List.mem_of_getElem? ho))).trans ht) rfl

/-- The operations about the part come first. -/
theorem get_interrupted_append {ops : List ω} {ops' : List ω'} {rest : List ω}
    (h : ops.map p.view = ops'.map some) (hrest : ∀ o ∈ rest, p.view o = none) (k : ℕ) (f : φ)
    (s : σ) :
    p.get (M.interrupted (ops ++ rest) k f s) = N.interrupted ops' k (p.fragment f) (p.get s) := by
  have hview : ∀ j : ℕ, (ops.take j).filterMap p.view = ops'.take j := by
    intro j
    calc (ops.take j).filterMap p.view
        = ((ops.take j).map p.view).filterMap id := by rw [List.filterMap_map]; rfl
      _ = ((ops'.take j).map some).filterMap id := by rw [List.map_take, h, ← List.map_take]
      _ = ops'.take j := by rw [List.filterMap_map]; exact List.filterMap_some
  have hlen : ops.length = ops'.length := by
    simpa only [List.length_map] using congrArg List.length h
  rcases lt_or_ge k ops.length with hk | hk
  · have hk' : k < ops'.length := hlen ▸ hk
    have ho : p.view ops[k] = some ops'[k] := by
      have := congrArg (fun l ↦ l[k]?) h
      simpa only [List.getElem?_map, List.getElem?_eq_getElem hk, List.getElem?_eq_getElem hk',
        Option.map_some, Option.some.injEq] using this
    rw [Medium.interrupted, Medium.interrupted, List.getElem?_append_left hk,
      List.getElem?_eq_getElem hk, List.getElem?_eq_getElem hk']
    change p.get (M.cut f _ _) = N.cut (p.fragment f) _ _
    rw [p.cut_of_some f _ ho, List.take_append_of_le_length hk.le, p.get_perform, hview]
  · rw [N.interrupted_of_length_le (hlen ▸ hk)]
    have hafter : ∀ j : ℕ, p.get (M.perform (ops ++ rest.take j) s) = N.perform ops' (p.get s) := by
      intro j
      rw [M.perform_append, p.get_perform_of_none fun o ho ↦ hrest o (List.mem_of_mem_take ho),
        p.get_perform]
      have hall := hview ops.length
      rw [List.take_length, hlen, List.take_length] at hall
      rw [hall]
    rw [Medium.interrupted, List.getElem?_append_right hk]
    cases hk' : rest[k - ops.length]? with
    | none =>
        have hnone := hafter rest.length
        rw [List.take_length] at hnone
        exact hnone
    | some o =>
        change p.get (M.cut f o _) = _
        rw [p.cut_of_none f _ (hrest o (List.mem_of_getElem? hk')), List.take_append,
          List.take_of_length_le hk, hafter]

end Part

/-! ## Files that are rewritten in place -/

variable {ρ : Type u}

/-- An operation on a file of records. -/
inductive Write (ρ : Type u) where
  /-- The file is opened for writing, and has no contents. -/
  | truncate
  /-- The line with the names of the fields. -/
  | header
  /-- One more record. -/
  | record (r : ρ)

/-- Files of records, seen by their readers.  A record that is cut short may look like any other. -/
def file (ρ : Type u) : Medium (List ρ) (Write ρ) (Option ρ) where
  apply
    | .truncate, _ => []
    | .header, rs => rs
    | .record r, rs => rs ++ [r]
  cut
    | f, .record _, rs => rs ++ f.toList
    | _, _, rs => rs

/-- The operations that replace the records of a file. -/
def rewrite (rs : List ρ) : List (Write ρ) := .truncate :: .header :: rs.map .record

@[simp] theorem length_rewrite (rs : List ρ) : (rewrite rs).length = rs.length + 2 := by
  simp only [rewrite, List.length_cons, List.length_map]

theorem perform_records (rs old : List ρ) :
    (file ρ).perform (rs.map .record) old = old ++ rs := by
  induction rs generalizing old with
  | nil => rw [List.map_nil, Medium.perform_nil, List.append_nil]
  | cons r rs ih =>
      rw [List.map_cons, Medium.perform_cons, ih]
      exact List.append_cons old r rs ▸ rfl

@[simp] theorem perform_rewrite (rs old : List ρ) : (file ρ).perform (rewrite rs) old = rs :=
  perform_records rs []

/-- Rewriting in place, as far as it has got. -/
theorem perform_take_rewrite (rs old : List ρ) {k : ℕ} (hk : 0 < k) :
    (file ρ).perform ((rewrite rs).take k) old = rs.take (k - 2) := by
  obtain ⟨k, rfl⟩ := Nat.exists_eq_succ_of_ne_zero hk.ne'
  cases k with
  | zero => rfl
  | succ k =>
      rw [rewrite, List.take_succ_cons, List.take_succ_cons, ← List.map_take]
      exact perform_records _ []

/-- What a reader finds while a file is being rewritten. -/
theorem interrupted_rewrite (rs old : List ρ) {k : ℕ} (hk : 0 < k) (f : Option ρ) :
    (file ρ).interrupted (rewrite rs) k f old =
      rs.take (k - 2) ++ if 2 ≤ k ∧ k < rs.length + 2 then f.toList else [] := by
  have htake := perform_take_rewrite rs old hk
  rw [Medium.interrupted]
  by_cases hlen : k < rs.length + 2
  · obtain ⟨k, rfl⟩ := Nat.exists_eq_succ_of_ne_zero hk.ne'
    cases k with
    | zero => exact htake.trans (List.append_nil _).symm
    | succ k =>
        rw [if_pos ⟨Nat.le_add_left 2 k, hlen⟩, ← htake]
        have hrecord : (rewrite rs)[k + 2]? = rs[k]?.map .record := by
          rw [rewrite, List.getElem?_cons_succ, List.getElem?_cons_succ, List.getElem?_map]
        rw [hrecord, List.getElem?_eq_getElem (Nat.lt_of_add_lt_add_right hlen)]
        rfl
  · rw [if_neg fun h ↦ hlen h.2, List.append_nil, ← htake, List.getElem?_eq_none,
      List.take_of_length_le]
    all_goals
      rw [length_rewrite]
      exact Nat.le_of_not_lt hlen

/-- A part that is rewritten after other operations and before others. -/
theorem Part.get_interrupted_rewrite {σ : Type u} {ω : Type u} {φ : Type u} {M : Medium σ ω φ}
    (p : Part M (file ρ)) (before ops after : List ω) {rs : List ρ}
    (hbefore : ∀ o ∈ before, p.view o = none) (hops : ops.map p.view = (rewrite rs).map some)
    (hafter : ∀ o ∈ after, p.view o = none) (k : ℕ) (f : φ) (s : σ) :
    p.get (M.interrupted (before ++ (ops ++ after)) k f s) =
      (file ρ).interrupted (rewrite rs) (k - before.length) (p.fragment f) (p.get s) := by
  rcases lt_or_ge k before.length with hk | hk
  · rw [p.get_interrupted_of_lt hbefore hk, Nat.sub_eq_zero_of_le hk.le]
    rfl
  · rw [M.interrupted_append hk, p.get_interrupted_append hops hafter,
      p.get_perform_of_none hbefore]

/-- A rewrite that only adds records keeps what the file held, unless the program is killed before
it has put that back. -/
theorem subset_interrupted_rewrite {rs old : List ρ} (hold : old <+: rs) {k : ℕ}
    (hk : 0 < k → ∀ i < old.length, i + 2 < k) (f : Option ρ) :
    old ⊆ (file ρ).interrupted (rewrite rs) k f old := by
  have hperform : old ⊆ (file ρ).perform ((rewrite rs).take k) old := by
    rcases Nat.eq_zero_or_pos k with rfl | hpos
    · exact List.Subset.refl old
    rw [perform_take_rewrite rs old hpos]
    rcases Nat.eq_zero_or_pos old.length with hnil | hlen
    · rw [List.eq_nil_of_length_eq_zero hnil]
      exact List.nil_subset _
    · have hback : old.length ≤ k - 2 := by
        have := hk hpos (old.length - 1) (Nat.sub_one_lt hlen.ne')
        omega
      calc old = rs.take old.length := List.prefix_iff_eq_take.mp hold
        _ ⊆ rs.take (k - 2) := (List.take_prefix_take_left hback).subset
  rw [Medium.interrupted]
  cases hk' : (rewrite rs)[k]? with
  | none =>
      rw [List.take_of_length_le (List.getElem?_eq_none_iff.mp hk')] at hperform
      exact hperform
  | some o =>
      cases o with
      | truncate => exact hperform
      | header => exact hperform
      | record r => exact fun x hx ↦ List.mem_append_left _ (hperform hx)

/-! ## Programs that are started again -/

section Lives

variable {σ : Type u} {κ : Type v} (live : σ → κ → σ)

/-- What is left after the lives of a program, each of which starts from what the one before left.
-/
def lives (s : σ) (ls : List κ) : σ := ls.foldl live s

/-- Every life meets a condition on the state from which it starts. -/
def Along (P : σ → κ → Prop) : σ → List κ → Prop
  | _, [] => True
  | s, l :: ls => P s l ∧ Along P (live s l) ls

instance decidableAlong {P : σ → κ → Prop} [∀ s l, Decidable (P s l)] :
    ∀ s ls, Decidable (Along live P s ls)
  | _, [] => inferInstanceAs (Decidable True)
  | s, l :: ls =>
      have := decidableAlong (P := P) (live s l) ls
      inferInstanceAs (Decidable (P s l ∧ Along live P (live s l) ls))

theorem along_of_forall {live : σ → κ → σ} {P : κ → Prop} {s : σ} {ls : List κ}
    (h : ∀ l ∈ ls, P l) : Along live (fun _ l ↦ P l) s ls := by
  induction ls generalizing s with
  | nil => trivial
  | cons l ls ih => exact ⟨h l (.head _), ih fun l hl ↦ h l (.tail _ hl)⟩

/-- What every life preserves, from a state and in a way that meet the condition, holds at the end.
-/
theorem lives_invariant {live : σ → κ → σ} {P : σ → κ → Prop} {I : σ → Prop}
    (hlive : ∀ s l, I s → P s l → I (live s l)) {s : σ} {ls : List κ} (hs : I s)
    (h : Along live P s ls) : I (lives live s ls) := by
  induction ls generalizing s with
  | nil => exact hs
  | cons l ls ih => exact ih (hlive s l hs h.1) h.2

end Lives

end PeripheralBench.Durable

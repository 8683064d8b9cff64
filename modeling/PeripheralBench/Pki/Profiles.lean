import Mathlib.Data.List.Sort
import PeripheralBench.Pki.Header

/-!
# Firmware profiles

When all selected roots do not fit into one firmware image the runner builds several images, the
*profiles*, and packs the roots into them, the largest first.  A case is run on the profile that has
its root.
-/

open PeripheralBench.Text

namespace PeripheralBench.Pki

/-! ## Packing -/

/-- The body of the loop in `pack_root_profiles`: the root goes into the first profile that has
room, or into a new one. -/
def packRoot (capacity : ℤ) (root : Bytes) (size : ℕ) :
    List (ℕ × List Bytes) → Option (List (ℕ × List Bytes))
  | [] => if capacity < size then none else some [(size, [root])]
  | (used, members) :: profiles =>
      if ((used + size : ℕ) : ℤ) ≤ capacity then
        some ((used + size, members ++ [root]) :: profiles)
      else (packRoot capacity root size profiles).map fun profiles ↦ (used, members) :: profiles

/-- The order `key=lambda item: (-item[1], item[0])`. -/
def largestFirst (a b : Bytes × ℕ) : Bool := decide (b.2 < a.2 ∨ a.2 = b.2 ∧ a.1 ≤ b.1)

/-- The loop. -/
def packRoots (capacity : ℤ) (rootSizes : List (Bytes × ℕ)) (profiles : List (ℕ × List Bytes)) :
    Option (List (ℕ × List Bytes)) :=
  rootSizes.foldlM (fun profiles (root, size) ↦ packRoot capacity root size profiles) profiles

/-- `pack_root_profiles`. -/
def packRootProfiles (rootSizes : List (Bytes × ℕ)) (capacity : ℤ) : Option (List (List Bytes)) :=
  (packRoots capacity (rootSizes.mergeSort largestFirst) []).map fun profiles ↦
    profiles.map Prod.snd

/-- All roots in some profiles. -/
def packedRoots (profiles : List (ℕ × List Bytes)) : List Bytes := profiles.flatMap Prod.snd

theorem packRoot_perm {capacity : ℤ} {root : Bytes} {size : ℕ}
    {profiles packed : List (ℕ × List Bytes)}
    (h : packRoot capacity root size profiles = some packed) :
    (packedRoots packed).Perm (packedRoots profiles ++ [root]) := by
  induction profiles generalizing packed with
  | nil =>
      rw [packRoot] at h
      split at h
      · exact nomatch h
      · cases h
        exact List.Perm.refl _
  | cons profile profiles ih =>
      rw [packRoot] at h
      split at h
      · cases h
        rw [packedRoots, packedRoots, List.flatMap_cons, List.flatMap_cons, List.append_assoc,
          List.append_assoc]
        exact List.perm_append_comm.append_left _
      · obtain ⟨packed, hpacked, rfl⟩ := Option.map_eq_some_iff.mp h
        rw [packedRoots, packedRoots, List.flatMap_cons, List.flatMap_cons, List.append_assoc]
        exact (ih hpacked).append_left _

theorem packRoots_perm {capacity : ℤ} {rootSizes : List (Bytes × ℕ)}
    {profiles packed : List (ℕ × List Bytes)}
    (h : packRoots capacity rootSizes profiles = some packed) :
    (packedRoots packed).Perm (packedRoots profiles ++ rootSizes.map Prod.fst) := by
  induction rootSizes generalizing profiles with
  | nil =>
      cases h
      rw [List.map_nil, List.append_nil]
  | cons x rootSizes ih =>
      obtain ⟨next, hnext, hpacked⟩ := Option.bind_eq_some_iff.mp h
      have hroot := (packRoot_perm hnext).append_right (rootSizes.map Prod.fst)
      rw [List.append_assoc] at hroot
      exact (ih hpacked).trans hroot

/-- Every root gets into one profile. -/
theorem packRootProfiles_perm {rootSizes : List (Bytes × ℕ)} {capacity : ℤ}
    {profiles : List (List Bytes)} (h : packRootProfiles rootSizes capacity = some profiles) :
    profiles.flatten.Perm (rootSizes.map Prod.fst) := by
  obtain ⟨packed, hpacked, rfl⟩ := Option.map_eq_some_iff.mp h
  have hflatten : (packed.map Prod.snd).flatten = packedRoots packed := List.flatMap_def.symm
  rw [hflatten]
  exact (packRoots_perm hpacked).trans ((List.mergeSort_perm _ _).map Prod.fst)

/-! ## The profile of a case -/

/-- `profile_roots`, a dictionary. -/
structure ProfileRoots where
  entries : List (Bytes × List Bytes)
  nodup : (entries.map Prod.fst).Nodup

namespace ProfileRoots

/-- `profile_roots[profile]`. -/
def roots (p : ProfileRoots) (profile : Bytes) : Option (List Bytes) := p.entries.lookup profile

/-- `root_to_profile[root]`.  If a root were in several profiles the last one would count. -/
def profileOf (p : ProfileRoots) (root : Bytes) : Option Bytes :=
  (p.entries.filter fun (_, roots) ↦ roots.contains root).getLast?.map Prod.fst

/-- `case["firmware_profile"]`. -/
def firmwareProfile (p : ProfileRoots) (c : Case) : Option Bytes := p.profileOf c.rootSigAlg

/-- The root is in the profile that is found for it. -/
theorem exists_roots_of_profileOf {p : ProfileRoots} {root profile : Bytes}
    (h : p.profileOf root = some profile) :
    ∃ roots, p.roots profile = some roots ∧ root ∈ roots := by
  obtain ⟨⟨_, roots⟩, hlast, rfl⟩ := Option.map_eq_some_iff.mp h
  obtain ⟨hmem, hcontains⟩ := List.mem_filter.mp (List.mem_of_getLast? hlast)
  exact ⟨roots, lookup_of_mem p.nodup hmem, List.contains_iff_mem.mp hcontains⟩

theorem exists_profileOf {p : ProfileRoots} {root profile : Bytes} {roots : List Bytes}
    (h : (profile, roots) ∈ p.entries) (hroot : root ∈ roots) :
    ∃ profile, p.profileOf root = some profile := by
  have hmem : (profile, roots) ∈ p.entries.filter fun (_, roots) ↦ roots.contains root :=
    List.mem_filter.mpr ⟨h, List.contains_iff_mem.mpr hroot⟩
  refine ⟨_, congrArg (Option.map Prod.fst)
    (List.getLast?_eq_some_getLast (List.ne_nil_of_mem hmem))⟩

/-- One image with all roots. -/
def universal (allRoots : List Bytes) : ProfileRoots where
  entries := [(ascii "universal", allRoots)]
  nodup := List.nodup_singleton _

/-- `f"profile-{index:02d}"`. -/
def profileName (index : ℕ) : Bytes :=
  ascii "profile-" ++ if index < 10 then 48 :: decimal index else decimal index

theorem profileName_injective : Function.Injective profileName := by
  have hvalue : ∀ n, digitsValue (if n < 10 then 48 :: decimal n else decimal n) = n := by
    intro n
    split
    · exact digitsValue_decimal n
    · exact digitsValue_decimal n
  intro m n h
  rw [← hvalue m, List.append_cancel_left h, hvalue]

/-- The profiles that have been packed, numbered from one. -/
def numbered (profiles : List (List Bytes)) : ProfileRoots where
  entries := (profiles.zipIdx 1).map fun (roots, index) ↦ (profileName index, roots)
  nodup := by
    have hnames : ((profiles.zipIdx 1).map fun (roots, index) ↦ (profileName index, roots)).map
        Prod.fst = (List.range' 1 profiles.length).map profileName := by
      rw [List.map_map, ← List.zipIdx_map_snd 1 profiles, List.map_map]
      rfl
    rw [hnames]
    exact (List.nodup_map_iff profileName_injective).mpr List.nodup_range'

/-- What is decided when no profiles have been saved: one image, if it leaves the margin, or what
the packing for a capacity gives. -/
def plan (rootSizes : List (Bytes × ℕ)) : Option ℤ → Option ProfileRoots
  | none => some (universal (rootSizes.map Prod.fst))
  | some capacity => (packRootProfiles rootSizes capacity).map numbered

/-- Every root has a profile. -/
theorem exists_profileOf_plan {rootSizes : List (Bytes × ℕ)} {capacity : Option ℤ}
    {p : ProfileRoots}
    (h : plan rootSizes capacity = some p) {root : Bytes} (hroot : root ∈ rootSizes.map Prod.fst) :
    ∃ profile, p.profileOf root = some profile := by
  cases capacity with
  | none =>
      cases h
      exact exists_profileOf (.head _) hroot
  | some capacity =>
      obtain ⟨profiles, hprofiles, rfl⟩ := Option.map_eq_some_iff.mp h
      obtain ⟨roots, hmem, hroot⟩ :=
        List.mem_flatten.mp ((packRootProfiles_perm hprofiles).mem_iff.mpr hroot)
      obtain ⟨i, hi⟩ := List.mem_iff_getElem?.mp hmem
      have hindex : (roots, 1 + i) ∈ profiles.zipIdx 1 := by
        rw [List.mk_mem_zipIdx_iff_le_and_getElem?_sub, Nat.add_sub_cancel_left]
        exact ⟨Nat.le_add_right 1 i, hi⟩
      exact exists_profileOf (List.mem_map_of_mem hindex) hroot

end ProfileRoots

end PeripheralBench.Pki

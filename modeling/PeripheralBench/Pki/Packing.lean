import PeripheralBench.Packing.FirstFit
import PeripheralBench.Pki.Selection

/-!
# The packing of the roots

`pack_root_profiles` is first fit: the profiles are the bins, and a root weighs what its certificate
does.  It fails if and only if some root does not fit into a profile of its own, and its packing is
tight.

The caller takes the capacity from a probe image with one root, and leaves a margin of the flash
free.
-/

open PeripheralBench.Text

namespace PeripheralBench.Pki

/-! ## The loop is first fit -/

/-- A bin, as the loop has it: what is used, and the roots. -/
def profile (bin : List (Bytes × ℕ)) : ℕ × List Bytes := ((bin.map Prod.snd).sum, bin.map Prod.fst)

/-- What a root takes of the capacity. -/
def rootWeight (item : Bytes × ℕ) : ℤ := item.2

theorem rootWeight_nonneg (item : Bytes × ℕ) : 0 ≤ rootWeight item := Int.natCast_nonneg _

theorem weight_rootWeight (bin : List (Bytes × ℕ)) :
    Packing.weight rootWeight bin = ((bin.map Prod.snd).sum : ℕ) := by
  induction bin with
  | nil => rfl
  | cons item bin ih =>
      rw [List.map_cons, List.sum_cons, Nat.cast_add, ← ih]
      rfl

theorem profile_append (bin : List (Bytes × ℕ)) (item : Bytes × ℕ) :
    profile (bin ++ [item]) = ((profile bin).1 + item.2, (profile bin).2 ++ [item.1]) := by
  simp only [profile, List.map_append, List.map_cons, List.map_nil, List.sum_append,
    List.sum_singleton]

/-- One root.  The capacity is only compared with the root itself when no profile has room, but then
a root that exceeds it has not fitted anywhere. -/
theorem packRoot_profile (capacity : ℤ) (item : Bytes × ℕ) (bins : List (List (Bytes × ℕ))) :
    packRoot capacity item.1 item.2 (bins.map profile) =
      if rootWeight item ≤ capacity then
        some ((Packing.place rootWeight capacity item bins).map profile)
      else none := by
  induction bins with
  | nil =>
      by_cases hfits : rootWeight item ≤ capacity
      · rw [if_pos hfits]
        exact if_neg (not_lt.mpr hfits)
      · rw [if_neg hfits]
        exact if_pos (not_le.mp hfits)
  | cons bin bins ih =>
      have hroom : ((profile bin).1 + item.2 : ℕ) =
          Packing.weight rootWeight bin + rootWeight item := by
        rw [weight_rootWeight, Nat.cast_add]
        rfl
      rw [List.map_cons, packRoot, hroom, Packing.place, ih]
      by_cases h : Packing.weight rootWeight bin + rootWeight item ≤ capacity
      · have hfits : rootWeight item ≤ capacity :=
          le_trans (le_add_of_nonneg_left (Packing.weight_nonneg rootWeight_nonneg bin)) h
        rw [if_pos h, if_pos h, if_pos hfits, List.map_cons, profile_append]
      · rw [if_neg h, if_neg h]
        split
        · rw [List.map_cons]
          rfl
        · rfl

theorem packRoots_profile (capacity : ℤ) (items : List (Bytes × ℕ))
    (bins : List (List (Bytes × ℕ))) :
    packRoots capacity items (bins.map profile) =
      if ∀ item ∈ items, rootWeight item ≤ capacity then
        some ((Packing.firstFit rootWeight capacity items bins).map profile)
      else none := by
  induction items generalizing bins with
  | nil => exact (if_pos nofun).symm
  | cons item items ih =>
      have hstep : packRoots capacity (item :: items) (bins.map profile) =
          (packRoot capacity item.1 item.2 (bins.map profile)).bind (packRoots capacity items) :=
          rfl
      rw [hstep, packRoot_profile]
      by_cases hfits : rootWeight item ≤ capacity
      · rw [if_pos hfits, Option.bind_some]
        refine (ih _).trans (if_congr ?_ rfl rfl)
        rw [List.forall_mem_cons, and_iff_right hfits]
      · rw [if_neg hfits, if_neg fun h ↦ hfits (h item (.head _))]
        rfl

/-- The whole function. -/
theorem packRootProfiles_eq (rootSizes : List (Bytes × ℕ)) (capacity : ℤ) :
    packRootProfiles rootSizes capacity =
      if ∀ item ∈ rootSizes, rootWeight item ≤ capacity then
        some ((Packing.firstFit rootWeight capacity (rootSizes.mergeSort largestFirst) []).map
          fun bin ↦ bin.map Prod.fst)
      else none := by
  have hloop := packRoots_profile capacity (rootSizes.mergeSort largestFirst) []
  have hsorted : (∀ item ∈ rootSizes.mergeSort largestFirst, rootWeight item ≤ capacity) ↔
      ∀ item ∈ rootSizes, rootWeight item ≤ capacity :=
    forall_congr' fun item ↦ imp_congr_left List.mem_mergeSort
  rw [packRootProfiles, show packRoots capacity _ [] = _ from hloop, if_congr hsorted rfl rfl]
  split
  · rw [Option.map_some, List.map_map]
    rfl
  · rfl

/-! ## The dictionary of the sizes -/

theorem nodup_eraseDups (keys : List Bytes) : keys.eraseDups.Nodup := by
  induction hlength : keys.length using Nat.strong_induction_on generalizing keys with
  | _ n ih =>
      cases keys with
      | nil => exact .nil
      | cons key keys =>
          rw [List.eraseDups_cons]
          refine List.nodup_cons.mpr ⟨fun hmem ↦ ?_, ih _ ?_ _ rfl⟩
          · rw [List.mem_eraseDups, List.mem_filter] at hmem
            simp only [beq_self_eq_true, Bool.not_true, Bool.false_eq_true, and_false] at hmem
          · rw [← hlength]
            exact Nat.lt_succ_of_le (List.length_filter_le _ _)

/-- `root_sizes`, a dictionary. -/
structure RootSizes where
  items : List (Bytes × ℕ)
  nodup : (items.map Prod.fst).Nodup

namespace RootSizes

variable (r : RootSizes)

/-- The keys. -/
def roots : List Bytes := r.items.map Prod.fst

/-- `root_sizes[root]`. -/
def size (root : Bytes) : ℕ := (r.items.lookup root).getD 0

/-- The dictionary of a run. -/
def ofSetup (s : Setup) : RootSizes where
  items := s.rootSizes
  nodup := by
    rw [Setup.rootSizes, List.map_map]
    refine (List.nodup_map_iff fun a b h ↦ h).mpr (nodup_eraseDups _)

/-- `pack_root_profiles(root_sizes, capacity)`. -/
def pack (capacity : ℤ) : Option (List (List Bytes)) := packRootProfiles r.items capacity

/-- The bytes of the roots of a profile. -/
def packedBytes (profile : List Bytes) : ℤ := Packing.weight (fun root ↦ (r.size root : ℤ)) profile

/-- The roots in profiles, none of them too large and none too many. -/
structure Packed (capacity : ℤ) (profiles : List (List Bytes)) : Prop where
  /-- Every root is in exactly one profile. -/
  perm : profiles.flatten.Perm r.roots
  nodup : profiles.flatten.Nodup
  fits : ∀ profile ∈ profiles, r.packedBytes profile ≤ capacity
  /-- No root of a later profile would fit into an earlier one. -/
  full : profiles.Pairwise fun earlier later ↦
    ∀ root ∈ later, capacity < r.packedBytes earlier + r.size root
  not_mergeable : profiles.Pairwise fun earlier later ↦
    capacity < r.packedBytes earlier + r.packedBytes later

variable {r}

theorem size_of_mem {item : Bytes × ℕ} (h : item ∈ r.items) : r.size item.1 = item.2 := by
  rw [size, lookup_of_mem r.nodup (show (item.1, item.2) ∈ r.items from h), Option.getD_some]

/-- A bin of items weighs what its roots do. -/
theorem packedBytes_map {bin : List (Bytes × ℕ)} (h : ∀ item ∈ bin, item ∈ r.items) :
    r.packedBytes (bin.map Prod.fst) = Packing.weight rootWeight bin := by
  rw [packedBytes, Packing.weight, List.map_map]
  refine congrArg List.sum (List.map_congr_left fun item hitem ↦ ?_)
  exact congrArg Nat.cast (size_of_mem (h item hitem))

/-- A tight packing of the items is a packing of the roots. -/
theorem Packed.of_tight {capacity : ℤ} {bins : List (List (Bytes × ℕ))}
    (hperm : bins.flatten.Perm r.items) (h : Packing.Tight rootWeight capacity bins) :
    r.Packed capacity (bins.map fun bin ↦ bin.map Prod.fst) := by
  have hflatten : (bins.map fun bin ↦ bin.map Prod.fst).flatten.Perm r.roots := by
    rw [← List.map_flatten]
    exact hperm.map Prod.fst
  have hbytes : ∀ bin ∈ bins, r.packedBytes (bin.map Prod.fst) = Packing.weight rootWeight bin :=
    fun bin hbin ↦ packedBytes_map fun item hitem ↦
      hperm.mem_iff.mp (List.mem_flatten.mpr ⟨bin, hbin, hitem⟩)
  refine ⟨hflatten, hflatten.nodup_iff.mpr r.nodup, ?_, ?_, ?_⟩
  · intro profile hprofile
    obtain ⟨bin, hbin, rfl⟩ := List.mem_map.mp hprofile
    rw [hbytes bin hbin]
    exact h.fits bin hbin
  · rw [List.pairwise_map]
    refine h.full.imp_of_mem fun {earlier later} hearlier hlater hfull root hroot ↦ ?_
    obtain ⟨item, hitem, rfl⟩ := List.mem_map.mp hroot
    rw [hbytes earlier hearlier,
      size_of_mem (hperm.mem_iff.mp (List.mem_flatten.mpr ⟨later, hlater, hitem⟩))]
    exact hfull item hitem
  · rw [List.pairwise_map]
    refine (h.not_mergeable rootWeight_nonneg).imp_of_mem
      fun {earlier later} hearlier hlater hfull ↦ ?_
    rw [hbytes earlier hearlier, hbytes later hlater]
    exact hfull

theorem pack_eq_none_iff (capacity : ℤ) :
    r.pack capacity = none ↔ ∃ root ∈ r.roots, capacity < r.size root := by
  rw [pack, packRootProfiles_eq]
  constructor
  · intro h
    obtain ⟨item, hitem⟩ := not_forall.mp fun hall ↦ nomatch (if_pos hall).symm.trans h
    obtain ⟨hmem, hlarge⟩ := Classical.not_imp.mp hitem
    refine ⟨item.1, List.mem_map_of_mem hmem, ?_⟩
    rw [size_of_mem hmem]
    exact not_le.mp hlarge
  · rintro ⟨root, hroot, hlarge⟩
    obtain ⟨item, hmem, rfl⟩ := List.mem_map.mp hroot
    rw [size_of_mem hmem] at hlarge
    exact if_neg fun hall ↦ not_le.mpr hlarge (hall item hmem)

theorem packed_of_pack {capacity : ℤ} {profiles : List (List Bytes)}
    (h : r.pack capacity = some profiles) : r.Packed capacity profiles := by
  rw [pack, packRootProfiles_eq] at h
  split at h
  case isFalse => exact nomatch h
  case isTrue hfits =>
    cases h
    have hsorted := List.mergeSort_perm r.items largestFirst
    refine Packed.of_tight ?_ ?_
    · refine (Packing.firstFit_perm rootWeight capacity _ []).trans ?_
      rw [List.flatten_nil, List.append_nil]
      exact hsorted
    · exact Packing.Tight.nil.firstFit rootWeight_nonneg fun item hitem ↦
        hfits item (hsorted.mem_iff.mp hitem)

/-! ## The flash -/

/-- `32 * 1024`. -/
def flashMargin : ℤ := 32 * 1024

variable (r)

/-- `probe_root`, the first of the smallest. -/
def probeRoot : Option Bytes := r.roots.argmin r.size

/-- `base_used`, for a probe image with this root. -/
def baseUsed (probe : Bytes) (probeUsed : ℤ) : ℤ := probeUsed - r.size probe

/-- `root_capacity`. -/
def rootCapacity (probe : Bytes) (probeUsed flash : ℤ) : ℤ :=
  flash - r.baseUsed probe probeUsed - flashMargin

/-- The size of an image with these roots, as the caller takes it to be. -/
def imageUsed (probe : Bytes) (probeUsed : ℤ) (profile : List Bytes) : ℤ :=
  r.baseUsed probe probeUsed + r.packedBytes profile

/-- What the caller does when the universal image has not left the margin.  The probe image uses
`probeUsed` of the flash. -/
def packForFlash (probeUsed flash : ℤ) : Option (List (List Bytes)) := do
  let probe ← r.probeRoot
  r.pack (r.rootCapacity probe probeUsed flash)

variable {r}

theorem Packed.margin {probe : Bytes} {probeUsed flash : ℤ} {profiles : List (List Bytes)}
    (h : r.Packed (r.rootCapacity probe probeUsed flash) profiles) {profile : List Bytes}
    (hprofile : profile ∈ profiles) :
    flashMargin ≤ flash - r.imageUsed probe probeUsed profile := by
  have hfits := h.fits profile hprofile
  rw [rootCapacity] at hfits
  rw [imageUsed]
  omega

/-- The packing fails exactly for a root that exceeds the capacity; what it gives is a packing; and
if the capacity is that of the flash every image leaves the margin. -/
theorem pack_spec (r : RootSizes) :
    (∀ capacity, r.pack capacity = none ↔ ∃ root ∈ r.roots, capacity < r.size root) ∧
    (∀ capacity profiles, r.pack capacity = some profiles → r.Packed capacity profiles) ∧
    ∀ probeUsed flash profiles, r.packForFlash probeUsed flash = some profiles →
      ∃ probe, r.probeRoot = some probe ∧ ∀ profile ∈ profiles,
        flashMargin ≤ flash - r.imageUsed probe probeUsed profile := by
  refine ⟨pack_eq_none_iff, fun _ _ ↦ packed_of_pack, fun probeUsed flash profiles h ↦ ?_⟩
  obtain ⟨probe, hprobe, hpack⟩ := Option.bind_eq_some_iff.mp h
  exact ⟨probe, hprobe, fun profile hprofile ↦ (packed_of_pack hpack).margin hprofile⟩

/-- Three roots, of which the two smaller ones share a profile. -/
def sampleRoots : RootSizes where
  items := [(ascii "large", 8), (ascii "medium", 6), (ascii "small", 4)]
  nodup := by decide

theorem pack_spec_sampleRoots :
    sampleRoots.Packed 10 [[ascii "large"], [ascii "medium", ascii "small"]] ∧
      sampleRoots.pack 7 = none ∧
      ∃ probe, sampleRoots.probeRoot = some probe ∧
        ∀ profile ∈ [[ascii "large"], [ascii "medium", ascii "small"]],
          flashMargin ≤ 33000 - sampleRoots.imageUsed probe 226 profile := by
  have hsorted : sampleRoots.items.mergeSort largestFirst = sampleRoots.items :=
    List.mergeSort_of_pairwise (by decide)
  have hpack : sampleRoots.pack 10 = some [[ascii "large"], [ascii "medium", ascii "small"]] := by
    rw [pack, packRootProfiles, hsorted]
    rfl
  have hprobe : sampleRoots.probeRoot = some (ascii "small") := by decide
  have hcapacity : sampleRoots.rootCapacity (ascii "small") 226 33000 = 10 := by decide
  have hflash : sampleRoots.packForFlash 226 33000 = sampleRoots.pack 10 := by
    rw [packForFlash, hprobe, ← hcapacity]
    rfl
  obtain ⟨hfails, hpacked, hmargin⟩ := pack_spec sampleRoots
  exact ⟨hpacked 10 _ hpack, (hfails 7).mpr ⟨ascii "large", by decide, by decide⟩,
    hmargin 226 33000 _ (hflash.trans hpack)⟩

end RootSizes

end PeripheralBench.Pki

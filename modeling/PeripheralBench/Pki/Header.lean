import PeripheralBench.Text

/-!
# Certificate chains, and the credentials header

The runner prepares a directory for every selected certificate chain, and writes the roots and the
leaf algorithms it finds there into a C header, which is compiled into the firmware.  A header may
be limited to some roots.

The header is represented by what it declares: the arrays with the roots, and the two tables.
-/

open PeripheralBench.Text

namespace PeripheralBench.Pki

/-! ## Algorithms and chains -/

/-- `Signature`: the fields that get into the header. -/
structure Signature where
  name : Bytes
  tlsSignatureScheme : Bytes
  tlsSignatureSchemeId : UInt16
deriving DecidableEq

/-- `SIGNATURES`. -/
def signatures : List Signature :=
  [⟨ascii "ECDSA-P-256", ascii "ecdsa_secp256r1_sha256", 0x0403⟩,
    ⟨ascii "ECDSA-P-384", ascii "ecdsa_secp384r1_sha384", 0x0503⟩,
    ⟨ascii "ECDSA-P-521", ascii "ecdsa_secp521r1_sha512", 0x0603⟩,
    ⟨ascii "RSA-PSS-3072", ascii "rsa_pss_rsae_sha256", 0x0804⟩,
    ⟨ascii "RSA-PSS-7680", ascii "rsa_pss_rsae_sha384", 0x0805⟩,
    ⟨ascii "RSA-PSS-15360", ascii "rsa_pss_rsae_sha512", 0x0806⟩,
    ⟨ascii "ML-DSA-44", ascii "mldsa44", 0x0904⟩,
    ⟨ascii "ML-DSA-65", ascii "mldsa65", 0x0905⟩,
    ⟨ascii "ML-DSA-87", ascii "mldsa87", 0x0906⟩,
    ⟨ascii "SLH-DSA-SHAKE-128s", ascii "ecdsa_secp256r1_sha256", 0x0403⟩,
    ⟨ascii "SLH-DSA-SHAKE-128f", ascii "ecdsa_secp256r1_sha256", 0x0403⟩,
    ⟨ascii "SLH-DSA-SHAKE-192s", ascii "ecdsa_secp384r1_sha384", 0x0503⟩,
    ⟨ascii "SLH-DSA-SHAKE-192f", ascii "ecdsa_secp384r1_sha384", 0x0503⟩,
    ⟨ascii "SLH-DSA-SHAKE-256s", ascii "ecdsa_secp521r1_sha512", 0x0603⟩,
    ⟨ascii "SLH-DSA-SHAKE-256f", ascii "ecdsa_secp521r1_sha512", 0x0603⟩,
    ⟨ascii "LMS-HSS-L2-H10-W4", ascii "ecdsa_secp256r1_sha256", 0x0403⟩,
    ⟨ascii "XMSS-SHA2_20_256", ascii "ecdsa_secp256r1_sha256", 0x0403⟩]

/-- `SIGNATURES_BY_NAME[name]`. -/
def signatureByName (name : Bytes) : Option Signature :=
  signatures.find? fun item ↦ item.name = name

/-- `PkiChain`. -/
structure PkiChain where
  id : Bytes
  rootSigAlg : Bytes
  intermediateSigAlg : Bytes
  leafSigAlg : Bytes
deriving DecidableEq

/-- A selected case, as `normalize_case_pki` leaves it. -/
structure Case where
  pkiChainId : Bytes
  rootSigAlg : Bytes
  intermediateSigAlg : Bytes
  leafSigAlg : Bytes
deriving DecidableEq

/-- `pki_metadata.json`. -/
structure Metadata where
  rootSigAlg : Bytes
  leafSigAlg : Bytes
deriving DecidableEq

/-- The files in the directory of a chain that are read when the header is written. -/
structure Directory where
  /-- `pki_metadata.json`. -/
  metadata : Option Metadata
  /-- `server_root.der`. -/
  serverRoot : Option Bytes
deriving DecidableEq

/-- `generate_server_case`, for a chain whose root is this file. -/
def generateServerCase (chain : PkiChain) (rootDer : Bytes) : Option Directory := do
  let root ← signatureByName chain.rootSigAlg
  let _ ← signatureByName chain.intermediateSigAlg
  let leaf ← signatureByName chain.leafSigAlg
  return { metadata := some ⟨root.name, leaf.name⟩, serverRoot := some rootDer }

/-! ## The header -/

/-- `benchmark_credentials.h`. -/
structure Header where
  /-- The arrays. -/
  arrays : List (Bytes × Bytes) := []
  /-- `benchmark_ca_bundle`: the names of the roots and of their arrays. -/
  caBundle : List (Bytes × Bytes) := []
  /-- `benchmark_signature_profiles`. -/
  signatureProfiles : List Signature := []
deriving DecidableEq

/-- The variables of `generate_universal_header`. -/
structure HeaderState where
  /-- `roots`. -/
  roots : List (Bytes × Bytes × Bytes) := []
  /-- `profiles`. -/
  profiles : List Signature := []
  /-- `seen_roots`. -/
  seenRoots : List Bytes := []
  /-- `seen_profiles`. -/
  seenProfiles : List Bytes := []

namespace HeaderState

/-- `benchmark_server_root_{len(roots)}`. -/
def arrayName (n : ℕ) : Bytes := ascii "benchmark_server_root_" ++ decimal n

/-- `root_algorithms is None or root_id in root_algorithms`. -/
def isWanted (rootAlgorithms : Option (List Bytes)) (rootId : Bytes) : Bool :=
  rootAlgorithms.all fun names ↦ names.contains rootId

/-- The root of a directory, unless it is not wanted or has been seen. -/
def addRoot (s : HeaderState) (rootAlgorithms : Option (List Bytes)) (rootId rootData : Bytes) :
    HeaderState :=
  if isWanted rootAlgorithms rootId && !s.seenRoots.contains rootData then
    { s with
      roots := s.roots ++ [(rootId, arrayName s.roots.length, rootData)]
      seenRoots := s.seenRoots ++ [rootData] }
  else s

/-- The leaf of a directory, unless it has been seen. -/
def addProfile (s : HeaderState) (leaf : Signature) : HeaderState :=
  if s.seenProfiles.contains leaf.name then s
  else
    { s with
      profiles := s.profiles ++ [leaf]
      seenProfiles := s.seenProfiles ++ [leaf.name] }

/-- The body of the loop over the directories. -/
def add (rootAlgorithms : Option (List Bytes)) (s : HeaderState) (directory : Directory) :
    Option HeaderState :=
  match directory.metadata, directory.serverRoot with
  | some metadata, some rootData =>
      (signatureByName metadata.leafSigAlg).map
        (s.addRoot rootAlgorithms metadata.rootSigAlg rootData).addProfile
  | _, _ => some s

/-- The certificate and the key of the client, if there are any. -/
def clientArrays : Option (Bytes × Bytes) → List (Bytes × Bytes)
  | some (cert, key) => [(ascii "benchmark_client_cert", cert), (ascii "benchmark_client_key", key)]
  | none => []

/-- The header that is written. -/
def header (s : HeaderState) (client : Option (Bytes × Bytes)) : Header where
  arrays := clientArrays client ++ s.roots.map fun (_, name, data) ↦ (name, data)
  caBundle := s.roots.map fun (rootId, name, _) ↦ (rootId, name)
  signatureProfiles := s.profiles

end HeaderState

/-- `generate_universal_header`. -/
def generateUniversalHeader (directories : List Directory) (rootAlgorithms : Option (List Bytes))
    (client : Option (Bytes × Bytes)) : Option Header :=
  (directories.foldlM (HeaderState.add rootAlgorithms) {}).map fun s ↦ s.header client

/-! ## The tables of the firmware -/

/-- `struct benchmark_ca_entry`. -/
structure CaEntry where
  id : Bytes
  data : Bytes
deriving DecidableEq

/-- The tables in the firmware. -/
structure Tables where
  caBundle : List CaEntry
  signatureProfiles : List Signature
deriving DecidableEq

/-- What the compiler makes of a header.  It rejects arrays that are declared twice or not at all.
-/
def Header.compile (header : Header) : Option Tables :=
  if (header.arrays.map Prod.fst).Nodup then
    (header.caBundle.mapM fun (rootId, name) ↦
      (header.arrays.lookup name).map (CaEntry.mk rootId)).map fun caBundle ↦
        { caBundle := caBundle, signatureProfiles := header.signatureProfiles }
  else none

/-! ## What is collected -/

theorem name_of_signatureByName {name : Bytes} {item : Signature}
    (h : signatureByName name = some item) : item.name = name := by
  have hname := List.find?_some h
  exact of_decide_eq_true hname

namespace HeaderState

/-- The roots that are wanted have been collected from these directories, once each. -/
structure Roots (rootAlgorithms : Option (List Bytes)) (ds : List Directory) (s : HeaderState) :
    Prop where
  names : s.roots.map (fun r ↦ r.2.1) = (List.range s.roots.length).map arrayName
  seen : s.seenRoots = s.roots.map fun r ↦ r.2.2
  root_mem : ∀ r ∈ s.roots, isWanted rootAlgorithms r.1 = true ∧
    ∃ leaf, ⟨some ⟨r.1, leaf⟩, some r.2.2⟩ ∈ ds
  mem_root : ∀ root leaf data, ⟨some ⟨root, leaf⟩, some data⟩ ∈ ds →
    isWanted rootAlgorithms root = true → data ∈ s.seenRoots

/-- The leaves have been collected from these directories, once each. -/
structure Leaves (ds : List Directory) (s : HeaderState) : Prop where
  seen : s.seenProfiles = s.profiles.map Signature.name
  profile_mem : ∀ p ∈ s.profiles, signatureByName p.name = some p ∧
    ∃ root data, ⟨some ⟨root, p.name⟩, some data⟩ ∈ ds
  mem_profile : ∀ root leaf data, ⟨some ⟨root, leaf⟩, some data⟩ ∈ ds → leaf ∈ s.seenProfiles

variable {rootAlgorithms : Option (List Bytes)} {ds : List Directory} {s : HeaderState}

theorem roots_nil : Roots rootAlgorithms [] {} :=
  ⟨rfl, rfl, fun _ h ↦ absurd h List.not_mem_nil, fun _ _ _ h ↦ absurd h List.not_mem_nil⟩

theorem leaves_nil : Leaves [] {} :=
  ⟨rfl, fun _ h ↦ absurd h List.not_mem_nil, fun _ _ _ h ↦ absurd h List.not_mem_nil⟩

/-- A directory that is passed over. -/
theorem mem_of_mem_append {d : Directory} (hd : d.metadata = none ∨ d.serverRoot = none)
    {root leaf data : Bytes} (h : ⟨some ⟨root, leaf⟩, some data⟩ ∈ ds ++ [d]) :
    ⟨some ⟨root, leaf⟩, some data⟩ ∈ ds := by
  rcases List.mem_append.mp h with h | h
  · exact h
  · rw [← List.mem_singleton.mp h] at hd
    exact hd.elim nofun nofun

theorem Roots.skip (h : Roots rootAlgorithms ds s) {d : Directory}
    (hd : d.metadata = none ∨ d.serverRoot = none) : Roots rootAlgorithms (ds ++ [d]) s where
  names := h.names
  seen := h.seen
  root_mem r hr := (h.root_mem r hr).imp_right fun ⟨leaf, hmem⟩ ↦
    ⟨leaf, List.mem_append_left _ hmem⟩
  mem_root root leaf data hmem := h.mem_root root leaf data (mem_of_mem_append hd hmem)

theorem Leaves.skip (h : Leaves ds s) {d : Directory}
    (hd : d.metadata = none ∨ d.serverRoot = none) : Leaves (ds ++ [d]) s where
  seen := h.seen
  profile_mem p hp := (h.profile_mem p hp).imp_right fun ⟨root, data, hmem⟩ ↦
    ⟨root, data, List.mem_append_left _ hmem⟩
  mem_profile root leaf data hmem := h.mem_profile root leaf data (mem_of_mem_append hd hmem)

theorem Roots.addRoot (h : Roots rootAlgorithms ds s) (root leaf data : Bytes) :
    Roots rootAlgorithms (ds ++ [⟨some ⟨root, leaf⟩, some data⟩])
      (s.addRoot rootAlgorithms root data) := by
  have hroots : ∀ r ∈ s.roots, isWanted rootAlgorithms r.1 = true ∧
      ∃ leaf', ⟨some ⟨r.1, leaf'⟩, some r.2.2⟩ ∈ ds ++ [⟨some ⟨root, leaf⟩, some data⟩] :=
    fun r hr ↦ (h.root_mem r hr).imp_right fun ⟨leaf', hmem⟩ ↦ ⟨leaf', List.mem_append_left _ hmem⟩
  rw [HeaderState.addRoot]
  split
  case isTrue hnew =>
    rw [Bool.and_eq_true] at hnew
    refine ⟨?_, ?_, fun r hr ↦ ?_, fun root' leaf' data' hmem hwanted ↦ ?_⟩
    · rw [List.map_append, h.names, List.length_append, List.length_singleton, List.range_succ,
        List.map_append]
      rfl
    · rw [List.map_append, h.seen]
      rfl
    · rcases List.mem_append.mp hr with hr | hr
      · exact hroots r hr
      · rw [List.mem_singleton.mp hr]
        exact ⟨hnew.1, leaf, List.mem_concat_self⟩
    · rcases List.mem_append.mp hmem with hmem | hmem
      · exact List.mem_append_left _ (h.mem_root root' leaf' data' hmem hwanted)
      · cases List.mem_singleton.mp hmem
        exact List.mem_concat_self
  case isFalse hold =>
    refine ⟨h.names, h.seen, hroots, fun root' leaf' data' hmem hwanted ↦ ?_⟩
    rcases List.mem_append.mp hmem with hmem | hmem
    · exact h.mem_root root' leaf' data' hmem hwanted
    · cases List.mem_singleton.mp hmem
      rw [hwanted, Bool.true_and, Bool.not_eq_true, Bool.not_eq_false'] at hold
      exact List.contains_iff_mem.mp hold

theorem Leaves.addProfile (h : Leaves ds s) (root data : Bytes) {leaf : Bytes} {item : Signature}
    (hitem : signatureByName leaf = some item) :
    Leaves (ds ++ [⟨some ⟨root, leaf⟩, some data⟩]) (s.addProfile item) := by
  have hname := name_of_signatureByName hitem
  have hprofiles : ∀ p ∈ s.profiles, signatureByName p.name = some p ∧
      ∃ root' data', ⟨some ⟨root', p.name⟩, some data'⟩ ∈ ds ++ [⟨some ⟨root, leaf⟩, some data⟩] :=
    fun p hp ↦ (h.profile_mem p hp).imp_right fun ⟨root', data', hmem⟩ ↦
      ⟨root', data', List.mem_append_left _ hmem⟩
  rw [HeaderState.addProfile]
  split
  case isTrue hold =>
    refine ⟨h.seen, hprofiles, fun root' leaf' data' hmem ↦ ?_⟩
    rcases List.mem_append.mp hmem with hmem | hmem
    · exact h.mem_profile root' leaf' data' hmem
    · cases List.mem_singleton.mp hmem
      rw [← hname]
      exact List.contains_iff_mem.mp hold
  case isFalse =>
    refine ⟨?_, fun p hp ↦ ?_, fun root' leaf' data' hmem ↦ ?_⟩
    · rw [List.map_append, h.seen]
      rfl
    · rcases List.mem_append.mp hp with hp | hp
      · exact hprofiles p hp
      · rw [List.mem_singleton.mp hp, hname]
        exact ⟨hitem, root, data, List.mem_concat_self⟩
    · rcases List.mem_append.mp hmem with hmem | hmem
      · exact List.mem_append_left _ (h.mem_profile root' leaf' data' hmem)
      · cases List.mem_singleton.mp hmem
        rw [hname]
        exact List.mem_concat_self

theorem Roots.addProfile (h : Roots rootAlgorithms ds s) (leaf : Signature) :
    Roots rootAlgorithms ds (s.addProfile leaf) := by
  rw [HeaderState.addProfile]
  split
  case isTrue => exact h
  case isFalse => exact ⟨h.names, h.seen, h.root_mem, h.mem_root⟩

theorem Leaves.addRoot (h : Leaves ds s) (rootId rootData : Bytes) :
    Leaves ds (s.addRoot rootAlgorithms rootId rootData) := by
  rw [HeaderState.addRoot]
  split
  case isTrue => exact ⟨h.seen, h.profile_mem, h.mem_profile⟩
  case isFalse => exact h

theorem collected (h : ds.foldlM (add rootAlgorithms) {} = some s) :
    Roots rootAlgorithms ds s ∧ Leaves ds s := by
  induction ds using List.reverseRecOn generalizing s with
  | nil =>
      cases h
      exact ⟨roots_nil, leaves_nil⟩
  | append_singleton ds d ih =>
      rw [List.foldlM_append] at h
      obtain ⟨t, ht, hd⟩ := Option.bind_eq_some_iff.mp h
      obtain ⟨_, hd, hsame⟩ := Option.bind_eq_some_iff.mp hd
      cases hsame
      obtain ⟨hroots, hleaves⟩ := ih ht
      obtain ⟨metadata, serverRoot⟩ := d
      cases metadata with
      | none =>
          cases hd
          exact ⟨hroots.skip (.inl rfl), hleaves.skip (.inl rfl)⟩
      | some metadata =>
          cases serverRoot with
          | none =>
              cases hd
              exact ⟨hroots.skip (.inr rfl), hleaves.skip (.inr rfl)⟩
          | some data =>
              obtain ⟨item, hitem, rfl⟩ := Option.map_eq_some_iff.mp hd
              exact ⟨(hroots.addRoot _ _ data).addProfile item,
                (hleaves.addRoot _ data).addProfile metadata.rootSigAlg data hitem⟩

/-- The header can be written if all leaves are known. -/
theorem exists_collected
    (h : ∀ m data, ⟨some m, some data⟩ ∈ ds → ∃ item, signatureByName m.leafSigAlg = some item)
    (s : HeaderState) : ∃ s', ds.foldlM (add rootAlgorithms) s = some s' := by
  induction ds generalizing s with
  | nil => exact ⟨s, rfl⟩
  | cons d ds ih =>
      have hd : ∃ t, add rootAlgorithms s d = some t := by
        obtain ⟨metadata, serverRoot⟩ := d
        cases metadata with
        | none => exact ⟨s, rfl⟩
        | some metadata =>
            cases serverRoot with
            | none => exact ⟨s, rfl⟩
            | some data =>
                obtain ⟨item, hitem⟩ := h metadata data (.head _)
                exact ⟨_, congrArg (Option.map _) hitem⟩
      obtain ⟨t, ht⟩ := hd
      obtain ⟨s', hs'⟩ := ih (fun m data hmem ↦ h m data (.tail _ hmem)) t
      exact ⟨s', by rw [List.foldlM_cons, ht]; exact hs'⟩

end HeaderState

/-! ## The names of the arrays -/

theorem decimal_injective : Function.Injective decimal := fun m n h ↦ by
  rw [← digitsValue_decimal m, h, digitsValue_decimal]

theorem arrayName_injective : Function.Injective HeaderState.arrayName := fun _ _ h ↦
  decimal_injective (List.append_cancel_left h)

/-- What is said of a key that occurs once. -/
theorem lookup_of_mem {α β : Type} [BEq α] [LawfulBEq α] {l : List (α × β)}
    (hl : (l.map Prod.fst).Nodup) {a : α} {b : β} (h : (a, b) ∈ l) : l.lookup a = some b := by
  induction l with
  | nil => exact absurd h List.not_mem_nil
  | cons x l ih =>
      rw [List.map_cons, List.nodup_cons] at hl
      rcases List.mem_cons.mp h with rfl | h
      · exact List.lookup_cons_self
      · have hne : a ≠ x.1 := fun heq ↦ hl.1 (List.mem_map.mpr ⟨(a, b), h, heq⟩)
        rw [List.lookup_cons, beq_eq_false_iff_ne.mpr hne]
        exact ih hl.2 h

theorem mapM_eq_some_map {α β : Type} {l : List α} {f : α → Option β} {g : α → β}
    (h : ∀ x ∈ l, f x = some (g x)) : l.mapM f = some (l.map g) := by
  induction l with
  | nil => rfl
  | cons x l ih =>
      rw [List.mapM_cons, h x (.head _), ih fun y hy ↦ h y (.tail _ hy)]
      rfl

namespace HeaderState

variable {rootAlgorithms : Option (List Bytes)} {ds : List Directory} {s : HeaderState}

theorem Roots.nodup_arrays (h : Roots rootAlgorithms ds s) (client : Option (Bytes × Bytes)) :
    ((s.header client).arrays.map Prod.fst).Nodup := by
  have hroots : (s.roots.map fun r ↦ r.2.1).Nodup := by
    rw [h.names]
    exact (List.nodup_map_iff arrayName_injective).mpr List.nodup_range
  -- the names of the two kinds differ in the letter after `benchmark_`
  have hserver : ∀ name ∈ s.roots.map (fun r ↦ r.2.1), name[10]? = some 115 := by
    rw [h.names]
    intro name hname
    obtain ⟨n, -, rfl⟩ := List.mem_map.mp hname
    rfl
  have hclient : ∀ name ∈ (clientArrays client).map Prod.fst, name[10]? = some 99 := by
    cases client with
    | none => exact fun _ h ↦ absurd h List.not_mem_nil
    | some pair =>
        intro name hname
        rcases List.mem_cons.mp hname with rfl | hname
        · rfl
        · rw [List.mem_singleton.mp hname]
          rfl
  rw [header, List.map_append, List.map_map]
  refine List.nodup_append.mpr ⟨?_, hroots, fun a ha b hb heq ↦ ?_⟩
  · cases client with
    | none => exact List.nodup_nil
    | some pair =>
        change [ascii "benchmark_client_cert", ascii "benchmark_client_key"].Nodup
        decide
  · have hdiffer := hclient a ha
    rw [heq, hserver b hb] at hdiffer
    exact absurd hdiffer (by decide)

/-- The compiler accepts the header, and the table has the roots with their data. -/
theorem Roots.compile (h : Roots rootAlgorithms ds s) (client : Option (Bytes × Bytes)) :
    (s.header client).compile = some
      { caBundle := s.roots.map fun r ↦ ⟨r.1, r.2.2⟩, signatureProfiles := s.profiles } := by
  have hnodup := h.nodup_arrays client
  have hlookup : ∀ r ∈ s.roots, (s.header client).arrays.lookup r.2.1 = some r.2.2 := by
    intro r hr
    exact lookup_of_mem hnodup (List.mem_append_right _ (List.mem_map_of_mem hr))
  have hall : ∀ r ∈ s.roots, ((s.header client).arrays.lookup r.2.1).map (CaEntry.mk r.1) =
      some (CaEntry.mk r.1 r.2.2) := by
    intro r hr
    rw [hlookup r hr]
    rfl
  rw [Header.compile, if_pos hnodup]
  exact congrArg (Option.map _) (List.mapM_map.trans (mapM_eq_some_map hall))

end HeaderState

end PeripheralBench.Pki

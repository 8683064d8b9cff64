import PeripheralBench.Ble.Receive
import PeripheralBench.Fold.Overwrite
import PeripheralBench.Pki.Profiles

/-!
# The selection of a certificate chain

Before the handshake the gateway tells the board the names of the root and of the leaf algorithm of
the case, and the board looks them up in the tables of its firmware.  It refuses the session if it
does not find them.

It finds them if the names of the case are those of its certificate chain (`selection_complete`).
The runner takes the names of a case and its chain from the same row and does not compare them
(`not_selection_complete`).
-/

open PeripheralBench.Text PeripheralBench.Ble PeripheralBench.Fold

namespace PeripheralBench.Pki

/-! ## The setup of a run -/

/-- What the firmware of a run is made from. -/
structure Setup where
  /-- `PKI_CHAINS_BY_ID.get`. -/
  chainsById : Bytes → Option PkiChain
  /-- `server_root.der` of a chain. -/
  rootDer : Bytes → Bytes
  /-- `cases`. -/
  cases : List Case
  /-- The identity of the client, in mTLS mode. -/
  client : Option (Bytes × Bytes) := none

namespace Setup

variable (s : Setup)

/-- `selected_chain_ids`. -/
def selectedChainIds : List Bytes := (s.cases.map Case.pkiChainId).eraseDups

/-- `generate_server_case` for a selected chain.  An unknown chain is an error. -/
def directory (chainId : Bytes) : Option Directory :=
  (s.chainsById chainId).bind fun chain ↦ generateServerCase chain (s.rootDer chainId)

/-- `chain_directory_list`. -/
def directories : Option (List Directory) := s.selectedChainIds.mapM s.directory

/-- `root_sizes`, a dictionary: the last size counts. -/
def rootSizes : List (Bytes × ℕ) :=
  let items := s.selectedChainIds.filterMap fun chainId ↦
    (s.chainsById chainId).map fun chain ↦ (chain.rootSigAlg, (s.rootDer chainId).length)
  (items.map Prod.fst).eraseDups.map fun root ↦
    (root, ((items.filter fun item ↦ item.1 = root).getLast?.map Prod.snd).getD 0)

/-- `build_profile`: the tables in the firmware of a profile. -/
def build (p : ProfileRoots) (profile : Bytes) : Option Tables := do
  let directories ← s.directories
  let roots ← p.roots profile
  let header ← generateUniversalHeader directories (some roots) s.client
  header.compile

/-- Two selected chains have the same root certificate if and only if they have the same root. -/
def RootsTold : Prop :=
  ∀ i ∈ s.selectedChainIds, ∀ j ∈ s.selectedChainIds, ∀ chain chain',
    s.chainsById i = some chain → s.chainsById j = some chain' →
      (s.rootDer i = s.rootDer j ↔ chain.rootSigAlg = chain'.rootSigAlg)

/-- The names of the case are those of its chain. -/
def Matches (c : Case) : Prop :=
  ∀ chain, s.chainsById c.pkiChainId = some chain →
    c.rootSigAlg = chain.rootSigAlg ∧ c.leafSigAlg = chain.leafSigAlg

end Setup

/-! ## The selection -/

/-- The frame that `select_pki_profile` sends. -/
def selectFrame (root leaf : Bytes) : Option Bytes :=
  let payload := ascii "[BENCH_SELECT] root=" ++ root ++ ascii " leaf=" ++ leaf
  if root = [] ∨ leaf = [] ∨ 256 - controlHeaderSize ≤ payload.length then none
  else some (controlFrame true true 1 payload)

namespace Tables

variable (t : Tables)

/-- The search in `benchmark_ca_bundle`. -/
def selectRoot (name : Bytes) : Option CaEntry := t.caBundle.find? fun entry ↦ strEq entry.id name

/-- The search in `benchmark_signature_profiles`. -/
def selectSignature (name : Bytes) : Option Signature :=
  t.signatureProfiles.find? fun profile ↦ strEq profile.name name

/-- `selected_root` and `selected_signature`, from the names in the last selection. -/
def selection (names : Option (Bytes × Bytes)) : Option CaEntry × Option Signature :=
  (names.bind fun n ↦ t.selectRoot n.1, names.bind fun n ↦ t.selectSignature n.2)

/-- `main` answers `unknown_profile`. -/
def Unknown (names : Option (Bytes × Bytes)) : Prop :=
  (t.selection names).1 = none ∨ (t.selection names).2 = none

end Tables

/-- The tables have what the case needs. -/
structure Serves (s : Setup) (t : Tables) (c : Case) : Prop where
  /-- The root is that of the chain of the case. -/
  root : ∃ entry, t.selectRoot c.rootSigAlg = some entry ∧ entry.data = s.rootDer c.pkiChainId
  /-- The scheme is that of the leaf. -/
  leaf : ∃ item profile, signatureByName c.leafSigAlg = some item ∧
    t.selectSignature c.leafSigAlg = some profile ∧
    profile.tlsSignatureSchemeId = item.tlsSignatureSchemeId
  /-- The board gets the names, and does not refuse the session. -/
  known : ∃ frame, selectFrame c.rootSigAlg c.leafSigAlg = some frame ∧
    ∀ rx : Rx, (rx.l2capRecv frame).selected = some (c.rootSigAlg, c.leafSigAlg) ∧
      ¬ t.Unknown (rx.l2capRecv frame).selected

/-! ## The names arrive -/

/-- The name of an algorithm is a word, and short. -/
structure Sendable (name : Bytes) : Prop where
  ne_nil : name ≠ []
  length_le : name.length ≤ 30
  isSpace : ∀ b ∈ name, isSpace b = false
  zero_notMem : 0 ∉ name

theorem sendable_of_signatureByName {name : Bytes} {item : Signature}
    (h : signatureByName name = some item) : Sendable name := by
  have hall : signatures.all (fun item ↦ item.name ≠ [] && item.name.length ≤ 30 &&
    item.name.all fun b ↦ !isSpace b && b ≠ 0) = true := by decide
  have hitem := List.all_eq_true.mp hall item (List.mem_of_find?_eq_some h)
  rw [name_of_signatureByName h, Bool.and_eq_true, Bool.and_eq_true, decide_eq_true_iff,
    decide_eq_true_iff, List.all_eq_true] at hitem
  obtain ⟨⟨hne, hlength⟩, hbytes⟩ := hitem
  refine ⟨hne, hlength, fun b hb ↦ ?_, fun hzero ↦ ?_⟩
  · exact (Bool.not_eq_true' _).mp (Bool.and_eq_true_iff.mp (hbytes b hb)).1
  · exact of_decide_eq_true (Bool.and_eq_true_iff.mp (hbytes 0 hzero)).2 rfl

/-- The selection, in the pieces of the format. -/
theorem scanSelect_names {root leaf : Bytes} (hroot : Sendable root) (hleaf : Sendable leaf) :
    scanSelect.run (ascii "[BENCH_SELECT] root=" ++ root ++ ascii " leaf=" ++ leaf) =
      some (root, leaf) := by
  have hpieces : ascii "[BENCH_SELECT] root=" ++ root ++ ascii " leaf=" ++ leaf =
      ascii "[BENCH_SELECT]" ++ 32 :: (ascii "root=" ++ (root ++ 32 :: (ascii "leaf=" ++
        (leaf ++ [])))) := by
    simp only [List.append_nil, List.append_assoc]
    rfl
  have hzero : 0 ∉ ascii "[BENCH_SELECT] root=" ++ root ++ ascii " leaf=" ++ leaf := by
    simp only [List.mem_append, not_or]
    exact ⟨⟨⟨by decide, hroot.zero_notMem⟩, by decide⟩, hleaf.zero_notMem⟩
  have hspaceRoot : Scan.space (32 :: (ascii "root=" ++ (root ++ 32 :: (ascii "leaf=" ++
      (leaf ++ []))))) =
      some ((), ascii "root=" ++ (root ++ 32 :: (ascii "leaf=" ++ (leaf ++ [])))) :=
    Scan.space_cons rfl
  have hspaceLeaf : Scan.space (32 :: (ascii "leaf=" ++ (leaf ++ []))) =
      some ((), ascii "leaf=" ++ (leaf ++ [])) := Scan.space_cons rfl
  have hwordRoot : Scan.word 95 (root ++ 32 :: (ascii "leaf=" ++ (leaf ++ []))) =
      some (root, 32 :: (ascii "leaf=" ++ (leaf ++ []))) :=
    Scan.word_append hroot.ne_nil (hroot.length_le.trans (by decide)) hroot.isSpace
      (by rintro b ⟨⟩; rfl)
  have hwordLeaf : Scan.word 95 (leaf ++ []) = some (leaf, []) :=
    Scan.word_append hleaf.ne_nil (hleaf.length_le.trans (by decide)) hleaf.isSpace nofun
  have hscan : scanSelect (ascii "[BENCH_SELECT] root=" ++ root ++ ascii " leaf=" ++ leaf) =
      some ((root, leaf), []) := by
    rw [hpieces, scanSelect, Scan.bind_of_eq (Scan.literal_append _ _), Scan.bind_of_eq hspaceRoot,
      Scan.bind_of_eq (Scan.literal_append _ _), Scan.bind_of_eq hwordRoot,
      Scan.bind_of_eq hspaceLeaf, Scan.bind_of_eq (Scan.literal_append _ _),
      Scan.bind_of_eq hwordLeaf]
    rfl
  exact Scan.run_eq (cstr_of_notMem hzero) hscan

/-- The board gets the names. -/
theorem exists_selectFrame {root leaf : Bytes} (hroot : Sendable root) (hleaf : Sendable leaf) :
    ∃ frame, selectFrame root leaf = some frame ∧
      ∀ rx : Rx, (rx.l2capRecv frame).selected = some (root, leaf) := by
  have hlength : (ascii "[BENCH_SELECT] root=" ++ root ++ ascii " leaf=" ++ leaf).length ≤ 86 := by
    have hprefixes : (ascii "[BENCH_SELECT] root=").length = 20 ∧ (ascii " leaf=").length = 6 :=
      ⟨rfl, rfl⟩
    have hle := Nat.add_le_add hroot.length_le hleaf.length_le
    simp only [List.length_append, hprefixes.1, hprefixes.2]
    omega
  have hshort : ¬ (root = [] ∨ leaf = [] ∨ 256 - controlHeaderSize ≤
      (ascii "[BENCH_SELECT] root=" ++ root ++ ascii " leaf=" ++ leaf).length) := by
    rintro (h | h | h)
    · exact hroot.ne_nil h
    · exact hleaf.ne_nil h
    · exact absurd (h.trans hlength) (by decide)
  refine ⟨_, if_neg hshort, fun rx ↦ ?_⟩
  have hcontrol : ∀ payload, IsControl (controlFrame true true 1 payload) :=
    fun payload ↦ ⟨Nat.le_add_left 8 _, rfl⟩
  have hpayload : ∀ payload, (controlFrame true true 1 payload).drop controlHeaderSize = payload :=
    fun _ ↦ rfl
  rw [Rx.l2capRecv, if_pos (hcontrol _), hpayload, List.take_of_length_le (hlength.trans
    (by decide)),
    scanSelect_names hroot hleaf]

/-! ## The tables of a profile -/

namespace Setup

variable {s : Setup}

/-- A selected chain whose algorithms are known. -/
structure IsSelected (s : Setup) (chainId : Bytes) (chain : PkiChain) : Prop where
  mem : chainId ∈ s.selectedChainIds
  byId : s.chainsById chainId = some chain
  rootKnown : ∃ item, signatureByName chain.rootSigAlg = some item
  leafKnown : ∃ item, signatureByName chain.leafSigAlg = some item

/-- The directory of a selected chain. -/
def chainDirectory (s : Setup) (chainId : Bytes) (chain : PkiChain) : Directory :=
  ⟨some ⟨chain.rootSigAlg, chain.leafSigAlg⟩, some (s.rootDer chainId)⟩

theorem isSelected_of_directory {chainId : Bytes} {d : Directory}
    (hmem : chainId ∈ s.selectedChainIds)
    (h : s.directory chainId = some d) :
    ∃ chain, s.IsSelected chainId chain ∧ d = s.chainDirectory chainId chain := by
  obtain ⟨chain, hchain, h⟩ := Option.bind_eq_some_iff.mp h
  obtain ⟨root, hroot, h⟩ := Option.bind_eq_some_iff.mp h
  obtain ⟨_, -, h⟩ := Option.bind_eq_some_iff.mp h
  obtain ⟨leaf, hleaf, h⟩ := Option.bind_eq_some_iff.mp h
  cases h
  rw [name_of_signatureByName hroot, name_of_signatureByName hleaf]
  exact ⟨chain, ⟨hmem, hchain, ⟨root, hroot⟩, ⟨leaf, hleaf⟩⟩, rfl⟩

theorem isSelected_of_mem {directories : List Directory} (h : s.directories = some directories)
    {chainId : Bytes} (hmem : chainId ∈ s.selectedChainIds) :
    ∃ chain, s.IsSelected chainId chain := by
  obtain ⟨d, -, hd⟩ := (exists_of_mem_mapM h).1 chainId hmem
  obtain ⟨chain, hchain, -⟩ := isSelected_of_directory hmem hd
  exact ⟨chain, hchain⟩

/-- The directories are those of the selected chains. -/
theorem mem_directories {directories : List Directory} (h : s.directories = some directories)
    (d : Directory) :
    d ∈ directories ↔ ∃ chainId chain, s.IsSelected chainId chain ∧
      d = s.chainDirectory chainId chain := by
  obtain ⟨hleft, hright⟩ := exists_of_mem_mapM h
  constructor
  · intro hd
    obtain ⟨chainId, hmem, hd⟩ := hright d hd
    exact ⟨chainId, isSelected_of_directory hmem hd⟩
  · rintro ⟨chainId, chain, hchain, rfl⟩
    obtain ⟨d, hd, hdirectory⟩ := hleft chainId hchain.mem
    obtain ⟨chain', hchain', rfl⟩ := isSelected_of_directory hchain.mem hdirectory
    cases hchain'.byId.symm.trans hchain.byId
    exact hd

/-- What is in the tables of a profile with these roots. -/
structure Holds (s : Setup) (roots : List Bytes) (t : Tables) : Prop where
  root_mem : ∀ entry ∈ t.caBundle, entry.id ∈ roots ∧ ∃ chainId chain,
    s.IsSelected chainId chain ∧ chain.rootSigAlg = entry.id ∧ s.rootDer chainId = entry.data
  mem_root : ∀ chainId chain, s.IsSelected chainId chain → chain.rootSigAlg ∈ roots →
    ∃ entry ∈ t.caBundle, entry.data = s.rootDer chainId
  leaf_mem : ∀ item ∈ t.signatureProfiles, signatureByName item.name = some item ∧
    ∃ chainId chain, s.IsSelected chainId chain ∧ chain.leafSigAlg = item.name
  mem_leaf : ∀ chainId chain, s.IsSelected chainId chain →
    ∃ item ∈ t.signatureProfiles, item.name = chain.leafSigAlg

/-- The firmware of every profile can be built. -/
theorem exists_build {directories : List Directory} (h : s.directories = some directories)
    {p : ProfileRoots} {profile : Bytes} {roots : List Bytes}
    (hroots : p.roots profile = some roots) :
    ∃ t, s.build p profile = some t ∧ s.Holds roots t := by
  have hmem := mem_directories h
  have hknown : ∀ m data, ⟨some m, some data⟩ ∈ directories →
      ∃ item, signatureByName m.leafSigAlg = some item := by
    intro m data hd
    obtain ⟨chainId, chain, hchain, heq⟩ := (hmem _).mp hd
    cases heq
    exact hchain.leafKnown
  have hexists : ∃ st, directories.foldlM (HeaderState.add (some roots)) {} = some st :=
    HeaderState.exists_collected hknown {}
  obtain ⟨st, hst⟩ := hexists
  obtain ⟨hroot, hleaf⟩ := HeaderState.collected hst
  have hwanted : ∀ root, HeaderState.isWanted (some roots) root = true ↔ root ∈ roots :=
    fun _ ↦ List.contains_iff_mem
  have hbuild : s.build p profile = some
      { caBundle := st.roots.map fun r ↦ ⟨r.1, r.2.2⟩, signatureProfiles := st.profiles } := by
    rw [build, h, hroots]
    simp only [generateUniversalHeader, hst, Option.map_some, bind, Option.bind_some]
    exact hroot.compile s.client
  refine ⟨_, hbuild, ?_, ?_, ?_, ?_⟩
  · intro entry hentry
    obtain ⟨r, hr, rfl⟩ := List.mem_map.mp hentry
    obtain ⟨hin, leaf, hd⟩ := hroot.root_mem r hr
    obtain ⟨chainId, chain, hchain, heq⟩ := (hmem _).mp hd
    rw [chainDirectory, Directory.mk.injEq, Option.some_inj, Option.some_inj,
      Metadata.mk.injEq] at heq
    exact ⟨(hwanted r.1).mp hin, chainId, chain, hchain, heq.1.1.symm, heq.2.symm⟩
  · intro chainId chain hchain hin
    have hseen := hroot.mem_root _ _ _ ((hmem _).mpr ⟨chainId, chain, hchain, rfl⟩)
      ((hwanted _).mpr hin)
    rw [hroot.seen] at hseen
    obtain ⟨r, hr, heq⟩ := List.mem_map.mp hseen
    exact ⟨_, List.mem_map_of_mem hr, heq⟩
  · intro item hitem
    obtain ⟨hname, root, data, hd⟩ := hleaf.profile_mem item hitem
    obtain ⟨chainId, chain, hchain, heq⟩ := (hmem _).mp hd
    rw [chainDirectory, Directory.mk.injEq, Option.some_inj, Metadata.mk.injEq] at heq
    exact ⟨hname, chainId, chain, hchain, heq.1.2.symm⟩
  · intro chainId chain hchain
    have hseen := hleaf.mem_profile _ _ _ ((hmem _).mpr ⟨chainId, chain, hchain, rfl⟩)
    rw [hleaf.seen] at hseen
    exact List.mem_map.mp hseen

theorem mem_rootSizes {c : Case} {chain : PkiChain} (hchain : s.IsSelected c.pkiChainId chain)
    (hmatches : s.Matches c) : c.rootSigAlg ∈ s.rootSizes.map Prod.fst := by
  have hitem : (chain.rootSigAlg, (s.rootDer c.pkiChainId).length) ∈
      s.selectedChainIds.filterMap fun chainId ↦ (s.chainsById chainId).map fun chain ↦
        (chain.rootSigAlg, (s.rootDer chainId).length) :=
    List.mem_filterMap.mpr ⟨_, hchain.mem, by rw [hchain.byId]; rfl⟩
  rw [(hmatches chain hchain.byId).1, rootSizes, List.map_map]
  refine List.mem_map.mpr ⟨chain.rootSigAlg, List.mem_eraseDups.mpr ?_, rfl⟩
  exact List.mem_map_of_mem hitem

/-! ## The lookups -/

namespace Holds

variable {roots : List Bytes} {t : Tables} {name : Bytes}

theorem strEq_root (h : s.Holds roots t) (hname : 0 ∉ name) {entry : CaEntry}
    (hentry : entry ∈ t.caBundle) : strEq entry.id name = true ↔ entry.id = name := by
  obtain ⟨-, chainId, chain, hchain, hid, -⟩ := h.root_mem entry hentry
  obtain ⟨item, hitem⟩ := hchain.rootKnown
  exact strEq_iff (hid ▸ (sendable_of_signatureByName hitem).zero_notMem) hname

theorem strEq_leaf (h : s.Holds roots t) (hname : 0 ∉ name) {item : Signature}
    (hitem : item ∈ t.signatureProfiles) : strEq item.name name = true ↔ item.name = name :=
  strEq_iff (sendable_of_signatureByName (h.leaf_mem item hitem).1).zero_notMem hname

/-- The root that is found. -/
theorem root_of_selectRoot (h : s.Holds roots t) (hname : 0 ∉ name) {entry : CaEntry}
    (hfind : t.selectRoot name = some entry) : entry ∈ t.caBundle ∧ entry.id = name := by
  have hmem := List.mem_of_find?_eq_some hfind
  have heq := List.find?_some hfind
  exact ⟨hmem, (h.strEq_root hname hmem).mp heq⟩

theorem leaf_of_selectSignature (h : s.Holds roots t) (hname : 0 ∉ name) {item : Signature}
    (hfind : t.selectSignature name = some item) :
    item ∈ t.signatureProfiles ∧ item.name = name := by
  have hmem := List.mem_of_find?_eq_some hfind
  have heq := List.find?_some hfind
  exact ⟨hmem, (h.strEq_leaf hname hmem).mp heq⟩

/-- The search for a root fails if and only if the profile does not have it. -/
theorem selectRoot_eq_none (h : s.Holds roots t) (htold : s.RootsTold) (hname : 0 ∉ name) :
    t.selectRoot name = none ↔
      ¬ (name ∈ roots ∧ ∃ chainId chain, s.IsSelected chainId chain ∧ chain.rootSigAlg = name) := by
  constructor
  · rintro hfind ⟨hin, chainId, chain, hchain, rfl⟩
    obtain ⟨entry, hentry, hdata⟩ := h.mem_root chainId chain hchain hin
    obtain ⟨-, chainId', chain', hchain', hid, hdata'⟩ := h.root_mem entry hentry
    have hroot := (htold chainId' hchain'.mem chainId hchain.mem chain' chain hchain'.byId
      hchain.byId).mp (hdata'.trans hdata)
    exact List.find?_eq_none.mp hfind entry hentry
      ((h.strEq_root hname hentry).mpr (hid.symm.trans hroot))
  · intro hnone
    refine List.find?_eq_none.mpr fun entry hentry heq ↦ hnone ?_
    obtain ⟨hin, chainId, chain, hchain, hid, -⟩ := h.root_mem entry hentry
    have heq := (h.strEq_root hname hentry).mp heq
    exact ⟨heq ▸ hin, chainId, chain, hchain, hid.trans heq⟩

/-- The search for a leaf fails if and only if no selected chain has it. -/
theorem selectSignature_eq_none (h : s.Holds roots t) (hname : 0 ∉ name) :
    t.selectSignature name = none ↔
      ¬ ∃ chainId chain, s.IsSelected chainId chain ∧ chain.leafSigAlg = name := by
  constructor
  · rintro hfind ⟨chainId, chain, hchain, rfl⟩
    obtain ⟨item, hitem, hleaf⟩ := h.mem_leaf chainId chain hchain
    exact List.find?_eq_none.mp hfind item hitem ((h.strEq_leaf hname hitem).mpr hleaf)
  · intro hnone
    refine List.find?_eq_none.mpr fun item hitem heq ↦ hnone ?_
    obtain ⟨-, chainId, chain, hchain, hleaf⟩ := h.leaf_mem item hitem
    exact ⟨chainId, chain, hchain, hleaf.trans ((h.strEq_leaf hname hitem).mp heq)⟩

/-- The tables serve a case of the profile. -/
theorem serves (h : s.Holds roots t) (htold : s.RootsTold) {c : Case} {chain : PkiChain}
    (hchain : s.IsSelected c.pkiChainId chain) (hmatches : s.Matches c)
    (hin : c.rootSigAlg ∈ roots) :
    Serves s t c := by
  obtain ⟨hroot, hleaf⟩ := hmatches chain hchain.byId
  obtain ⟨rootItem, hrootItem⟩ := hchain.rootKnown
  obtain ⟨leafItem, hleafItem⟩ := hchain.leafKnown
  rw [← hroot] at hrootItem
  rw [← hleaf] at hleafItem
  have hsendRoot := sendable_of_signatureByName hrootItem
  have hsendLeaf := sendable_of_signatureByName hleafItem
  have hfindRoot : ¬ t.selectRoot c.rootSigAlg = none := fun hnone ↦
    (h.selectRoot_eq_none htold hsendRoot.zero_notMem).mp hnone
      ⟨hin, c.pkiChainId, chain, hchain, hroot.symm⟩
  have hfindLeaf : ¬ t.selectSignature c.leafSigAlg = none := fun hnone ↦
    (h.selectSignature_eq_none hsendLeaf.zero_notMem).mp hnone
      ⟨c.pkiChainId, chain, hchain, hleaf.symm⟩
  obtain ⟨entry, hentry⟩ := Option.ne_none_iff_exists'.mp hfindRoot
  obtain ⟨profile, hprofile⟩ := Option.ne_none_iff_exists'.mp hfindLeaf
  obtain ⟨hmemRoot, hid⟩ := h.root_of_selectRoot hsendRoot.zero_notMem hentry
  obtain ⟨hmemLeaf, hname⟩ := h.leaf_of_selectSignature hsendLeaf.zero_notMem hprofile
  obtain ⟨frame, hframe, hreceived⟩ := exists_selectFrame hsendRoot hsendLeaf
  refine ⟨⟨entry, hentry, ?_⟩, ⟨leafItem, profile, hleafItem, hprofile, ?_⟩, frame, hframe,
    fun rx ↦ ⟨hreceived rx, ?_⟩⟩
  · obtain ⟨-, chainId', chain', hchain', hid', hdata⟩ := h.root_mem entry hmemRoot
    rw [← hdata]
    exact (htold chainId' hchain'.mem c.pkiChainId hchain.mem chain' chain hchain'.byId
      hchain.byId).mpr (hid'.trans (hid.trans hroot))
  · have hitem := (h.leaf_mem profile hmemLeaf).1
    rw [hname, hleafItem] at hitem
    rw [Option.some_inj.mp hitem]
  · rw [hreceived rx]
    rintro (hnone | hnone)
    · exact hfindRoot hnone
    · exact hfindLeaf hnone

end Holds

end Setup

/-- The firmware of the profile of a case can be built, and serves the case; a name is not found if
and only if no selected chain with a root of the profile has it.  Every case has a profile if the
profiles have been planned for the selected roots. -/
theorem selection_complete (s : Setup) (directories : List Directory)
    (h : s.directories = some directories) (htold : s.RootsTold) (c : Case) (hc : c ∈ s.cases)
    (hmatches : s.Matches c) :
    (∀ capacity p, ProfileRoots.plan s.rootSizes capacity = some p →
      ∃ profile, p.firmwareProfile c = some profile) ∧
    ∀ (p : ProfileRoots) (profile : Bytes), p.firmwareProfile c = some profile →
      ∃ roots t, p.roots profile = some roots ∧ s.build p profile = some t ∧ Serves s t c ∧
        ∀ name, 0 ∉ name →
          (t.selectRoot name = none ↔ ¬ (name ∈ roots ∧
            ∃ chainId chain, s.IsSelected chainId chain ∧ chain.rootSigAlg = name)) ∧
          (t.selectSignature name = none ↔
            ¬ ∃ chainId chain, s.IsSelected chainId chain ∧ chain.leafSigAlg = name) := by
  have hmem : c.pkiChainId ∈ s.selectedChainIds :=
    List.mem_eraseDups.mpr (List.mem_map_of_mem hc)
  obtain ⟨chain, hchain⟩ := Setup.isSelected_of_mem h hmem
  refine ⟨fun capacity p hp ↦ ?_, fun p profile hprofile ↦ ?_⟩
  · exact ProfileRoots.exists_profileOf_plan hp (Setup.mem_rootSizes hchain hmatches)
  · obtain ⟨roots, hroots, hin⟩ := ProfileRoots.exists_roots_of_profileOf hprofile
    obtain ⟨t, ht, hholds⟩ := Setup.exists_build h hroots
    exact ⟨roots, t, hroots, ht, hholds.serves htold hchain hmatches hin, fun name hname ↦
      ⟨hholds.selectRoot_eq_none htold hname, hholds.selectSignature_eq_none hname⟩⟩

/-- A chain with one algorithm. -/
def homogeneous (id alg : Bytes) : PkiChain := ⟨id, alg, alg, alg⟩

/-- Two cases with two chains.  The first names the algorithm of the second chain. -/
def mislabelled : Setup where
  chainsById id :=
    if id = ascii "homogeneous_ecdsa_p_256" then some (homogeneous id (ascii "ECDSA-P-256"))
    else if id = ascii "homogeneous_ml_dsa_44" then some (homogeneous id (ascii "ML-DSA-44"))
    else none
  rootDer id := id
  cases :=
    [⟨ascii "homogeneous_ecdsa_p_256", ascii "ML-DSA-44", ascii "ML-DSA-44", ascii "ML-DSA-44"⟩,
      ⟨ascii "homogeneous_ml_dsa_44", ascii "ML-DSA-44", ascii "ML-DSA-44", ascii "ML-DSA-44"⟩]

/-- The board finds the root of another chain. -/
theorem not_selection_complete : ∃ directories c p profile t,
    mislabelled.directories = some directories ∧ mislabelled.RootsTold ∧ c ∈ mislabelled.cases ∧
      p.firmwareProfile c = some profile ∧ mislabelled.build p profile = some t ∧
      ¬ ∃ entry, t.selectRoot c.rootSigAlg = some entry ∧
        entry.data = mislabelled.rootDer c.pkiChainId := by
  have hids : mislabelled.selectedChainIds =
      [ascii "homogeneous_ecdsa_p_256", ascii "homogeneous_ml_dsa_44"] := rfl
  refine ⟨_, ⟨ascii "homogeneous_ecdsa_p_256", ascii "ML-DSA-44", ascii "ML-DSA-44",
    ascii "ML-DSA-44"⟩, ⟨[(ascii "profile-01", [ascii "ML-DSA-44"]),
      (ascii "profile-02", [ascii "ECDSA-P-256"])], by decide⟩, ascii "profile-01",
    ⟨[⟨ascii "ML-DSA-44", ascii "homogeneous_ml_dsa_44"⟩], _⟩, rfl, ?_, .head _, rfl, rfl, ?_⟩
  · intro i hi j hj chain chain' hchain hchain'
    rw [hids, List.mem_cons, List.mem_singleton] at hi hj
    rcases hi with rfl | rfl <;> rcases hj with rfl | rfl <;> cases hchain <;>
      cases hchain' <;> decide
  · rintro ⟨entry, hentry, hdata⟩
    cases hentry
    exact absurd hdata (by decide)

/-- A case whose names are those of its chain. -/
def labelled : Setup where
  chainsById id := some (homogeneous id (ascii "ML-DSA-44"))
  rootDer id := id
  cases :=
    [⟨ascii "homogeneous_ml_dsa_44", ascii "ML-DSA-44", ascii "ML-DSA-44", ascii "ML-DSA-44"⟩]

/-- Two cases with two chains, one of which has the leaf of one algorithm under the root of another.
-/
def twoChains : Setup where
  chainsById id :=
    if id = ascii "ecdsa_ml_dsa_44" then
      some ⟨id, ascii "ECDSA-P-256", ascii "ML-DSA-44", ascii "ML-DSA-44"⟩
    else if id = ascii "homogeneous_ml_dsa_44" then some (homogeneous id (ascii "ML-DSA-44"))
    else none
  rootDer id := id
  cases :=
    [⟨ascii "homogeneous_ml_dsa_44", ascii "ML-DSA-44", ascii "ML-DSA-44", ascii "ML-DSA-44"⟩,
      ⟨ascii "ecdsa_ml_dsa_44", ascii "ECDSA-P-256", ascii "ML-DSA-44", ascii "ML-DSA-44"⟩]

/-- A profile for each root. -/
def twoProfiles : ProfileRoots :=
  ⟨[(ascii "profile-01", [ascii "ML-DSA-44"]), (ascii "profile-02", [ascii "ECDSA-P-256"])],
    by decide⟩

theorem selection_complete_twoChains :
    ∃ t, twoChains.build twoProfiles (ascii "profile-02") = some t ∧
      Serves twoChains t
        ⟨ascii "ecdsa_ml_dsa_44", ascii "ECDSA-P-256", ascii "ML-DSA-44", ascii "ML-DSA-44"⟩ ∧
      t.selectRoot (ascii "ML-DSA-44") = none := by
  have hids : twoChains.selectedChainIds =
      [ascii "homogeneous_ml_dsa_44", ascii "ecdsa_ml_dsa_44"] := rfl
  have htold : twoChains.RootsTold := by
    intro i hi j hj chain chain' hchain hchain'
    rw [hids, List.mem_cons, List.mem_singleton] at hi hj
    rcases hi with rfl | rfl <;> rcases hj with rfl | rfl <;> cases hchain <;>
      cases hchain' <;> decide
  have hmatches : twoChains.Matches
      ⟨ascii "ecdsa_ml_dsa_44", ascii "ECDSA-P-256", ascii "ML-DSA-44", ascii "ML-DSA-44"⟩ := by
    intro chain hchain
    cases hchain
    exact ⟨rfl, rfl⟩
  obtain ⟨-, hserves⟩ := selection_complete twoChains _ rfl htold _ (.tail _ (.head _)) hmatches
  obtain ⟨roots, t, hroots, ht, hserves, hnames⟩ :=
    hserves twoProfiles (ascii "profile-02") rfl
  obtain rfl : [ascii "ECDSA-P-256"] = roots := Option.some_inj.mp hroots
  refine ⟨t, ht, hserves, (hnames (ascii "ML-DSA-44") (by decide)).1.mpr fun hknown ↦ ?_⟩
  exact absurd hknown.1 (by decide)

end PeripheralBench.Pki

import PeripheralBench.Pki.HashBased

/-!
# What `hbs_certgen` leaves behind

`Inv` is what is true of the files and of the ledger wherever the program stops: the saved roots are
ahead of everything they have signed (`Ledger.Safe`), a root certificate is for the key that is
saved next to it, as far as it has been written (`RootOk`), and a folder with all the files of a
chain has a chain (`FolderOk`).

While the program is at work its output has no `server_chain.crt`, so that what is there cannot be
taken for a chain (`Busy`), and the root it has taken up is the one that is saved (`Working`).
-/

open PeripheralBench.Text

namespace PeripheralBench.Pki.HashBased

open Durable

variable {κ μ : Type}

/-! ## The invariant -/

/-- The place of the private key of a root. -/
abbrev statePath (kind : Hbs) : Path := (.roots kind, .rootState)

/-- The place of the certificate of a root. -/
abbrev rootPath (kind : Hbs) : Path := (.roots kind, .serverRootDer)

/-- The first certificate is that of the issuer of the second. -/
structure Certificate.Issues (p c : Certificate κ) : Prop where
  issuer : c.issuer = p.subject
  signer : c.signer = p.key
  isCa : p.isCa = true
  keyUsage : p.keyUsage = ascii "keyCertSign,cRLSign"

/-- The certificates of a chain, with a root of this kind. -/
structure Chain.Valid (W : Wolf κ μ) (kind : Hbs) (c : Chain κ) (r i l : Certificate κ) : Prop where
  rootDer : c.rootDer = W.der r
  intermediateDer : c.intermediateDer = W.der i
  leafDer : c.leafDer = W.der l
  root : r.Issues r
  intermediate : r.Issues i
  leaf : i.Issues l
  keyType : r.keyType = kind.keyType
  endEntity : l.isCa = false
  leafKey : l.key = c.leafKey

/-- The files of a chain, but for the last one. -/
structure Written (W : Wolf κ μ) (w : World κ) (folder : Folder) (c : Chain κ) : Prop where
  rootDer : w.files (folder, .serverRootDer) = some c.rootDer
  rootCrt : w.files (folder, .serverRootCrt) = some (W.pem .cert c.rootDer)
  intermediateDer : w.files (folder, .serverIntermediateDer) = some c.intermediateDer
  intermediateCrt :
    w.files (folder, .serverIntermediateCrt) = some (W.pem .cert c.intermediateDer)
  leafDer : w.files (folder, .serverDer) = some c.leafDer
  leafCrt : w.files (folder, .serverCrt) = some (W.pem .cert c.leafDer)
  leafKey :
    w.files (folder, .serverKey) = some (W.pem c.leafKind.pemType (W.keyDer c.leafKey))

/-- A folder with all the files of a chain has a chain.  Its `server_chain.crt` may be cut short. -/
def FolderOk (W : Wolf κ μ) (w : World κ) (folder : Folder) : Prop :=
  allPresent w folder publicChainFiles →
    ∃ kind c r i l, Chain.Valid W kind c r i l ∧ Written W w folder c ∧
      ∃ b, w.files (folder, .serverChainCrt) = some b ∧
        b <+: W.pem .cert c.leafDer ++ W.pem .cert c.intermediateDer

/-- What has been written of the certificate of a root is about the key that is saved next to it. -/
def RootOk (W : Wolf κ μ) (w : World κ) (kind : Hbs) : Prop :=
  ∀ b, w.files (rootPath kind) = some b → b ≠ [] →
    ∃ r, b <+: W.der r ∧ (W.der r).length ≤ derCap ∧ r.Issues r ∧ r.keyType = kind.keyType ∧
      ∀ m, w.files (statePath kind) = some (W.save m) → W.key m = r.key

/-- The signers that are held: those that are saved for the roots, and some in memory. -/
def hold (W : Wolf κ μ) (w : World κ) (memory : Set μ) : Option Hbs → Set μ
  | none => memory
  | some kind => {m | w.files (statePath kind) = some (W.save m)}

/-- What the files and the ledger have to do with each other. -/
structure Inv (W : Wolf κ μ) (w : World κ) (memory : Set μ) : Prop where
  safe : Ledger.Safe W.toSigner w.ledger (hold W w memory)
  root : ∀ kind, RootOk W w kind
  folder : ∀ chainId, FolderOk W w (.chains chainId)

/-- The invariant, as long as no private key has been misread. -/
def Good (W : Wolf κ μ) (w : World κ) : Prop := w.misread = false → Inv W w ∅

namespace Inv

variable {W : Wolf κ μ} {w : World κ} {memory memory' : Set μ}

theorem empty : Inv W .empty ∅ where
  safe := by
    refine Ledger.Safe.empty.mono fun i ↦ ?_
    cases i with
    | none => exact subset_rfl
    | some kind => exact fun m hm ↦ absurd hm (by simp [hold, World.empty])
  root kind b hb := absurd hb (by simp [World.empty])
  folder chainId h := absurd h (by simp [World.empty, allPresent, publicChainFiles])

/-- What is in memory may be forgotten. -/
theorem forget (h : Inv W w memory) (hsub : memory' ⊆ memory) : Inv W w memory' where
  safe := h.safe.mono fun i ↦ by
    cases i with
    | none => exact hsub
    | some kind => exact subset_rfl
  root := h.root
  folder := h.folder

end Inv

/-- A folder without `server_chain.crt`. -/
theorem FolderOk.of_pending {W : Wolf κ μ} {w : World κ} {folder : Folder}
    (h : w.files (folder, .serverChainCrt) = none) : FolderOk W w folder := by
  intro hall
  have := List.all_eq_true.mp hall .serverChainCrt (by simp [publicChainFiles])
  rw [h] at this
  exact absurd this (by simp)

/-- The files of a chain may be looked at in another world, or in another folder. -/
theorem Written.of_files {W : Wolf κ μ} {w w' : World κ} {folder folder' : Folder} {c : Chain κ}
    (h : Written W w folder c)
    (hfiles : ∀ name ∈ publicChainFiles, w'.files (folder', name) = w.files (folder, name)) :
    Written W w' folder' c where
  rootDer := (hfiles _ (by simp [publicChainFiles])).trans h.rootDer
  rootCrt := (hfiles _ (by simp [publicChainFiles])).trans h.rootCrt
  intermediateDer := (hfiles _ (by simp [publicChainFiles])).trans h.intermediateDer
  intermediateCrt := (hfiles _ (by simp [publicChainFiles])).trans h.intermediateCrt
  leafDer := (hfiles _ (by simp [publicChainFiles])).trans h.leafDer
  leafCrt := (hfiles _ (by simp [publicChainFiles])).trans h.leafCrt
  leafKey := (hfiles _ (by simp [publicChainFiles])).trans h.leafKey

/-- Files may be taken away. -/
theorem FolderOk.of_sub {W : Wolf κ μ} {w w' : World κ} {folder : Folder} (h : FolderOk W w folder)
    (hfiles : ∀ name b, w'.files (folder, name) = some b → w.files (folder, name) = some b) :
    FolderOk W w' folder := by
  intro hall
  have hsame : ∀ name ∈ publicChainFiles, w'.files (folder, name) = w.files (folder, name) := by
    intro name hname
    obtain ⟨b, hb⟩ := Option.isSome_iff_exists.mp (List.all_eq_true.mp hall name hname)
    rw [hb, hfiles name b hb]
  have hall' : allPresent w folder publicChainFiles :=
    List.all_eq_true.mpr fun name hname ↦ hsame name hname ▸ List.all_eq_true.mp hall name hname
  obtain ⟨kind, c, r, i, l, hvalid, hw, b, hb, hpre⟩ := h hall'
  exact ⟨kind, c, r, i, l, hvalid, hw.of_files hsame, b,
    (hsame _ (by simp [publicChainFiles])).trans hb, hpre⟩

/-- Only the files in the folder matter. -/
theorem FolderOk.congr {W : Wolf κ μ} {w w' : World κ} {folder : Folder} (h : FolderOk W w folder)
    (hfiles : ∀ name, w'.files (folder, name) = w.files (folder, name)) : FolderOk W w' folder :=
  h.of_sub fun name _ hb ↦ (hfiles name).symm.trans hb

/-- Every folder is as it was, or has no `server_chain.crt`. -/
theorem folderOk_of_pending {W : Wolf κ μ} {w w' : World κ} {chainId : Bytes}
    (h : ∀ id, FolderOk W w (.chains id))
    (hpending : w'.files (.chains chainId, .serverChainCrt) = none)
    (hfiles : ∀ id, id ≠ chainId → ∀ name,
      w'.files (.chains id, name) = w.files (.chains id, name)) (id : Bytes) :
    FolderOk W w' (.chains id) := by
  rcases eq_or_ne id chainId with rfl | hid
  · exact .of_pending hpending
  · exact (h id).congr (hfiles id hid)

namespace Inv

variable {W : Wolf κ μ} {w w' : World κ} {memory memory' : Set μ}

/-- The roots are left alone. -/
theorem of_roots (h : Inv W w memory)
    (hstate : ∀ kind, w'.files (statePath kind) = w.files (statePath kind))
    (hroot : ∀ kind, w'.files (rootPath kind) = w.files (rootPath kind))
    (hfolder : ∀ id, FolderOk W w' (.chains id))
    (hsafe : Ledger.Safe W.toSigner w'.ledger (hold W w memory')) : Inv W w' memory' where
  safe := hsafe.mono fun i ↦ by
    cases i with
    | none => exact subset_rfl
    | some kind => exact fun m (hm : w'.files _ = _) ↦ (hstate kind).symm.trans hm
  root kind b hb hne := by
    obtain ⟨r, hpre, hlen, hissues, htype, hkey⟩ := h.root kind b ((hroot kind).symm.trans hb) hne
    exact ⟨r, hpre, hlen, hissues, htype, fun m hm ↦ hkey m ((hstate kind).symm.trans hm)⟩
  folder := hfolder

/-- The private key of a root is written, from the beginning up to somewhere. -/
theorem of_state (hW : W.Lawful) (h : Inv W w memory) {kind : Hbs} {b : Bytes} {m' : μ}
    (hfiles : w'.files = (w.put (statePath kind) (some b)).files) (hb : b <+: W.save m')
    (hkey : ∀ b, w.files (rootPath kind) = some b → b ≠ [] →
      ∃ m, w.files (statePath kind) = some (W.save m) ∧ W.key m' = W.key m)
    (hsafe : Ledger.Safe W.toSigner w'.ledger
      (Function.update (hold W w memory) (some kind) {m'})) : Inv W w' memory := by
  have hstate : w'.files (statePath kind) = some b := by rw [hfiles, World.files_put_self]
  have hother : ∀ p, p ≠ statePath kind → w'.files p = w.files p :=
    fun p hp ↦ by rw [hfiles, World.files_put_of_ne hp]
  have hsaved : ∀ m, w'.files (statePath kind) = some (W.save m) → m = m' := by
    intro m hm
    rw [hstate] at hm
    exact hW.eq_of_save_prefix (Option.some.inj hm ▸ hb)
  refine ⟨hsafe.mono fun i ↦ ?_, fun kind' b' hb' hne ↦ ?_, fun id ↦ ?_⟩
  · cases i with
    | none => rw [Function.update_of_ne (by simp)]; exact subset_rfl
    | some kind' =>
        rcases eq_or_ne kind' kind with rfl | hne
        · rw [Function.update_self]
          exact fun m hm ↦ hsaved m hm
        · rw [Function.update_of_ne (by simpa using hne)]
          exact fun m (hm : w'.files _ = _) ↦ (hother _ (by simpa using hne)).symm.trans hm
  · rw [hother _ (by simp)] at hb'
    obtain ⟨r, hpre, hlen, hissues, htype, hr⟩ := h.root kind' b' hb' hne
    refine ⟨r, hpre, hlen, hissues, htype, fun m hm ↦ ?_⟩
    rcases eq_or_ne kind' kind with rfl | hne'
    · obtain ⟨m₀, hm₀, hk⟩ := hkey b' hb' hne
      rw [hsaved m hm, hk]
      exact hr m₀ hm₀
    · exact hr m ((hother _ (by simpa using hne')).symm.trans hm)
  · exact (h.folder id).congr fun name ↦ hother _ (by simp)

end Inv

/-! ## While the program is at work -/

/-- A chain is being made: there are signers in memory, and no `server_chain.crt`. -/
structure Busy (W : Wolf κ μ) (chainId : Bytes) (memory : Set μ) (w : World κ) : Prop where
  pending : w.files (.chains chainId, .serverChainCrt) = none
  inv : w.misread = false → Inv W w memory

/-- A file that is not about a root, in the output or the cache. -/
structure Harmless (chainId : Bytes) (p : Path) : Prop where
  state : ∀ kind, statePath kind ≠ p
  root : ∀ kind, rootPath kind ≠ p
  chain : ∀ id, (Folder.chains id, FileName.serverChainCrt) ≠ p
  folder : ∀ id name, (Folder.chains id, name) = p → id = chainId

theorem Harmless.output {chainId : Bytes} {name : FileName} (h : name ≠ .serverChainCrt) :
    Harmless chainId (.chains chainId, name) where
  state _ := by simp
  root _ := by simp
  chain id := by simpa using fun _ ↦ h.symm
  folder id name' := by simpa using fun hid _ ↦ hid

theorem Harmless.rootCrt {chainId : Bytes} {kind : Hbs} :
    Harmless chainId (.roots kind, .serverRootCrt) where
  state _ := by simp
  root _ := by simp
  chain _ := by simp
  folder _ _ := by simp

namespace Busy

variable {W : Wolf κ μ} {w w' : World κ} {memory memory' : Set μ} {chainId : Bytes}

theorem good (h : Busy W chainId memory w) : Good W w :=
  fun hm ↦ (h.inv hm).forget (Set.empty_subset _)

theorem forget (h : Busy W chainId memory w) (hsub : memory' ⊆ memory) :
    Busy W chainId memory' w :=
  ⟨h.pending, fun hm ↦ (h.inv hm).forget hsub⟩

/-- Some file is changed, and something else happens to the ledger. -/
theorem put (h : Busy W chainId memory w) {p : Path} (hp : Harmless chainId p) (c : Option Bytes)
    (hfiles : w'.files = (w.put p c).files) (hmisread : w'.misread = w.misread)
    (hsafe : w.misread = false → Ledger.Safe W.toSigner w.ledger (hold W w memory) →
      Ledger.Safe W.toSigner w'.ledger (hold W w memory')) : Busy W chainId memory' w' := by
  have hother : ∀ q, q ≠ p → w'.files q = w.files q :=
    fun q hq ↦ by rw [hfiles, World.files_put_of_ne hq]
  have hpending : w'.files (.chains chainId, .serverChainCrt) = none :=
    (hother _ (hp.chain chainId)).trans h.pending
  refine ⟨hpending, fun hm ↦ ?_⟩
  have hinv := h.inv (hmisread ▸ hm)
  exact hinv.of_roots (fun kind ↦ hother _ (hp.state kind)) (fun kind ↦ hother _ (hp.root kind))
    (folderOk_of_pending hinv.folder hpending fun id hid name ↦
      hother _ fun heq ↦ hid (hp.folder id name heq))
    (hsafe (hmisread ▸ hm) hinv.safe)

/-- Only the ledger is changed. -/
theorem ledger (h : Busy W chainId memory w) (hfiles : w'.files = w.files)
    (hmisread : w'.misread = w.misread)
    (hsafe : w.misread = false → Ledger.Safe W.toSigner w.ledger (hold W w memory) →
      Ledger.Safe W.toSigner w'.ledger (hold W w memory')) : Busy W chainId memory' w' := by
  refine ⟨hfiles ▸ h.pending, fun hm ↦ ?_⟩
  have hinv := h.inv (hmisread ▸ hm)
  exact hinv.of_roots (fun _ ↦ by rw [hfiles]) (fun _ ↦ by rw [hfiles])
    (fun id ↦ (hinv.folder id).congr fun _ ↦ by rw [hfiles]) (hsafe (hmisread ▸ hm) hinv.safe)

end Busy

/-- The root `kind` has been taken up: its private key `m` is the one that is saved, and `φ` is
known about its certificate. -/
structure Working (W : Wolf κ μ) (chainId : Bytes) (kind : Hbs) (m : μ) (φ : Prop) (memory : Set μ)
    (w : World κ) : Prop extends Busy W chainId memory w where
  saved : w.misread = false → w.files (statePath kind) = some (W.save m)
  known : w.misread = false → φ

namespace Working

variable {W : Wolf κ μ} {w w' : World κ} {memory memory' : Set μ} {chainId : Bytes} {kind : Hbs}
  {m m' : μ} {φ ψ : Prop}

theorem imp (h : Working W chainId kind m φ memory w) (hφ : φ → ψ) :
    Working W chainId kind m ψ memory w :=
  ⟨h.toBusy, h.saved, fun hm ↦ hφ (h.known hm)⟩

theorem forget (h : Working W chainId kind m φ memory w) (hsub : memory' ⊆ memory) :
    Working W chainId kind m φ memory' w :=
  ⟨h.toBusy.forget hsub, h.saved, h.known⟩

theorem put (h : Working W chainId kind m φ memory w) {p : Path} (hp : Harmless chainId p)
    (c : Option Bytes) (hfiles : w'.files = (w.put p c).files) (hmisread : w'.misread = w.misread)
    (hsafe : w.misread = false → Ledger.Safe W.toSigner w.ledger (hold W w memory) →
      Ledger.Safe W.toSigner w'.ledger (hold W w memory')) :
    Working W chainId kind m φ memory' w' where
  toBusy := h.toBusy.put hp c hfiles hmisread hsafe
  saved hm := by
    rw [hfiles, World.files_put_of_ne (hp.state kind)]
    exact h.saved (hmisread ▸ hm)
  known hm := h.known (hmisread ▸ hm)

theorem ledger (h : Working W chainId kind m φ memory w) (hfiles : w'.files = w.files)
    (hmisread : w'.misread = w.misread)
    (hsafe : w.misread = false → Ledger.Safe W.toSigner w.ledger (hold W w memory) →
      Ledger.Safe W.toSigner w'.ledger (hold W w memory')) :
    Working W chainId kind m φ memory' w' where
  toBusy := h.toBusy.ledger hfiles hmisread hsafe
  saved hm := by
    rw [hfiles]
    exact h.saved (hmisread ▸ hm)
  known hm := h.known (hmisread ▸ hm)

/-- The private key of the root is written after a signature, which may be given out then. -/
theorem sign (h : Working W chainId kind m φ memory w) (hW : W.Lawful)
    (hstep : W.step m = some m') :
    Working W chainId kind m' φ memory
      ((w.put (statePath kind) (some (W.save m'))).release (W.key m, W.next m)) := by
  have hmem : w.misread = false → m ∈ hold W w memory (some kind) := h.saved
  refine ⟨⟨?_, fun hm ↦ ?_⟩, fun _ ↦ World.files_put_self .., h.known⟩
  · rw [World.files_release, World.files_put_of_ne (by simp)]
    exact h.pending
  · exact (h.inv hm).of_state hW rfl (List.prefix_refl _)
      (fun _ _ _ ↦ ⟨m, h.saved hm, hW.key_step hstep⟩)
      ((h.inv hm).safe.sign hW.toLawful (hmem hm) hstep)

/-- The certificate of the root is written, from the beginning up to somewhere. -/
theorem putRoot (h : Working W chainId kind m φ memory w) (hW : W.Lawful) {r : Certificate κ}
    {b : Bytes} (hb : b <+: W.der r) (hlen : (W.der r).length ≤ derCap) (hissues : r.Issues r)
    (htype : r.keyType = kind.keyType) (hkey : r.key = W.key m) :
    Working W chainId kind m φ memory (w.put (rootPath kind) (some b)) := by
  have hother : ∀ p, p ≠ rootPath kind → (w.put (rootPath kind) (some b)).files p = w.files p :=
    fun p hp ↦ World.files_put_of_ne hp ..
  refine ⟨⟨(hother _ (by simp)).trans h.pending, fun hm ↦ ?_⟩,
    fun hm ↦ (hother _ (by simp)).trans (h.saved hm), h.known⟩
  have hinv := h.inv hm
  refine ⟨hinv.safe.mono fun i ↦ ?_, fun kind' b' hb' hne ↦ ?_,
    fun id ↦ (hinv.folder id).congr fun _ ↦ hother _ (by simp)⟩
  · cases i with
    | none => exact subset_rfl
    | some kind' => exact fun m₀ (hm₀ : _ = _) ↦ (hother _ (by simp)).symm.trans hm₀
  · have hsaved : ∀ m₀, (w.put (rootPath kind) (some b)).files (statePath kind') =
        some (W.save m₀) → w.files (statePath kind') = some (W.save m₀) :=
      fun m₀ hm₀ ↦ (hother _ (by simp)).symm.trans hm₀
    rcases eq_or_ne kind' kind with rfl | hk
    · rw [World.files_put_self] at hb'
      refine ⟨r, Option.some.inj hb' ▸ hb, hlen, hissues, htype, fun m₀ hm₀ ↦ ?_⟩
      have hm₀' := Option.some.inj ((h.saved hm).symm.trans (hsaved m₀ hm₀))
      rw [hkey, hW.eq_of_save_prefix (hm₀' ▸ List.prefix_refl _ : W.save m <+: W.save m₀)]
    · rw [hother _ (by simpa using hk)] at hb'
      obtain ⟨r', hpre, hlen', hissues', htype', hkey'⟩ := hinv.root kind' b' hb' hne
      exact ⟨r', hpre, hlen', hissues', htype', fun m₀ hm₀ ↦ hkey' m₀ (hsaved m₀ hm₀)⟩

/-- The write after a signature stops somewhere. -/
theorem good_of_prefix (h : Working W chainId kind m φ memory w) (hW : W.Lawful)
    (hstep : W.step m = some m') {b : Bytes} (hb : b <+: W.save m') :
    Good W (w.put (statePath kind) (some b)) := fun hm ↦
  ((h.inv hm).of_state hW rfl hb (fun _ _ _ ↦ ⟨m, h.saved hm, hW.key_step hstep⟩)
    ((h.inv hm).safe.advance hW.toLawful (i := some kind) (h.saved hm) hstep)).forget
      (Set.empty_subset _)

end Working

end PeripheralBench.Pki.HashBased

import PeripheralBench.Codec.Delimited
import PeripheralBench.Pki.KeyState

/-!
# Runs of `hbs_certgen`

One triple for each helper of the program, with `Good` wherever it stops, then the program, the
runner's `generate_server_case`, and any number of requests.
-/

open PeripheralBench.Text

namespace PeripheralBench.Pki.HashBased

open Durable Durable.Prog

variable {κ μ : Type} {W : Wolf κ μ} {chainId : Bytes} {kind : Hbs} {m : μ} {φ : Prop}
  {memory : Set μ}

/-! ## Private keys -/

/-- The private key of a root is written for the first time. -/
theorem triple_makeKey_root (hW : W.Lawful) (kind : Hbs) :
    Triple (Good W)
      (fun w ↦ Busy W chainId ∅ w ∧
        (w.misread = false → ∀ b, w.files (rootPath kind) = some b → b = []))
      (makeKey W kind (statePath kind))
      fun m w ↦ Working W chainId kind m True ∅ w := by
  refine .read fun w ⟨hbusy, hnone⟩ ↦ ?_
  have hinv : ∀ b, b <+: W.save (W.make kind w.ledger.made) → w.misread = false →
      Inv W (w.draw.put (statePath kind) (some b)) ∅ := fun b hb hm ↦
    (hbusy.inv hm).of_state hW rfl hb (fun b hb hne ↦ absurd (hnone hm b hb) hne)
      ((hbusy.inv hm).safe.make hW.toLawful (some kind) kind)
  refine .bind (Q := fun _ w' ↦ w' = w.draw) (.modify fun w' hw' ↦ by rw [hw']) fun _ ↦ ?_
  refine .bind (Folders.triple_write (Q := fun _ ↦
    Working W chainId kind (W.make kind w.ledger.made) True ∅) ?_ ?_ ?_) fun _ ↦ .pure fun _ h ↦ h
  · rintro _ rfl
    refine ⟨⟨?_, hinv _ (List.prefix_refl _)⟩, fun _ ↦ World.files_put_self .., fun _ ↦ trivial⟩
    exact (World.files_put_of_ne (by simp) _ _).trans hbusy.pending
  · rintro _ rfl
    have : Busy W chainId ∅ w.draw := hbusy.ledger rfl rfl fun _ hs ↦ hs.skip
    exact this.good
  · rintro b _ hb rfl
    exact hinv b hb

/-- A new private key, next to a root that has been taken up. -/
theorem triple_makeKey (hW : W.Lawful) (kind' : Hbs) :
    Triple (Good W) (Working W chainId kind m φ ∅)
      (makeKey W kind' (.chains chainId, .intermediateState))
      fun m' w ↦ Working W chainId kind m φ {m'} w := by
  refine .read fun w hwork ↦ ?_
  have hp : Harmless chainId (.chains chainId, .intermediateState) := .output (by simp)
  have hsafe : Ledger.Safe W.toSigner w.ledger (hold W w ∅) →
      Ledger.Safe W.toSigner w.draw.ledger (hold W w {W.make kind' w.ledger.made}) := fun hs ↦
    (hs.make hW.toLawful none kind').mono fun i ↦ by
      cases i with
      | none => rw [Function.update_self]; exact subset_rfl
      | some kind => rw [Function.update_of_ne (by simp)]; exact subset_rfl
  have hput : ∀ b, Working W chainId kind m φ {W.make kind' w.ledger.made}
      (w.draw.put (.chains chainId, .intermediateState) (some b)) :=
    fun b ↦ hwork.put hp (some b) rfl rfl fun _ ↦ hsafe
  refine .bind (Q := fun _ w' ↦ w' = w.draw) (.modify fun w' hw' ↦ by rw [hw']) fun _ ↦ ?_
  refine .bind (Folders.triple_write (Q := fun _ ↦
    Working W chainId kind m φ {W.make kind' w.ledger.made}) ?_ ?_ ?_) fun _ ↦ .pure fun _ h ↦ h
  · rintro _ rfl
    exact hput _
  · rintro _ rfl
    have : Working W chainId kind m φ {W.make kind' w.ledger.made} w.draw :=
      hwork.ledger rfl rfl fun _ ↦ hsafe
    exact this.good
  · rintro b _ - rfl
    exact (hput b).good

/-- The private key of a root is taken up. -/
theorem triple_stateRead (kind : Hbs) :
    Triple (Good W) (Busy W chainId ∅) (stateRead W kind (statePath kind))
      fun m w ↦ Working W chainId kind m True ∅ w := by
  refine .read fun w hbusy ↦ ?_
  have hfail : ∀ {α : Type} {Q : α → World κ → Prop},
      Triple (Good W) (fun w' ↦ w' = w) Prog.fail Q := .fail fun _ hw' ↦ hw' ▸ hbusy.good
  split
  · exact hfail
  · rename_i b hread
    split
    · exact hfail
    · split
      · exact hfail
      · rename_i m _
        have hfile : w.files (statePath kind) = some b := (Option.filter_eq_some_iff.mp hread).1
        refine .bind (Q := fun _ ↦ Working W chainId kind m True ∅) (.modify ?_) fun _ ↦
          .pure fun _ h ↦ h
        rintro w rfl
        -- the bytes have been compared with those that were saved
        have hnote : ∀ {same : Bool}, (w.note same).misread = false →
            w.misread = false ∧ same = true := by
          intro same hm
          simpa [World.note] using hm
        refine ⟨⟨hbusy.pending, fun hm ↦ ?_⟩, fun hm ↦ ?_, fun _ ↦ trivial⟩
        · have hinv := hbusy.inv (hnote hm).1
          exact hinv.of_roots (fun _ ↦ rfl) (fun _ ↦ rfl)
            (fun id ↦ (hinv.folder id).congr fun _ ↦ rfl) hinv.safe
        · rw [World.files_note, hfile, of_decide_eq_true (hnote hm).2]

/-- `configure_lms` and `configure_xmss` for the root. -/
theorem triple_configure_root (hW : W.Lawful) (kind : Hbs) (create : Bool) :
    Triple (Good W)
      (fun w ↦ Busy W chainId ∅ w ∧ (create = true → w.misread = false →
        ∀ b, w.files (rootPath kind) = some b → b = []))
      (configure W kind (statePath kind) create)
      fun key w ↦ ∃ m, key = .hbs kind m (statePath kind) ∧ Working W chainId kind m True ∅ w := by
  refine .call_bind (fun _ h ↦ h.1.good) ?_
  refine .bind (Q := fun m ↦ Working W chainId kind m True ∅) ?_ fun m ↦
    .pure fun _ h ↦ ⟨m, rfl, h⟩
  cases create with
  | true => exact (triple_makeKey_root hW kind).pre fun _ h ↦ ⟨h.1, h.2 rfl⟩
  | false => exact (triple_stateRead kind).pre fun _ h ↦ h.1

/-- A key that the intermediate may have. -/
def Subordinate (chainId : Bytes) (memory : Set μ) : PrivateKey κ μ → Prop
  | .hbs _ m path => path = (.chains chainId, .intermediateState) ∧ m ∈ memory
  | .light _ _ => True

/-- `light_key_init`. -/
theorem triple_lightKeyInit (algorithm : Bytes) :
    Triple (Good W) (Working W chainId kind m φ memory) (lightKeyInit W algorithm)
      fun key w ↦ (∃ light k, key = .light light k) ∧ Working W chainId kind m φ memory w := by
  rw [lightKeyInit]
  split
  · exact .fail fun _ h ↦ h.good
  · rename_i light _
    refine .call_bind (fun _ h ↦ h.good) (.read fun w hw ↦ ?_)
    refine .bind (Q := fun _ ↦ Working W chainId kind m φ memory) (.modify ?_) fun _ ↦
      .pure fun _ h ↦ ⟨⟨light, _, rfl⟩, h⟩
    rintro w rfl
    exact hw.ledger rfl rfl fun _ hs ↦ hs.skip

/-- The key of the intermediate. -/
theorem triple_intermediateKey (hW : W.Lawful) (algorithm : Bytes) :
    Triple (Good W) (Working W chainId kind m φ ∅)
      (intermediateKey W algorithm (.chains chainId))
      fun key w ↦ ∃ memory, Subordinate chainId memory key ∧
        Working W chainId kind m φ memory w := by
  rw [intermediateKey]
  split
  · rename_i kind' _
    refine .call_bind (fun _ h ↦ h.good) ?_
    exact (triple_makeKey hW kind').bind fun m' ↦
      .pure fun _ h ↦ ⟨{m'}, ⟨rfl, Set.mem_singleton m'⟩, h⟩
  · refine (triple_lightKeyInit algorithm).post fun key w ⟨⟨light, k, hkey⟩, hw⟩ ↦ ?_
    exact ⟨∅, hkey ▸ trivial, hw⟩

/-! ## Certificates -/

/-- The certificate is handed over. -/
theorem triple_fits {P : World κ → Prop} (hP : ∀ w, P w → Good W w) (c : Certificate κ)
    (key : PrivateKey κ μ) :
    Triple (Good W) P (fits W c key)
      fun out w ↦ out = (W.der c, key) ∧ (W.der c).length ≤ derCap ∧ P w := by
  rw [fits]
  split
  · exact .pure fun _ h ↦ ⟨rfl, ‹_›, h⟩
  · exact .fail hP

/-- The root signs. -/
theorem triple_wcSignCert_root (hW : W.Lawful) (c : Certificate κ) :
    Triple (Good W) (Working W chainId kind m φ memory)
      (wcSignCert W c (.hbs kind m (statePath kind)))
      fun out w ↦ ∃ m', out = (W.der c, .hbs kind m' (statePath kind)) ∧ W.key m' = W.key m ∧
        (W.der c).length ≤ derCap ∧ Working W chainId kind m' φ memory w := by
  rw [wcSignCert]
  split
  · exact .fail fun _ h ↦ h.good
  · rename_i m' hstep
    refine .call_bind (fun _ h ↦ h.good) ?_
    refine .bind (Folders.triple_write (Q := fun _ w ↦
      Working W chainId kind m' φ memory (w.release (W.key m, W.next m))) ?_ ?_ ?_) fun _ ↦ ?_
    · exact fun w hw ↦ hw.sign hW hstep
    · exact fun _ h ↦ h.good
    · exact fun b w hb hw ↦ hw.good_of_prefix hW hstep hb
    · refine .bind (Q := fun _ ↦ Working W chainId kind m' φ memory) (.modify fun _ h ↦ h)
        fun _ ↦ ?_
      refine (triple_fits (fun _ h ↦ h.good) c _).post fun out w ⟨hout, hlen, hw⟩ ↦ ?_
      exact ⟨m', hout, hW.key_step hstep, hlen, hw⟩

/-- Another key signs. -/
theorem triple_wcSignCert (hW : W.Lawful) (c : Certificate κ) {key : PrivateKey κ μ}
    (hkey : Subordinate chainId memory key) :
    Triple (Good W) (Working W chainId kind m φ memory) (wcSignCert W c key)
      fun out w ↦ out.1 = W.der c ∧ Working W chainId kind m φ ∅ w := by
  cases key with
  | light light k =>
      rw [wcSignCert]
      refine .call_bind (fun _ h ↦ h.good) ?_
      refine (triple_fits (fun _ h ↦ h.good) c _).post fun out w ⟨hout, _, hw⟩ ↦ ?_
      exact ⟨hout ▸ rfl, hw.forget (Set.empty_subset _)⟩
  | hbs kind' m₀ path =>
      obtain ⟨rfl, hm₀⟩ := hkey
      have hp : Harmless chainId (.chains chainId, .intermediateState) := .output (by simp)
      rw [wcSignCert]
      split
      · exact .fail fun _ h ↦ h.good
      · rename_i m' hstep
        refine .call_bind (fun _ h ↦ h.good) ?_
        have hput : ∀ (b : Bytes) (w : World κ), Working W chainId kind m φ memory w →
            Working W chainId kind m φ ∅ (w.put (.chains chainId, .intermediateState) (some b)) :=
          fun b w hw ↦ hw.put hp (some b) rfl rfl fun _ hs ↦ hs.mono fun i ↦ by
            cases i with
            | none => exact Set.empty_subset _
            | some _ => exact subset_rfl
        refine .bind (Folders.triple_write (Q := fun _ w ↦
          Working W chainId kind m φ ∅ (w.release (W.key m₀, W.next m₀))) ?_ ?_ ?_) fun _ ↦ ?_
        · intro w hw
          refine hw.put hp (some (W.save m')) rfl rfl fun _ hs ↦
            (hs.sign hW.toLawful (i := none) hm₀ hstep).mono fun i ↦ ?_
          cases i with
          | none => exact Set.empty_subset _
          | some _ => rw [Function.update_of_ne (by simp)]; exact subset_rfl
        · exact fun _ h ↦ h.good
        · exact fun b w _ hw ↦ (hput b w hw).good
        · refine .bind (Q := fun _ ↦ Working W chainId kind m φ ∅) (.modify fun _ h ↦ h) fun _ ↦ ?_
          exact (triple_fits (fun _ h ↦ h.good) c _).post fun out w ⟨hout, _, hw⟩ ↦ ⟨hout ▸ rfl, hw⟩

/-- The name of the issuer that `make_certificate` fills in. -/
def IssuerName (W : Wolf κ μ) (subject : Name) (issuerDer : Option Bytes) (issuer : Name) : Prop :=
  match issuerDer with
  | none => issuer = subject
  | some b => ∃ c, W.parse b = some c ∧ issuer = c.subject

/-- `make_certificate`, with whatever key it signs. -/
theorem triple_makeCertificate {P : World κ → Prop} (hP : ∀ w, P w → Good W w)
    {signingKey : PrivateKey κ μ} {Q : Certificate κ → Bytes × PrivateKey κ μ → World κ → Prop}
    (hsign : ∀ c, Triple (Good W) P (wcSignCert W c signingKey) (Q c))
    (subjectKey : PrivateKey κ μ) (issuerDer : Option Bytes) (isCa : Bool)
    (unit commonName : Bytes) :
    Triple (Good W) P
      (makeCertificate W subjectKey signingKey issuerDer isCa unit commonName)
      fun out w ↦ ∃ issuer, IssuerName W (setName unit commonName) issuerDer issuer ∧
        Q (certificateBody W subjectKey signingKey issuer isCa unit commonName) out w := by
  refine .call_bind hP ?_
  refine .bind (Q := fun issuer w ↦
    IssuerName W (setName unit commonName) issuerDer issuer ∧ P w) ?_ fun issuer ↦ ?_
  · cases issuerDer with
    | none => exact .pure fun _ h ↦ ⟨rfl, h⟩
    | some b =>
        rw [issuerName]
        split
        · exact .fail hP
        · exact .pure fun _ h ↦ ⟨⟨_, ‹_›, rfl⟩, h⟩
  · refine .of_pure (fun _ h ↦ h.1) fun hissuer ↦ ?_
    refine .call_bind (fun _ h ↦ hP _ h.2) ?_
    exact (hsign _).imp (fun _ h ↦ h.2) fun _ _ h ↦ ⟨issuer, hissuer, h⟩

/-! ## The parts of the program -/

/-- `write_file`, for a file that is not about a root. -/
theorem triple_writeFile {p : Path} (hp : Harmless chainId p) (data : Bytes) :
    Triple (Good W) (Working W chainId kind m φ memory) (writeFile p data)
      fun _ ↦ Working W chainId kind m φ memory := by
  have hput : ∀ (b : Bytes) (w : World κ), Working W chainId kind m φ memory w →
      Working W chainId kind m φ memory (w.put p (some b)) :=
    fun b w hw ↦ hw.put hp (some b) rfl rfl fun _ hs ↦ hs
  exact Folders.triple_write (hput data) (fun _ h ↦ h.good) fun b w _ hw ↦ (hput b w hw).good

/-- What is known about the certificate of a root, when its bytes have been read. -/
def RootKnown (W : Wolf κ μ) (kind : Hbs) (rootDer : Bytes) (k : κ) : Prop :=
  ∃ r, rootDer <+: W.der r ∧ r.Issues r ∧ r.keyType = kind.keyType ∧ r.key = k

/-- The root signs its own certificate. -/
theorem triple_selfSigned (hW : W.Lawful) (commonName : Bytes) :
    Triple (Good W) (Working W chainId kind m True ∅)
      (makeCertificate W (.hbs kind m (statePath kind)) (.hbs kind m (statePath kind)) none true
        (ascii "Root CA") commonName)
      fun out w ↦ ∃ m' r, (out = (W.der r, .hbs kind m' (statePath kind)) ∧
        (W.der r).length ≤ derCap ∧ r.Issues r ∧ r.keyType = kind.keyType ∧ r.key = W.key m') ∧
        Working W chainId kind m' True ∅ w := by
  refine (triple_makeCertificate (fun _ h ↦ h.good) (fun c ↦ triple_wcSignCert_root hW c)
    _ none true _ _).post ?_
  rintro _ w ⟨issuer, hissuer, m', rfl, hkey, hlen, hw⟩
  exact ⟨m', _, ⟨rfl, hlen, ⟨hissuer, rfl, rfl, rfl⟩, rfl, hkey.symm⟩, hw⟩

/-- The certificate of the root. -/
theorem triple_rootCertificate (hW : W.Lawful) (rootAlgorithm : Bytes) (create : Bool) :
    Triple (Good W) (Working W chainId kind m True ∅)
      (rootCertificate W rootAlgorithm (.roots kind) create (.hbs kind m (statePath kind)))
      fun out w ↦ ∃ m', out.2 = .hbs kind m' (statePath kind) ∧
        Working W chainId kind m' (RootKnown W kind out.1 (W.key m')) ∅ w := by
  rw [rootCertificate]
  cases create with
  | true =>
      refine .bind (triple_selfSigned hW rootAlgorithm) fun out ↦
        .exists_pre fun m' ↦ .exists_pre fun r ↦ .of_pure (fun _ h ↦ h.1) ?_
      rintro ⟨rfl, hlen, hissues, htype, hkey⟩
      refine .bind (Q := fun _ ↦
        Working W chainId kind m' (RootKnown W kind (W.der r) (W.key m')) ∅)
          (Folders.triple_write ?_ ?_ ?_) fun _ ↦ ?_
      · exact fun w h ↦ (h.2.putRoot hW (List.prefix_refl _) hlen hissues htype hkey).imp
          fun _ ↦ ⟨r, List.prefix_refl _, hissues, htype, hkey⟩
      · exact fun w h ↦ h.2.good
      · exact fun b w hb h ↦ (h.2.putRoot hW hb hlen hissues htype hkey).good
      · refine .bind (.call_bind (fun _ h ↦ h.good) (triple_writeFile .rootCrt _)) fun _ ↦ ?_
        exact .pure fun _ h ↦ ⟨m', rfl, h⟩
  | false =>
      refine .read fun w hw ↦ ?_
      split
      · exact .fail fun _ hw' ↦ hw' ▸ hw.good
      · rename_i rootDer hread
        split
        · exact .fail fun _ hw' ↦ hw' ▸ hw.good
        · refine .pure ?_
          rintro w rfl
          refine ⟨m, rfl, hw.toBusy, hw.saved, fun hm ↦ ?_⟩
          have hfile : w.files (rootPath kind) = some rootDer :=
            (Option.filter_eq_some_iff.mp hread).1
          obtain ⟨r, hpre, _, hissues, htype, hkey⟩ := (hw.inv hm).root kind rootDer hfile ‹_›
          exact ⟨r, hpre, hissues, htype, (hkey m (hw.saved hm)).symm⟩

/-- There is no certificate, if none is to be read. -/
theorem eq_nil_of_createRoot {w : World κ} (h : RootOk W w kind)
    (hcreate : createRoot w (.roots kind) = true) {b : Bytes}
    (hb : w.files (rootPath kind) = some b) : b = [] := by
  by_contra hne
  obtain ⟨r, hpre, hlen, _⟩ := h b hb hne
  have hread : readFile w (rootPath kind) derCap = some b :=
    Option.filter_eq_some_iff.mpr ⟨hb, decide_eq_true (hpre.length_le.trans hlen)⟩
  rw [createRoot, decide_eq_true_eq, hread] at hcreate
  exact hne hcreate

/-- The root. -/
theorem triple_openRoot (hW : W.Lawful) {rootAlgorithm : Bytes}
    (halg : hbsOf rootAlgorithm = some kind) :
    Triple (Good W) (Busy W chainId ∅) (openRoot W rootAlgorithm (.roots kind))
      fun out w ↦ ∃ m, out.2 = .hbs kind m (statePath kind) ∧
        Working W chainId kind m (RootKnown W kind out.1 (W.key m)) ∅ w := by
  refine .read fun w hw ↦ ?_
  rw [halg]
  have hpre : ∀ w', w' = w → Busy W chainId ∅ w' ∧ (createRoot w (.roots kind) = true →
      w'.misread = false → ∀ b, w'.files (rootPath kind) = some b → b = []) := by
    rintro w rfl
    exact ⟨hw, fun hcreate hm b ↦ eq_nil_of_createRoot ((hw.inv hm).root kind) hcreate⟩
  refine .bind ((triple_configure_root hW kind _).pre hpre) fun key ↦
    .exists_pre fun m ↦ .of_pure (fun _ h ↦ h.1) fun hkey ↦ ?_
  rw [hkey]
  exact (triple_rootCertificate hW rootAlgorithm _).pre fun _ h ↦ h.2

/-- The root signs the intermediate. -/
theorem triple_intermediate (hW : W.Lawful) {rootDer : Bytes} (key : PrivateKey κ μ)
    (algorithm : Bytes) :
    Triple (Good W) (Working W chainId kind m (RootKnown W kind rootDer (W.key m)) memory)
      (makeCertificate W key (.hbs kind m (statePath kind)) (some rootDer) true
        (ascii "Intermediate CA") algorithm)
      fun out w ↦ ∃ m' i, (out.1 = W.der i ∧ i.key = key.key W ∧ i.isCa = true ∧
          i.keyUsage = ascii "keyCertSign,cRLSign") ∧
        Working W chainId kind m'
          (∃ r, rootDer = W.der r ∧ r.Issues r ∧ r.keyType = kind.keyType ∧ r.Issues i)
          memory w := by
  refine (triple_makeCertificate (fun _ h ↦ h.good) (fun c ↦ triple_wcSignCert_root hW c)
    key (some rootDer) true _ _).post ?_
  rintro _ w ⟨issuer, ⟨c, hparse, rfl⟩, m', rfl, _, _, hw⟩
  refine ⟨m', _, ⟨rfl, rfl, rfl, rfl⟩, hw.imp ?_⟩
  -- the bytes could be parsed, so they are the whole certificate of the root
  rintro ⟨r, hpre, hissues, htype, hkey⟩
  have hder := hW.eq_of_prefix hpre hparse
  have hc : r = c := Option.some.inj ((hW.parse_der r).symm.trans (hder ▸ hparse))
  exact ⟨r, hder, hissues, htype, hc ▸ rfl, hkey.symm, hissues.isCa, hissues.keyUsage⟩

/-- The intermediate signs the leaf. -/
theorem triple_leaf (hW : W.Lawful) {i : Certificate κ} {key : PrivateKey κ μ}
    (hkey : Subordinate chainId memory key) (hi : i.key = key.key W) (hca : i.isCa = true)
    (husage : i.keyUsage = ascii "keyCertSign,cRLSign") (leaf : PrivateKey κ μ) :
    Triple (Good W) (Working W chainId kind m φ memory)
      (makeCertificate W leaf key (some (W.der i)) false (ascii "TLS Server") (ascii "localhost"))
      fun out w ↦ ∃ l, (out.1 = W.der l ∧ i.Issues l ∧ l.isCa = false ∧ l.key = leaf.key W) ∧
        Working W chainId kind m φ ∅ w := by
  refine (triple_makeCertificate (fun _ h ↦ h.good) (fun c ↦ triple_wcSignCert hW c hkey)
    leaf _ false _ _).post ?_
  rintro out w ⟨issuer, ⟨c, hparse, rfl⟩, hout, hw⟩
  have hc : i = c := Option.some.inj ((hW.parse_der i).symm.trans hparse)
  exact ⟨_, ⟨hout, ⟨hc ▸ rfl, hi.symm, hca, husage⟩, rfl, rfl⟩, hw⟩

/-- The intermediate and the leaf. -/
theorem triple_issue (hW : W.Lawful) (intermediateAlgorithm leafAlgorithm rootDer : Bytes) :
    Triple (Good W) (Working W chainId kind m (RootKnown W kind rootDer (W.key m)) ∅)
      (issue W intermediateAlgorithm leafAlgorithm (.chains chainId) rootDer
        (.hbs kind m (statePath kind)))
      fun c w ↦ Busy W chainId ∅ w ∧
        (w.misread = false → ∃ r i l, Chain.Valid W kind c r i l) := by
  refine .bind (triple_intermediateKey hW _) fun intermediate ↦ .exists_pre fun memory ↦
    .of_pure (fun _ h ↦ h.1) fun hsub ↦ ?_
  refine .bind ((triple_intermediate hW _ _).pre fun _ h ↦ h.2) ?_
  rintro ⟨intermediateDer, _⟩
  refine .exists_pre fun m' ↦ .exists_pre fun i ↦ .of_pure (fun _ h ↦ h.1) ?_
  rintro ⟨rfl, hi, hca, husage⟩
  refine .bind ((triple_lightKeyInit _).pre fun _ h ↦ h.2) fun leaf ↦
    .of_pure (fun _ h ↦ h.1) ?_
  rintro ⟨light, k, rfl⟩
  refine .bind ((triple_leaf hW hsub hi hca husage _).pre fun _ h ↦ h.2) ?_
  rintro ⟨leafDer, _⟩
  refine .exists_pre fun l ↦ .of_pure (fun _ h ↦ h.1) ?_
  rintro ⟨rfl, hl, hend, hk⟩
  dsimp only
  split
  · exact .fail fun _ h ↦ h.2.good
  · refine .pure fun w ⟨_, hw⟩ ↦ ⟨hw.toBusy, fun hm ↦ ?_⟩
    obtain ⟨r, hr, hroot, htype, hri⟩ := hw.known hm
    exact ⟨r, i, l, hr, rfl, rfl, hroot, hri, hl, htype, hend, hk⟩

/-! ## The files of a chain -/

/-- The files `l` of a chain have been written, and `φ` is known about it. -/
structure Writing (W : Wolf κ μ) (chainId : Bytes) (φ : Prop) (l : List (FileName × Bytes))
    (w : World κ) : Prop extends Busy W chainId ∅ w where
  contains : ∀ e ∈ l, w.files (.chains chainId, e.1) = some e.2
  known : w.misread = false → φ

/-- One more file is written. -/
theorem triple_writeFile_output {name : FileName} {data : Bytes} {l : List (FileName × Bytes)}
    (hlast : name ≠ .serverChainCrt) (hnew : name ∉ l.map Prod.fst) :
    Triple (Good W) (Writing W chainId φ l) (writeFile (.chains chainId, name) data)
      fun _ ↦ Writing W chainId φ ((name, data) :: l) := by
  have hput : ∀ (b : Bytes) (w : World κ), Busy W chainId ∅ w →
      Busy W chainId ∅ (w.put (.chains chainId, name) (some b)) :=
    fun b w hw ↦ hw.put (.output hlast) (some b) rfl rfl fun _ hs ↦ hs
  refine Folders.triple_write (fun w hw ↦ ⟨hput data w hw.toBusy, fun e he ↦ ?_, hw.known⟩)
    (fun _ h ↦ h.good) fun b w _ hw ↦ (hput b w hw.toBusy).good
  rcases List.mem_cons.mp he with rfl | he
  · exact World.files_put_self ..
  · have hne : e.1 ≠ name := fun heq ↦ hnew (heq ▸ List.mem_map_of_mem he)
    exact (World.files_put_of_ne (by simpa using hne) ..).trans (hw.contains e he)

/-- `WRITE_DER_AND_PEM`. -/
theorem triple_writeDerAndPem {der crt : FileName} {data : Bytes} {l : List (FileName × Bytes)}
    (hlast : .serverChainCrt ∉ [der, crt]) (hnew : ([crt, der] ++ l.map Prod.fst).Nodup) :
    Triple (Good W) (Writing W chainId φ l) (writeDerAndPem W (.chains chainId) der crt data)
      fun _ ↦ Writing W chainId φ ((crt, W.pem .cert data) :: (der, data) :: l) := by
  simp only [List.mem_cons, List.not_mem_nil, or_false, not_or] at hlast
  simp only [List.cons_append, List.nil_append, List.nodup_cons, List.mem_cons, not_or] at hnew
  refine .bind (triple_writeFile_output (Ne.symm hlast.1) hnew.2.1) fun _ ↦
    .call_bind (fun _ h ↦ h.good) (triple_writeFile_output (Ne.symm hlast.2) ?_)
  simpa only [List.map_cons, List.mem_cons, not_or] using hnew.1

/-- The files that are written before `server_chain.crt`, the last one first. -/
def chainFiles (W : Wolf κ μ) (c : Chain κ) : List (FileName × Bytes) :=
  [(.serverKey, W.pem c.leafKind.pemType (W.keyDer c.leafKey)),
    (.serverCrt, W.pem .cert c.leafDer), (.serverDer, c.leafDer),
    (.serverIntermediateCrt, W.pem .cert c.intermediateDer),
    (.serverIntermediateDer, c.intermediateDer), (.serverRootCrt, W.pem .cert c.rootDer),
    (.serverRootDer, c.rootDer)]

/-- The two certificates that `server_chain.crt` is for. -/
def chainPem (W : Wolf κ μ) (c : Chain κ) : Bytes :=
  W.pem .cert c.leafDer ++ W.pem .cert c.intermediateDer

/-- `server_chain.crt` has been written as far as `b`. -/
def Closing (W : Wolf κ μ) (chainId : Bytes) (kind : Hbs) (c : Chain κ) (b : Bytes)
    (w : World κ) : Prop :=
  ∃ w₀, Writing W chainId (∃ r i l, Chain.Valid W kind c r i l) (chainFiles W c) w₀ ∧
    w = w₀.put (.chains chainId, .serverChainCrt) (some b)

theorem Closing.written {c : Chain κ} {b : Bytes} {w : World κ}
    (h : Closing W chainId kind c b w) : Written W w (.chains chainId) c := by
  obtain ⟨w₀, hw₀, rfl⟩ := h
  have hfile : ∀ e ∈ chainFiles W c,
      (w₀.put (.chains chainId, .serverChainCrt) (some b)).files (.chains chainId, e.1) =
        some e.2 := by
    intro e he
    rw [World.files_put_of_ne]
    · exact hw₀.contains e he
    · have : ∀ e ∈ chainFiles W c, e.1 ≠ .serverChainCrt := by simp [chainFiles]
      simpa using this e he
  simp only [chainFiles, List.forall_mem_cons] at hfile
  obtain ⟨hkey, hcrt, hder, hicrt, hider, hrcrt, hrder, _⟩ := hfile
  exact ⟨hrder, hrcrt, hider, hicrt, hder, hcrt, hkey⟩

/-- Wherever the writing of `server_chain.crt` stops, the folder has a chain. -/
theorem Closing.good {c : Chain κ} {b : Bytes} {w : World κ} (h : Closing W chainId kind c b w)
    (hb : b <+: chainPem W c) : Good W w := by
  have hwritten := h.written
  obtain ⟨w₀, hw₀, rfl⟩ := h
  intro hm
  have hinv := hw₀.inv hm
  have hother : ∀ p, p ≠ (.chains chainId, .serverChainCrt) →
      (w₀.put (.chains chainId, .serverChainCrt) (some b)).files p = w₀.files p :=
    fun p hp ↦ World.files_put_of_ne hp ..
  refine hinv.of_roots (fun _ ↦ hother _ (by simp)) (fun _ ↦ hother _ (by simp)) (fun id ↦ ?_)
    hinv.safe
  rcases eq_or_ne id chainId with rfl | hid
  · intro _
    obtain ⟨r, i, l, hvalid⟩ := hw₀.known hm
    exact ⟨kind, c, r, i, l, hvalid, hwritten, b, World.files_put_self .., hb⟩
  · exact (hinv.folder id).congr fun name ↦ hother _ (by simpa using fun h ↦ absurd h hid)

/-- The chain is written out. -/
theorem triple_writeChain (c : Chain κ) :
    Triple (Good W)
      (fun w ↦ Busy W chainId ∅ w ∧ (w.misread = false → ∃ r i l, Chain.Valid W kind c r i l))
      (writeChain W (.chains chainId) c)
      fun _ ↦ Closing W chainId kind c (chainPem W c) := by
  have hpem : W.pem .cert c.leafDer <+: chainPem W c := List.prefix_append ..
  refine .pre (P := Writing W chainId (∃ r i l, Chain.Valid W kind c r i l) []) ?_
    fun w hw ↦ ⟨hw.1, by simp, hw.2⟩
  refine .bind (triple_writeDerAndPem (by simp) (by simp)) fun _ ↦
    .bind (triple_writeDerAndPem (by simp) (by simp)) fun _ ↦
    .bind (triple_writeDerAndPem (by simp) (by simp)) fun _ ↦
    .bind (.call_bind (fun _ h ↦ h.good) (triple_writeFile_output (by simp) (by simp))) fun _ ↦ ?_
  refine .bind (Q := fun _ ↦ Closing W chainId kind c (W.pem .cert c.leafDer))
    (.call_bind (fun _ h ↦ h.good) (Folders.triple_write ?_ ?_ ?_)) fun _ ↦ ?_
  · exact fun w hw ↦ ⟨w, hw, rfl⟩
  · exact fun _ h ↦ h.good
  · intro b w hb hw
    have hclosing : Closing W chainId kind c b _ := ⟨w, hw, rfl⟩
    exact hclosing.good (hb.trans hpem)
  · have happend : ∀ (b : Bytes) (w : World κ),
        Closing W chainId kind c (W.pem .cert c.leafDer) w →
        Closing W chainId kind c (W.pem .cert c.leafDer ++ b)
          (w.put (.chains chainId, .serverChainCrt) (some (W.pem .cert c.leafDer ++ b))) := by
      rintro b _ ⟨w₀, hw₀, rfl⟩
      exact ⟨w₀, hw₀, by simp [World.put]⟩
    refine .call_bind (fun _ h ↦ h.good hpem) (Folders.triple_append
      (W.pem .cert c.leafDer) ?_ ?_ ?_ ?_)
    · rintro _ ⟨w₀, _, rfl⟩
      exact World.files_put_self ..
    · exact happend _
    · exact fun _ h ↦ h.good hpem
    · exact fun b w hb hw ↦ (happend b w hw).good (List.prefix_append_right_inj _ |>.mpr hb)

/-! ## The program, and the runner -/

/-- `hbs_certgen`. -/
theorem triple_hbsCertgen (hW : W.Lawful) {rootAlgorithm : Bytes}
    (halg : hbsOf rootAlgorithm = some kind) (intermediateAlgorithm leafAlgorithm : Bytes) :
    Triple (Good W) (Busy W chainId ∅)
      (hbsCertgen W rootAlgorithm intermediateAlgorithm leafAlgorithm (.roots kind)
        (.chains chainId))
      fun _ w ↦ ∃ c, Closing W chainId kind c (chainPem W c) w := by
  refine .call_bind (fun _ h ↦ h.good) (.bind (triple_openRoot hW halg) ?_)
  rintro ⟨rootDer, rootKey⟩
  refine .exists_pre fun m ↦ .of_pure (fun _ h ↦ h.1) ?_
  rintro rfl
  refine .bind ((triple_issue hW _ _ _).pre fun _ h ↦ h.2) fun c ↦ ?_
  exact (triple_writeChain c).post fun _ w hw ↦ ⟨c, hw⟩

/-- Files that are not about a root are taken away. -/
theorem Good.of_sub {w w' : World κ} (h : Good W w) (hledger : w'.ledger = w.ledger)
    (hmisread : w'.misread = w.misread)
    (hroots : ∀ kind name, w'.files (.roots kind, name) = w.files (.roots kind, name))
    (hchains : ∀ id name b, w'.files (.chains id, name) = some b →
      w.files (.chains id, name) = some b) : Good W w' := by
  intro hm
  have hinv := h (hmisread ▸ hm)
  exact hinv.of_roots (fun _ ↦ hroots _ _) (fun _ ↦ hroots _ _)
    (fun id ↦ (hinv.folder id).of_sub (hchains id)) (hledger ▸ hinv.safe)

/-- `shutil.rmtree`. -/
theorem triple_rmtree (chainId : Bytes) :
    Triple (Good W) (Good W) (rmtree (.chains chainId)) fun _ ↦ Busy W chainId ∅ := by
  have hgood : ∀ (chosen : FileName → Bool) (w : World κ), Good W w →
      Good W (w.remove (.chains chainId) chosen) := fun chosen w hw ↦
    hw.of_sub rfl rfl (fun kind name ↦ World.files_remove_of_ne (by simp) ..)
      fun id name b hb ↦ World.files_of_remove hb
  refine .insist (fun w hw ↦ ⟨by simp [World.remove], fun hm ↦ ?_⟩) (fun _ h ↦ h)
    fun n ↦ hgood _
  exact hgood _ w hw hm

/-- The chain is made again. -/
theorem triple_renew (hW : W.Lawful) {request : Request} (halg : hbsOf request.root = some kind) :
    Triple (Good W) (Good W) (renew W request kind) fun _ w ↦
      ∃ c, Closing W request.chainId kind c (chainPem W c) w :=
  .bind (triple_rmtree request.chainId) fun _ ↦
    .call_bind (fun _ h ↦ h.good) (triple_hbsCertgen hW halg _ _)

/-- A file of a case is written or removed. -/
theorem Good.put_case {w : World κ} (h : Good W w) (caseId : Bytes) (name : FileName)
    (c : Option Bytes) : Good W (w.put (.cases caseId, name) c) :=
  h.of_sub rfl rfl (fun _ _ ↦ World.files_put_of_ne (by simp) ..) fun _ _ _ hb ↦
    (World.files_put_of_ne (by simp) ..).symm.trans hb

/-- The files that have been copied to a case, but for those that are still to come. -/
def Copied (source destination : Folder) (rest : List FileName) (w : World κ) : Prop :=
  ∀ name ∈ publicChainFiles, name ∉ rest → ∃ b, w.files (source, name) = some b ∧
    w.files (destination, name) = some b

/-- One file is copied. -/
theorem triple_copyFile (caseId : Bytes) (name : FileName) (rest : List FileName) :
    Triple (Good W)
      (fun w ↦ Good W w ∧ Copied (.chains chainId) (.cases caseId) (name :: rest) w)
      (copyFile (.chains chainId) (.cases caseId) name)
      fun _ w ↦ Good W w ∧ Copied (.chains chainId) (.cases caseId) rest w := by
  -- the other files are where they were
  have hkeep : ∀ (c : Option Bytes) (w : World κ),
      Copied (.chains chainId) (.cases caseId) (name :: rest) w →
      Copied (.chains chainId) (.cases caseId) (name :: rest) (w.put (.cases caseId, name) c) := by
    intro c w hw name' hname' hnew
    obtain ⟨b, hsource, hdestination⟩ := hw name' hname' hnew
    have hne : name' ≠ name := fun h ↦ hnew (h ▸ List.mem_cons_self)
    exact ⟨b, (World.files_put_of_ne (by simp) ..).trans hsource,
      (World.files_put_of_ne (by simpa using hne) ..).trans hdestination⟩
  refine .bind (Q := fun _ w ↦ Good W w ∧
    Copied (.chains chainId) (.cases caseId) (name :: rest) w) (.insist ?_ ?_ ?_) fun _ ↦
    .read fun w ⟨hgood, hw⟩ ↦ ?_
  · exact fun w hw ↦ ⟨hw.1.put_case _ _ _, hkeep none w hw.2⟩
  · exact fun _ h ↦ h.1
  · exact fun _ _ h ↦ h.1
  · split
    · exact .fail fun _ hw' ↦ hw' ▸ hgood
    · rename_i b hb
      refine Folders.triple_write ?_ ?_ ?_
      · rintro w rfl
        refine ⟨hgood.put_case _ _ _, fun name' hname' hnew ↦ ?_⟩
        rcases eq_or_ne name' name with rfl | hne
        · exact ⟨b, (World.files_put_of_ne (by simp) ..).trans hb, World.files_put_self ..⟩
        · exact hkeep (some b) w hw name' hname' (by simp [hne, hnew])
      · rintro _ rfl
        exact hgood
      · rintro b' _ _ rfl
        exact hgood.put_case _ _ _

/-- A chain is in the folder of a case. -/
def HasChain (W : Wolf κ μ) (w : World κ) (folder : Folder) : Prop :=
  ∃ kind c r i l b, Chain.Valid W kind c r i l ∧ Written W w folder c ∧
    w.files (folder, .serverChainCrt) = some b ∧ b <+: chainPem W c

/-- `_copy_files`. -/
theorem triple_copyFiles (caseId : Bytes) :
    Triple (Good W) (Good W)
      (copyFiles (.chains chainId) (.cases caseId) publicChainFiles : Prog (World κ) Unit)
      fun _ w ↦ Good W w ∧ (w.misread = false → HasChain W w (.cases caseId)) := by
  refine (Triple.each (J := fun rest w ↦
    Good W w ∧ Copied (.chains chainId) (.cases caseId) rest w)
    (fun name rest ↦ triple_copyFile caseId name rest) publicChainFiles).imp ?_ ?_
  · exact fun w hw ↦ ⟨hw, fun name hname hnew ↦ absurd hname hnew⟩
  · rintro _ w ⟨hgood, hcopied⟩
    refine ⟨hgood, fun hm ↦ ?_⟩
    have hall : allPresent w (.chains chainId) publicChainFiles := by
      refine List.all_eq_true.mpr fun name hname ↦ ?_
      obtain ⟨b, hb, _⟩ := hcopied name hname List.not_mem_nil
      rw [hb]
      rfl
    have hsame : ∀ name ∈ publicChainFiles,
        w.files (.cases caseId, name) = w.files (.chains chainId, name) := by
      intro name hname
      obtain ⟨b, hb, hb'⟩ := hcopied name hname List.not_mem_nil
      rw [hb, hb']
    obtain ⟨kind, c, r, i, l, hvalid, hw, b, hb, hpre⟩ := (hgood hm).folder chainId hall
    exact ⟨kind, c, r, i, l, b, hvalid, hw.of_files hsame,
      (hsame _ (by simp [publicChainFiles])).trans hb, hpre⟩

/-- `generate_server_case`. -/
theorem triple_generateServerCase (hW : W.Lawful) (request : Request) :
    Triple (Good W) (Good W) (generateServerCase W request) fun _ w ↦
      Good W w ∧ (w.misread = false → HasChain W w (.cases request.caseId)) := by
  rw [generateServerCase]
  split
  · exact .fail fun _ h ↦ h
  · rename_i kind halg
    refine .bind (Q := fun _ ↦ Good W) (.get fun _ h ↦ h) fun w ↦ ?_
    refine .bind (Q := fun _ ↦ Good W) ?_ fun valid ↦
      .bind (Q := fun _ ↦ Good W) ?_ fun _ ↦ triple_copyFiles _
    · split
      · exact .ask (fun _ _ h ↦ h) fun _ h ↦ h
      · exact .pure fun _ h ↦ h
    · split
      · exact .pure fun _ h ↦ h
      · exact (triple_renew hW halg).post fun _ w ⟨c, hc⟩ ↦ hc.good (List.prefix_refl _)

/-- Whatever becomes of any number of requests, the world is good. -/
theorem good_history (hW : W.Lawful) (requests : List (Request × List Fate)) :
    Good W (history W requests) := by
  refine List.foldlRecOn requests _ (fun _ ↦ Inv.empty) fun w hw request _ ↦ ?_
  exact ((triple_generateServerCase hW request.1).post fun _ _ h ↦ h.1).final request.2 hw

/-! ## A small wolfCrypt -/

namespace Sample

/-- A number. -/
def unary (n : ℕ) : Bytes := List.replicate n 1 ++ [0]

/-- A text. -/
def word (b : Bytes) : Bytes := b.flatMap (fun x ↦ [1, x]) ++ [0]

/-- Some texts. -/
def words (l : List Bytes) : Bytes := l.flatMap word ++ [2]

/-- What `words` has put together. -/
def readWords : Bytes → Bytes → List Bytes
  | read, 1 :: x :: rest => readWords (read ++ [x]) rest
  | read, 0 :: rest => read :: readWords [] rest
  | _, _ => []

/-- What `unary` has put together, and what is behind it. -/
def readUnary : Bytes → ℕ × Bytes
  | 1 :: rest => ((readUnary rest).1 + 1, (readUnary rest).2)
  | 0 :: rest => (0, rest)
  | _ => (0, [])

theorem delimited_word : Codec.Delimited word := by
  refine Codec.Delimited.closed (fun a b r s h ↦ ?_) fun a ↦ ⟨1, [a], rfl, by decide⟩
  simpa using h

theorem delimited_words : Codec.Delimited words := by
  refine Codec.Delimited.closed delimited_word fun a ↦ ?_
  cases a with
  | nil => exact ⟨0, [], rfl, by decide⟩
  | cons x a => exact ⟨1, x :: word a, rfl, by decide⟩

theorem readWords_word (read b rest : Bytes) :
    readWords read (word b ++ rest) = (read ++ b) :: readWords [] rest := by
  induction b generalizing read with
  | nil => simp [word, readWords]
  | cons x b ih => simpa [word, readWords] using ih (read ++ [x])

theorem readWords_words (l : List Bytes) : readWords [] (words l) = l := by
  induction l with
  | nil => rfl
  | cons b l ih =>
      have h : words (b :: l) = word b ++ words l := by
        simp only [words, List.flatMap_cons, List.append_assoc]
      rw [h, readWords_word, ih, List.nil_append]

theorem readUnary_unary (n : ℕ) (rest : Bytes) : readUnary (unary n ++ rest) = (n, rest) := by
  induction n with
  | zero => rfl
  | succ n ih =>
      have h : unary (n + 1) ++ rest = 1 :: (unary n ++ rest) := by
        simp [unary, List.replicate_succ]
      rw [h, readUnary, ih]

def keyTypes : List KeyType := [.lms, .xmss, .ecc, .mlDsa87]

def sigTypes : List SigType :=
  [.hssLms, .xmss, .sha256wEcdsa, .sha384wEcdsa, .sha512wEcdsa, .mlDsa87]

/-- The texts in a certificate. -/
def texts (c : Certificate ℕ) : List Bytes :=
  let name (n : Name) := [n.country, n.state, n.locality, n.org, n.unit, n.commonName]
  name c.subject ++ name c.issuer ++ [c.notBefore, c.notAfter, unary c.key,
    unary (keyTypes.idxOf c.keyType), if c.isCa then [1] else [], c.keyUsage,
    unary (sigTypes.idxOf c.sigType), unary c.signer]

/-- The certificate with these texts. -/
def ofTexts : List Bytes → Option (Certificate ℕ)
  | [a, b, c, d, e, f, g, h, i, j, k, l, notBefore, notAfter, key, keyType, isCa, keyUsage, sigType,
      signer] => do
      let keyType ← keyTypes[(readUnary keyType).1]?
      let sigType ← sigTypes[(readUnary sigType).1]?
      return ⟨⟨a, b, c, d, e, f⟩, ⟨g, h, i, j, k, l⟩, notBefore, notAfter, (readUnary key).1,
        keyType, isCa ≠ [], keyUsage, sigType, (readUnary signer).1⟩
  | _ => none

theorem ofTexts_texts (c : Certificate ℕ) : ofTexts (texts c) = some c := by
  have hunary : ∀ n, (readUnary (unary n)).1 = n := fun n ↦ by
    have := readUnary_unary n []
    rw [List.append_nil] at this
    rw [this]
  obtain ⟨_, _, _, _, _, keyType, isCa, _, sigType, _⟩ := c
  cases keyType <;> cases isCa <;> cases sigType <;>
    simp [texts, ofTexts, hunary, keyTypes, sigTypes]

/-- A library whose private keys are two numbers. -/
def wolf : Wolf ℕ (ℕ × ℕ) where
  key := Prod.fst
  next := Prod.snd
  make _ n := (n, 0)
  step m := some (m.1, m.2 + 1)
  save m := unary m.1 ++ unary m.2
  reload _ b :=
    let m := ((readUnary b).1, (readUnary (readUnary b).2).1)
    if unary m.1 ++ unary m.2 = b then some m else none
  size _ := 64
  light _ n := n
  der c := words (texts c)
  parse b := (ofTexts (readWords [] b)).filter fun c ↦ words (texts c) = b
  pem _ b := b
  keyDer k := unary k

theorem wolf_lawful : wolf.Lawful where
  key_step h := (Option.some.inj h) ▸ rfl
  next_step h := (Option.some.inj h) ▸ Nat.lt_succ_self _
  key_make h := h
  eq_of_save_prefix := by
    rintro ⟨k, n⟩ ⟨k', n'⟩ ⟨t, h⟩
    have hread := congrArg readUnary h
    simp only [wolf, List.append_assoc, readUnary_unary] at hread
    have hrest := congrArg (fun p ↦ readUnary p.2) hread
    have hnil := readUnary_unary n' []
    rw [List.append_nil] at hnil
    simp only [readUnary_unary, hnil] at hrest
    simp_all
  parse_der c := by
    simp [wolf, readWords_words, ofTexts_texts]
  eq_of_prefix := by
    rintro b c c' ⟨t, h⟩ hparse
    have hb : words (texts c') = b := by
      simpa using (Option.filter_eq_some_iff.mp hparse).2
    have heq : words (texts c') ++ t = words (texts c) ++ [] := by rw [hb, List.append_nil]; exact h
    obtain ⟨_, ht⟩ := delimited_words heq
    rw [ht, List.append_nil] at h
    exact h

/-- A chain with an LMS root and an XMSS intermediate. -/
def request : Request where
  root := ascii "LMS-HSS-L2-H10-W4"
  intermediate := ascii "XMSS-SHA2_20_256"
  leaf := ascii "ECDSA-P-256"
  chainId := ascii "lms"
  caseId := ascii "case_1"

/-- Steps that are done, and one that is killed when `left` bytes have been written. -/
def killedAfter (n left : ℕ) : List Fate := List.replicate n .passes ++ [.kills (some left)]

/-- The first run is killed when it begins to write the certificate of the root, and the second when
it adds the intermediate to `server_chain.crt`. -/
def requests : List (Request × List Fate) :=
  [(request, killedAfter 9 0), (request, killedAfter 37 5)]

end Sample

/-! ## What the runner can rely on -/

/-- No one-time key is used for two signatures, and a saved root is ahead of what it has signed:
wherever the runs were refused or killed, as long as none of them took up half a private key. -/
theorem one_time_keys_once (hW : W.Lawful) (requests : List (Request × List Fate))
    (hread : (history W requests).misread = false) :
    (history W requests).ledger.used.Nodup ∧
      ∀ kind m, (history W requests).files (statePath kind) = some (W.save m) →
        ∀ u ∈ (history W requests).ledger.used, u.1 = W.key m → u.2 < W.next m := by
  have hinv := good_history hW requests hread
  exact ⟨hinv.safe.nodup, fun kind m hm ↦ hinv.safe.ahead (some kind) m hm⟩

theorem one_time_keys_once_sample :
    (history Sample.wolf Sample.requests).ledger.used.Nodup ∧
      (history Sample.wolf Sample.requests).ledger.used = [(2, 0), (1, 1), (1, 0), (0, 0)] :=
  ⟨(one_time_keys_once Sample.wolf_lawful Sample.requests (by decide +kernel)).1, by decide +kernel⟩

/-- A chain that has just been made is complete: root, intermediate and leaf have issued each other,
and every file is about them. -/
theorem chain_of_renew (hW : W.Lawful) (requests : List (Request × List Fate)) {request : Request}
    (halg : hbsOf request.root = some kind) {fates fates' : List Fate} {w : World κ}
    (hrun : renew W request kind fates (history W requests) = (.done (), fates', w))
    (hread : w.misread = false) :
    ∃ c r i l, Chain.Valid W kind c r i l ∧ Written W w (.chains request.chainId) c ∧
      w.files (.chains request.chainId, .serverChainCrt) = some (chainPem W c) := by
  obtain ⟨c, hc⟩ := (triple_renew hW halg).done (good_history hW requests) hrun
  have hwritten := hc.written
  obtain ⟨w₀, hw₀, rfl⟩ := hc
  obtain ⟨r, i, l, hvalid⟩ := hw₀.known hread
  exact ⟨c, r, i, l, hvalid, hwritten, World.files_put_self ..⟩

theorem chain_of_renew_sample :
    let w := (renew Sample.wolf Sample.request .lms).final [] (history Sample.wolf [])
    ∃ c r i l, Chain.Valid Sample.wolf .lms c r i l ∧
      Written Sample.wolf w (.chains Sample.request.chainId) c ∧
      w.files (.chains Sample.request.chainId, .serverChainCrt) = some (chainPem Sample.wolf c) :=
  have halg : hbsOf Sample.request.root = some .lms := by decide +kernel
  chain_of_renew Sample.wolf_lawful [] halg (eq_of_fst (by decide +kernel)) (by decide +kernel)

/-- A case gets a chain, from the cache or a new one, and only the end of `server_chain.crt` can be
missing, whatever became of the programs that made it. -/
theorem chain_of_generateServerCase (hW : W.Lawful) (requests : List (Request × List Fate))
    {request : Request} {fates fates' : List Fate} {w : World κ}
    (hrun : generateServerCase W request fates (history W requests) = (.done (), fates', w))
    (hread : w.misread = false) : HasChain W w (.cases request.caseId) :=
  ((triple_generateServerCase hW request).done (good_history hW requests) hrun).2 hread

/-- What the second run has left is taken for a chain, although its intermediate is cut short. -/
theorem chain_of_generateServerCase_sample :
    let w := (generateServerCase Sample.wolf Sample.request).final []
      (history Sample.wolf Sample.requests)
    HasChain Sample.wolf w (.cases Sample.request.caseId) ∧
      w.files (.cases Sample.request.caseId, .serverChainCrt) ≠
        (do
          let leaf ← w.files (.cases Sample.request.caseId, .serverCrt)
          let intermediate ← w.files (.cases Sample.request.caseId, .serverIntermediateCrt)
          return leaf ++ intermediate) :=
  ⟨chain_of_generateServerCase Sample.wolf_lawful Sample.requests
    (eq_of_fst (by decide +kernel)) (by decide +kernel), by decide +kernel⟩

end PeripheralBench.Pki.HashBased

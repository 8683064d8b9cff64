import PeripheralBench.Durable.Programs
import PeripheralBench.Durable.OneTime

/-!
# Certificates with hash-based roots

LMS and XMSS keys sign with one-time keys, so their private keys change with every signature and are
kept in files.  `hbs_certgen` makes a certificate chain: it takes up the root from a cache, or makes
it, signs a new intermediate with it and a new leaf with that, and writes the chain to a folder.
The runner keeps these folders too, and copies a chain from there when nothing is missing.

wolfCrypt is a parameter, `Wolf`.  As its documentation has it, `Sign` hands the changed private key
to the write callback, and gives the signature out when the callback has said that the key is saved.

A folder that is there can be read, and what is in it can be removed.
-/

open PeripheralBench.Text

namespace PeripheralBench.Pki.HashBased

open Durable Durable.Prog

/-! ## Algorithms -/

/-- The stateful algorithms. -/
inductive Hbs where
  | lms
  | xmss
deriving DecidableEq

/-- `strcmp` with the names of the stateful algorithms. -/
def hbsOf (algorithm : Bytes) : Option Hbs :=
  if algorithm = ascii "LMS-HSS-L2-H10-W4" then some .lms
  else if algorithm = ascii "XMSS-SHA2_20_256" then some .xmss
  else none

/-- The other keys: a curve, or ML-DSA. -/
inductive Light where
  | secp256r1
  | secp384r1
  | secp521r1
  | mlDsa87
deriving DecidableEq

/-- `key_type`. -/
inductive KeyType where
  | lms
  | xmss
  | ecc
  | mlDsa87
deriving DecidableEq

/-- `sig_type`. -/
inductive SigType where
  | hssLms
  | xmss
  | sha256wEcdsa
  | sha384wEcdsa
  | sha512wEcdsa
  | mlDsa87
deriving DecidableEq

/-- `pem_type`. -/
inductive PemType where
  | cert
  | eccPrivateKey
  | pkcs8PrivateKey
deriving DecidableEq

def Hbs.keyType : Hbs → KeyType
  | lms => .lms
  | xmss => .xmss

def Hbs.sigType : Hbs → SigType
  | lms => .hssLms
  | xmss => .xmss

/-- The kind of key that `light_key_init` makes, if it knows the algorithm. -/
def lightOf (algorithm : Bytes) : Option Light :=
  if algorithm = ascii "ECDSA-P-256" then some .secp256r1
  else if algorithm = ascii "ECDSA-P-384" then some .secp384r1
  else if algorithm = ascii "ECDSA-P-521" then some .secp521r1
  else if algorithm = ascii "ML-DSA-87" then some .mlDsa87
  else none

namespace Light

def keyType : Light → KeyType
  | secp256r1 | secp384r1 | secp521r1 => .ecc
  | mlDsa87 => .mlDsa87

def sigType : Light → SigType
  | secp256r1 => .sha256wEcdsa
  | secp384r1 => .sha384wEcdsa
  | secp521r1 => .sha512wEcdsa
  | mlDsa87 => .mlDsa87

def pemType : Light → PemType
  | secp256r1 | secp384r1 | secp521r1 => .eccPrivateKey
  | mlDsa87 => .pkcs8PrivateKey

end Light

/-! ## Certificates -/

/-- A name, as `set_name` fills it in. -/
structure Name where
  country : Bytes
  state : Bytes
  locality : Bytes
  org : Bytes
  unit : Bytes
  commonName : Bytes
deriving DecidableEq

/-- A certificate: what has been signed, and by which key. -/
structure Certificate (κ : Type) where
  subject : Name
  issuer : Name
  notBefore : Bytes
  notAfter : Bytes
  key : κ
  keyType : KeyType
  isCa : Bool
  keyUsage : Bytes
  sigType : SigType
  /-- The key that signed it. -/
  signer : κ
deriving DecidableEq

/-- The parts of wolfCrypt that are used. -/
structure Wolf (κ μ : Type) extends Signer κ μ Hbs where
  /-- The private key, as the write callback gets it. -/
  save : μ → Bytes
  /-- The private key that is found in these bytes. -/
  reload : Hbs → Bytes → Option μ
  /-- How many bytes the read callback is asked for. -/
  size : Hbs → ℕ
  /-- The key made with the `n`th random numbers. -/
  light : Light → ℕ → κ
  der : Certificate κ → Bytes
  parse : Bytes → Option (Certificate κ)
  pem : PemType → Bytes → Bytes
  keyDer : κ → Bytes

/-- A private key that is saved can be told from any other, and DER says where it ends.  Whether a
saved key is found again, by `reload`, is left open: a run fails if it is not. -/
structure Wolf.Lawful {κ μ : Type} (W : Wolf κ μ) : Prop extends W.toSigner.Lawful where
  eq_of_save_prefix : ∀ {m m'}, W.save m <+: W.save m' → m = m'
  parse_der : ∀ c, W.parse (W.der c) = some c
  eq_of_prefix : ∀ {b c c'}, b <+: W.der c → W.parse b = some c' → b = W.der c

/-! ## Files -/

/-- The folders. -/
inductive Folder where
  /-- `CERT_CACHE / "roots" / slug(root.name)`. -/
  | roots (kind : Hbs)
  /-- `CERT_CACHE / "chains" / chain_id`. -/
  | chains (chainId : Bytes)
  /-- The folder of a case. -/
  | cases (caseId : Bytes)
deriving DecidableEq

/-- The files in them. -/
inductive FileName where
  | rootState
  | intermediateState
  | serverRootCrt
  | serverRootDer
  | serverIntermediateCrt
  | serverIntermediateDer
  | serverCrt
  | serverDer
  | serverKey
  | serverChainCrt
deriving DecidableEq

/-- A number for each name. -/
def FileName.number : FileName → ℕ
  | rootState => 0
  | intermediateState => 1
  | serverRootCrt => 2
  | serverRootDer => 3
  | serverIntermediateCrt => 4
  | serverIntermediateDer => 5
  | serverCrt => 6
  | serverDer => 7
  | serverKey => 8
  | serverChainCrt => 9

/-- `PUBLIC_CHAIN_FILES`. -/
def publicChainFiles : List FileName :=
  [.serverRootCrt, .serverRootDer, .serverIntermediateCrt, .serverIntermediateDer, .serverCrt,
    .serverDer, .serverKey, .serverChainCrt]

abbrev Path : Type := Folder × FileName

/-- The files, with what has been done with the stateful keys. -/
structure World (κ : Type) where
  files : Path → Option Bytes
  ledger : Ledger κ
  /-- A private key has been taken up from a file that is not as it was saved. -/
  misread : Bool

namespace World

variable {κ : Type}

/-- There are no files. -/
def empty : World κ := ⟨fun _ ↦ none, ⟨0, []⟩, false⟩

def put (p : Path) (c : Option Bytes) (w : World κ) : World κ :=
  { w with files := Function.update w.files p c }

/-- The files in a folder that are chosen are removed. -/
def remove (folder : Folder) (chosen : FileName → Bool) (w : World κ) : World κ :=
  { w with files := fun p ↦ if p.1 = folder && chosen p.2 then none else w.files p }

/-- A signature is given out. -/
def release (oneTime : κ × ℕ) (w : World κ) : World κ :=
  { w with ledger := ⟨w.ledger.made, oneTime :: w.ledger.used⟩ }

/-- Random numbers are used up. -/
def draw (w : World κ) : World κ := { w with ledger := ⟨w.ledger.made + 1, w.ledger.used⟩ }

/-- What has been read is compared with what was saved. -/
def note (same : Bool) (w : World κ) : World κ := { w with misread := w.misread || !same }

@[simp] theorem files_put_self (p : Path) (c : Option Bytes) (w : World κ) :
    (w.put p c).files p = c := Function.update_self ..

theorem files_put_of_ne {p q : Path} (h : q ≠ p) (c : Option Bytes) (w : World κ) :
    (w.put p c).files q = w.files q := Function.update_of_ne h ..

@[simp] theorem ledger_put (p : Path) (c : Option Bytes) (w : World κ) :
    (w.put p c).ledger = w.ledger := rfl

@[simp] theorem misread_put (p : Path) (c : Option Bytes) (w : World κ) :
    (w.put p c).misread = w.misread := rfl

@[simp] theorem files_release (u : κ × ℕ) (w : World κ) : (w.release u).files = w.files := rfl

@[simp] theorem misread_release (u : κ × ℕ) (w : World κ) : (w.release u).misread = w.misread := rfl

@[simp] theorem files_draw (w : World κ) : w.draw.files = w.files := rfl

@[simp] theorem misread_draw (w : World κ) : w.draw.misread = w.misread := rfl

@[simp] theorem files_note (same : Bool) (w : World κ) : (w.note same).files = w.files := rfl

@[simp] theorem ledger_note (same : Bool) (w : World κ) : (w.note same).ledger = w.ledger := rfl

/-- A folder in which nothing is removed. -/
theorem files_remove_of_ne {folder : Folder} {p : Path} (h : p.1 ≠ folder)
    (chosen : FileName → Bool) (w : World κ) : (w.remove folder chosen).files p = w.files p := by
  simp [remove, h]

/-- What is left was there before. -/
theorem files_of_remove {folder : Folder} {chosen : FileName → Bool} {w : World κ} {p : Path}
    {b : Bytes} (h : (w.remove folder chosen).files p = some b) : w.files p = some b := by
  simp only [remove] at h
  split at h
  · exact absurd h (by simp)
  · exact h

@[simp] theorem ledger_remove (folder : Folder) (chosen : FileName → Bool) (w : World κ) :
    (w.remove folder chosen).ledger = w.ledger := rfl

@[simp] theorem misread_remove (folder : Folder) (chosen : FileName → Bool) (w : World κ) :
    (w.remove folder chosen).misread = w.misread := rfl

end World

/-- The files of a world. -/
def disk (κ : Type) : Folders (World κ) Path where
  contents w p := w.files p
  put := World.put
  contents_put_self := World.files_put_self
  contents_put_of_ne c w h := World.files_put_of_ne h c w

/-! ## The helpers of `hbs_certgen` -/

section

variable {κ μ : Type}

/-- `DER_CAP`. -/
def derCap : ℕ := 65536

/-- `KEY_CAP`. -/
def keyCap : ℕ := 16384

/-- `read_file`: a file that is there and not too long. -/
def readFile (w : World κ) (path : Path) (capacity : ℕ) : Option Bytes :=
  (w.files path).filter (·.length ≤ capacity)

/-- `write_file`. -/
def writeFile (path : Path) (data : Bytes) : Prog (World κ) Unit := (disk κ).write path data

/-- A private key in memory: a stateful one with the place where it is saved, or a `light_key`. -/
inductive PrivateKey (κ μ : Type) where
  | hbs (kind : Hbs) (state : μ) (path : Path)
  | light (kind : Light) (key : κ)

variable (W : Wolf κ μ)

/-- The public key. -/
def PrivateKey.key : PrivateKey κ μ → κ
  | hbs _ m _ => W.key m
  | light _ k => k

/-- `*_key_type`. -/
def PrivateKey.keyType : PrivateKey κ μ → KeyType
  | hbs kind _ _ => kind.keyType
  | light kind _ => kind.keyType

/-- `*_sig_type`. -/
def PrivateKey.sigType : PrivateKey κ μ → SigType
  | hbs kind _ _ => kind.sigType
  | light kind _ => kind.sigType

/-- `write_pem`. -/
def writePem (path : Path) (der : Bytes) (type : PemType) : Prog (World κ) Unit := do
  call
  writeFile path (W.pem type der)

/-- `append_pem_cert`. -/
def appendPemCert (path : Path) (der : Bytes) : Prog (World κ) Unit := do
  call
  (disk κ).append path (W.pem .cert der)

/-- `lms_write`, `xmss_write`. -/
def stateWrite (path : Path) (m : μ) : Prog (World κ) Unit := writeFile path (W.save m)

/-- `lms_read`, `xmss_read`, and what `Reload` finds there. -/
def stateRead (kind : Hbs) (path : Path) : Prog (World κ) μ := do
  let w ← get
  match readFile w path (W.size kind) with
  | none => fail
  | some b =>
      if b = [] then fail
      else
        match W.reload kind b with
        | none => fail
        | some m => do
            modify (World.note (b = W.save m))
            return m

/-- `MakeKey`. -/
def makeKey (kind : Hbs) (path : Path) : Prog (World κ) μ := do
  let w ← get
  modify World.draw
  stateWrite W path (W.make kind w.ledger.made)
  return W.make kind w.ledger.made

/-- `configure_lms`, `configure_xmss`. -/
def configure (kind : Hbs) (path : Path) (create : Bool) : Prog (World κ) (PrivateKey κ μ) := do
  call
  let m ← (if create then makeKey W kind path else stateRead W kind path)
  return .hbs kind m path

/-- `light_key_init`. -/
def lightKeyInit (algorithm : Bytes) : Prog (World κ) (PrivateKey κ μ) :=
  match lightOf algorithm with
  | none => fail
  | some kind => do
      call
      let w ← get
      modify World.draw
      return .light kind (W.light kind w.ledger.made)

/-- `set_name`, with `CTC_NAME_SIZE` of 64. -/
def setName (unit commonName : Bytes) : Name where
  country := ascii "CA"
  state := ascii "QC"
  locality := ascii "Montreal"
  org := ascii "Peripheral Benchmark"
  unit := snprintf 64 unit
  commonName := snprintf 64 commonName

/-- `CERT_NOT_BEFORE`. -/
def certNotBefore : Bytes := 0x18 :: 0x0f :: ascii "20200101000000Z"

/-- `CERT_NOT_AFTER`. -/
def certNotAfter : Bytes := 0x18 :: 0x0f :: ascii "20360101000000Z"

/-- The certificate is handed over, if it fits. -/
def fits (c : Certificate κ) (key : PrivateKey κ μ) : Prog (World κ) (Bytes × PrivateKey κ μ) :=
  if (W.der c).length ≤ derCap then return (W.der c, key) else fail

/-- `wc_SignCert_ex`: a stateful key is saved before its signature is given out. -/
def wcSignCert (c : Certificate κ) : PrivateKey κ μ → Prog (World κ) (Bytes × PrivateKey κ μ)
  | .hbs kind m path =>
      match W.step m with
      | none => fail
      | some m' => do
          call
          stateWrite W path m'
          modify (World.release (W.key m, W.next m))
          fits W c (.hbs kind m' path)
  | .light kind k => do
      call
      fits W c (.light kind k)

/-- `wc_SetIssuerBuffer`. -/
def issuerName (subject : Name) : Option Bytes → Prog (World κ) Name
  | none => return subject
  | some issuerDer =>
      match W.parse issuerDer with
      | none => fail
      | some issuer => return issuer.subject

/-- What `make_certificate` fills in. -/
def certificateBody (subjectKey signingKey : PrivateKey κ μ) (issuer : Name) (isCa : Bool)
    (unit commonName : Bytes) : Certificate κ where
  subject := setName unit commonName
  issuer := issuer
  notBefore := certNotBefore
  notAfter := certNotAfter
  key := subjectKey.key W
  keyType := subjectKey.keyType
  isCa := isCa
  keyUsage := if isCa then ascii "keyCertSign,cRLSign" else ascii "digitalSignature"
  sigType := signingKey.sigType
  signer := signingKey.key W

/-- `make_certificate`. -/
def makeCertificate (subjectKey signingKey : PrivateKey κ μ) (issuerDer : Option Bytes)
    (isCa : Bool) (unit commonName : Bytes) : Prog (World κ) (Bytes × PrivateKey κ μ) := do
  call
  let issuer ← issuerName W (setName unit commonName) issuerDer
  call
  wcSignCert W (certificateBody W subjectKey signingKey issuer isCa unit commonName) signingKey

/-! ## `hbs_certgen` -/

/-- The certificate of the root: it is made, or read again. -/
def rootCertificate (rootAlgorithm : Bytes) (rootCache : Folder) (create : Bool)
    (rootKey : PrivateKey κ μ) : Prog (World κ) (Bytes × PrivateKey κ μ) :=
  if create then do
    let (rootDer, rootKey) ←
      makeCertificate W rootKey rootKey none true (ascii "Root CA") rootAlgorithm
    writeFile (rootCache, .serverRootDer) rootDer
    writePem W (rootCache, .serverRootCrt) rootDer .cert
    return (rootDer, rootKey)
  else do
    let w ← get
    match readFile w (rootCache, .serverRootDer) derCap with
    | none => fail
    | some rootDer => if rootDer = [] then fail else return (rootDer, rootKey)

/-- `create_root`: there is no certificate to be read. -/
def createRoot (w : World κ) (rootCache : Folder) : Bool :=
  (readFile w (rootCache, .serverRootDer) derCap).getD [] = []

/-- The root, with its certificate. -/
def openRoot (rootAlgorithm : Bytes) (rootCache : Folder) :
    Prog (World κ) (Bytes × PrivateKey κ μ) := do
  let w ← get
  match hbsOf rootAlgorithm with
  | none => fail
  | some kind => do
      let rootKey ← configure W kind (rootCache, .rootState) (createRoot w rootCache)
      rootCertificate W rootAlgorithm rootCache (createRoot w rootCache) rootKey

/-- The key of the intermediate, which is always a new one. -/
def intermediateKey (intermediateAlgorithm : Bytes) (output : Folder) :
    Prog (World κ) (PrivateKey κ μ) :=
  match hbsOf intermediateAlgorithm with
  | some kind => configure W kind (output, .intermediateState) true
  | none => lightKeyInit W intermediateAlgorithm

/-- What `WRITE_DER_AND_PEM` and the end of `main` write. -/
structure Chain (κ : Type) where
  rootDer : Bytes
  intermediateDer : Bytes
  leafDer : Bytes
  leafKind : Light
  leafKey : κ

/-- The intermediate and the leaf are made and signed. -/
def issue (intermediateAlgorithm leafAlgorithm : Bytes) (output : Folder) (rootDer : Bytes)
    (rootKey : PrivateKey κ μ) : Prog (World κ) (Chain κ) := do
  let intermediate ← intermediateKey W intermediateAlgorithm output
  let (intermediateDer, _) ← makeCertificate W intermediate rootKey (some rootDer) true
    (ascii "Intermediate CA") intermediateAlgorithm
  -- LMS and XMSS are not available in TLS 1.3
  let leaf ← lightKeyInit W
    (if (hbsOf leafAlgorithm).isSome then ascii "ECDSA-P-256" else leafAlgorithm)
  let (leafDer, _) ← makeCertificate W leaf intermediate (some intermediateDer) false
    (ascii "TLS Server") (ascii "localhost")
  match leaf with
  | .hbs _ _ _ => fail
  | .light kind key =>
      if W.keyDer key = [] ∨ keyCap < (W.keyDer key).length then fail
      else return ⟨rootDer, intermediateDer, leafDer, kind, key⟩

/-- `WRITE_DER_AND_PEM`. -/
def writeDerAndPem (output : Folder) (der crt : FileName) (data : Bytes) : Prog (World κ) Unit := do
  writeFile (output, der) data
  writePem W (output, crt) data .cert

/-- The chain is written out. -/
def writeChain (output : Folder) (chain : Chain κ) : Prog (World κ) Unit := do
  writeDerAndPem W output .serverRootDer .serverRootCrt chain.rootDer
  writeDerAndPem W output .serverIntermediateDer .serverIntermediateCrt chain.intermediateDer
  writeDerAndPem W output .serverDer .serverCrt chain.leafDer
  writePem W (output, .serverKey) (W.keyDer chain.leafKey) chain.leafKind.pemType
  writePem W (output, .serverChainCrt) chain.leafDer .cert
  appendPemCert W (output, .serverChainCrt) chain.intermediateDer

/-- `main` of `hbs_certgen`. -/
def hbsCertgen (rootAlgorithm intermediateAlgorithm leafAlgorithm : Bytes)
    (rootCache output : Folder) : Prog (World κ) Unit := do
  call
  let (rootDer, rootKey) ← openRoot W rootAlgorithm rootCache
  let chain ← issue W intermediateAlgorithm leafAlgorithm output rootDer rootKey
  writeChain W output chain

/-! ## The folders of chains -/

/-- `shutil.rmtree(folder, ignore_errors=True)`: the files go in any order. -/
def rmtree (folder : Folder) : Prog (World κ) Unit :=
  insist (World.remove folder fun _ ↦ true) fun n ↦ World.remove folder fun name ↦
    n.testBit name.number

/-- `_all_present`. -/
def allPresent (w : World κ) (directory : Folder) (names : List FileName) : Bool :=
  names.all fun name ↦ (w.files (directory, name)).isSome

/-- The body of the loop in `_copy_files`. -/
def copyFile (source destination : Folder) (name : FileName) : Prog (World κ) Unit := do
  insist (World.put (destination, name) none) fun _ ↦ id
  let w ← get
  match w.files (source, name) with
  | none => fail
  | some b => writeFile (destination, name) b

/-- `_copy_files`. -/
def copyFiles (source destination : Folder) (names : List FileName) : Prog (World κ) Unit :=
  each names (copyFile source destination)

/-- What `generate_server_case` is asked for. -/
structure Request where
  root : Bytes
  intermediate : Bytes
  leaf : Bytes
  chainId : Bytes
  caseId : Bytes

/-- A chain that cannot be used is removed and made again. -/
def renew (request : Request) (kind : Hbs) : Prog (World κ) Unit := do
  rmtree (.chains request.chainId)
  call
  hbsCertgen W request.root request.intermediate request.leaf (.roots kind)
    (.chains request.chainId)

/-- `generate_server_case`, for a chain with a hash-based root. -/
def generateServerCase (request : Request) : Prog (World κ) Unit :=
  match hbsOf request.root with
  | none => fail
  | some kind => do
      let w ← get
      -- `_cert_is_valid` asks `openssl` for the dates of the three certificates
      let valid ←
        (if allPresent w (.chains request.chainId) publicChainFiles then ask else pure false)
      (if valid then pure () else renew W request kind)
      copyFiles (.chains request.chainId) (.cases request.caseId) publicChainFiles

/-- The world after some requests, each with its fates. -/
def history (requests : List (Request × List Fate)) : World κ :=
  requests.foldl (fun w request ↦ (generateServerCase W request.1).final request.2 w) .empty

end

end PeripheralBench.Pki.HashBased

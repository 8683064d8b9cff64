import Mathlib.Data.UInt
import PeripheralBench.Durable.Programs
import PeripheralBench.Memory.Blocks
import PeripheralBench.Power.Markers
import PeripheralBench.Trace.Nested

/-!
# The ML-KEM backend of the firmware

`firmware/src/pqm4_mlkem_backend.c` does the ML-KEM operations of wolfSSL with pqm4. wolfSSL asks
for an operation, and the backend moves keys between wolfSSL's key objects and the functions of
pqm4, in blocks that it allocates for this and wipes before it gives them back.

pqm4 and wolfSSL are parameters: what their functions return and what they write.  Allocations may
be refused, which is decided by the fates of a program, and a program may be stopped anywhere when
the power is cut.  Whatever happens, the backend reads nothing that it should not, leaves nothing
behind, and measures each operation once (`tidy_of_requests`).
-/

open PeripheralBench.Durable PeripheralBench.Memory PeripheralBench.Power PeripheralBench.Trace

namespace PeripheralBench.Kem

/-! ## Parameter sets -/

/-- What a function returns. -/
inductive Code where
  /-- Zero. -/
  | ok
  /-- `CRYPTOCB_UNAVAILABLE`. -/
  | unavailable
  /-- `MEMORY_E`. -/
  | memory
  /-- `BUFFER_E`. -/
  | buffer
  | other (error : ℤ)
deriving DecidableEq

/-- The entries of `levels`. -/
inductive Level where
  | mlkem512
  | mlkem768
  | mlkem1024
deriving DecidableEq

namespace Level

/-- `levels`, in its order. -/
def all : List Level := [mlkem512, mlkem768, mlkem1024]

/-- `public_len`. -/
def publicLen : Level → ℕ
  | mlkem512 => 800
  | mlkem768 => 1184
  | mlkem1024 => 1568

/-- `private_len`. -/
def privateLen : Level → ℕ
  | mlkem512 => 1632
  | mlkem768 => 2400
  | mlkem1024 => 3168

/-- `ciphertext_len`. -/
def ciphertextLen : Level → ℕ
  | mlkem512 => 768
  | mlkem768 => 1088
  | mlkem1024 => 1568

end Level

/-- `WC_ML_KEM_SS_SZ`. -/
def sharedSecretLen : ℕ := 32

/-! ## What is not part of the firmware -/

/-- What a key generation returns and writes. -/
structure KeyPair where
  code : Code
  publicKey : Bytes
  privateKey : Bytes

/-- What an encapsulation returns and writes. -/
structure Encapsulation where
  code : Code
  ciphertext : Bytes
  sharedSecret : Bytes

/-- What a decapsulation returns and writes. -/
structure Decapsulation where
  code : Code
  sharedSecret : Bytes

/-- The functions of pqm4, with the `n`th random numbers where they draw some. -/
structure Pqm4 where
  keypair : Level → ℕ → KeyPair
  encapsulate : Level → ℕ → Bytes → Encapsulation
  decapsulate : Level → Bytes → Bytes → Decapsulation

/-- What `wc_MlKemKey_DecodePrivateKey` returns, and the key object after it. -/
structure Decoded (K : Type) where
  code : Code
  key : K

/-- What `wc_MlKemKey_EncodePublicKey` and `wc_MlKemKey_EncodePrivateKey` return and write. -/
structure Encoded where
  code : Code
  data : Bytes

/-- wolfSSL, whose key objects are `K`. -/
structure Wolf (K : Type) where
  /-- `MLKEM_KYBER`. -/
  kyber : UInt32
  /-- `WC_ML_KEM_512` and so on. -/
  wolfType : Level → UInt32
  /-- `key->type`. -/
  type : K → UInt32
  decodePrivateKey : K → Bytes → Decoded K
  encodePublicKey : K → ℕ → Encoded
  encodePrivateKey : K → ℕ → Encoded

/-- Functions that write what they are documented to write: never past the end, and up to it if they
succeed. -/
def Writes (code : Code) (data : Bytes) (size : ℕ) : Prop :=
  data.length ≤ size ∧ (code = .ok → data.length = size)

/-- pqm4 writes what it is documented to write. -/
structure Pqm4.Sized (P : Pqm4) : Prop where
  publicKey : ∀ level n,
    Writes (P.keypair level n).code (P.keypair level n).publicKey level.publicLen
  privateKey : ∀ level n,
    Writes (P.keypair level n).code (P.keypair level n).privateKey level.privateLen
  ciphertext : ∀ level n pk,
    Writes (P.encapsulate level n pk).code (P.encapsulate level n pk).ciphertext level.ciphertextLen
  encapsulated : ∀ level n pk,
    Writes (P.encapsulate level n pk).code (P.encapsulate level n pk).sharedSecret sharedSecretLen
  decapsulated : ∀ level ct sk,
    Writes (P.decapsulate level ct sk).code (P.decapsulate level ct sk).sharedSecret sharedSecretLen

/-- wolfSSL writes as much as it is asked for. -/
structure Wolf.Sized {K : Type} (w : Wolf K) : Prop where
  publicKey : ∀ key n, Writes (w.encodePublicKey key n).code (w.encodePublicKey key n).data n
  privateKey : ∀ key n, Writes (w.encodePrivateKey key n).code (w.encodePrivateKey key n).data n

/-! ## The backend -/

/-- What the backend works on.  `κ` are the key objects that there are. -/
structure World (K κ : Type) where
  memory : Blocks UInt8 := {}
  keys : κ → K
  /-- How often random numbers have been drawn. -/
  drawn : ℕ := 0
  /-- Where operations begin and end, for the measurement. -/
  marks : List (Mark CryptoOperation) := []

variable {K κ : Type}

/-- A change of the memory. -/
def World.mapMemory (f : Blocks UInt8 → Blocks UInt8) (s : World K κ) : World K κ :=
  { s with memory := f s.memory }

/-- Something is measured. -/
def World.mark (m : Mark CryptoOperation) (s : World K κ) : World K κ :=
  { s with marks := s.marks ++ [m] }

/-- `benchmark_crypto_metric_start`. -/
def metricStart (operation : CryptoOperation) : Prog (World K κ) Unit :=
  Prog.modify (World.mark (.enter operation))

/-- `benchmark_metric_stop`. -/
def metricStop (operation : CryptoOperation) : Prog (World K κ) Unit :=
  Prog.modify (World.mark (.leave operation))

/-- `XMALLOC`. -/
def malloc (size : ℕ) : Prog (World K κ) (Option ℕ) := do
  if ← Prog.ask then
    let s ← Prog.get
    Prog.modify (World.mapMemory (Blocks.alloc size))
    pure (some s.memory.next)
  else pure none

/-- Something is written to a block. -/
def store (p : ℕ) (data : Bytes) : Prog (World K κ) Unit :=
  Prog.modify (World.mapMemory (Blocks.store p 0 data))

/-- A block is read. -/
def load (p n : ℕ) : Prog (World K κ) Bytes := do
  let s ← Prog.get
  match s.memory.load p 0 n with
  | some data => pure data
  | none =>
      Prog.modify (World.mapMemory fun m ↦ { m with fault := true })
      pure []

/-- `if (p) { XMEMSET(p, 0, size); XFREE(p, …); }`. -/
def discard (p : Option ℕ) (size : ℕ) : Prog (World K κ) Unit :=
  match p with
  | none => pure ()
  | some p => do
      store p (List.replicate size 0)
      Prog.modify (World.mapMemory (Blocks.free p))

/-- `PQCLEAN_randombytes`. -/
def draw : Prog (World K κ) ℕ := do
  let s ← Prog.get
  Prog.modify fun s ↦ { s with drawn := s.drawn + 1 }
  pure s.drawn

section

variable [DecidableEq κ] (w : Wolf K) (P : Pqm4)

/-- `level_from_key`, for a key object that is there. -/
def Wolf.levelFromKey (key : K) : Option Level :=
  let type := if w.type key &&& w.kyber ≠ 0 then w.type key &&& ~~~w.kyber else w.type key
  Level.all.find? fun level ↦ w.wolfType level = type

/-- What is done for a key with a level.  Without one `CRYPTOCB_UNAVAILABLE` is returned. -/
def withLevel (key : Option κ) (k : κ → Level → Prog (World K κ) Code) : Prog (World K κ) Code := do
  let s ← Prog.get
  match key with
  | none => pure .unavailable
  | some key =>
      match w.levelFromKey (s.keys key) with
      | none => pure .unavailable
      | some level => k key level

/-- `level->keypair(pk, sk)`. -/
def keypair (level : Level) (pk sk : ℕ) : Prog (World K κ) Code := do
  let n ← draw
  store pk (P.keypair level n).publicKey
  store sk (P.keypair level n).privateKey
  pure (P.keypair level n).code

/-- `wc_MlKemKey_DecodePrivateKey`. -/
def decodePrivateKey (key : κ) (sk n : ℕ) : Prog (World K κ) Code := do
  let data ← load sk n
  let s ← Prog.get
  let decoded := w.decodePrivateKey (s.keys key) data
  Prog.modify fun s ↦ { s with keys := Function.update s.keys key decoded.key }
  pure decoded.code

/-- What `make_key` does before `out`. -/
def generate (key : κ) (level : Level) (pk sk : Option ℕ) : Prog (World K κ) Code :=
  match pk, sk with
  | some pk, some sk => do
      let code ← keypair P level pk sk
      if code = .ok then decodePrivateKey w key sk level.privateLen else pure code
  | _, _ => pure .memory

/-- `make_key`. -/
def makeKey (key : Option κ) : Prog (World K κ) Code :=
  withLevel w key fun key level ↦ do
    metricStart .kemKeygen
    let pk ← malloc level.publicLen
    let sk ← malloc level.privateLen
    let code ← generate w P key level pk sk
    discard pk level.publicLen
    discard sk level.privateLen
    metricStop .kemKeygen
    pure code

/-- A call of `wc_MlKemKey_EncodePublicKey` or `wc_MlKemKey_EncodePrivateKey`. -/
def encodeKey (encode : K → ℕ → Encoded) (key : κ) (p n : ℕ) : Prog (World K κ) Code := do
  let s ← Prog.get
  let encoded := encode (s.keys key) n
  store p encoded.data
  pure encoded.code

/-- `level->encapsulate(ct, ss, pk)`. -/
def levelEncapsulate (level : Level) (ct ss pk : ℕ) : Prog (World K κ) Code := do
  let data ← load pk level.publicLen
  let n ← draw
  store ct (P.encapsulate level n data).ciphertext
  store ss (P.encapsulate level n data).sharedSecret
  pure (P.encapsulate level n data).code

/-- `level->decapsulate(ss, ct, sk)`. -/
def levelDecapsulate (level : Level) (ss ct sk : ℕ) : Prog (World K κ) Code := do
  let ciphertext ← load ct level.ciphertextLen
  let data ← load sk level.privateLen
  store ss (P.decapsulate level ciphertext data).sharedSecret
  pure (P.decapsulate level ciphertext data).code

/-- What `encapsulate` and `decapsulate` do between the allocation and `out`. -/
def useKey (encode : K → ℕ → Encoded) (key : κ) (size : ℕ) (use : ℕ → Prog (World K κ) Code) :
    Option ℕ → Prog (World K κ) Code
  | none => pure .memory
  | some p => do
      let code ← encodeKey encode key p size
      if code = .ok then use p else pure code

/-- A key is moved to a block of its own, and used there: what `encapsulate` and `decapsulate` do
after their checks. -/
def withKey (operation : CryptoOperation) (encode : K → ℕ → Encoded) (key : κ) (size : ℕ)
    (use : ℕ → Prog (World K κ) Code) : Prog (World K κ) Code := do
  metricStart operation
  let p ← malloc size
  let code ← useKey encode key size use p
  discard p size
  metricStop operation
  pure code

/-- The checks of the buffers in `encapsulate` and `decapsulate`. -/
def withBuffers (level : Level) (ct : Option ℕ) (ctLen : ℕ) (ss : Option ℕ) (ssLen : ℕ)
    (k : ℕ → ℕ → Prog (World K κ) Code) : Prog (World K κ) Code :=
  match ct, ss with
  | some ct, some ss =>
      if ctLen ≠ level.ciphertextLen ∨ ssLen ≠ sharedSecretLen then pure .buffer else k ct ss
  | _, _ => pure .buffer

/-- `encapsulate`. -/
def encapsulate (key : Option κ) (ct : Option ℕ) (ctLen : ℕ) (ss : Option ℕ) (ssLen : ℕ) :
    Prog (World K κ) Code :=
  withLevel w key fun key level ↦ withBuffers level ct ctLen ss ssLen fun ct ss ↦
    withKey .kemEncapsulate w.encodePublicKey key level.publicLen (levelEncapsulate P level ct ss)

/-- `decapsulate`. -/
def decapsulate (key : Option κ) (ct : Option ℕ) (ctLen : ℕ) (ss : Option ℕ) (ssLen : ℕ) :
    Prog (World K κ) Code :=
  withLevel w key fun key level ↦ withBuffers level ct ctLen ss ssLen fun ct ss ↦
    withKey .kemDecapsulate w.encodePrivateKey key level.privateLen (levelDecapsulate P level ss ct)

/-- What wolfSSL asks for.  A request for a KEM says whether it is for ML-KEM. -/
inductive Request (κ : Type) where
  | keygen (mlkem : Bool) (key : Option κ)
  | encaps (mlkem : Bool) (key : Option κ) (ct : Option ℕ) (ctLen : ℕ) (ss : Option ℕ) (ssLen : ℕ)
  | decaps (mlkem : Bool) (key : Option κ) (ct : Option ℕ) (ctLen : ℕ) (ss : Option ℕ) (ssLen : ℕ)
  /-- No `info`, an algorithm that is not a public-key one, or another operation. -/
  | other

/-- `crypto_cb`. -/
def cryptoCb : Request κ → Prog (World K κ) Code
  | .keygen mlkem key => if mlkem then makeKey w P key else pure .unavailable
  | .encaps mlkem key ct ctLen ss ssLen =>
      if mlkem then encapsulate w P key ct ctLen ss ssLen else pure .unavailable
  | .decaps mlkem key ct ctLen ss ssLen =>
      if mlkem then decapsulate w P key ct ctLen ss ssLen else pure .unavailable
  | .other => pure .unavailable

/-- A request whose code is of no interest. -/
def perform (r : Request κ) : Prog (World K κ) Unit := do
  let _ ← cryptoCb w P r
  pure ()

end

end PeripheralBench.Kem

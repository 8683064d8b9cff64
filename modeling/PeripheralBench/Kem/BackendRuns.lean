import PeripheralBench.Kem.Backend

/-!
# What a request does

Each of the functions of the backend gets a triple, from the allocations to `crypto_cb`.  In
between, a program is described by the memory apart from its own blocks, these blocks, the marks and
the keys (`World.At`).

A request leaves the memory as it was, except for the buffers that it is told to write to, and has
wiped its own blocks.  This stays true for any requests, one after another (`tidy_of_requests`),
also when they are refused, or when the power is cut.
-/

open PeripheralBench.Durable PeripheralBench.Memory PeripheralBench.Power PeripheralBench.Trace

namespace PeripheralBench.Kem

variable {K κ : Type}

/-- The memory is sound. -/
def World.Sound (s : World K κ) : Prop := s.memory.Sound Cells.Wiped

/-- Where a program is: `base` is the memory apart from its own blocks. -/
structure World.At (base : ℕ → Option (Cells UInt8)) (own : List (ℕ × ℕ))
    (marks : List (Mark CryptoOperation)) (keys : κ → K) (s : World K κ) : Prop where
  holds : s.memory.Holds Cells.Wiped base own
  marks : s.marks = marks
  keys : s.keys = keys

/-- The block at an address, if there is one. -/
def owned (p : Option ℕ) (n : ℕ) : List (ℕ × ℕ) := p.toList.map fun p ↦ (p, n)

/-- Some operations, measured one after another. -/
def spans (operations : List CryptoOperation) : List (Mark CryptoOperation) :=
  operations.flatMap fun o ↦ [.enter o, .leave o]

namespace World.At

variable {base : ℕ → Option (Cells UInt8)} {own : List (ℕ × ℕ)}
  {marks : List (Mark CryptoOperation)} {keys : κ → K} {p n : ℕ} {data : Bytes}

theorem sound {s : World K κ} (h : s.At base own marks keys) : s.Sound := h.holds.sound

/-! ## The small steps -/

theorem triple_mark (m : Mark CryptoOperation) :
    Triple World.Sound (At (K := K) base own marks keys) (Prog.modify (World.mark m))
      fun _ ↦ At base own (marks ++ [m]) keys :=
  .modify fun _ hs ↦ ⟨hs.holds, congrArg (· ++ [m]) hs.marks, hs.keys⟩

theorem triple_malloc (n : ℕ) :
    Triple World.Sound (At (K := K) base own marks keys) (malloc n)
      fun p ↦ At base (owned p n ++ own) marks keys := by
  refine .bind (.ask (fun _ _ hs ↦ hs) fun _ hs ↦ hs.sound) fun b ↦ ?_
  cases b with
  | false => exact .pure fun _ hs ↦ hs
  | true =>
      refine .read fun s hs ↦ .bind (Q := fun _ ↦
        At base ((s.memory.next, n) :: own) marks keys) (.modify ?_) fun _ ↦ .pure fun _ ht ↦ ht
      rintro _ rfl
      exact ⟨hs.holds.alloc n, hs.marks, hs.keys⟩

/-- One of the program's own blocks is written to. -/
theorem triple_store (hp : (p, n) ∈ own) (hdata : data.length ≤ n) :
    Triple World.Sound (At (K := K) base own marks keys) (store p data) fun _ s ↦
      s.At base own marks keys ∧
        (data.length = n → s.memory.cells p = some (Cells.ofList data)) := by
  refine .modify fun s hs ↦ ⟨⟨hs.holds.store hp hdata, hs.marks, hs.keys⟩, ?_⟩
  rintro rfl
  have hsize := hs.holds.sizeAt_of_mem hp
  change (s.memory.store p 0 data).cells p = _
  rw [Blocks.store_eq ⟨_, hsize, le_rfl⟩]
  exact put_full hsize

/-- A buffer is written to. -/
theorem triple_storeBase (hroom : Room (sizeAt base) p data.length) :
    Triple World.Sound (At (K := K) base own marks keys) (store p data)
      fun _ ↦ At (put p 0 data base) own marks keys :=
  .modify fun _ hs ↦ ⟨hs.holds.storeBase hroom, hs.marks, hs.keys⟩

/-- What is there is read. -/
theorem triple_load {P : World K κ → Prop} (hload : ∀ s, P s → s.memory.load p 0 n = some data) :
    Triple World.Sound P (load p n) fun d s ↦ d = data ∧ P s := by
  refine .read fun s hs ↦ ?_
  rw [hload s hs]
  exact .pure fun _ ht ↦ ⟨rfl, ht ▸ hs⟩

theorem triple_draw : Triple World.Sound (At (K := K) base own marks keys) draw
    fun _ ↦ At base own marks keys := by
  refine .read fun s hs ↦ .bind (Q := fun _ ↦ At base own marks keys) (.modify ?_)
    fun _ ↦ .pure fun _ ht ↦ ht
  rintro _ rfl
  exact ⟨hs.holds, hs.marks, hs.keys⟩

/-- A block is wiped and given back, if there is one. -/
theorem triple_discard (p : Option ℕ) :
    Triple World.Sound (At (K := K) base (own ++ owned p n) marks keys) (discard p n)
      fun _ ↦ At base own marks keys := by
  cases p with
  | none =>
      refine .pure fun s hs ↦ ?_
      rwa [owned, Option.toList_none, List.map_nil, List.append_nil] at hs
  | some p =>
      rw [owned, Option.toList_some, List.map_singleton]
      let wiped (s : World K κ) : Prop := ∃ m : Blocks UInt8,
        s.memory = m.store p 0 (List.replicate n 0) ∧
          m.Holds Cells.Wiped base (own ++ [(p, n)]) ∧ s.marks = marks ∧ s.keys = keys
      refine .bind (Q := fun _ ↦ wiped) (.modify fun s hs ↦ ?_) fun _ ↦ .modify ?_
      · exact ⟨s.memory, rfl, hs.holds, hs.marks, hs.keys⟩
      · rintro s ⟨m, hm, hholds, hmarks, hkeys⟩
        refine ⟨?_, hmarks, hkeys⟩
        change (s.memory.free p).Holds _ _ _
        rw [hm]
        have hfreed := hholds.discard List.length_replicate (Cells.wiped_zero n)
        rwa [List.append_nil] at hfreed

end World.At

open World.At

/-! ## Keys -/

section

variable {w : Wolf K} {P : Pqm4} {base : ℕ → Option (Cells UInt8)} {own : List (ℕ × ℕ)}
  {marks : List (Mark CryptoOperation)} {keys : κ → K}

/-- A request without a level is refused, and nothing happens. -/
theorem triple_withLevel {key : Option κ} {k : κ → Level → Prog (World K κ) Code}
    {Q : Code → World K κ → Prop}
    (hnone : ∀ s, World.At base own marks keys s → Q .unavailable s)
    (hsome : ∀ i level, key = some i → w.levelFromKey (keys i) = some level →
      Triple World.Sound (World.At base own marks keys) (k i level) Q) :
    Triple World.Sound (World.At base own marks keys) (withLevel w key k) Q := by
  refine .read fun s hs ↦ ?_
  cases key with
  | none =>
      apply Triple.pure
      rintro _ rfl
      exact hnone _ hs
  | some i =>
      cases hlevel : w.levelFromKey (s.keys i) with
      | none =>
          simp only [hlevel]
          apply Triple.pure
          rintro _ rfl
          exact hnone _ hs
      | some level =>
          simp only [hlevel]
          refine (hsome i level rfl (hs.keys ▸ hlevel)).pre ?_
          rintro _ rfl
          exact hs

/-- A key is exported to one of the program's own blocks. -/
theorem triple_encodeKey {encode : K → ℕ → Encoded} {key : κ} {p n : ℕ} (hp : (p, n) ∈ own)
    (hencode : ∀ key n, Writes (encode key n).code (encode key n).data n) :
    Triple World.Sound (World.At base own marks keys) (encodeKey encode key p n) fun code s ↦
      code = (encode (keys key) n).code ∧ s.At base own marks keys ∧
        (code = .ok → s.memory.load p 0 n = some (encode (keys key) n).data) := by
  refine .read fun s hs ↦ ?_
  rw [hs.keys]
  have hstore : Triple World.Sound (fun t ↦ t = s) (store p (encode (keys key) n).data) fun _ t ↦
      t.At base own marks keys ∧ ((encode (keys key) n).data.length = n →
        t.memory.cells p = some (Cells.ofList (encode (keys key) n).data)) := by
    refine (triple_store hp (hencode _ n).1).pre ?_
    rintro _ rfl
    exact hs
  refine .bind hstore fun _ ↦ .pure fun t ht ↦ ⟨rfl, ht.1, fun hok ↦ ?_⟩
  have hlen := (hencode _ n).2 hok
  exact (look_of_full (ht.2 hlen)).symm ▸ congrArg (look p 0 · t.memory.cells) hlen.symm

/-- A key is exported and used.  `Q` is about the memory apart from the block of the key. -/
theorem triple_withKey {operation : CryptoOperation} {encode : K → ℕ → Encoded} {key : κ} {size : ℕ}
    {use : ℕ → Prog (World K κ) Code} {Q : Code → (ℕ → Option (Cells UInt8)) → Prop}
    (hencode : ∀ key n, Writes (encode key n).code (encode key n).data n)
    (hfail : ∀ code, code ≠ .ok → Q code base)
    (huse : ∀ p data, encode (keys key) size = ⟨.ok, data⟩ →
      Triple World.Sound
        (fun s ↦ s.At base (owned (some p) size) (marks ++ [.enter operation]) keys ∧
          s.memory.load p 0 size = some data)
        (use p) fun code s ↦ ∃ base', s.At base' (owned (some p) size)
          (marks ++ [.enter operation]) keys ∧ Q code base') :
    Triple World.Sound (World.At base [] marks keys) (withKey operation encode key size use)
      fun code s ↦ ∃ base', s.At base' [] (marks ++ spans [operation]) keys ∧ Q code base' := by
  refine .bind (triple_mark _) fun _ ↦ .bind (triple_malloc _) fun p ↦ ?_
  rw [List.append_nil]
  refine .bind (Q := fun code (s : World K κ) ↦ ∃ base', s.At base' (owned p size)
    (marks ++ [.enter operation]) keys ∧ Q code base') ?_ fun code ↦ .exists_pre fun base' ↦ ?_
  · cases p with
    | none => exact .pure fun s hs ↦ ⟨base, hs, hfail _ (by decide)⟩
    | some p =>
        refine .bind (triple_encodeKey List.mem_cons_self hencode) fun code ↦
          .of_pure (fun s hs ↦ hs.1) fun hcode ↦ ?_
        by_cases hok : code = .ok
        · rw [if_pos hok]
          rw [hok] at hcode
          refine (huse p (encode (keys key) size).data ?_).pre fun s hs ↦ ⟨hs.2.1, hs.2.2 hok⟩
          rw [hcode]
        · rw [if_neg hok]
          exact .pure fun s hs ↦ ⟨base, hs.2.1, hfail code hok⟩
  · refine .of_pure (fun s hs ↦ hs.2) fun hQ ↦ ?_
    have hdiscard : Triple World.Sound
        (World.At base' ([] ++ owned p size) (marks ++ [.enter operation]) keys)
        (discard (K := K) p size) fun _ ↦ World.At base' [] (marks ++ [.enter operation]) keys :=
      triple_discard p
    refine .bind (hdiscard.pre fun s hs ↦ hs.1) fun _ ↦ ?_
    refine .bind (triple_mark _) fun _ ↦ .pure fun s hs ↦ ⟨base', ?_, hQ⟩
    rwa [List.append_assoc] at hs

/-! ## Encapsulation and decapsulation -/

/-- The public key has been exported and encapsulated to. -/
def Encapsulated (w : Wolf K) (P : Pqm4) (level : Level) (key : K) (ct ss : ℕ)
    (base base' : ℕ → Option (Cells UInt8)) : Prop :=
  ∃ n data, w.encodePublicKey key level.publicLen = ⟨.ok, data⟩ ∧
    (P.encapsulate level n data).code = .ok ∧
    base' = put ss 0 (P.encapsulate level n data).sharedSecret
      (put ct 0 (P.encapsulate level n data).ciphertext base)

/-- The private key has been exported, and the ciphertext decapsulated with it. -/
def Decapsulated (w : Wolf K) (P : Pqm4) (level : Level) (key : K) (ct ss : ℕ)
    (base base' : ℕ → Option (Cells UInt8)) : Prop :=
  ∃ ciphertext data, look ct 0 level.ciphertextLen base = some ciphertext ∧
    w.encodePrivateKey key level.privateLen = ⟨.ok, data⟩ ∧
    (P.decapsulate level ciphertext data).code = .ok ∧
    base' = put ss 0 (P.decapsulate level ciphertext data).sharedSecret base

theorem triple_levelEncapsulate (hP : P.Sized) (hbase : Filled base) {level : Level} {key : K}
    {ct ss p : ℕ} {data : Bytes} (hct : Room (sizeAt base) ct level.ciphertextLen)
    (hss : Room (sizeAt base) ss sharedSecretLen)
    (hdata : w.encodePublicKey key level.publicLen = ⟨.ok, data⟩) :
    Triple World.Sound
      (fun s ↦ s.At base own marks keys ∧ s.memory.load p 0 level.publicLen = some data)
      (levelEncapsulate P level ct ss p) fun code s ↦ ∃ base', s.At base' own marks keys ∧
        Like {q | q = ct ∨ q = ss} base base' ∧
          (code = .ok → Encapsulated w P level key ct ss base base') := by
  refine .bind (triple_load fun s hs ↦ hs.2) fun d ↦ .of_pure (fun s hs ↦ hs.1) ?_
  rintro rfl
  refine .bind (triple_draw.pre fun s hs ↦ hs.2.1) fun n ↦ ?_
  have hroom : Room (sizeAt base) ct (P.encapsulate level n d).ciphertext.length := by
    obtain ⟨size, hsize, hle⟩ := hct
    exact ⟨size, hsize, (hP.ciphertext level n d).1.trans hle⟩
  have hrefl : Like {q | q = ct ∨ q = ss} base base := .refl hbase
  have hlike : Like {q | q = ct ∨ q = ss} base
      (put ct 0 (P.encapsulate level n d).ciphertext base) := hrefl.put (.inl rfl) hroom
  have hroom' : Room (sizeAt (put ct 0 (P.encapsulate level n d).ciphertext base)) ss
      (P.encapsulate level n d).sharedSecret.length := by
    obtain ⟨size, hsize, hle⟩ := hss
    exact ⟨size, hlike.sizes ▸ hsize, (hP.encapsulated level n d).1.trans hle⟩
  refine .bind (triple_storeBase hroom) fun _ ↦ .bind (triple_storeBase hroom') fun _ ↦ .pure ?_
  exact fun s hs ↦ ⟨_, hs, hlike.put (.inr rfl) hroom', fun hok ↦ ⟨n, d, hdata, hok, rfl⟩⟩

theorem triple_levelDecapsulate (hP : P.Sized) (hbase : Filled base) {level : Level} {key : K}
    {ct ss p : ℕ} {data : Bytes} (hct : Room (sizeAt base) ct level.ciphertextLen)
    (hss : Room (sizeAt base) ss sharedSecretLen)
    (hdata : w.encodePrivateKey key level.privateLen = ⟨.ok, data⟩) :
    Triple World.Sound
      (fun s ↦ s.At base own marks keys ∧ s.memory.load p 0 level.privateLen = some data)
      (levelDecapsulate P level ss ct p) fun code s ↦ ∃ base', s.At base' own marks keys ∧
        Like {q | q = ss} base base' ∧
          (code = .ok → Decapsulated w P level key ct ss base base') := by
  obtain ⟨ciphertext, hlook⟩ := hbase.exists_look hct
  have hload (s : World K κ) (hs : s.At base own marks keys) :
      s.memory.load ct 0 level.ciphertextLen = some ciphertext := by
    obtain ⟨size, hsize, -⟩ := hct
    obtain ⟨old, hold, -⟩ := exists_of_sizeAt hsize
    exact (look_congr (hs.holds.kept_of_base hold) _ _).trans hlook
  refine .bind (triple_load fun s hs ↦ hload s hs.1) fun c ↦ .of_pure (fun s hs ↦ hs.1) ?_
  rintro rfl
  refine .bind (Q := fun d s ↦ d = data ∧ s.At base own marks keys)
    ((triple_load fun s hs ↦ hs.2.2).post fun d s hs ↦ ⟨hs.1, hs.2.2.1⟩) fun d ↦
      .of_pure (fun s hs ↦ hs.1) ?_
  rintro rfl
  have hroom : Room (sizeAt base) ss (P.decapsulate level c d).sharedSecret.length := by
    obtain ⟨size, hsize, hle⟩ := hss
    exact ⟨size, hsize, (hP.decapsulated level c d).1.trans hle⟩
  refine .bind ((triple_storeBase hroom).pre fun s hs ↦ hs.2) fun _ ↦ .pure fun s hs ↦ ?_
  have hlike : Like {q | q = ss} base base := .refl hbase
  exact ⟨_, hs, hlike.put rfl hroom, fun hok ↦ ⟨c, d, hlook, hdata, hok, rfl⟩⟩

/-! ## Requests -/

/-- A key that pqm4 has made and wolfSSL has taken over. -/
def Made (w : Wolf K) (P : Pqm4) (level : Level) (key key' : K) : Prop :=
  ∃ n, (P.keypair level n).code = .ok ∧
    w.decodePrivateKey key (P.keypair level n).privateKey = ⟨.ok, key'⟩

namespace Request

/-- The buffers that a request is told to write to. -/
def outputs : Request κ → Set ℕ
  | keygen _ _ => ∅
  | encaps _ _ ct _ ss _ => {p | ct = some p ∨ ss = some p}
  | decaps _ _ _ _ ss _ => {p | ss = some p}
  | other => ∅

/-- The key object that a request may change. -/
def generated : Request κ → Set κ
  | keygen _ key => {i | key = some i}
  | encaps .. => ∅
  | decaps .. => ∅
  | other => ∅

/-- The operations of a request. -/
def operations : Request κ → List CryptoOperation
  | keygen .. => [.kemKeygen]
  | encaps .. => [.kemEncapsulate]
  | decaps .. => [.kemDecapsulate]
  | other => []

/-- The buffers of a request have the sizes that it says. -/
def Fits (sizes : ℕ → Option ℕ) : Request κ → Prop
  | keygen .. => True
  | encaps _ _ ct ctLen ss ssLen | decaps _ _ ct ctLen ss ssLen =>
      (∀ p, ct = some p → Room sizes p ctLen) ∧ ∀ p, ss = some p → Room sizes p ssLen
  | other => True

/-- What a request has done if it returns 0. -/
def Succeeds (w : Wolf K) (P : Pqm4) (base base' : ℕ → Option (Cells UInt8)) (keys keys' : κ → K) :
    Request κ → Prop
  | keygen _ key => ∃ i level, key = some i ∧ w.levelFromKey (keys i) = some level ∧
      Made w P level (keys i) (keys' i)
  | encaps _ key ct ctLen ss _ => ∃ i level c d, key = some i ∧ ct = some c ∧ ss = some d ∧
      w.levelFromKey (keys i) = some level ∧ ctLen = level.ciphertextLen ∧
        Encapsulated w P level (keys i) c d base base'
  | decaps _ key ct ctLen ss _ => ∃ i level c d, key = some i ∧ ct = some c ∧ ss = some d ∧
      w.levelFromKey (keys i) = some level ∧ ctLen = level.ciphertextLen ∧
        Decapsulated w P level (keys i) c d base base'
  | other => False

/-- What a request has done. -/
structure Does (r : Request κ) (w : Wolf K) (P : Pqm4) (base base' : ℕ → Option (Cells UInt8))
    (keys keys' : κ → K) (measured : List CryptoOperation) (code : Code) : Prop where
  like : Like r.outputs base base'
  kept : ∀ i ∉ r.generated, keys' i = keys i
  measured : measured.Sublist r.operations
  succeeds : code = .ok → r.Succeeds w P base base' keys keys'

/-- A request that is refused has done nothing. -/
theorem does_of_ne {r : Request κ} (hbase : Filled base) {code : Code} (h : code ≠ .ok) :
    r.Does w P base base keys keys [] code :=
  ⟨.refl hbase, fun _ _ ↦ rfl, List.nil_sublist _, fun hok ↦ absurd hok h⟩

end Request

/-- Where the backend is after a request. -/
def World.Served (w : Wolf K) (P : Pqm4) (r : Request κ) (base : ℕ → Option (Cells UInt8))
    (marks : List (Mark CryptoOperation)) (keys : κ → K) (code : Code) (s : World K κ) : Prop :=
  ∃ base' keys' measured, s.At base' [] (marks ++ spans measured) keys' ∧
    r.Does w P base base' keys keys' measured code

theorem served_of_at {r : Request κ} (hbase : Filled base) {code : Code} (h : code ≠ .ok)
    {s : World K κ} (hs : s.At base [] marks keys) : s.Served w P r base marks keys code :=
  ⟨base, keys, [], (List.append_nil marks).symm ▸ hs, Request.does_of_ne hbase h⟩

/-- Buffers with their sizes, which are those of the level. -/
theorem triple_buffers {r : Request κ} (hbase : Filled base) {level : Level} {ct ss : Option ℕ}
    {ctLen ssLen : ℕ} {k : ℕ → ℕ → Prog (World K κ) Code}
    (hk : ∀ c d, ct = some c → ss = some d → ctLen = level.ciphertextLen →
      ssLen = sharedSecretLen →
      Triple World.Sound (World.At base [] marks keys) (k c d)
        (World.Served w P r base marks keys)) :
    Triple World.Sound (World.At base [] marks keys) (withBuffers level ct ctLen ss ssLen k)
      (World.Served w P r base marks keys) := by
  have hbuffer : Triple World.Sound (World.At base [] marks keys)
      (pure Code.buffer : Prog (World K κ) Code) (World.Served w P r base marks keys) :=
    .pure fun s hs ↦ served_of_at hbase (by decide) hs
  cases ct with
  | none => exact hbuffer
  | some c =>
      cases ss with
      | none => exact hbuffer
      | some d =>
          rw [withBuffers]
          split
          case isTrue => exact hbuffer
          case isFalse h =>
              obtain ⟨hct, hss⟩ := not_or.mp h
              exact hk c d rfl rfl (not_not.mp hct) (not_not.mp hss)

/-! ## Key generation -/

variable [DecidableEq κ]

theorem triple_generate (hP : P.Sized) {key : κ} {level : Level} (pk sk : Option ℕ) :
    Triple World.Sound
      (World.At base (owned sk level.privateLen ++ owned pk level.publicLen) marks keys)
      (generate w P key level pk sk) fun code s ↦ ∃ keys',
        s.At base (owned sk level.privateLen ++ owned pk level.publicLen) marks keys' ∧
          (∀ i ≠ key, keys' i = keys i) ∧ (code = .ok → Made w P level (keys key) (keys' key)) := by
  have hmemory : ∀ {own : List (ℕ × ℕ)}, Triple World.Sound (World.At base own marks keys)
      (pure Code.memory : Prog (World K κ) Code) fun code s ↦ ∃ keys', s.At base own marks keys' ∧
        (∀ i ≠ key, keys' i = keys i) ∧ (code = .ok → Made w P level (keys key) (keys' key)) :=
    .pure fun _ hs ↦ ⟨keys, hs, fun _ _ ↦ rfl, fun h ↦ absurd h (by decide)⟩
  cases pk with
  | none => exact hmemory
  | some pk =>
      cases sk with
      | none => exact hmemory
      | some sk =>
          let own := owned (some sk) level.privateLen ++ owned (some pk) level.publicLen
          have hsk : (sk, level.privateLen) ∈ own := List.mem_cons_self
          have hpk : (pk, level.publicLen) ∈ own := List.mem_cons_of_mem _ List.mem_cons_self
          -- what is in the block of the private key when `keypair` has succeeded
          let written (code : Code) (s : World K κ) : Prop := ∃ n, code = (P.keypair level n).code ∧
            s.At base own marks keys ∧ (code = .ok →
              s.memory.cells sk = some (Cells.ofList (P.keypair level n).privateKey))
          refine .bind (Q := written) ?_ fun code ↦ ?_
          · refine .bind triple_draw fun n ↦ ?_
            refine .bind ((triple_store hpk (hP.publicKey level n).1).post fun _ _ hs ↦ hs.1)
              fun _ ↦ ?_
            refine .bind (triple_store hsk (hP.privateKey level n).1) fun _ ↦ .pure ?_
            exact fun s hs ↦ ⟨n, rfl, hs.1, fun hok ↦ hs.2 ((hP.privateKey level n).2 hok)⟩
          · refine .exists_pre fun n ↦ ?_
            by_cases hok : code = .ok
            · rw [if_pos hok]
              refine .of_pure (fun s hs ↦ hs.1) fun hcode ↦ ?_
              rw [hok] at hcode
              have hlen := (hP.privateKey level n).2 hcode.symm
              refine .bind (Q := fun d s ↦ d = (P.keypair level n).privateKey ∧
                s.At base own marks keys) ((triple_load fun s hs ↦ ?_).post
                  fun d s hs ↦ ⟨hs.1, hs.2.2.1⟩) fun d ↦ .of_pure (fun s hs ↦ hs.1) ?_
              · exact hlen ▸ look_of_full (hs.2.2 hok)
              · rintro rfl
                refine .read fun s hs ↦ ?_
                let decoded := w.decodePrivateKey (s.keys key) (P.keypair level n).privateKey
                refine .bind (Q := fun _ ↦ World.At base own marks
                  (Function.update keys key decoded.key)) (.modify ?_) fun _ ↦ .pure fun t ht ↦ ?_
                · rintro _ rfl
                  exact ⟨hs.2.holds, hs.2.marks,
                    congrArg (Function.update · key decoded.key) hs.2.keys⟩
                · refine ⟨_, ht, fun i hi ↦ Function.update_of_ne hi _ _, fun hdone ↦ ?_⟩
                  refine ⟨n, hcode.symm, ?_⟩
                  rw [Function.update_self, ← hs.2.keys, ← hdone]
            · rw [if_neg hok]
              exact .pure fun s hs ↦
                ⟨keys, hs.2.1, fun _ _ ↦ rfl, fun hcode ↦ absurd hcode hok⟩

theorem triple_makeKey (hP : P.Sized) {key : κ} {level : Level} :
    Triple World.Sound (World.At base [] marks keys)
      (do
        metricStart .kemKeygen
        let pk ← malloc level.publicLen
        let sk ← malloc level.privateLen
        let code ← generate w P key level pk sk
        discard pk level.publicLen
        discard sk level.privateLen
        metricStop .kemKeygen
        pure code)
      fun code s ↦ ∃ keys', s.At base [] (marks ++ spans [.kemKeygen]) keys' ∧
        (∀ i ≠ key, keys' i = keys i) ∧ (code = .ok → Made w P level (keys key) (keys' key)) := by
  refine .bind (triple_mark _) fun _ ↦ ?_
  refine .bind (triple_malloc _) fun pk ↦ .bind (triple_malloc _) fun sk ↦ ?_
  rw [List.append_nil]
  refine .bind (triple_generate hP pk sk) fun code ↦ .exists_pre fun keys' ↦ ?_
  refine .of_pure (fun s hs ↦ hs.2) fun hkeys ↦ ?_
  have hsk : Triple World.Sound
      (World.At base ([] ++ owned sk level.privateLen) (marks ++ [.enter .kemKeygen]) keys')
      (discard (K := K) sk level.privateLen)
      fun _ ↦ World.At base [] (marks ++ [.enter .kemKeygen]) keys' := triple_discard sk
  refine .bind ((triple_discard pk).pre fun s hs ↦ hs.1) fun _ ↦ .bind hsk fun _ ↦ ?_
  refine .bind (triple_mark _) fun _ ↦ .pure fun s hs ↦ ⟨keys', ?_, hkeys⟩
  rwa [List.append_assoc] at hs

theorem triple_cryptoCb (hP : P.Sized) (hw : w.Sized) (hbase : Filled base) (r : Request κ)
    (hfit : r.Fits (sizeAt base)) :
    Triple World.Sound (World.At base [] marks keys) (cryptoCb w P r)
      (World.Served w P r base marks keys) := by
  have hunavailable : ∀ {r : Request κ}, Triple World.Sound (World.At base [] marks keys)
      (pure Code.unavailable : Prog (World K κ) Code) (World.Served w P r base marks keys) :=
    .pure fun s hs ↦ served_of_at hbase (by decide) hs
  cases r with
  | keygen mlkem key =>
      cases mlkem with
      | false => exact hunavailable
      | true =>
          refine triple_withLevel (fun s hs ↦ served_of_at hbase (by decide) hs) ?_
          rintro i level rfl hlevel
          refine (triple_makeKey hP).post ?_
          rintro code s ⟨keys', hs, hkeys, hmade⟩
          have hothers : ∀ j ∉ (Request.keygen true (some i)).generated, keys' j = keys j :=
            fun j hj ↦ hkeys j fun h ↦ hj (h ▸ rfl)
          exact ⟨base, keys', [.kemKeygen], hs, .refl hbase, hothers, List.Sublist.refl _,
            fun hok ↦ ⟨i, level, rfl, hlevel, hmade hok⟩⟩
  | encaps mlkem key ct ctLen ss ssLen =>
      cases mlkem with
      | false => exact hunavailable
      | true =>
          refine triple_withLevel (fun s hs ↦ served_of_at hbase (by decide) hs) ?_
          rintro i level rfl hlevel
          refine triple_buffers hbase ?_
          rintro c d rfl rfl rfl rfl
          refine (triple_withKey (Q := fun code base' ↦ Like {q | q = c ∨ q = d} base base' ∧
            (code = .ok → Encapsulated w P level (keys i) c d base base')) hw.publicKey
            (fun code hne ↦ ⟨.refl hbase, fun hok ↦ absurd hok hne⟩) fun p data hdata ↦
              triple_levelEncapsulate hP hbase (hfit.1 c rfl) (hfit.2 d rfl) hdata).post ?_
          rintro code s ⟨base', hs, hlike, hdone⟩
          refine ⟨base', keys, [.kemEncapsulate], hs, hlike.mono ?_, fun _ _ ↦ rfl,
            List.Sublist.refl _, fun hok ↦ ⟨i, level, c, d, rfl, rfl, rfl, hlevel, rfl, hdone hok⟩⟩
          exact fun q hq ↦ hq.imp (congrArg some ·.symm) (congrArg some ·.symm)
  | decaps mlkem key ct ctLen ss ssLen =>
      cases mlkem with
      | false => exact hunavailable
      | true =>
          refine triple_withLevel (fun s hs ↦ served_of_at hbase (by decide) hs) ?_
          rintro i level rfl hlevel
          refine triple_buffers hbase ?_
          rintro c d rfl rfl rfl rfl
          refine (triple_withKey (Q := fun code base' ↦ Like {q | q = d} base base' ∧
            (code = .ok → Decapsulated w P level (keys i) c d base base')) hw.privateKey
            (fun code hne ↦ ⟨.refl hbase, fun hok ↦ absurd hok hne⟩) fun p data hdata ↦
              triple_levelDecapsulate hP hbase (hfit.1 c rfl) (hfit.2 d rfl) hdata).post ?_
          rintro code s ⟨base', hs, hlike, hdone⟩
          refine ⟨base', keys, [.kemDecapsulate], hs, hlike.mono ?_, fun _ _ ↦ rfl,
            List.Sublist.refl _, fun hok ↦ ⟨i, level, c, d, rfl, rfl, rfl, hlevel, rfl, hdone hok⟩⟩
          exact fun q hq ↦ congrArg some hq.symm
  | other => exact hunavailable

end

/-! ## Any requests -/

/-- What some requests have left behind. -/
structure World.Tidied (requests : List (Request κ)) (s₀ s : World K κ) : Prop where
  sound : s.Sound
  like : Like {p | ∃ r ∈ requests, p ∈ r.outputs} s₀.memory.cells s.memory.cells
  keys : ∀ i, (∀ r ∈ requests, i ∉ r.generated) → s.keys i = s₀.keys i
  measured : ∃ measured, s.marks = s₀.marks ++ spans measured ∧
    measured.Sublist (requests.flatMap Request.operations)

section

variable {w : Wolf K} {P : Pqm4}

theorem tidied_nil {s : World K κ} (hsound : s.Sound) (hfilled : Filled s.memory.cells) :
    s.Tidied [] s :=
  ⟨hsound, .refl hfilled, fun _ _ ↦ rfl, [], (List.append_nil _).symm, List.nil_sublist _⟩

theorem spans_append (operations operations' : List CryptoOperation) :
    spans (operations ++ operations') = spans operations ++ spans operations' := List.flatMap_append

/-- One more request. -/
theorem World.Tidied.served {requests : List (Request κ)} {s₀ s t : World K κ} {r : Request κ}
    (h : World.Tidied requests s₀ s) {code : Code}
    (ht : t.Served w P r s.memory.cells s.marks s.keys code) :
    World.Tidied (requests ++ [r]) s₀ t := by
  obtain ⟨base', keys', measured', hat, hdoes⟩ := ht
  obtain ⟨measured, hmarks, hsub⟩ := h.measured
  have hr : r ∈ requests ++ [r] := List.mem_append_right _ (List.mem_singleton_self r)
  refine ⟨hat.sound, ?_, fun i hi ↦ ?_, measured ++ measured', ?_, ?_⟩
  · rw [hat.holds.cells_eq]
    refine (h.like.mono ?_).trans (hdoes.like.mono fun p hp ↦ ⟨r, hr, hp⟩)
    rintro p ⟨r', hr', hp⟩
    exact ⟨r', List.mem_append_left _ hr', hp⟩
  · rw [hat.keys, hdoes.kept i (hi r hr)]
    exact h.keys i fun r' hr' ↦ hi r' (List.mem_append_left _ hr')
  · rw [hat.marks, hmarks, spans_append, List.append_assoc]
  · rw [List.flatMap_append, List.flatMap_singleton]
    exact hsub.append hdoes.measured

variable [DecidableEq κ]

theorem stopped_requests (hP : P.Sized) (hw : w.Sized) {s₀ : World K κ} (hsound : s₀.Sound)
    (hfilled : Filled s₀.memory.cells) {requests : List (Request κ)}
    (hfit : ∀ r ∈ requests, r.Fits (sizeAt s₀.memory.cells)) (fates : List Fate) :
    Stopped World.Sound (fun _ s ↦ World.Tidied requests s₀ s)
      (Prog.each requests (perform w P) fates s₀) := by
  let J (rest : List (Request κ)) (s : World K κ) : Prop :=
    ∃ past, past ++ rest = requests ∧ World.Tidied past s₀ s
  have hstep : ∀ r rest, Triple World.Sound (J (r :: rest)) (perform w P r) fun _ ↦ J rest := by
    rintro r rest
    refine .bind (Q := fun _ ↦ J rest) ?_ fun _ ↦ .pure fun _ hs ↦ hs
    rintro fates s ⟨past, rfl, hs⟩
    have hr := hfit r (List.mem_append_right _ List.mem_cons_self)
    rw [← hs.like.sizes] at hr
    refine ((triple_cryptoCb hP hw hs.like.filled r hr).post fun code t ht ↦ ?_) fates s
      ⟨hs.sound.holds, rfl, rfl⟩
    exact ⟨past ++ [r], List.append_assoc .., hs.served ht⟩
  refine ((Triple.each hstep requests).post fun _ s hs ↦ ?_) fates s₀
    ⟨[], rfl, tidied_nil hsound hfilled⟩
  obtain ⟨past, hpast, hs⟩ := hs
  rw [List.append_nil] at hpast
  exact hpast ▸ hs

/-- Wherever the power is cut nothing has gone wrong, and nothing is left in what has been given
back.  When the requests have been served, all that was allocated has been given back, nothing has
changed but the buffers and keys that the requests are about, and what has been measured are
operations of the requests in their order. -/
theorem tidy_of_requests (hP : P.Sized) (hw : w.Sized) {s₀ : World K κ} (hsound : s₀.Sound)
    (hfilled : Filled s₀.memory.cells) {requests : List (Request κ)}
    (hfit : ∀ r ∈ requests, r.Fits (sizeAt s₀.memory.cells)) (fates : List Fate) :
    ((Prog.each requests (perform w P)).final fates s₀).Sound ∧
      ((Prog.each requests (perform w P) fates s₀).1 = .done () →
        World.Tidied requests s₀ ((Prog.each requests (perform w P)).final fates s₀)) := by
  have h := stopped_requests hP hw hsound hfilled hfit fates
  rw [Prog.final]
  rcases hrun : Prog.each requests (perform w P) fates s₀ with ⟨_ | _ | _, fates', s⟩ <;>
    rw [hrun] at h
  · exact ⟨h.sound, fun _ ↦ h⟩
  · refine ⟨h, fun hdone ↦ ?_⟩
    cases hdone
  · refine ⟨h, fun hdone ↦ ?_⟩
    cases hdone

end

/-! ## A small KEM -/

/-- A KEM whose keys and secrets are one byte, repeated. -/
def Pqm4.toy : Pqm4 where
  keypair level n :=
    ⟨.ok, List.replicate level.publicLen (UInt8.ofNat n),
      List.replicate level.privateLen (UInt8.ofNat n)⟩
  encapsulate level n pk :=
    ⟨.ok, List.replicate level.ciphertextLen (UInt8.ofNat n),
      List.replicate sharedSecretLen (UInt8.ofNat n + pk.headD 0)⟩
  decapsulate _ ct sk := ⟨.ok, List.replicate sharedSecretLen (ct.headD 0 + sk.headD 0)⟩

/-- Key objects for it, all of them for ML-KEM-512. -/
def Wolf.toy : Wolf (Option UInt8) where
  kyber := 16
  wolfType
    | .mlkem512 => 0
    | .mlkem768 => 1
    | .mlkem1024 => 2
  type _ := 0
  decodePrivateKey _ sk := ⟨.ok, some (sk.headD 0)⟩
  encodePublicKey key n := key.elim ⟨.other 1, []⟩ fun b ↦ ⟨.ok, List.replicate n b⟩
  encodePrivateKey key n := key.elim ⟨.other 1, []⟩ fun b ↦ ⟨.ok, List.replicate n b⟩

/-- Two key objects without keys, and three buffers. -/
def World.toy : World (Option UInt8) Bool where
  memory :=
    { cells := fun p ↦ [768, 32, 32][p]?.map fun size ↦ List.replicate size (some 0)
      next := 3 }
  keys _ := none

theorem sized_toy : Pqm4.toy.Sized where
  publicKey _ _ := ⟨List.length_replicate.le, fun _ ↦ List.length_replicate⟩
  privateKey _ _ := ⟨List.length_replicate.le, fun _ ↦ List.length_replicate⟩
  ciphertext _ _ _ := ⟨List.length_replicate.le, fun _ ↦ List.length_replicate⟩
  encapsulated _ _ _ := ⟨List.length_replicate.le, fun _ ↦ List.length_replicate⟩
  decapsulated _ _ _ := ⟨List.length_replicate.le, fun _ ↦ List.length_replicate⟩

theorem wolfSized_toy : Wolf.toy.Sized := by
  have h (key : Option UInt8) (n : ℕ) :
      Writes (Wolf.toy.encodePublicKey key n).code (Wolf.toy.encodePublicKey key n).data n := by
    cases key with
    | none =>
        refine ⟨Nat.zero_le n, fun h ↦ ?_⟩
        cases h
    | some b => exact ⟨List.length_replicate.le, fun _ ↦ List.length_replicate⟩
  exact ⟨h, h⟩

theorem sound_toy : World.toy.Sound where
  fault := rfl
  cleaned _ h := absurd h List.not_mem_nil
  fresh p hp := by
    change ([768, 32, 32][p]?).map _ = none
    rw [List.getElem?_eq_none hp, Option.map_none]

theorem filled_toy : Filled World.toy.memory.cells := by
  intro p c hc hmem
  obtain ⟨size, -, rfl⟩ := Option.map_eq_some_iff.mp hc
  cases List.eq_of_mem_replicate hmem

/-- A key is made, an allocation is refused, something is encapsulated. -/
def toyRequests : List (Request Bool) :=
  [.keygen true (some true), .encaps true (some true) (some 0) 768 (some 1) 32,
    .encaps true (some true) (some 0) 768 (some 1) 32]

theorem sizeAt_toy (p : ℕ) : sizeAt World.toy.memory.cells p = [768, 32, 32][p]? := by
  change (([768, 32, 32][p]?).map _).map List.length = _
  rw [Option.map_map]
  cases [768, 32, 32][p]? with
  | none => rfl
  | some size => exact congrArg some List.length_replicate

theorem fits_toy : ∀ r ∈ toyRequests, r.Fits (sizeAt World.toy.memory.cells) := by
  have hencaps : (Request.encaps true (some true) (some 0) 768 (some 1) 32).Fits
      (sizeAt World.toy.memory.cells) := by
    constructor
    · rintro _ ⟨⟩
      exact ⟨768, sizeAt_toy 0, le_rfl⟩
    · rintro _ ⟨⟩
      exact ⟨32, sizeAt_toy 1, le_rfl⟩
  intro r hr
  rcases List.mem_cons.mp hr with rfl | hr
  · trivial
  · rcases List.mem_cons.mp hr with rfl | hr
    · exact hencaps
    · rw [List.mem_singleton.mp hr]
      exact hencaps

/-- The fates of the allocations. -/
def toyFates : List Fate := [.passes, .passes, .fails none, .passes]

theorem tidy_of_requests_toy : World.Tidied toyRequests World.toy
    ((Prog.each toyRequests (perform Wolf.toy Pqm4.toy)).final toyFates World.toy) :=
  (@tidy_of_requests _ _ _ _ _ sized_toy wolfSized_toy World.toy sound_toy filled_toy toyRequests
    fits_toy toyFates).2 (by decide +kernel)

end PeripheralBench.Kem

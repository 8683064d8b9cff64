import PeripheralBench.Kem.BackendRuns

/-!
# Shared secrets agree

A key is made, something is encapsulated to it, and later decapsulated with it, all through the
callback of the backend.  In between wolfSSL may ask for anything else that leaves this key and
these buffers alone.  If the three requests succeed the two shared secrets are the same
(`secrets_agree`), as long as pqm4 is a KEM and wolfSSL gives back the keys that it takes over.
-/

open PeripheralBench.Durable PeripheralBench.Memory

namespace PeripheralBench.Kem

variable {K κ : Type}

/-- What has been encapsulated to a key is decapsulated with it. -/
def Pqm4.Correct (P : Pqm4) : Prop :=
  ∀ level n m, (P.keypair level n).code = .ok →
    (P.encapsulate level m (P.keypair level n).publicKey).code = .ok →
    P.decapsulate level (P.encapsulate level m (P.keypair level n).publicKey).ciphertext
      (P.keypair level n).privateKey =
        ⟨.ok, (P.encapsulate level m (P.keypair level n).publicKey).sharedSecret⟩

/-- wolfSSL gives back the keys that it takes over. -/
structure Wolf.Lawful (w : Wolf K) (P : Pqm4) : Prop where
  type : ∀ {level key key'}, Made w P level key key' → w.type key' = w.type key
  publicKey : ∀ {level n key key' data}, (P.keypair level n).code = .ok →
    w.decodePrivateKey key (P.keypair level n).privateKey = ⟨.ok, key'⟩ →
    w.encodePublicKey key' level.publicLen = ⟨.ok, data⟩ → data = (P.keypair level n).publicKey
  privateKey : ∀ {level n key key' data}, (P.keypair level n).code = .ok →
    w.decodePrivateKey key (P.keypair level n).privateKey = ⟨.ok, key'⟩ →
    w.encodePrivateKey key' level.privateLen = ⟨.ok, data⟩ → data = (P.keypair level n).privateKey

section

variable [DecidableEq κ] (w : Wolf K) (P : Pqm4)

/-- A key is made, and used twice, with other requests in between. -/
def exchange (key : κ) (ct ctLen ss ss' : ℕ) (before after : List (Request κ)) :
    Prog (World K κ) (Code × Code × Code) := do
  let made ← cryptoCb w P (.keygen true (some key))
  Prog.each before (perform w P)
  let sent ← cryptoCb w P (.encaps true (some key) (some ct) ctLen (some ss) sharedSecretLen)
  Prog.each after (perform w P)
  let received ← cryptoCb w P (.decaps true (some key) (some ct) ctLen (some ss') sharedSecretLen)
  pure (made, sent, received)

end

/-- wolfSSL holds the `n`th key of pqm4. -/
structure Honest (w : Wolf K) (P : Pqm4) (level : Level) (n : ℕ) (key : K) : Prop where
  made : (P.keypair level n).code = .ok
  ofKey : w.levelFromKey key = some level
  decoded : ∃ old, w.decodePrivateKey old (P.keypair level n).privateKey = ⟨.ok, key⟩

/-- Something has been encapsulated to the key, and is still in the buffers. -/
structure World.Sent (w : Wolf K) (P : Pqm4) (key : κ) (ct ss : ℕ) (level : Level) (n m : ℕ)
    (s : World K κ) : Prop where
  honest : Honest w P level n (s.keys key)
  code : (P.encapsulate level m (P.keypair level n).publicKey).code = .ok
  ciphertext : look ct 0 level.ciphertextLen s.memory.cells =
    some (P.encapsulate level m (P.keypair level n).publicKey).ciphertext
  sharedSecret : look ss 0 sharedSecretLen s.memory.cells =
    some (P.encapsulate level m (P.keypair level n).publicKey).sharedSecret

/-- There is one shared secret in both buffers. -/
def World.Agrees (ss ss' : ℕ) (s : World K κ) : Prop :=
  ∃ secret : Bytes, secret.length = sharedSecretLen ∧
    look ss 0 sharedSecretLen s.memory.cells = some secret ∧
    look ss' 0 sharedSecretLen s.memory.cells = some secret

/-- The memory is sound, and its blocks have these sizes. -/
structure World.Good (sizes : ℕ → Option ℕ) (s : World K κ) : Prop where
  sound : s.Sound
  filled : Filled s.memory.cells
  sizes : sizeAt s.memory.cells = sizes

section

variable {w : Wolf K} {P : Pqm4} {sizes : ℕ → Option ℕ} {s t : World K κ} {r : Request κ}
  {code : Code}

theorem levelFromKey_congr {key key' : K} (h : w.type key = w.type key') :
    w.levelFromKey key = w.levelFromKey key' := by
  rw [Wolf.levelFromKey, Wolf.levelFromKey, h]

theorem honest_of_made (hw : w.Lawful P) {level : Level} {key key' : K}
    (hlevel : w.levelFromKey key = some level) (h : Made w P level key key') :
    ∃ n, Honest w P level n key' := by
  have htype := hw.type h
  obtain ⟨n, hcode, hdecoded⟩ := h
  exact ⟨n, hcode, (levelFromKey_congr htype).trans hlevel, key, hdecoded⟩

/-- What a request leaves behind is as good. -/
theorem World.Good.served (hs : s.Good sizes)
    (ht : t.Served w P r s.memory.cells s.marks s.keys code) :
    t.Good sizes ∧ Like r.outputs s.memory.cells t.memory.cells ∧
      (∀ i ∉ r.generated, t.keys i = s.keys i) ∧
      (code = .ok → r.Succeeds w P s.memory.cells t.memory.cells s.keys t.keys) := by
  obtain ⟨base', keys', measured, hat, hdoes⟩ := ht
  rw [hat.holds.cells_eq, hat.keys]
  refine ⟨⟨hat.sound, ?_, ?_⟩, hdoes.like, hdoes.kept, hdoes.succeeds⟩
  · rw [hat.holds.cells_eq]
    exact hdoes.like.filled
  · rw [hat.holds.cells_eq, hdoes.like.sizes, hs.sizes]

variable [DecidableEq κ]

/-- One request, from a state that is good. -/
theorem triple_request (hP : P.Sized) (hw : w.Sized) {Q : World K κ → Prop}
    {Q' : Code → World K κ → Prop} (hfit : r.Fits sizes)
    (h : ∀ s t code, s.Good sizes → Q s → t.Good sizes →
      Like r.outputs s.memory.cells t.memory.cells → (∀ i ∉ r.generated, t.keys i = s.keys i) →
      (code = .ok → r.Succeeds w P s.memory.cells t.memory.cells s.keys t.keys) → Q' code t) :
    Triple World.Sound (fun s ↦ s.Good sizes ∧ Q s) (cryptoCb w P r)
      fun code s ↦ s.Good sizes ∧ Q' code s := by
  rintro fates s ⟨hs, hQ⟩
  refine ((triple_cryptoCb hP hw hs.filled r (hs.sizes ▸ hfit)).post fun code t ht ↦ ?_) fates s
    ⟨hs.sound.holds, rfl, rfl⟩
  obtain ⟨hgood, hlike, hkeys, hsucceeds⟩ := hs.served ht
  exact ⟨hgood, h s t code hs hQ hgood hlike hkeys hsucceeds⟩

/-- Some requests, from a state that is good. -/
theorem triple_requests (hP : P.Sized) (hw : w.Sized) {Q : World K κ → Prop}
    {requests : List (Request κ)} (hfit : ∀ r ∈ requests, r.Fits sizes)
    (h : ∀ s t, Q s → World.Tidied requests s t → Q t) :
    Triple World.Sound (fun s ↦ s.Good sizes ∧ Q s) (Prog.each requests (perform w P))
      fun _ s ↦ s.Good sizes ∧ Q s := by
  rintro fates s ⟨hs, hQ⟩
  have htidy := stopped_requests hP hw hs.sound hs.filled (hs.sizes.symm ▸ hfit) fates
  rcases hrun : Prog.each requests (perform w P) fates s with ⟨_ | _ | _, fates', t⟩ <;>
    rw [hrun] at htidy
  · exact ⟨⟨htidy.sound, htidy.like.filled, htidy.like.sizes.trans hs.sizes⟩, h s t hQ htidy⟩
  · exact htidy
  · exact htidy

/-! ## The exchange -/

section

variable (hP : P.Sized) (hw : w.Sized) (hcorrect : P.Correct) (hlaw : w.Lawful P) {key : κ}
  {ct ctLen ss ss' : ℕ} (hct : Room sizes ct ctLen) (hss : Room sizes ss sharedSecretLen)
  (hss' : Room sizes ss' sharedSecretLen)

include hP hw hlaw

theorem triple_made :
    Triple World.Sound (fun s : World K κ ↦ s.Good sizes ∧ True)
      (cryptoCb w P (.keygen true (some key)))
      fun code s ↦ s.Good sizes ∧ (code = .ok → ∃ level n, Honest w P level n (s.keys key)) := by
  refine triple_request hP hw trivial fun s t code hs _ ht hlike hkeys hsucceeds hok ↦ ?_
  obtain ⟨i, level, hi, hlevel, hmade⟩ := hsucceeds hok
  cases hi
  exact ⟨level, honest_of_made hlaw hlevel hmade⟩

include hct hss

theorem triple_sent (hne : ct ≠ ss) {φ : Prop} :
    Triple World.Sound
      (fun s : World K κ ↦ s.Good sizes ∧ (φ → ∃ level n, Honest w P level n (s.keys key)))
      (cryptoCb w P (.encaps true (some key) (some ct) ctLen (some ss) sharedSecretLen))
      fun code s ↦ s.Good sizes ∧
        (φ ∧ code = .ok → ∃ level n m, s.Sent w P key ct ss level n m) := by
  have hfit : (Request.encaps true (some key) (some ct) ctLen (some ss) sharedSecretLen).Fits
      sizes := by
    constructor
    · rintro _ ⟨⟩
      exact hct
    · rintro _ ⟨⟩
      exact hss
  refine triple_request hP hw hfit fun s t code hs hhonest ht hlike hkeys hsucceeds ↦ ?_
  rintro ⟨hφ, hok⟩
  obtain ⟨level, n, hhonest⟩ := hhonest hφ
  obtain ⟨i, level', c, d, hi, hc, hd, hlevel, -, m, data, hdata, hcode, hcells⟩ := hsucceeds hok
  cases hi
  cases hc
  cases hd
  obtain rfl : level = level' := Option.some.inj (hhonest.ofKey.symm.trans hlevel)
  obtain ⟨old, hdecoded⟩ := hhonest.decoded
  obtain rfl := hlaw.publicKey hhonest.made hdecoded hdata
  have hkey : t.keys key = s.keys key := hkeys key (Set.notMem_empty _)
  have hclen := (hP.ciphertext level m _).2 hcode
  have hslen := (hP.encapsulated level m _).2 hcode
  obtain ⟨size, hsize, -⟩ := hct
  obtain ⟨size', hsize', -⟩ := hss
  rw [← hs.sizes] at hsize hsize'
  refine ⟨level, n, m, hkey ▸ hhonest, hcode, ?_, ?_⟩
  · rw [hcells, look_congr (put_of_ne hne), ← hclen]
    exact look_put_self hsize
  · rw [hcells, ← hslen]
    exact look_put_self ((sizeAt_congr (put_of_ne hne.symm)).trans hsize')

omit hss
include hcorrect hss'

theorem triple_received (hne : ss ≠ ss') {φ : Prop} :
    Triple World.Sound
      (fun s : World K κ ↦ s.Good sizes ∧ (φ → ∃ level n m, s.Sent w P key ct ss level n m))
      (cryptoCb w P (.decaps true (some key) (some ct) ctLen (some ss') sharedSecretLen))
      fun code s ↦ s.Good sizes ∧ (φ ∧ code = .ok → s.Agrees ss ss') := by
  have hfit : (Request.decaps true (some key) (some ct) ctLen (some ss') sharedSecretLen).Fits
      sizes := by
    constructor
    · rintro _ ⟨⟩
      exact hct
    · rintro _ ⟨⟩
      exact hss'
  refine triple_request hP hw hfit fun s t code hs hsent ht hlike hkeys hsucceeds ↦ ?_
  rintro ⟨hφ, hok⟩
  obtain ⟨level, n, m, hsent⟩ := hsent hφ
  obtain ⟨i, level', c, d, hi, hc, hd, hlevel, -, ciphertext, data, hlook, hdata, hcode, hcells⟩ :=
    hsucceeds hok
  cases hi
  cases hc
  cases hd
  obtain rfl : level = level' := Option.some.inj (hsent.honest.ofKey.symm.trans hlevel)
  obtain ⟨old, hdecoded⟩ := hsent.honest.decoded
  obtain rfl := hlaw.privateKey hsent.honest.made hdecoded hdata
  obtain rfl := Option.some.inj (hlook.symm.trans hsent.ciphertext)
  have hlen := (hP.encapsulated level m _).2 hsent.code
  obtain ⟨size, hsize, -⟩ := hss'
  rw [← hs.sizes] at hsize
  rw [hcorrect level n m hsent.honest.made hsent.code] at hcells
  refine ⟨_, hlen, ?_, ?_⟩
  · rw [hcells, look_congr (put_of_ne hne)]
    exact hsent.sharedSecret
  · rw [hcells, ← hlen]
    exact look_put_self hsize

include hss

/-- If a key is made, something is encapsulated to it and decapsulated again, and nothing in between
is about this key or these buffers, then both sides have the same secret. -/
theorem secrets_agree (hne : ct ≠ ss) (hne' : ss ≠ ss') {before after : List (Request κ)}
    (hfit : ∀ r ∈ before ++ after, r.Fits sizes)
    (hkey : ∀ r ∈ before ++ after, key ∉ r.generated)
    (hbuffers : ∀ r ∈ after, ct ∉ r.outputs ∧ ss ∉ r.outputs) {s₀ : World K κ} (hs₀ : s₀.Good sizes)
    {fates : List Fate}
    (hdone : (exchange w P key ct ctLen ss ss' before after fates s₀).1 = .done (.ok, .ok, .ok)) :
    ((exchange w P key ct ctLen ss ss' before after).final fates s₀).Agrees ss ss' := by
  have hfitBefore : ∀ r ∈ before, r.Fits sizes :=
    fun r hr ↦ hfit r (List.mem_append_left after hr)
  have hfitAfter : ∀ r ∈ after, r.Fits sizes := fun r hr ↦ hfit r (List.mem_append_right before hr)
  have hbefore (φ : Prop) := triple_requests
    (Q := fun s ↦ φ → ∃ level n, Honest w P level n (s.keys key)) hP hw hfitBefore
    fun s t hs ht hφ ↦ by
      rw [ht.keys key fun r hr ↦ hkey r (List.mem_append_left after hr)]
      exact hs hφ
  have hafter (φ : Prop) := triple_requests
    (Q := fun s ↦ φ → ∃ level n m, s.Sent w P key ct ss level n m) hP hw hfitAfter
    fun s t hs ht hφ ↦ by
      obtain ⟨level, n, m, hsent⟩ := hs hφ
      have hcells (p : ℕ) (hp : ∀ r ∈ after, p ∉ r.outputs) :
          t.memory.cells p = s.memory.cells p := by
        apply ht.like.kept
        rintro ⟨r, hr, hmem⟩
        exact hp r hr hmem
      refine ⟨level, n, m, ?_, hsent.code, ?_, ?_⟩
      · rw [ht.keys key fun r hr ↦ hkey r (List.mem_append_right before hr)]
        exact hsent.honest
      · rw [look_congr (hcells ct fun r hr ↦ (hbuffers r hr).1)]
        exact hsent.ciphertext
      · rw [look_congr (hcells ss fun r hr ↦ (hbuffers r hr).2)]
        exact hsent.sharedSecret
  have htriple : Triple World.Sound (fun s : World K κ ↦ s.Good sizes ∧ True)
      (exchange w P key ct ctLen ss ss' before after)
      fun codes s ↦ codes = (.ok, .ok, .ok) → s.Agrees ss ss' := by
    refine .bind (triple_made hP hw hlaw) fun made ↦ .bind (hbefore _) fun _ ↦ ?_
    refine .bind (triple_sent hP hw hlaw hct hss hne) fun sent ↦ .bind (hafter _) fun _ ↦ ?_
    refine .bind (triple_received hP hw hcorrect hlaw hct hss' hne') fun received ↦ .pure ?_
    rintro s ⟨-, hs⟩ ⟨⟩
    exact hs ⟨⟨rfl, rfl⟩, rfl⟩
  exact htriple.done ⟨hs₀, trivial⟩ (Prog.eq_of_fst hdone) rfl

end

end

theorem headD_replicate {n : ℕ} (hn : 0 < n) (b : UInt8) : (List.replicate n b).headD 0 = b := by
  obtain ⟨n, rfl⟩ := Nat.exists_eq_succ_of_ne_zero hn.ne'
  rfl

theorem lengths_pos (level : Level) :
    0 < level.publicLen ∧ 0 < level.privateLen ∧ 0 < level.ciphertextLen := by
  cases level <;> decide

theorem correct_toy : Pqm4.toy.Correct := by
  intro level n m _ _
  have hpos := lengths_pos level
  change Decapsulation.mk .ok (List.replicate sharedSecretLen
    ((List.replicate level.ciphertextLen (UInt8.ofNat m)).headD 0 +
      (List.replicate level.privateLen (UInt8.ofNat n)).headD 0)) =
    ⟨.ok, List.replicate sharedSecretLen
      (UInt8.ofNat m + (List.replicate level.publicLen (UInt8.ofNat n)).headD 0)⟩
  rw [headD_replicate hpos.1, headD_replicate hpos.2.1, headD_replicate hpos.2.2]

theorem lawful_toy : Wolf.toy.Lawful Pqm4.toy where
  type _ := rfl
  publicKey := by
    rintro level n key key' data - hkey hdata
    change Decoded.mk .ok (some ((List.replicate level.privateLen (UInt8.ofNat n)).headD 0)) = _
      at hkey
    rw [headD_replicate (lengths_pos level).2.1] at hkey
    cases hkey
    cases hdata
    rfl
  privateKey := by
    rintro level n key key' data - hkey hdata
    change Decoded.mk .ok (some ((List.replicate level.privateLen (UInt8.ofNat n)).headD 0)) = _
      at hkey
    rw [headD_replicate (lengths_pos level).2.1] at hkey
    cases hkey
    cases hdata
    rfl

theorem good_toy : World.toy.Good (sizeAt World.toy.memory.cells) := ⟨sound_toy, filled_toy, rfl⟩

/-- Requests before and after an encapsulation that have nothing to do with it. -/
def toyBefore : List (Request Bool) := [.keygen true (some false)]

def toyAfter : List (Request Bool) := [.decaps false (some true) (some 0) 768 (some 2) 32]

theorem secrets_agree_toy :
    ((exchange Wolf.toy Pqm4.toy true 0 768 1 2 toyBefore toyAfter).final [] World.toy).Agrees
      1 2 := by
  have hfit : ∀ r ∈ toyBefore ++ toyAfter, r.Fits (sizeAt World.toy.memory.cells) := by
    intro r hr
    rcases List.mem_cons.mp hr with rfl | hr
    · trivial
    · rw [List.mem_singleton.mp hr]
      constructor
      · rintro _ ⟨⟩
        exact ⟨768, sizeAt_toy 0, le_rfl⟩
      · rintro _ ⟨⟩
        exact ⟨32, sizeAt_toy 2, le_rfl⟩
  have hkey : ∀ r ∈ toyBefore ++ toyAfter, true ∉ r.generated := by
    intro r hr
    rcases List.mem_cons.mp hr with rfl | hr
    · rintro ⟨⟩
    · rw [List.mem_singleton.mp hr]
      exact Set.notMem_empty _
  have hbuffers : ∀ r ∈ toyAfter, 0 ∉ r.outputs ∧ 1 ∉ r.outputs := by
    intro r hr
    rw [List.mem_singleton.mp hr]
    constructor
    · rintro ⟨⟩
    · rintro ⟨⟩
  exact secrets_agree sized_toy wolfSized_toy correct_toy lawful_toy ⟨768, sizeAt_toy 0, le_rfl⟩
    ⟨32, sizeAt_toy 1, le_rfl⟩ ⟨32, sizeAt_toy 2, le_rfl⟩ (by decide) (by decide) hfit hkey hbuffers
    good_toy (by decide +kernel)

end PeripheralBench.Kem

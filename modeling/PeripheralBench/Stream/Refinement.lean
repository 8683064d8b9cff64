import PeripheralBench.Stream.Io

/-!
# Programs that do what another program does

`Proc.Refines R E p q` says that the program `p` reads, writes and records what `q` does, and that
their results are related by `R`.  On the way `p` may give up: then its result is in `E`, and what
`q` would have gone on to do does not matter.  For runs this means that `q` can do all that `p`
does, and returns with it unless `p` has given up (`Refines.returns`), and that all runs of `q` are
runs of `p` if it never gives up (`Refines.returns_of_not`).

A `Stateful` program has a state besides its streams, a memory say, that nobody sees.  `Implements`
is the refinement of a program without one, from the states where a precondition holds.  Steps that
only change the state (`Local`) are taken by the stateful program alone, all others by both.
-/

namespace PeripheralBench.Stream

namespace Proc

variable {ω β ε α α' γ γ' : Type}

/-- `p` does what `q` does, or gives up. -/
inductive Refines (R : α → γ → Prop) (E : α → Prop) : Proc ω β ε α → Proc ω β ε γ → Prop
  /-- Both return. -/
  | ret {a : α} {c : γ} (h : R a c) : Refines R E (.ret a) (.ret c)
  /-- One of them returns where the other one may go on. -/
  | gaveUp {a : α} {q : Proc ω β ε γ} (h : E a) : Refines R E (.ret a) q
  /-- Both ask for the same. -/
  | read {max : ℕ} {k : List β → Proc ω β ε α} {k' : List β → Proc ω β ε γ}
      (h : ∀ bs, bs.length ≤ max → Refines R E (k bs) (k' bs)) :
      Refines R E (.read max k) (.read max k')
  /-- Both offer the same. -/
  | write {xs : List ω} {k : ℕ → Proc ω β ε α} {k' : ℕ → Proc ω β ε γ}
      (h : ∀ n, n ≤ xs.length → Refines R E (k n) (k' n)) :
      Refines R E (.write xs k) (.write xs k')
  /-- Both record the same. -/
  | emit {e : ε} {k : Proc ω β ε α} {k' : Proc ω β ε γ} (h : Refines R E k k') :
      Refines R E (.emit e k) (.emit e k')

/-- What the world sees of one node of a program. -/
inductive Sign (ω β ε : Type) where
  /-- At most `max` items were asked for, and these came. -/
  | got (max : ℕ) (bs : List β)
  /-- These items were offered, and the first `n` of them taken. -/
  | sent (xs : List ω) (n : ℕ)
  /-- An observation. -/
  | recorded (e : ε)

/-- The first program can become the second one, and this is what is seen of it until then. -/
inductive Reaches : Proc ω β ε α → List (Sign ω β ε) → Proc ω β ε α → Prop
  | refl (p : Proc ω β ε α) : Reaches p [] p
  | read {max : ℕ} {k : List β → Proc ω β ε α} {bs : List β} {signs : List (Sign ω β ε)}
      {p : Proc ω β ε α} (hle : bs.length ≤ max) (h : Reaches (k bs) signs p) :
      Reaches (.read max k) (.got max bs :: signs) p
  | write {xs : List ω} {k : ℕ → Proc ω β ε α} {n : ℕ} {signs : List (Sign ω β ε)}
      {p : Proc ω β ε α} (hle : n ≤ xs.length) (h : Reaches (k n) signs p) :
      Reaches (.write xs k) (.sent xs n :: signs) p
  | emit {e : ε} {k : Proc ω β ε α} {signs : List (Sign ω β ε)} {p : Proc ω β ε α}
      (h : Reaches k signs p) : Reaches (.emit e k) (.recorded e :: signs) p

/-- The program can return `a`, and this is what is seen of it until then. -/
def Returns (p : Proc ω β ε α) (signs : List (Sign ω β ε)) (a : α) : Prop :=
  p.Reaches signs (.ret a)

/-! ### Conversations can be seen -/

theorem Consumes.reaches {p q r : Proc ω β ε α} {bs : List β} {es : List ε}
    (h : Consumes p bs es q) {signs : List (Sign ω β ε)} (hr : q.Reaches signs r) :
    ∃ signs, p.Reaches signs r := by
  induction h with
  | refl => exact ⟨signs, hr⟩
  | read _ hle _ ih =>
      obtain ⟨signs, hsigns⟩ := ih hr
      exact ⟨_, .read hle hsigns⟩
  | emit _ ih =>
      obtain ⟨signs, hsigns⟩ := ih hr
      exact ⟨_, .emit hsigns⟩

theorem Produces.reaches {p q r : Proc ω β ε α} {xs : List ω} {es : List ε}
    (h : Produces p xs es q) {signs : List (Sign ω β ε)} (hr : q.Reaches signs r) :
    ∃ signs, p.Reaches signs r := by
  induction h with
  | refl => exact ⟨signs, hr⟩
  | write _ _ ih =>
      obtain ⟨signs, hsigns⟩ := ih hr
      exact ⟨_, .write le_rfl hsigns⟩
  | emit _ ih =>
      obtain ⟨signs, hsigns⟩ := ih hr
      exact ⟨_, .emit hsigns⟩

/-- A program gets to the end of a conversation, whatever comes then. -/
theorem Talk.reaches {p q r : Proc ω β ε α} {acts : List (Act ω β)} {es : List ε}
    (h : Talk p acts es q) {signs : List (Sign ω β ε)} (hr : q.Reaches signs r) :
    ∃ signs, p.Reaches signs r := by
  induction acts generalizing p es with
  | nil => exact Consumes.reaches h hr
  | cons act acts ih =>
      cases act with
      | inp bs =>
          obtain ⟨q', e₁, e₂, -, hconsumes, hrest⟩ := h
          obtain ⟨_, hsigns⟩ := ih hrest
          exact hconsumes.reaches hsigns
      | out xs =>
          obtain ⟨q', e₁, e₂, -, hproduces, hrest⟩ := h
          obtain ⟨_, hsigns⟩ := ih hrest
          exact hproduces.reaches hsigns

namespace Refines

variable {R : α → γ → Prop} {E : α → Prop} {R' : α' → γ' → Prop} {E' : α' → Prop}
  {p : Proc ω β ε α} {q : Proc ω β ε γ}

theorem bind {f : α → Proc ω β ε α'} {g : γ → Proc ω β ε γ'} (h : Refines R E p q)
    (hR : ∀ a c, R a c → Refines R' E' (f a) (g c)) (hE : ∀ a, E a → ∀ q, Refines R' E' (f a) q) :
    Refines R' E' (p.bind f) (q.bind g) := by
  induction h with
  | ret h => exact hR _ _ h
  | gaveUp h => exact hE _ h _
  | read _ ih => exact .read ih
  | write _ ih => exact .write ih
  | emit _ ih => exact .emit ih

theorem mono {R' : α → γ → Prop} {E' : α → Prop} (h : Refines R E p q)
    (hR : ∀ a c, R a c → R' a c) (hE : ∀ a, E a → E' a) : Refines R' E' p q := by
  induction h with
  | ret h => exact .ret (hR _ _ h)
  | gaveUp h => exact .gaveUp (hE _ h)
  | read _ ih => exact .read ih
  | write _ ih => exact .write ih
  | emit _ ih => exact .emit ih

/-- The other program goes on to compute something. -/
theorem map {R' : α → γ' → Prop} {g : γ → γ'} (h : Refines R E p q)
    (hR : ∀ a c, R a c → R' a (g c)) : Refines R' E p (q.bind fun c ↦ .ret (g c)) := by
  induction h with
  | ret h => exact .ret (hR _ _ h)
  | gaveUp h => exact .gaveUp h
  | read _ ih => exact .read ih
  | write _ ih => exact .write ih
  | emit _ ih => exact .emit ih

/-- The refined program goes on alone. -/
theorem andThen {R' : α' → γ → Prop} {f : α → Proc ω β ε α'} (h : Refines R E p q)
    (hR : ∀ a c, R a c → Refines R' E' (f a) (.ret c))
    (hE : ∀ a, E a → ∀ q, Refines R' E' (f a) q) : Refines R' E' (p.bind f) q := by
  induction h with
  | ret h => exact hR _ _ h
  | gaveUp h => exact hE _ h _
  | read _ ih => exact .read ih
  | write _ ih => exact .write ih
  | emit _ ih => exact .emit ih

/-- All that the refined program does can be done by the other program, which returns with it unless
it gives up. -/
theorem returns (h : Refines R E p q) {signs : List (Sign ω β ε)} {a : α} (hp : p.Returns signs a) :
    ∃ q', q.Reaches signs q' ∧ (E a ∨ ∃ c, R a c ∧ q' = .ret c) := by
  induction h generalizing signs with
  | @ret _ c h =>
      cases hp
      exact ⟨.ret c, .refl _, .inr ⟨c, h, rfl⟩⟩
  | @gaveUp _ q h =>
      cases hp
      exact ⟨q, .refl _, .inl h⟩
  | read _ ih =>
      cases hp with
      | read hle hp =>
          obtain ⟨q', hq, hq'⟩ := ih _ hle hp
          exact ⟨q', .read hle hq, hq'⟩
  | write _ ih =>
      cases hp with
      | write hle hp =>
          obtain ⟨q', hq, hq'⟩ := ih _ hle hp
          exact ⟨q', .write hle hq, hq'⟩
  | emit _ ih =>
      cases hp with
      | emit hp =>
          obtain ⟨q', hq, hq'⟩ := ih hp
          exact ⟨q', .emit hq, hq'⟩

/-- A program that never gives up can do all that the other one does. -/
theorem returns_of_not (h : Refines R E p q) (hE : ∀ a, ¬ E a) {signs : List (Sign ω β ε)} {c : γ}
    (hq : q.Returns signs c) : ∃ a, R a c ∧ p.Returns signs a := by
  induction h generalizing signs with
  | @ret a _ h =>
      cases hq
      exact ⟨a, h, .refl _⟩
  | gaveUp h => exact absurd h (hE _)
  | read _ ih =>
      cases hq with
      | read hle hq =>
          obtain ⟨a, hR, hp⟩ := ih _ hle hq
          exact ⟨a, hR, .read hle hp⟩
  | write _ ih =>
      cases hq with
      | write hle hq =>
          obtain ⟨a, hR, hp⟩ := ih _ hle hq
          exact ⟨a, hR, .write hle hp⟩
  | emit _ ih =>
      cases hq with
      | emit hq =>
          obtain ⟨a, hR, hp⟩ := ih hq
          exact ⟨a, hR, .emit hp⟩

end Refines

instance instMonad : Monad (Proc ω β ε) where
  pure := .ret
  bind := .bind

end Proc

/-! ## Programs with a state -/

/-- Programs with a state besides their streams. -/
abbrev Stateful (σ ω β ε : Type) : Type → Type := StateT σ (Proc ω β ε)

section

variable {σ χ ω β ε α α' γ γ' : Type} {P P' : σ → Prop} {x : Stateful σ ω β ε α}
  {f : α → Stateful σ ω β ε α'} {y : Proc ω β ε γ}

namespace Stateful

/-- A program without a state. -/
def lift (p : Proc ω β ε α) : Stateful σ ω β ε α := StateT.lift p

/-- Record an observation. -/
def record (e : ε) : Stateful σ ω β ε Unit := lift (.emit e (.ret ()))

theorem bind_of_ret {s t : σ} {a : α} (h : x s = .ret (a, t)) : (x >>= f) s = f a t := by
  change (x s).bind (fun r ↦ f r.1 r.2) = f a t
  rw [h, Proc.bind_ret]

end Stateful

/-- From a state with `P` only the state is changed, to one with `Q`. -/
def Local (P : σ → Prop) (x : Stateful σ ω β ε α) (Q : α → σ → Prop) : Prop :=
  ∀ s, P s → ∃ a t, x s = .ret (a, t) ∧ Q a t

/-- From a state with `P` the stateful program does what `y` does, so that `R` holds in the end, or
gives up so that `E` does. -/
def Implements (P : σ → Prop) (x : Stateful σ ω β ε α) (y : Proc ω β ε γ)
    (R : α → γ → σ → Prop) (E : α → σ → Prop) : Prop :=
  ∀ s, P s → Proc.Refines (fun r c ↦ R r.1 c r.2) (fun r ↦ E r.1 r.2) (x s) y

namespace Local

variable {Q : α → σ → Prop} {Q' : α' → σ → Prop}

theorem pure {a : α} (h : ∀ s, P s → Q a s) : Local P (pure a : Stateful σ ω β ε α) Q :=
  fun s hs ↦ ⟨a, s, rfl, h s hs⟩

theorem modify {g : σ → σ} {Q : Unit → σ → Prop} (h : ∀ s, P s → Q () (g s)) :
    Local P (modify g : Stateful σ ω β ε Unit) Q :=
  fun s hs ↦ ⟨(), g s, rfl, h s hs⟩

/-- The state that has been read is the one the program is in. -/
theorem read {k : σ → Stateful σ ω β ε α} (hk : ∀ s, P s → Local (fun t ↦ t = s) (k s) Q) :
    Local P (get >>= k) Q := fun s hs ↦ hk s hs s rfl

theorem bind (hx : Local P x Q) (hf : ∀ a, Local (Q a) (f a) Q') : Local P (x >>= f) Q' := by
  intro s hs
  obtain ⟨a, t, hxs, ht⟩ := hx s hs
  rw [Stateful.bind_of_ret hxs]
  exact hf a t ht

theorem imp {Q' : α → σ → Prop} (hx : Local P x Q) (hpre : ∀ s, P' s → P s)
    (hpost : ∀ a s, Q a s → Q' a s) : Local P' x Q' := by
  intro s hs
  obtain ⟨a, t, hxs, ht⟩ := hx s (hpre s hs)
  exact ⟨a, t, hxs, hpost a t ht⟩

theorem pre (hx : Local P x Q) (hpre : ∀ s, P' s → P s) : Local P' x Q :=
  hx.imp hpre fun _ _ h ↦ h

theorem post {Q' : α → σ → Prop} (hx : Local P x Q) (hpost : ∀ a s, Q a s → Q' a s) :
    Local P x Q' := hx.imp (fun _ h ↦ h) hpost

theorem of_pure {φ : Prop} (hφ : ∀ s, P s → φ) (hx : φ → Local P x Q) : Local P x Q :=
  fun s hs ↦ hx (hφ s hs) s hs

theorem exists_pre {ι : Type} {φ : ι → Prop} {P : ι → σ → Prop}
    (hx : ∀ i, φ i → Local (P i) x Q) : Local (fun s ↦ ∃ i, φ i ∧ P i s) x Q := by
  rintro s ⟨i, hi, hs⟩
  exact hx i hi s hs

/-- A part of whose value something is known. -/
theorem bindOf {φ : α → Prop} (hx : Local P x fun a s ↦ φ a ∧ P' s)
    (hf : ∀ a, φ a → Local P' (f a) Q') : Local P (x >>= f) Q' := by
  refine hx.bind fun a ↦ .of_pure (fun s hs ↦ hs.1) fun ha ↦ ?_
  exact (hf a ha).pre fun s hs ↦ hs.2

/-- A part whose value is known. -/
theorem bindEq {a : α} (hx : Local P x fun a' s ↦ a' = a ∧ P' s) (hf : Local P' (f a) Q') :
    Local P (x >>= f) Q' := by
  refine hx.bindOf ?_
  rintro _ rfl
  exact hf

/-- The state is changed once more, and a known value returned. -/
theorem andPure {φ : Prop} {x : Stateful σ ω β ε Unit} {a : α} (hx : Local P x fun _ ↦ P')
    (h : ∀ s, φ → P' s → Q a s) : Local (fun s ↦ φ ∧ P s) (x >>= fun _ ↦ Pure.pure a) Q := by
  refine .of_pure (fun s hs ↦ hs.1) fun hφ ↦ ?_
  exact .bind (hx.pre fun s hs ↦ hs.2) fun _ ↦ .pure fun s hs ↦ h s hφ hs

end Local

namespace Implements

variable {R : α → γ → σ → Prop} {E : α → σ → Prop} {R' : α' → γ' → σ → Prop} {E' : α' → σ → Prop}

theorem pure {a : α} {c : γ} (h : ∀ s, P s → R a c s) :
    Implements P (pure a : Stateful σ ω β ε α) (.ret c) R E := fun s hs ↦ .ret (h s hs)

theorem gaveUp (hx : Local P x E) : Implements P x y R E := by
  intro s hs
  obtain ⟨a, t, hxs, ht⟩ := hx s hs
  rw [hxs]
  exact .gaveUp ht

/-- The other program has returned. -/
theorem returned {c : γ} (hx : Local P x fun a ↦ R a c) : Implements P x (.ret c) R E := by
  intro s hs
  obtain ⟨a, t, hxs, ht⟩ := hx s hs
  rw [hxs]
  exact .ret ht

/-- A part of the stateful program that only changes its state. -/
theorem step {Q : α → σ → Prop} {y : Proc ω β ε γ'} (hx : Local P x Q)
    (hf : ∀ a, Implements (Q a) (f a) y R' E') : Implements P (x >>= f) y R' E' := by
  intro s hs
  obtain ⟨a, t, hxs, ht⟩ := hx s hs
  rw [Stateful.bind_of_ret hxs]
  exact hf a t ht

/-- Such a part, if something is known of its value. -/
theorem stepOf {φ : α → Prop} {y : Proc ω β ε γ'} (hx : Local P x fun a s ↦ φ a ∧ P' s)
    (hf : ∀ a, φ a → Implements P' (f a) y R' E') : Implements P (x >>= f) y R' E' := by
  intro s hs
  obtain ⟨a, t, hxs, ha, ht⟩ := hx s hs
  rw [Stateful.bind_of_ret hxs]
  exact hf a ha t ht

/-- Such a part, if its value is known. -/
theorem stepEq {a : α} {y : Proc ω β ε γ'} (hx : Local P x fun a' s ↦ a' = a ∧ P' s)
    (hf : Implements P' (f a) y R' E') : Implements P (x >>= f) y R' E' := by
  intro s hs
  obtain ⟨_, t, hxs, rfl, ht⟩ := hx s hs
  rw [Stateful.bind_of_ret hxs]
  exact hf t ht

theorem bind {g : γ → Proc ω β ε γ'} (hx : Implements P x y R E)
    (hR : ∀ a c, Implements (R a c) (f a) (g c) R' E')
    (hE : ∀ a, Local (E a) (f a) E') : Implements P (x >>= f) (y.bind g) R' E' :=
  fun s hs ↦ (hx s hs).bind (fun r c h ↦ hR r.1 c r.2 h) fun r h _ ↦ gaveUp (hE r.1) r.2 h

/-- What the stateful program does at its end, when the other one has returned. -/
theorem andThen {R' : α' → γ → σ → Prop} (hx : Implements P x y R E)
    (hR : ∀ a c, Local (R a c) (f a) fun a' ↦ R' a' c) (hE : ∀ a, Local (E a) (f a) E') :
    Implements P (x >>= f) y R' E' := by
  intro s hs
  refine (hx s hs).andThen (fun r c h ↦ ?_) fun r h q ↦ ?_
  · exact returned (hR r.1 c) r.2 h
  · exact gaveUp (hE r.1) r.2 h

theorem imp {R' : α → γ → σ → Prop} {E' : α → σ → Prop} (hx : Implements P x y R E)
    (hpre : ∀ s, P' s → P s) (hR : ∀ a c s, R a c s → R' a c s) (hE : ∀ a s, E a s → E' a s) :
    Implements P' x y R' E' :=
  fun s hs ↦ (hx s (hpre s hs)).mono (fun r c h ↦ hR r.1 c r.2 h) fun r h ↦ hE r.1 r.2 h

theorem pre (hx : Implements P x y R E) (hpre : ∀ s, P' s → P s) : Implements P' x y R E :=
  hx.imp hpre (fun _ _ _ h ↦ h) fun _ _ h ↦ h

/-- What is known before and does not depend on the state can be used. -/
theorem of_pure {φ : Prop} (hφ : ∀ s, P s → φ) (hx : φ → Implements P x y R E) :
    Implements P x y R E := fun s hs ↦ hx (hφ s hs) s hs

/-- A part of a program that can fail. -/
theorem bindIo {z : Io χ ω β ε γ} {g : γ → Io χ ω β ε γ'} {R : α → Except χ γ → σ → Prop}
    {R' : α' → Except χ γ' → σ → Prop} (hx : Implements P x z.proc R E)
    (hok : ∀ a c, Implements (R a (.ok c)) (f a) (g c).proc R' E')
    (herror : ∀ a e, Local (R a (.error e)) (f a) fun a' ↦ R' a' (.error e))
    (hE : ∀ a, Local (E a) (f a) E') : Implements P (x >>= f) (z >>= g).proc R' E' := by
  rw [Io.proc_bind]
  refine hx.bind (fun a c ↦ ?_) hE
  cases c with
  | ok c => exact hok a c
  | error e => exact .returned (herror a e)

/-- A part of whose result something is known. -/
theorem bindResult {z : Io χ ω β ε γ} {g : γ → Io χ ω β ε γ'} {φ : α → Except χ γ → Prop}
    {R' : α' → Except χ γ' → σ → Prop} (hx : Implements P x z.proc (fun a c s ↦ φ a c ∧ P' s) E)
    (hok : ∀ a c, φ a (.ok c) → Implements P' (f a) (g c).proc R' E')
    (herror : ∀ a e, φ a (.error e) → Local P' (f a) fun a' ↦ R' a' (.error e))
    (hE : ∀ a, Local (E a) (f a) E') : Implements P (x >>= f) (z >>= g).proc R' E' := by
  refine hx.bindIo (fun a c ↦ ?_) (fun a e ↦ ?_) hE
  · exact .of_pure (fun s hs ↦ hs.1) fun hc ↦ (hok a c hc).pre fun s hs ↦ hs.2
  · exact .of_pure (fun s hs ↦ hs.1) fun he ↦ (herror a e he).pre fun s hs ↦ hs.2

/-- An observation of both. -/
theorem record {e : ε} {f : Unit → Stateful σ ω β ε α'} {g : Unit → Io χ ω β ε γ}
    {R' : α' → Except χ γ → σ → Prop} (hf : Implements P (f ()) (g ()).proc R' E') :
    Implements P (Stateful.record e >>= f) (Io.emit e >>= g).proc R' E' := by
  intro s hs
  rw [Io.proc_emit_bind]
  exact .emit (hf s hs)

/-- An observation that is the last thing the other program does. -/
theorem recordLast {e : ε} {f : Unit → Stateful σ ω β ε α'} {R' : α' → Except χ Unit → σ → Prop}
    (hf : Local P (f ()) fun a ↦ R' a (.ok ())) :
    Implements P (Stateful.record e >>= f) (Io.emit e).proc R' E' :=
  fun s hs ↦ .emit (returned hf s hs)

/-- A check of both. -/
theorem require {c : Prop} [Decidable c] {e : χ} {g : Unit → Io χ ω β ε γ}
    {R : α → Except χ γ → σ → Prop} (hpos : c → Implements P x (g ()).proc R E)
    (hneg : ¬ c → Implements P x (.ret (.error e)) R E) :
    Implements P x (Io.require c e >>= g).proc R E := by
  by_cases hc : c
  · rw [Io.proc_require_bind hc]
    exact hpos hc
  · rw [Io.proc_require_bind_neg hc]
    exact hneg hc

/-- A check that is the last thing both do. -/
theorem decide {c : Prop} [Decidable c] {e : χ} {E : Bool → σ → Prop} :
    Implements P (Pure.pure (Decidable.decide c) : Stateful σ ω β ε Bool)
      (Io.require c e : Io χ ω β ε Unit).proc (fun ok r s ↦ ok = r.isOk ∧ P s) E := by
  by_cases hc : c
  · rw [Io.require_pos hc, decide_eq_true hc]
    exact pure fun s hs ↦ ⟨rfl, hs⟩
  · rw [Io.require_neg hc, decide_eq_false hc]
    exact pure fun s hs ↦ ⟨rfl, hs⟩

/-- A part that both have in common. -/
theorem lift {E : γ → σ → Prop} (p : Proc ω β ε γ) :
    Implements P (Stateful.lift p) p (fun a c s ↦ a = c ∧ P s) E := by
  intro s hs
  change Proc.Refines _ _ (p.bind fun a ↦ .ret (a, s)) p
  induction p with
  | ret a => exact .ret ⟨rfl, hs⟩
  | read max k ih => exact .read fun bs _ ↦ ih bs
  | write xs k ih => exact .write fun n _ ↦ ih n
  | emit e k ih => exact .emit ih

/-- A part that both have in common, and that can fail. -/
theorem both {z : Io χ ω β ε γ} {f : Except χ γ → Stateful σ ω β ε α'} {g : γ → Io χ ω β ε γ'}
    {R' : α' → Except χ γ' → σ → Prop} (hok : ∀ c, Implements P (f (.ok c)) (g c).proc R' E')
    (herror : ∀ e, Local P (f (.error e)) fun a' ↦ R' a' (.error e)) :
    Implements P (Stateful.lift z.proc >>= f) (z >>= g).proc R' E' := by
  refine .bindResult (E := fun _ _ ↦ False) (.lift z.proc) ?_ ?_ ?_
  · rintro _ c rfl
    exact hok c
  · rintro _ e rfl
    exact herror e
  · rintro _ s ⟨⟩

theorem exists_pre {ι : Type} {φ : ι → Prop} {P : ι → σ → Prop}
    (hx : ∀ i, φ i → Implements (P i) x y R E) : Implements (fun s ↦ ∃ i, φ i ∧ P i s) x y R E := by
  rintro s ⟨i, hi, hs⟩
  exact hx i hi s hs

end Implements

end

end PeripheralBench.Stream

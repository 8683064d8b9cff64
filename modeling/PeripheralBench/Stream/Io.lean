import PeripheralBench.Stream.Talk

/-!
# Stream programs that can fail

`Io` adds an error result to the coherent programs of `Stream.Proc`.  A failure ends the program at
once, unless `attempt` turns it into a value.  The rules below specify a program from its parts:
`bind_ok` continues after a part that succeeded, `bind_error` stops after one that failed, in each
of the three forms `Consumes`, `Produces` and `Talk`.
-/

namespace PeripheralBench.Stream

/-- Coherent programs that may fail with a `χ`. -/
abbrev Io (χ ω β ε : Type) : Type → Type := ExceptT χ (Prog ω β ε)

namespace Io

variable {χ ω β ε α γ : Type}

/-- The program of an `Io` computation. -/
def proc (x : Io χ ω β ε α) : Proc ω β ε (Except χ α) := (ExceptT.run x).1

/-- What a computation does with the result of the part before it. -/
def andThen (f : α → Io χ ω β ε γ) : Except χ α → Proc ω β ε (Except χ γ)
  | .ok a => (f a).proc
  | .error e => .ret (.error e)

@[simp] theorem andThen_ok (f : α → Io χ ω β ε γ) (a : α) : andThen f (.ok a) = (f a).proc := rfl

@[simp] theorem andThen_error (f : α → Io χ ω β ε γ) (e : χ) :
    andThen f (.error e) = .ret (.error e) := rfl

@[simp] theorem proc_pure (a : α) : (pure a : Io χ ω β ε α).proc = .ret (.ok a) := rfl

@[simp] theorem proc_throw (e : χ) : (throw e : Io χ ω β ε α).proc = .ret (.error e) := rfl

theorem proc_bind (x : Io χ ω β ε α) (f : α → Io χ ω β ε γ) :
    (x >>= f).proc = x.proc.bind (andThen f) := by
  refine congrArg x.proc.bind (funext fun r ↦ ?_)
  cases r <;> rfl

/-- Read exactly `n` items; fail with `e` when the stream ends before. -/
def readExact (n : ℕ) (e : χ) : Io χ ω β ε (List β) :=
  ExceptT.mk do
    match ← Prog.readExact n with
    | some bs => pure (.ok bs)
    | none => pure (.error e)

/-- Read one item; fail with `e` when the stream ends before. -/
def readOne [Inhabited β] (e : χ) : Io χ ω β ε β := do
  let bs ← readExact 1 e
  pure bs.head!

/-- Write all of `xs`; fail with `e` when the transport stops taking items. -/
def writeAll (xs : List ω) (e : χ) : Io χ ω β ε Unit :=
  ExceptT.mk do
    match ← Prog.writeAll xs with
    | true => pure (.ok ())
    | false => pure (.error e)

/-- Record an observation. -/
def emit (o : ε) : Io χ ω β ε Unit := ExceptT.mk do Prog.emit o; pure (.ok ())

/-- Go on only if the check holds. -/
def require (c : Prop) [Decidable c] (e : χ) : Io χ ω β ε Unit :=
  if c then pure () else throw e

/-- Run a computation and hand on its failure as a value. -/
def attempt (x : Io χ ω β ε α) : Io χ ω β ε (Except χ α) :=
  ExceptT.mk do
    let r ← ExceptT.run x
    pure (.ok r)

/-- Run a computation and fail with `e` whenever it fails. -/
def orFail (x : Io χ ω β ε α) (e : χ) : Io χ ω β ε α :=
  ExceptT.mk do
    match ← ExceptT.run x with
    | .ok a => pure (.ok a)
    | .error _ => pure (.error e)

theorem require_pos {c : Prop} [Decidable c] (h : c) (e : χ) :
    (require c e : Io χ ω β ε Unit) = pure () := if_pos h

theorem require_neg {c : Prop} [Decidable c] (h : ¬ c) (e : χ) :
    (require c e : Io χ ω β ε Unit) = throw e := if_neg h

theorem proc_attempt (x : Io χ ω β ε α) : (attempt x).proc = x.proc.bind fun r ↦ .ret (.ok r) :=
  rfl

@[simp] theorem proc_pure_bind (a : α) (f : α → Io χ ω β ε γ) :
    (pure a >>= f).proc = (f a).proc := by
  rw [proc_bind, proc_pure, Proc.bind_ret, andThen_ok]

@[simp] theorem proc_throw_bind (e : χ) (f : α → Io χ ω β ε γ) :
    ((throw e : Io χ ω β ε α) >>= f).proc = .ret (.error e) := by
  rw [proc_bind, proc_throw, Proc.bind_ret, andThen_error]

@[simp] theorem proc_emit_bind (o : ε) (f : Unit → Io χ ω β ε γ) :
    (emit o >>= f).proc = .emit o (f ()).proc := by
  rw [proc_bind]
  rfl

theorem proc_require_bind {c : Prop} [Decidable c] (h : c) (e : χ) (f : Unit → Io χ ω β ε γ) :
    (require c e >>= f).proc = (f ()).proc := by
  rw [require_pos h, proc_pure_bind]

theorem proc_require_bind_neg {c : Prop} [Decidable c] (h : ¬ c) (e : χ)
    (f : Unit → Io χ ω β ε γ) : (require c e >>= f).proc = .ret (.error e) := by
  rw [require_neg h, proc_throw_bind]

/-! ## Primitive rules -/

theorem consumes_readExact {n : ℕ} {bs : List β} (h : bs.length = n) (e : χ) :
    (readExact n e : Io χ ω β ε _).proc.Consumes bs [] (.ret (.ok bs)) := by
  have h' := (Proc.consumes_readLoop (ω := ω) (ε := ε) h []).bind fun r ↦
    (match r with
      | some bs => (pure (.ok bs) : Prog ω β ε (Except χ (List β)))
      | none => pure (.error e)).1
  exact h'

theorem produces_writeAll (xs : List ω) (e : χ) :
    (writeAll xs e : Io χ ω β ε _).proc.Produces xs [] (.ret (.ok ())) := by
  have h' := (Proc.produces_writeLoop (β := β) (ε := ε) xs).bind fun r ↦
    (match r with
      | true => (pure (.ok ()) : Prog ω β ε (Except χ Unit))
      | false => pure (.error e)).1
  exact h'

theorem consumes_emit (o : ε) : (emit o : Io χ ω β ε Unit).proc.Consumes [] [o] (.ret (.ok ())) :=
  .emit (.refl _)

theorem drain_readExact {n : ℕ} (hn : n ≠ 0) (e : χ) :
    (readExact n e : Io χ ω β ε _).proc.drain = ([], .error e) := by
  have h := Proc.drain_bind (Proc.readLoop n [] : Proc ω β ε _) fun r ↦
    (match r with
      | some bs => (pure (.ok bs) : Prog ω β ε (Except χ (List β)))
      | none => pure (.error e)).1
  rw [Proc.drain_readLoop hn] at h
  exact h

theorem drain_writeAll (xs : List ω) (e : χ) :
    (writeAll xs e : Io χ ω β ε _).proc.drain = ([], .ok ()) := by
  have h := Proc.drain_bind (Proc.writeLoop xs : Proc ω β ε _) fun r ↦
    (match r with
      | true => (pure (.ok ()) : Prog ω β ε (Except χ Unit))
      | false => pure (.error e)).1
  rw [Proc.drain_writeLoop] at h
  exact h

/-! ## Sequencing -/

section Bind

variable {x : Io χ ω β ε α} {f : α → Io χ ω β ε γ} {q : Proc ω β ε (Except χ γ)} {a : α} {e : χ}
  {es fs : List ε}

theorem consumes_bind {bs cs : List β} (h₁ : x.proc.Consumes bs es (.ret (.ok a)))
    (h₂ : (f a).proc.Consumes cs fs q) : (x >>= f).proc.Consumes (bs ++ cs) (es ++ fs) q := by
  rw [proc_bind]
  exact (h₁.bind (andThen f)).trans h₂

theorem consumes_bind_error {bs : List β} (h : x.proc.Consumes bs es (.ret (.error e))) :
    (x >>= f).proc.Consumes bs es (.ret (.error e)) := by
  rw [proc_bind]
  exact h.bind (andThen f)

theorem produces_bind {xs ys : List ω} (h₁ : x.proc.Produces xs es (.ret (.ok a)))
    (h₂ : (f a).proc.Produces ys fs q) : (x >>= f).proc.Produces (xs ++ ys) (es ++ fs) q := by
  rw [proc_bind]
  exact (h₁.bind (andThen f)).trans h₂

/-- A part that succeeded leaves what follows it. -/
theorem consumes_bind_cont {bs : List β} (h : x.proc.Consumes bs es (.ret (.ok a))) :
    (x >>= f).proc.Consumes bs es (f a).proc := by
  rw [proc_bind]
  exact h.bind (andThen f)

theorem produces_bind_cont {xs : List ω} (h : x.proc.Produces xs es (.ret (.ok a))) :
    (x >>= f).proc.Produces xs es (f a).proc := by
  rw [proc_bind]
  exact h.bind (andThen f)

/-- A part that is followed by a computation of the result only. -/
theorem consumes_bind_pure {bs : List β} {c : γ} (h : x.proc.Consumes bs es (.ret (.ok a)))
    (hf : f a = pure c) : (x >>= f).proc.Consumes bs es (.ret (.ok c)) := by
  have h' := consumes_bind_cont (f := f) h
  rwa [hf] at h'

theorem produces_bind_pure {xs : List ω} {c : γ} (h : x.proc.Produces xs es (.ret (.ok a)))
    (hf : f a = pure c) : (x >>= f).proc.Produces xs es (.ret (.ok c)) := by
  have h' := produces_bind_cont (f := f) h
  rwa [hf] at h'

theorem talk_bind {acts acts' : List (Act ω β)} (h₁ : x.proc.Talk acts es (.ret (.ok a)))
    (h₂ : (f a).proc.Talk acts' fs q) : (x >>= f).proc.Talk (acts ++ acts') (es ++ fs) q := by
  rw [proc_bind]
  exact (h₁.bind (andThen f)).trans h₂

/-- A part that succeeded leaves what follows it. -/
theorem talk_bind_cont {acts : List (Act ω β)} (h : x.proc.Talk acts es (.ret (.ok a)))
    (hf : (f a).proc = q) : (x >>= f).proc.Talk acts es q := by
  rw [proc_bind, ← hf]
  exact h.bind (andThen f)

theorem talk_bind_error {acts : List (Act ω β)} (h : x.proc.Talk acts es (.ret (.error e))) :
    (x >>= f).proc.Talk acts es (.ret (.error e)) := by
  rw [proc_bind]
  exact h.bind (andThen f)

/-- A part that stops in the middle leaves the whole in the middle. -/
theorem talk_bind_left {acts : List (Act ω β)} {p : Proc ω β ε (Except χ α)}
    (h : x.proc.Talk acts es p) : (x >>= f).proc.Talk acts es (p.bind (andThen f)) := by
  rw [proc_bind]
  exact h.bind (andThen f)

/-- A part that reads. -/
theorem talk_inp {bs : List β} {acts : List (Act ω β)}
    (h₁ : x.proc.Consumes bs es (.ret (.ok a))) (h₂ : (f a).proc.Talk acts fs q) :
    (x >>= f).proc.Talk (.inp bs :: acts) (es ++ fs) q :=
  talk_bind h₁.talk h₂

/-- A part that writes and records nothing. -/
theorem talk_out {xs : List ω} {acts : List (Act ω β)}
    (h₁ : x.proc.Produces xs [] (.ret (.ok a))) (h₂ : (f a).proc.Talk acts fs q) :
    (x >>= f).proc.Talk (.out xs :: acts) fs q :=
  talk_bind h₁.talk h₂

/-- A part that records. -/
theorem talk_emit {f : Unit → Io χ ω β ε γ} {acts : List (Act ω β)} {o : ε}
    (h : (f ()).proc.Talk acts es q) : (emit o >>= f).proc.Talk acts (o :: es) q := by
  rw [proc_emit_bind]
  exact Proc.Talk.emits (.emit (.refl _)) h

theorem drain_bind_ok (h : x.proc.drain = (es, .ok a)) :
    (x >>= f).proc.drain = (es ++ (f a).proc.drain.1, (f a).proc.drain.2) := by
  rw [proc_bind, Proc.drain_bind, h, andThen_ok]

theorem drain_bind_error (h : x.proc.drain = (es, .error e)) :
    (x >>= f).proc.drain = (es, .error e) := by
  rw [proc_bind, Proc.drain_bind, h, andThen_error, Proc.drain_ret, List.append_nil]

end Bind

/-! ## Failures as values -/

section OrFail

variable {x : Io χ ω β ε α} {a : α} {r : Except χ α} {e e' : χ} {es : List ε}

/-- What `orFail` makes of a result. -/
def failWith (e : χ) : Except χ α → Except χ α
  | .ok a => .ok a
  | .error _ => .error e

theorem proc_orFail (x : Io χ ω β ε α) (e : χ) :
    (x.orFail e).proc = x.proc.bind fun r ↦ .ret (failWith e r) := by
  refine congrArg x.proc.bind (funext fun r ↦ ?_)
  cases r <;> rfl

theorem consumes_orFail {bs : List β} (h : x.proc.Consumes bs es (.ret (.ok a))) (e : χ) :
    (x.orFail e).proc.Consumes bs es (.ret (.ok a)) := by
  rw [proc_orFail]
  exact h.bind _

theorem consumes_orFail_error {bs : List β} (h : x.proc.Consumes bs es (.ret (.error e))) (e' : χ) :
    (x.orFail e').proc.Consumes bs es (.ret (.error e')) := by
  rw [proc_orFail]
  exact h.bind _

theorem produces_orFail {xs : List ω} (h : x.proc.Produces xs es (.ret (.ok a))) (e : χ) :
    (x.orFail e).proc.Produces xs es (.ret (.ok a)) := by
  rw [proc_orFail]
  exact h.bind _

theorem talk_orFail {acts : List (Act ω β)} (h : x.proc.Talk acts es (.ret (.ok a))) (e : χ) :
    (x.orFail e).proc.Talk acts es (.ret (.ok a)) := by
  rw [proc_orFail]
  exact h.bind _

theorem drain_orFail_error (h : x.proc.drain = (es, .error e)) (e' : χ) :
    (x.orFail e').proc.drain = (es, .error e') := by
  rw [proc_orFail, Proc.drain_bind, h, Proc.drain_ret, List.append_nil]
  rfl

theorem consumes_attempt {bs : List β} (h : x.proc.Consumes bs es (.ret r)) :
    (attempt x).proc.Consumes bs es (.ret (.ok r)) := by
  rw [proc_attempt]
  exact h.bind _

theorem produces_attempt {xs : List ω} (h : x.proc.Produces xs es (.ret r)) :
    (attempt x).proc.Produces xs es (.ret (.ok r)) := by
  rw [proc_attempt]
  exact h.bind _

theorem drain_attempt (h : x.proc.drain = (es, r)) : (attempt x).proc.drain = (es, .ok r) := by
  rw [proc_attempt, Proc.drain_bind, h, Proc.drain_ret, List.append_nil]

end OrFail

theorem consumes_readOne [Inhabited β] (b : β) (e : χ) :
    (readOne e : Io χ ω β ε β).proc.Consumes [b] [] (.ret (.ok b)) := by
  have h : (readExact 1 e : Io χ ω β ε _).proc.Consumes [b] [] (.ret (.ok [b])) :=
    consumes_readExact (show [b].length = 1 from rfl) e
  exact consumes_bind h (.refl _)

theorem drain_readOne [Inhabited β] (e : χ) :
    (readOne e : Io χ ω β ε β).proc.drain = ([], .error e) :=
  drain_bind_error (drain_readExact one_ne_zero e)

end Io

end PeripheralBench.Stream

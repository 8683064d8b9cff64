import Mathlib.Data.List.Basic
import Mathlib.Data.List.Infix
import Mathlib.Tactic

/-!
# Programs over a pair of byte streams

A `Proc` is a sequential program that reads one incoming stream and writes one outgoing stream.
Its two communication nodes are the *partial* calls a socket offers: `read max k` hands `k` some
nonempty prefix of what is waiting, at most `max` long and chosen by the transport, and `write xs k`
hands `k` the number of items of `xs` that the transport accepted.  A read on a stream whose other
end has closed hands `k` the empty list.  `emit` records an observation and is invisible to the
peer.

A program written with such calls only makes sense when its behaviour does not depend on how the
transport cuts the streams.  `Proc.Coherent` is that property: a short read is followed by a read
of exactly the rest, and joining the two pieces gives what one long read would have given.  `Prog`
is the subtype of coherent programs; it is a monad, and its primitives are the two retry loops
`readExact` and `writeAll`.

The written items `ω` and the read items `β` are different types: a network decides what a written
item looks like when it arrives.
-/

namespace PeripheralBench.Stream

/-- A sequential program over an incoming stream of `β` and an outgoing stream of `ω` that records
observations of type `ε` and returns an `α`. -/
inductive Proc (ω β ε α : Type) where
  /-- The program has finished. -/
  | ret (a : α)
  /-- Ask for at most `max` items.  The continuation receives `[]` when the stream has ended. -/
  | read (max : ℕ) (k : List β → Proc ω β ε α)
  /-- Offer `xs`.  The continuation receives the number of items that were taken. -/
  | write (xs : List ω) (k : ℕ → Proc ω β ε α)
  /-- Record an observation. -/
  | emit (e : ε) (k : Proc ω β ε α)

namespace Proc

variable {ω β ε α γ : Type}

/-- Sequential composition. -/
def bind : Proc ω β ε α → (α → Proc ω β ε γ) → Proc ω β ε γ
  | .ret a, f => f a
  | .read max k, f => .read max fun bs ↦ (k bs).bind f
  | .write xs k, f => .write xs fun n ↦ (k n).bind f
  | .emit e k, f => .emit e (k.bind f)

@[simp] theorem bind_ret (a : α) (f : α → Proc ω β ε γ) : (Proc.ret a).bind f = f a := rfl

@[simp] theorem bind_read (max : ℕ) (k : List β → Proc ω β ε α) (f : α → Proc ω β ε γ) :
    (Proc.read max k).bind f = .read max fun bs ↦ (k bs).bind f := rfl

@[simp] theorem bind_write (xs : List ω) (k : ℕ → Proc ω β ε α) (f : α → Proc ω β ε γ) :
    (Proc.write xs k).bind f = .write xs fun n ↦ (k n).bind f := rfl

@[simp] theorem bind_emit (e : ε) (k : Proc ω β ε α) (f : α → Proc ω β ε γ) :
    (Proc.emit e k).bind f = .emit e (k.bind f) := rfl

/-! ## One step of one program -/

/-- One step of a program whose unread input is the second argument.  The indices are the program
and the input before the step, the program and the input after it, what it wrote and what it
recorded.  `eof` says that nothing will be added to the input any more. -/
inductive Step (eof : Bool) :
    Proc ω β ε α → List β → Proc ω β ε α → List β → List ω → List ε → Prop
  /-- A read takes any nonempty prefix of the input that fits. -/
  | read {max : ℕ} {k : List β → Proc ω β ε α} {inp : List β} {n : ℕ} (hpos : 0 < n)
      (hmax : n ≤ max) (hle : n ≤ inp.length) :
      Step eof (.read max k) inp (k (inp.take n)) (inp.drop n) [] []
  /-- A read of a stream that has ended reports the end. -/
  | eof {max : ℕ} {k : List β → Proc ω β ε α} (h : eof = true) :
      Step eof (.read max k) [] (k []) [] [] []
  /-- A write hands over any nonempty prefix. -/
  | write {xs : List ω} {k : ℕ → Proc ω β ε α} {inp : List β} {n : ℕ} (hpos : 0 < n)
      (hle : n ≤ xs.length) :
      Step eof (.write xs k) inp (k n) inp (xs.take n) []
  /-- Recording an observation touches neither stream. -/
  | emit {e : ε} {k : Proc ω β ε α} {inp : List β} :
      Step eof (.emit e k) inp k inp [] [e]

/-- The program has returned. -/
def Done : Proc ω β ε α → Prop
  | .ret _ => True
  | _ => False

instance decidableDone : (p : Proc ω β ε α) → Decidable p.Done
  | .ret _ => isTrue trivial
  | .read .. => isFalse id
  | .write .. => isFalse id
  | .emit .. => isFalse id

@[simp] theorem done_ret (a : α) : (Proc.ret a : Proc ω β ε α).Done := trivial

/-- A program that has returned takes no step. -/
theorem Step.not_done {eof : Bool} {p q : Proc ω β ε α} {i i' : List β} {o : List ω} {es : List ε}
    (h : Step eof p i q i' o es) : ¬ p.Done := by
  cases h <;> exact id

/-- Knowing that the input has ended only adds steps. -/
theorem Step.of_false {p q : Proc ω β ε α} {i i' : List β} {o : List ω} {es : List ε}
    (h : Step false p i q i' o es) (eof : Bool) : Step eof p i q i' o es := by
  cases h with
  | read hpos hmax hle => exact .read hpos hmax hle
  | eof h => cases h
  | write hpos hle => exact .write hpos hle
  | emit => exact .emit

/-- A step that did not use the end of the input does not depend on it. -/
theorem Step.of_eof {eof : Bool} {p q : Proc ω β ε α} {i i' : List β} {o : List ω} {es : List ε}
    (h : Step eof p i q i' o es) (hne : eof = true → (∃ max k, p = .read max k) → i ≠ []) :
    Step false p i q i' o es := by
  cases h with
  | read hpos hmax hle => exact .read hpos hmax hle
  | @eof max k h => exact absurd rfl (hne h ⟨max, k, rfl⟩)
  | write hpos hle => exact .write hpos hle
  | emit => exact .emit

/-- A step survives the arrival of more input, as long as it did not use the end of the stream. -/
theorem Step.append {p q : Proc ω β ε α} {i i' : List β} {o : List ω} {es : List ε}
    (h : Step false p i q i' o es) (x : List β) : Step false p (i ++ x) q (i' ++ x) o es := by
  cases h with
  | @read max k _ n hpos hmax hle =>
      have h' : Step false (.read max k) (i ++ x) (k ((i ++ x).take n)) ((i ++ x).drop n) [] [] :=
        .read hpos hmax (by simp only [List.length_append]; omega)
      rwa [List.take_append_of_le_length hle, List.drop_append_of_le_length hle] at h'
  | eof h => cases h
  | write hpos hle => exact .write hpos hle
  | emit => exact .emit

/-! ## Coherence -/

/-- The program does not depend on where the transport cuts its streams: a short read (or write) is
followed by one of exactly the rest, with the outcome that a single long one would have had.
Requests are never empty. -/
def Coherent : Proc ω β ε α → Prop
  | .ret _ => True
  | .read max k => 0 < max ∧ (∀ bs, (k bs).Coherent) ∧
      ∀ b₁ b₂ : List β, b₁ ≠ [] → b₂ ≠ [] → b₁.length + b₂.length ≤ max →
        ∃ k', k b₁ = .read (max - b₁.length) k' ∧ k' b₂ = k (b₁ ++ b₂)
  | .write xs k => xs ≠ [] ∧ (∀ n, (k n).Coherent) ∧
      ∀ m n : ℕ, 0 < m → 0 < n → m + n ≤ xs.length →
        ∃ k', k m = .write (xs.drop m) k' ∧ k' n = k (m + n)
  | .emit _ k => k.Coherent

@[simp] theorem coherent_ret (a : α) : (Proc.ret a : Proc ω β ε α).Coherent := trivial

theorem Coherent.bind {p : Proc ω β ε α} {f : α → Proc ω β ε γ} (hp : p.Coherent)
    (hf : ∀ a, (f a).Coherent) : (p.bind f).Coherent := by
  induction p with
  | ret a => exact hf a
  | read max k ih =>
      refine ⟨hp.1, fun bs ↦ ih bs (hp.2.1 bs), fun b₁ b₂ h₁ h₂ hle ↦ ?_⟩
      obtain ⟨k', hk, hk'⟩ := hp.2.2 b₁ b₂ h₁ h₂ hle
      exact ⟨fun bs ↦ (k' bs).bind f, congrArg (·.bind f) hk, congrArg (·.bind f) hk'⟩
  | write xs k ih =>
      refine ⟨hp.1, fun n ↦ ih n (hp.2.1 n), fun m n h₁ h₂ hle ↦ ?_⟩
      obtain ⟨k', hk, hk'⟩ := hp.2.2 m n h₁ h₂ hle
      exact ⟨fun n ↦ (k' n).bind f, congrArg (·.bind f) hk, congrArg (·.bind f) hk'⟩
  | emit e k ih => exact ih hp

/-- A coherent program stays coherent. -/
theorem Coherent.step {eof : Bool} {p q : Proc ω β ε α} {i i' : List β} {o : List ω} {es : List ε}
    (hp : p.Coherent) (h : Step eof p i q i' o es) : q.Coherent := by
  cases h with
  | read => exact hp.2.1 _
  | eof => exact hp.2.1 _
  | write => exact hp.2.1 _
  | emit => exact hp

/-- Two steps of one coherent program from the same input differ only in how much they moved: they
are equal, or one of them continues to the other. -/
theorem Coherent.step_or_step {eof : Bool} {p q₁ q₂ : Proc ω β ε α} {i i₁ i₂ : List β}
    {o₁ o₂ : List ω} {e₁ e₂ : List ε} (hp : p.Coherent) (h₁ : Step eof p i q₁ i₁ o₁ e₁)
    (h₂ : Step eof p i q₂ i₂ o₂ e₂) :
    (q₁ = q₂ ∧ i₁ = i₂ ∧ o₁ = o₂ ∧ e₁ = e₂) ∨
    (∃ o, Step eof q₁ i₁ q₂ i₂ o [] ∧ o₂ = o₁ ++ o ∧ e₂ = e₁) ∨
    (∃ o, Step eof q₂ i₂ q₁ i₁ o [] ∧ o₁ = o₂ ++ o ∧ e₁ = e₂) := by
  -- The longer of two reads (or writes) is the shorter one followed by the difference.
  have read_lt : ∀ {max : ℕ} {k : List β → Proc ω β ε α} {m n : ℕ},
      (Proc.read max k : Proc ω β ε α).Coherent → 0 < m → m < n → n ≤ max → n ≤ i.length →
      Step eof (k (i.take m)) (i.drop m) (k (i.take n)) (i.drop n) [] [] := by
    intro max k m n hk hm hmn hmax hle
    have hlen₁ : (i.take m).length = m := List.length_take_of_le (by omega)
    have hlen₂ : ((i.drop m).take (n - m)).length = n - m :=
      List.length_take_of_le (by simp only [List.length_drop]; omega)
    obtain ⟨k', hk₁, hk₂⟩ := hk.2.2 (i.take m) ((i.drop m).take (n - m))
      (List.ne_nil_of_length_pos (by omega)) (List.ne_nil_of_length_pos (by omega)) (by omega)
    have hjoin : i.take m ++ (i.drop m).take (n - m) = i.take n := by
      rw [← List.take_add, Nat.add_sub_cancel' hmn.le]
    have hrest : (i.drop m).drop (n - m) = i.drop n := by
      rw [List.drop_drop, Nat.add_sub_cancel' hmn.le]
    have h : Step eof (.read (max - m) k') (i.drop m) (k' ((i.drop m).take (n - m)))
        ((i.drop m).drop (n - m)) [] [] :=
      .read (by omega) (by omega) (by simp only [List.length_drop]; omega)
    rw [hk₂, hjoin, hrest] at h
    rwa [hk₁, hlen₁]
  have write_lt : ∀ {xs : List ω} {k : ℕ → Proc ω β ε α} {m n : ℕ},
      (Proc.write xs k : Proc ω β ε α).Coherent → 0 < m → m < n → n ≤ xs.length →
      Step eof (k m) i (k n) i ((xs.drop m).take (n - m)) [] ∧
        xs.take n = xs.take m ++ (xs.drop m).take (n - m) := by
    intro xs k m n hk hm hmn hle
    obtain ⟨k', hk₁, hk₂⟩ := hk.2.2 m (n - m) hm (by omega) (by omega)
    have h : Step eof (.write (xs.drop m) k') i (k' (n - m)) i ((xs.drop m).take (n - m)) [] :=
      .write (by omega) (by simp only [List.length_drop]; omega)
    rw [hk₂, Nat.add_sub_cancel' hmn.le] at h
    exact ⟨by rwa [hk₁], by rw [← List.take_add, Nat.add_sub_cancel' hmn.le]⟩
  cases h₁ with
  | @read max k _ m hpos hmax hle =>
      cases h₂ with
      | @read _ _ _ n hpos' hmax' hle' =>
          rcases lt_trichotomy m n with hlt | rfl | hlt
          · exact .inr (.inl ⟨[], read_lt hp hpos hlt hmax' hle', rfl, rfl⟩)
          · exact .inl ⟨rfl, rfl, rfl, rfl⟩
          · exact .inr (.inr ⟨[], read_lt hp hpos' hlt hmax hle, rfl, rfl⟩)
      | eof => simp only [List.length_nil, Nat.le_zero] at hle; omega
  | eof =>
      cases h₂ with
      | read hpos hmax hle => simp only [List.length_nil, Nat.le_zero] at hle; omega
      | eof => exact .inl ⟨rfl, rfl, rfl, rfl⟩
  | @write xs k _ m hpos hle =>
      cases h₂ with
      | @write _ _ _ n hpos' hle' =>
          rcases lt_trichotomy m n with hlt | rfl | hlt
          · obtain ⟨hs, ho⟩ := write_lt hp hpos hlt hle'
            exact .inr (.inl ⟨_, hs, ho, rfl⟩)
          · exact .inl ⟨rfl, rfl, rfl, rfl⟩
          · obtain ⟨hs, ho⟩ := write_lt hp hpos' hlt hle
            exact .inr (.inr ⟨_, hs, ho, rfl⟩)
  | emit => cases h₂; exact .inl ⟨rfl, rfl, rfl, rfl⟩

/-! ## The two retry loops -/

/-- Read until `remaining` items have arrived and return them after `acc`; return `none` when the
stream ends first. -/
def readLoop (remaining : ℕ) (acc : List β) : Proc ω β ε (Option (List β)) :=
  if remaining = 0 then .ret (some acc)
  else .read remaining fun bs ↦
    if _h : bs = [] then .ret none else readLoop (remaining - bs.length) (acc ++ bs)
termination_by remaining
decreasing_by
  have := List.length_pos_of_ne_nil _h
  omega

theorem readLoop_zero (acc : List β) : (readLoop 0 acc : Proc ω β ε _) = .ret (some acc) := by
  rw [readLoop, if_pos rfl]

theorem readLoop_pos {n : ℕ} (hn : n ≠ 0) (acc : List β) :
    (readLoop n acc : Proc ω β ε _) = .read n fun bs ↦
      if bs = [] then .ret none else readLoop (n - bs.length) (acc ++ bs) := by
  rw [readLoop, if_neg hn]
  simp only [dite_eq_ite]

theorem coherent_readLoop (n : ℕ) (acc : List β) : (readLoop n acc : Proc ω β ε _).Coherent := by
  induction n using Nat.strong_induction_on generalizing acc with
  | _ n ih =>
      by_cases hn : n = 0
      · subst hn; rw [readLoop_zero]; trivial
      rw [readLoop_pos hn]
      refine ⟨Nat.pos_of_ne_zero hn, fun bs ↦ ?_, fun b₁ b₂ h₁ h₂ hle ↦ ?_⟩
      · by_cases hbs : bs = []
        · simp only [hbs, if_pos, coherent_ret]
        · have := List.length_pos_of_ne_nil hbs
          simp only [if_neg hbs]
          exact ih _ (by omega) _
      · have hpos₁ := List.length_pos_of_ne_nil h₁
        have hpos₂ := List.length_pos_of_ne_nil h₂
        have hne : b₁ ++ b₂ ≠ [] := List.append_ne_nil_of_left_ne_nil h₁ _
        refine ⟨_, by simp only [if_neg h₁]; exact readLoop_pos (by omega) _, ?_⟩
        simp only [if_neg h₂, if_neg hne, List.length_append, List.append_assoc, Nat.sub_sub]

/-- Write until all of `xs` has been taken and return `true`; return `false` when the transport
takes nothing. -/
def writeLoop (xs : List ω) : Proc ω β ε Bool :=
  if _h : xs = [] then .ret true
  else .write xs fun n ↦ if _hn : n = 0 then .ret false else writeLoop (xs.drop n)
termination_by xs.length
decreasing_by
  have := List.length_pos_of_ne_nil _h
  simp only [List.length_drop]
  omega

theorem writeLoop_nil : (writeLoop [] : Proc ω β ε Bool) = .ret true := by
  rw [writeLoop, dif_pos rfl]

theorem writeLoop_ne_nil {xs : List ω} (h : xs ≠ []) :
    (writeLoop xs : Proc ω β ε Bool) =
      .write xs fun n ↦ if n = 0 then .ret false else writeLoop (xs.drop n) := by
  rw [writeLoop, dif_neg h]
  simp only [dite_eq_ite]

theorem coherent_writeLoop (xs : List ω) : (writeLoop xs : Proc ω β ε Bool).Coherent := by
  induction hn : xs.length using Nat.strong_induction_on generalizing xs with
  | _ n ih =>
      by_cases hxs : xs = []
      · subst hxs; rw [writeLoop_nil]; trivial
      have hpos := List.length_pos_of_ne_nil hxs
      rw [writeLoop_ne_nil hxs]
      refine ⟨hxs, fun m ↦ ?_, fun m m' h₁ h₂ hle ↦ ?_⟩
      · by_cases hm : m = 0
        · simp only [hm, if_pos, coherent_ret]
        · simp only [if_neg hm]
          exact ih (xs.drop m).length (by simp only [List.length_drop]; omega) _ rfl
      · have hne : xs.drop m ≠ [] :=
          List.ne_nil_of_length_pos (by simp only [List.length_drop]; omega)
        refine ⟨_, by simp only [if_neg (show m ≠ 0 by omega)]; exact writeLoop_ne_nil hne, ?_⟩
        simp only [if_neg (show m' ≠ 0 by omega), if_neg (show m + m' ≠ 0 by omega),
          List.drop_drop]

end Proc

/-! ## Coherent programs -/

/-- The programs whose behaviour does not depend on how their streams are cut. -/
def Prog (ω β ε α : Type) : Type := {p : Proc ω β ε α // p.Coherent}

namespace Prog

variable {ω β ε α γ : Type}

instance instMonad : Monad (Prog ω β ε) where
  pure a := ⟨.ret a, trivial⟩
  bind x f := ⟨x.1.bind fun a ↦ (f a).1, x.2.bind fun a ↦ (f a).2⟩

@[simp] theorem val_pure (a : α) : (pure a : Prog ω β ε α).1 = .ret a := rfl

@[simp] theorem val_bind (x : Prog ω β ε α) (f : α → Prog ω β ε γ) :
    (x >>= f).1 = x.1.bind fun a ↦ (f a).1 := rfl

/-- Read exactly `n` items, or report `none` when the stream ends before. -/
def readExact (n : ℕ) : Prog ω β ε (Option (List β)) :=
  ⟨Proc.readLoop n [], Proc.coherent_readLoop n []⟩

/-- Write all of `xs`, or report `false` when the transport stops taking items. -/
def writeAll (xs : List ω) : Prog ω β ε Bool :=
  ⟨Proc.writeLoop xs, Proc.coherent_writeLoop xs⟩

/-- Record an observation. -/
def emit (e : ε) : Prog ω β ε Unit := ⟨.emit e (.ret ()), trivial⟩

end Prog

end PeripheralBench.Stream

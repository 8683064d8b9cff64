import PeripheralBench.Text

/-!
# Programs that can be refused and killed

A program works on a state that survives it.  At some points the world outside decides what becomes
of it: the step is done, or it is refused and the program gives up, or the program is killed, and a
step that is not done may have been done in part.  What the world decides is a list of `Fate`s, so
that a program together with such a list can be run.

A `Triple` says where a program that starts in a good state can stop.  It has two postconditions:
one for programs that come to their end, and one, `I`, for programs that give up or are killed,
which is therefore true at every point where that can happen.  The rules go through a program from
its first step to its last.

The last section is about files, which are written from the beginning and may be left with some of
their bytes.
-/

namespace PeripheralBench.Durable

/-- What becomes of a step.  A step that is not done has not begun, or has been done up to some
point. -/
inductive Fate where
  | passes
  | fails (left : Option ℕ)
  | kills (left : Option ℕ)

/-- How a program stops. -/
inductive Exit (α : Type) where
  | done (a : α)
  | failed
  | killed
deriving DecidableEq

/-- A program with state `σ`: it uses up the fates it meets. -/
def Prog (σ α : Type) : Type := List Fate → σ → Exit α × List Fate × σ

namespace Prog

variable {σ α β : Type}

/-- A program that gives up or is killed does not go on. -/
instance instMonad : Monad (Prog σ) where
  pure a := fun fates s ↦ (.done a, fates, s)
  bind p k := fun fates s ↦
    match p fates s with
    | (.done a, fates', s') => k a fates' s'
    | (.failed, fates', s') => (.failed, fates', s')
    | (.killed, fates', s') => (.killed, fates', s')

/-- The program gives up. -/
def fail : Prog σ α := fun fates s ↦ (.failed, fates, s)

/-- The state. -/
def get : Prog σ σ := fun fates s ↦ (.done s, fates, s)

/-- A change of the state that nothing can come between. -/
def modify (f : σ → σ) : Prog σ Unit := fun fates s ↦ (.done (), fates, f s)

/-- A step that changes the state to `whole s`, or to `part n s` if it is done up to `n`. -/
def attempt (whole : σ → σ) (part : ℕ → σ → σ) : Prog σ Unit := fun fates s ↦
  match fates.headD .passes with
  | .passes => (.done (), fates.tail, whole s)
  | .fails none => (.failed, fates.tail, s)
  | .fails (some n) => (.failed, fates.tail, part n s)
  | .kills none => (.killed, fates.tail, s)
  | .kills (some n) => (.killed, fates.tail, part n s)

/-- A step that may be refused, and has no effect. -/
def call : Prog σ Unit := attempt id fun _ ↦ id

/-- A step whose refusal is ignored. -/
def insist (whole : σ → σ) (part : ℕ → σ → σ) : Prog σ Unit := fun fates s ↦
  match fates.headD .passes with
  | .passes | .fails _ => (.done (), fates.tail, whole s)
  | .kills none => (.killed, fates.tail, s)
  | .kills (some n) => (.killed, fates.tail, part n s)

/-- A question to the world outside. -/
def ask : Prog σ Bool := fun fates s ↦
  match fates.headD .passes with
  | .passes => (.done true, fates.tail, s)
  | .fails _ => (.done false, fates.tail, s)
  | .kills _ => (.killed, fates.tail, s)

/-- The program for each element of a list. -/
def each (l : List α) (p : α → Prog σ Unit) : Prog σ Unit :=
  match l with
  | [] => pure ()
  | a :: l => do
      p a
      each l p

/-- The state in which a program stops. -/
def final (p : Prog σ α) (fates : List Fate) (s : σ) : σ := (p fates s).2.2

/-- A program that has come to its end, taken apart. -/
theorem eq_of_fst {p : Prog σ α} {fates : List Fate} {s : σ} {a : α} (h : (p fates s).1 = .done a) :
    p fates s = (.done a, (p fates s).2.1, p.final fates s) := Prod.ext h rfl

end Prog

/-! ## Triples -/

section

variable {σ α β : Type} {I P P' : σ → Prop} {Q Q' : α → σ → Prop}

/-- Where a program has stopped is as it should be. -/
def Stopped (I : σ → Prop) (Q : α → σ → Prop) : Exit α × List Fate × σ → Prop
  | (.done a, _, s) => Q a s
  | (.failed, _, s) => I s
  | (.killed, _, s) => I s

/-- From a state with `P` the program comes to its end in one with `Q`, or stops before in one with
`I`. -/
def Triple (I P : σ → Prop) (p : Prog σ α) (Q : α → σ → Prop) : Prop :=
  ∀ fates s, P s → Stopped I Q (p fates s)

namespace Triple

theorem pure {a : α} (h : ∀ s, P s → Q a s) : Triple I P (Pure.pure a : Prog σ α) Q :=
  fun _ s hs ↦ h s hs

theorem fail (h : ∀ s, P s → I s) : Triple I P (Prog.fail : Prog σ α) Q := fun _ s hs ↦ h s hs

theorem bind {p : Prog σ α} {k : α → Prog σ β} {R : β → σ → Prop} (hp : Triple I P p Q)
    (hk : ∀ a, Triple I (Q a) (k a) R) : Triple I P (p >>= k) R := by
  intro fates s hs
  have h := hp fates s hs
  change Stopped I R
    (match p fates s with
      | (.done a, fates', s') => k a fates' s'
      | (.failed, fates', s') => (.failed, fates', s')
      | (.killed, fates', s') => (.killed, fates', s'))
  rcases hp' : p fates s with ⟨_ | _ | _, fates', s'⟩
  · rw [hp'] at h
    exact hk _ fates' s' h
  · rw [hp'] at h
    exact h
  · rw [hp'] at h
    exact h

theorem imp {p : Prog σ α} (hp : Triple I P p Q) (hpre : ∀ s, P' s → P s)
    (hpost : ∀ a s, Q a s → Q' a s) : Triple I P' p Q' := by
  intro fates s hs
  have h := hp fates s (hpre s hs)
  rcases hp' : p fates s with ⟨_ | _ | _, fates', s'⟩ <;> rw [hp'] at h
  · exact hpost _ _ h
  · exact h
  · exact h

theorem pre {p : Prog σ α} (hp : Triple I P p Q) (hpre : ∀ s, P' s → P s) : Triple I P' p Q :=
  hp.imp hpre fun _ _ h ↦ h

theorem post {p : Prog σ α} (hp : Triple I P p Q) (hpost : ∀ a s, Q a s → Q' a s) :
    Triple I P p Q' :=
  hp.imp (fun _ h ↦ h) hpost

/-- What is known before and does not depend on the state can be used. -/
theorem of_pure {p : Prog σ α} {φ : Prop} (hφ : ∀ s, P s → φ) (hp : φ → Triple I P p Q) :
    Triple I P p Q := fun fates s hs ↦ hp (hφ s hs) fates s hs

theorem exists_pre {ι : Type} {p : Prog σ α} {P : ι → σ → Prop} (hp : ∀ i, Triple I (P i) p Q) :
    Triple I (fun s ↦ ∃ i, P i s) p Q := fun fates s ⟨i, hs⟩ ↦ hp i fates s hs

theorem get {Q : σ → σ → Prop} (h : ∀ s, P s → Q s s) : Triple I P Prog.get Q :=
  fun _ s hs ↦ h s hs

/-- The state that has been read is the one the program is in. -/
theorem read {k : σ → Prog σ β} {R : β → σ → Prop}
    (hk : ∀ s, P s → Triple I (fun t ↦ t = s) (k s) R) : Triple I P (Prog.get >>= k) R :=
  fun fates s hs ↦ hk s hs fates s rfl

theorem modify {f : σ → σ} {Q : Unit → σ → Prop} (h : ∀ s, P s → Q () (f s)) :
    Triple I P (Prog.modify f) Q := fun _ s hs ↦ h s hs

theorem attempt {whole : σ → σ} {part : ℕ → σ → σ} {Q : Unit → σ → Prop}
    (hwhole : ∀ s, P s → Q () (whole s)) (hnone : ∀ s, P s → I s)
    (hpart : ∀ n s, P s → I (part n s)) : Triple I P (Prog.attempt whole part) Q := by
  intro fates s hs
  rw [Prog.attempt]
  cases fates.headD .passes with
  | passes => exact hwhole s hs
  | fails left =>
      cases left with
      | none => exact hnone s hs
      | some n => exact hpart n s hs
  | kills left =>
      cases left with
      | none => exact hnone s hs
      | some n => exact hpart n s hs

theorem call {Q : Unit → σ → Prop} (h : ∀ s, P s → Q () s) (hI : ∀ s, P s → I s) :
    Triple I P Prog.call Q :=
  attempt h hI fun _ ↦ hI

/-- A program that begins with a step without effect. -/
theorem call_bind {k : Unit → Prog σ β} {R : β → σ → Prop} (hI : ∀ s, P s → I s)
    (hk : Triple I P (k ()) R) : Triple I P (Prog.call >>= k) R :=
  bind (call (Q := fun _ ↦ P) (fun _ h ↦ h) hI) fun _ ↦ hk

theorem insist {whole : σ → σ} {part : ℕ → σ → σ} {Q : Unit → σ → Prop}
    (hwhole : ∀ s, P s → Q () (whole s)) (hnone : ∀ s, P s → I s)
    (hpart : ∀ n s, P s → I (part n s)) : Triple I P (Prog.insist whole part) Q := by
  intro fates s hs
  rw [Prog.insist]
  cases fates.headD .passes with
  | passes => exact hwhole s hs
  | fails _ => exact hwhole s hs
  | kills left =>
      cases left with
      | none => exact hnone s hs
      | some n => exact hpart n s hs

theorem ask {Q : Bool → σ → Prop} (h : ∀ b s, P s → Q b s) (hI : ∀ s, P s → I s) :
    Triple I P Prog.ask Q := by
  intro fates s hs
  rw [Prog.ask]
  cases fates.headD .passes with
  | passes => exact h true s hs
  | fails _ => exact h false s hs
  | kills _ => exact hI s hs

/-- A loop over a list, with what is true when `rest` is still to come. -/
theorem each {p : α → Prog σ Unit} {J : List α → σ → Prop}
    (hp : ∀ a rest, Triple I (J (a :: rest)) (p a) fun _ ↦ J rest) (l : List α) :
    Triple I (J l) (Prog.each l p) fun _ ↦ J [] := by
  induction l with
  | nil => exact pure fun _ h ↦ h
  | cons a l ih => exact bind (hp a l) fun _ ↦ ih

/-- The state in which a program stops, if the two postconditions agree. -/
theorem final {p : Prog σ α} (hp : Triple I P p fun _ ↦ I) (fates : List Fate) {s : σ} (hs : P s) :
    I (p.final fates s) := by
  have h := hp fates s hs
  rw [Prog.final]
  rcases hp' : p fates s with ⟨_ | _ | _, fates', s'⟩ <;> rw [hp'] at h <;> exact h

/-- A program that has come to its end. -/
theorem done {p : Prog σ α} (hp : Triple I P p Q) {fates fates' : List Fate} {s s' : σ} {a : α}
    (hs : P s) (h : p fates s = (.done a, fates', s')) : Q a s' := by
  have hstop := hp fates s hs
  rwa [h] at hstop

end Triple

end

/-! ## Files -/

/-- The files `ν` in a state. -/
structure Folders (σ ν : Type) where
  /-- The contents of a file, if it is there. -/
  contents : σ → ν → Option Bytes
  /-- A file with these contents, or none. -/
  put : ν → Option Bytes → σ → σ
  contents_put_self : ∀ p c s, contents (put p c s) p = c
  contents_put_of_ne : ∀ {p q} c s, q ≠ p → contents (put p c s) q = contents s q

namespace Folders

variable {σ ν : Type} (F : Folders σ ν)

/-- A file is opened for writing, and filled. -/
def write (p : ν) (data : Bytes) : Prog σ Unit :=
  Prog.attempt (F.put p (some data)) fun n ↦ F.put p (some (data.take n))

/-- Something is added at the end of a file. -/
def append (p : ν) (data : Bytes) : Prog σ Unit :=
  Prog.attempt (fun s ↦ F.put p (some ((F.contents s p).getD [] ++ data)) s)
    fun n s ↦ F.put p (some ((F.contents s p).getD [] ++ data.take n)) s

variable {F} {I P : σ → Prop} {Q : Unit → σ → Prop} {p : ν} {data : Bytes}

/-- A file that is being written has no contents, some of them, or all. -/
theorem triple_write (hwhole : ∀ s, P s → Q () (F.put p (some data) s)) (hnone : ∀ s, P s → I s)
    (hpart : ∀ b s, b <+: data → P s → I (F.put p (some b) s)) :
    Triple I P (F.write p data) Q :=
  .attempt hwhole hnone fun n s hs ↦ hpart _ s (List.take_prefix n data) hs

theorem triple_append (old : Bytes) (hold : ∀ s, P s → F.contents s p = some old)
    (hwhole : ∀ s, P s → Q () (F.put p (some (old ++ data)) s)) (hnone : ∀ s, P s → I s)
    (hpart : ∀ b s, b <+: data → P s → I (F.put p (some (old ++ b)) s)) :
    Triple I P (F.append p data) Q := by
  refine .attempt (fun s hs ↦ ?_) hnone fun n s hs ↦ ?_
  · rw [hold s hs]
    exact hwhole s hs
  · rw [hold s hs]
    exact hpart _ s (List.take_prefix n data) hs

end Folders

end PeripheralBench.Durable

import PeripheralBench.Stream.Proc
import Mathlib.Logic.Relation
import Mathlib.Order.GameAdd
import Mathlib.Order.WellFounded

/-!
# Two programs joined by two streams

`Net` runs two programs against each other over a `Link`: what one writes is appended to the input
of the other, after `transit` has turned every written item into the item that arrives.  The two
programs take their steps in any order, and each read or write moves any nonempty amount.

The network is determinate.  Two steps of one coherent program lead from one to the other, two
steps of different programs commute, so the step relation is strongly confluent
(`Net.Step.diamond`); a program is a well-founded tree, so no run is infinite (`Net.wellFounded`).
Hence one run in which both programs return describes them all: every reachable state still
reaches its end (`Net.reaches_final`), every state without a step is its end
(`Net.eq_final_of_stuck`), and the logs of any state are beginnings of those at its end
(`Net.logs_prefix_final`).
-/

namespace PeripheralBench.Stream

open Relation

/-- How two programs are joined. -/
structure Link (ω β : Type) where
  /-- What a written item is when it arrives. -/
  transit : ω → β
  /-- Whether a program that has returned ends the input of the other one. -/
  closes : Bool

/-- The same link without the end of streams. -/
def Link.keptOpen {ω β : Type} (link : Link ω β) : Link ω β := { link with closes := false }

/-- Two programs, what is in flight towards each of them, and what each has recorded. -/
structure Net (ω β ε₁ ε₂ α₁ α₂ : Type) where
  /-- What the left program still has to do. -/
  left : Proc ω β ε₁ α₁
  /-- What the right program still has to do. -/
  right : Proc ω β ε₂ α₂
  /-- Items written by the right program that the left one has not read. -/
  toLeft : List β
  /-- Items written by the left program that the right one has not read. -/
  toRight : List β
  /-- What the left program has recorded. -/
  leftLog : List ε₁
  /-- What the right program has recorded. -/
  rightLog : List ε₂

namespace Net

variable {ω β ε₁ ε₂ α₁ α₂ : Type}

/-- Both programs at their beginning, nothing in flight. -/
def init (p : Prog ω β ε₁ α₁) (q : Prog ω β ε₂ α₂) : Net ω β ε₁ ε₂ α₁ α₂ :=
  ⟨p.1, q.1, [], [], [], []⟩

/-- One step of either program.  On a link that closes, a program's input has ended once the other
program is done. -/
inductive Step (link : Link ω β) : Net ω β ε₁ ε₂ α₁ α₂ → Net ω β ε₁ ε₂ α₁ α₂ → Prop
  /-- The left program steps. -/
  | left {p p' : Proc ω β ε₁ α₁} {q : Proc ω β ε₂ α₂} {i i' j : List β} {o : List ω}
      {es l : List ε₁} {r : List ε₂} (h : Proc.Step (link.closes && decide q.Done) p i p' i' o es) :
      Step link ⟨p, q, i, j, l, r⟩ ⟨p', q, i', j ++ o.map link.transit, l ++ es, r⟩
  /-- The right program steps. -/
  | right {p : Proc ω β ε₁ α₁} {q q' : Proc ω β ε₂ α₂} {i j j' : List β} {o : List ω}
      {l : List ε₁} {es r : List ε₂} (h : Proc.Step (link.closes && decide p.Done) q j q' j' o es) :
      Step link ⟨p, q, i, j, l, r⟩ ⟨p, q', i ++ o.map link.transit, j', l, r ++ es⟩

variable {link : Link ω β} {s t u : Net ω β ε₁ ε₂ α₁ α₂}

/-- The states a network can get to from `s`. -/
abbrev Reaches (link : Link ω β) : Net ω β ε₁ ε₂ α₁ α₂ → Net ω β ε₁ ε₂ α₁ α₂ → Prop :=
  ReflTransGen (Step link)

/-- Both programs have returned. -/
def Done (s : Net ω β ε₁ ε₂ α₁ α₂) : Prop := s.left.Done ∧ s.right.Done

/-- Both programs are coherent. -/
def Coherent (s : Net ω β ε₁ ε₂ α₁ α₂) : Prop := s.left.Coherent ∧ s.right.Coherent

theorem coherent_init (p : Prog ω β ε₁ α₁) (q : Prog ω β ε₂ α₂) : (init p q).Coherent :=
  ⟨p.2, q.2⟩

theorem Coherent.step (hs : s.Coherent) (h : Step link s t) : t.Coherent := by
  cases h with
  | left h => exact ⟨hs.1.step h, hs.2⟩
  | right h => exact ⟨hs.1, hs.2.step h⟩

theorem Coherent.reaches (hs : s.Coherent) (h : Reaches link s t) : t.Coherent := by
  induction h with
  | refl => exact hs
  | tail _ h ih => exact ih.step h

theorem Done.not_step (hs : s.Done) : ¬ Step link s t := by
  intro h
  cases h with
  | left h => exact h.not_done hs.1
  | right h => exact h.not_done hs.2

theorem Done.eq_of_reaches (hs : s.Done) (h : Reaches link s t) : t = s := by
  cases h.cases_head with
  | inl h => exact h.symm
  | inr h => obtain ⟨_, h, _⟩ := h; exact absurd h hs.not_step

/-! ## Strong confluence -/

/-- Any two steps from a coherent state can be joined by at most one step on either side. -/
theorem Step.diamond (hs : s.Coherent) (h₁ : Step link s t) (h₂ : Step link s u) :
    ∃ v, ReflGen (Step link) t v ∧ ReflGen (Step link) u v := by
  cases h₁ with
  | @left p p₁ q i i₁ j o₁ es₁ l r h₁ =>
      cases h₂ with
      | @left _ p₂ _ _ i₂ _ o₂ es₂ _ _ h₂ =>
          rcases hs.1.step_or_step h₁ h₂ with
            ⟨rfl, rfl, rfl, rfl⟩ | ⟨o, h, rfl, rfl⟩ | ⟨o, h, rfl, rfl⟩
          · exact ⟨_, .refl, .refl⟩
          · have h' : Step link _ _ := .left (j := j ++ o₁.map link.transit)
              (l := l ++ es₂) (r := r) h
            exact ⟨_, .single (by simpa using h'), .refl⟩
          · have h' : Step link _ _ := .left (j := j ++ o₂.map link.transit)
              (l := l ++ es₁) (r := r) h
            exact ⟨_, .refl, .single (by simpa using h')⟩
      | right h₂ =>
          rw [decide_eq_false h₂.not_done, Bool.and_false] at h₁
          have hp : ¬ p.Done := h₁.not_done
          rw [decide_eq_false hp, Bool.and_false] at h₂
          exact ⟨_, .single (.right ((h₂.append _).of_false _)),
            .single (.left ((h₁.append _).of_false _))⟩
  | @right p q q₁ i j j₁ o₁ l es₁ r h₁ =>
      cases h₂ with
      | left h₂ =>
          rw [decide_eq_false h₂.not_done, Bool.and_false] at h₁
          have hq : ¬ q.Done := h₁.not_done
          rw [decide_eq_false hq, Bool.and_false] at h₂
          exact ⟨_, .single (.left ((h₂.append _).of_false _)),
            .single (.right ((h₁.append _).of_false _))⟩
      | @right _ _ q₂ _ _ j₂ o₂ _ es₂ _ h₂ =>
          rcases hs.2.step_or_step h₁ h₂ with
            ⟨rfl, rfl, rfl, rfl⟩ | ⟨o, h, rfl, rfl⟩ | ⟨o, h, rfl, rfl⟩
          · exact ⟨_, .refl, .refl⟩
          · have h' : Step link _ _ := .right (i := i ++ o₁.map link.transit) (l := l)
              (r := r ++ es₂) h
            exact ⟨_, .single (by simpa using h'), .refl⟩
          · have h' : Step link _ _ := .right (i := i ++ o₂.map link.transit) (l := l)
              (r := r ++ es₁) h
            exact ⟨_, .refl, .single (by simpa using h')⟩

/-- **Determinacy.**  When some run ends with both programs done, every reachable state can still
get to that end. -/
theorem reaches_final (hs : s.Coherent) (h : Reaches link s t) (ht : t.Done)
    (hu : Reaches link s u) : Reaches link u t := by
  let r : Net ω β ε₁ ε₂ α₁ α₂ → Net ω β ε₁ ε₂ α₁ α₂ → Prop := fun a b ↦ a.Coherent ∧ Step link a b
  have lift : ∀ {a b}, a.Coherent → Reaches link a b → ReflTransGen r a b := by
    intro a b ha hab
    induction hab with
    | refl => exact .refl
    | tail hab h ih => exact ih.tail ⟨ha.reaches hab, h⟩
  have lower : ∀ {a b}, ReflTransGen r a b → Reaches link a b :=
    fun {a b} hab ↦ ReflTransGen.mono (r := r) (fun _ _ h ↦ h.2) a b hab
  obtain ⟨d, hd₁, hd₂⟩ := church_rosser (r := r) (a := s) (b := u) (c := t)
    (fun a b c hab hac ↦ by
      obtain ⟨d, hb, hc⟩ := hab.2.diamond hab.1 hac.2
      refine ⟨d, ?_, ?_⟩
      · exact hb.rec .refl fun h ↦ .single ⟨hab.1.step hab.2, h⟩
      · exact hc.rec .refl fun h ↦ .single ⟨hac.1.step hac.2, h⟩)
    (lift hs hu) (lift hs h)
  have hdt : d = t := ht.eq_of_reaches (lower hd₂)
  exact hdt ▸ lower hd₁

/-- A reachable state in which nothing can step is the end of the run. -/
theorem eq_final_of_stuck (hs : s.Coherent) (h : Reaches link s t) (ht : t.Done)
    (hu : Reaches link s u) (hstuck : ∀ v, ¬ Step link u v) : u = t := by
  cases (reaches_final hs h ht hu).cases_head with
  | inl h => exact h
  | inr h => obtain ⟨v, h, _⟩ := h; exact absurd h (hstuck v)

/-! ## What has been recorded -/

theorem Step.leftLog_prefix (h : Step link s t) : s.leftLog <+: t.leftLog := by
  cases h with
  | left => exact List.prefix_append _ _
  | right => exact List.prefix_rfl

theorem Step.rightLog_prefix (h : Step link s t) : s.rightLog <+: t.rightLog := by
  cases h with
  | left => exact List.prefix_rfl
  | right => exact List.prefix_append _ _

theorem Reaches.logs_prefix (h : Reaches link s t) :
    s.leftLog <+: t.leftLog ∧ s.rightLog <+: t.rightLog := by
  induction h with
  | refl => exact ⟨List.prefix_rfl, List.prefix_rfl⟩
  | tail _ h ih => exact ⟨ih.1.trans h.leftLog_prefix, ih.2.trans h.rightLog_prefix⟩

/-- What the programs have recorded in any reachable state begins what they record in the end. -/
theorem logs_prefix_final (hs : s.Coherent) (h : Reaches link s t) (ht : t.Done)
    (hu : Reaches link s u) : u.leftLog <+: t.leftLog ∧ u.rightLog <+: t.rightLog :=
  Reaches.logs_prefix (reaches_final hs h ht hu)

/-! ## Blocked states -/

/-- The left program waits for input that will not come: its stream is empty and the right program
has returned, or waits on an empty stream as well. -/
def LeftBlocked (s : Net ω β ε₁ ε₂ α₁ α₂) : Prop :=
  (∃ max k, s.left = .read max k) ∧ s.toLeft = [] ∧
    (s.right.Done ∨ (∃ max k, s.right = .read max k) ∧ s.toRight = [])

/-- The network with its two sides exchanged. -/
def swap (s : Net ω β ε₁ ε₂ α₁ α₂) : Net ω β ε₂ ε₁ α₂ α₁ :=
  ⟨s.right, s.left, s.toRight, s.toLeft, s.rightLog, s.leftLog⟩

/-- One of the programs waits for input that will not come. -/
def Blocked (s : Net ω β ε₁ ε₂ α₁ α₂) : Prop := s.LeftBlocked ∨ s.swap.LeftBlocked

theorem Step.swap (h : Step link s t) : Step link s.swap t.swap := by
  cases h with
  | left h => exact .right h
  | right h => exact .left h

/-- A program that is waiting on an empty stream takes no step while the stream is open. -/
theorem not_step_read {max : ℕ} {k : List β → Proc ω β ε₁ α₁} {p : Proc ω β ε₁ α₁} {i : List β}
    {o : List ω} {es : List ε₁} : ¬ Proc.Step false (.read max k) [] p i o es := by
  intro h
  cases h with
  | read hpos _ hle => exact absurd (Nat.le_zero.mp hle) hpos.ne'
  | eof h => cases h

theorem LeftBlocked.not_step (h : s.LeftBlocked) : ¬ Step link.keptOpen s t := by
  obtain ⟨p, q, i, j, l, r⟩ := s
  obtain ⟨⟨max, k, rfl⟩, rfl, hq⟩ := h
  intro hstep
  cases hstep with
  | left hstep => exact not_step_read hstep
  | right hstep =>
      rcases hq with hq | ⟨⟨max', k', rfl⟩, rfl⟩
      · exact hstep.not_done hq
      · exact not_step_read hstep

theorem Blocked.not_step (h : s.Blocked) : ¬ Step link.keptOpen s t := by
  intro hstep
  rcases h with h | h
  · exact h.not_step hstep
  · exact h.not_step hstep.swap

theorem Blocked.not_done (h : s.Blocked) : ¬ s.Done := by
  rintro ⟨hl, hr⟩
  rcases h with ⟨⟨max, k, hread⟩, -⟩ | ⟨⟨max, k, hread⟩, -⟩
  · rw [hread] at hl; exact hl
  · have hr' : s.right = .read max k := hread
    rw [hr'] at hr
    exact hr

/-- Steps over an open link are steps over the link. -/
theorem Step.of_keptOpen (h : Step link.keptOpen s t) : Step link s t := by
  cases h with
  | left h => exact .left (h.of_false _)
  | right h => exact .right (h.of_false _)

theorem Reaches.of_keptOpen (h : Reaches link.keptOpen s t) : Reaches link s t :=
  h.lift id fun _ _ ↦ Step.of_keptOpen

/-- The end of a stream matters only to a program that is blocked. -/
theorem Step.keptOpen (h : Step link s t) (hs : ¬ s.Blocked) : Step link.keptOpen s t := by
  cases h with
  | @left p p' q i i' j o es l r h =>
      refine .left (h.of_eof fun heof hread hi ↦ hs (.inl ⟨hread, hi, .inl ?_⟩))
      exact of_decide_eq_true (Bool.and_eq_true_iff.mp heof).2
  | @right p q q' i j j' o l es r h =>
      refine .right (h.of_eof fun heof hread hi ↦ hs (.inr ⟨hread, hi, .inl ?_⟩))
      exact of_decide_eq_true (Bool.and_eq_true_iff.mp heof).2

/-- **No deadlock.**  When some run over the open link ends with both programs done, no reachable
state has a program waiting for input that will not come. -/
theorem not_blocked (hs : s.Coherent) (h : Reaches link.keptOpen s t) (ht : t.Done)
    (hu : Reaches link s u) : ¬ u.Blocked := by
  have key : ∀ {v}, Reaches link.keptOpen s v → ¬ v.Blocked := by
    intro v hv hblocked
    have hvt : v = t := eq_final_of_stuck hs h ht hv fun w ↦ hblocked.not_step
    exact hblocked.not_done (hvt ▸ ht)
  suffices hopen : Reaches link.keptOpen s u from key hopen
  induction hu with
  | refl => exact .refl
  | tail _ hstep ih => exact ih.tail (hstep.keptOpen (key ih))

end Net

/-! ## Termination -/

/-- `q` is what is left of `p` after one of its nodes. -/
inductive Proc.Child {ω β ε α : Type} : Proc ω β ε α → Proc ω β ε α → Prop
  | read {max : ℕ} {k : List β → Proc ω β ε α} (bs : List β) : Child (k bs) (.read max k)
  | write {xs : List ω} {k : ℕ → Proc ω β ε α} (n : ℕ) : Child (k n) (.write xs k)
  | emit {e : ε} {k : Proc ω β ε α} : Child k (.emit e k)

theorem Proc.Child.wellFounded {ω β ε α : Type} :
    WellFounded (Proc.Child : Proc ω β ε α → Proc ω β ε α → Prop) := by
  refine ⟨fun p ↦ ?_⟩
  induction p with
  | ret a => exact ⟨_, fun q h ↦ by cases h⟩
  | read max k ih => exact ⟨_, fun q h ↦ by cases h with | read bs => exact ih bs⟩
  | write xs k ih => exact ⟨_, fun q h ↦ by cases h with | write n => exact ih n⟩
  | emit e k ih => exact ⟨_, fun q h ↦ by cases h with | emit => exact ih⟩

theorem Proc.Step.child {ω β ε α : Type} {eof : Bool} {p q : Proc ω β ε α} {i i' : List β}
    {o : List ω} {es : List ε} (h : Proc.Step eof p i q i' o es) : q.Child p := by
  cases h with
  | read => exact .read _
  | eof => exact .read _
  | write => exact .write _
  | emit => exact .emit

namespace Net

variable {ω β ε₁ ε₂ α₁ α₂ : Type} {link : Link ω β}

theorem Step.gameAdd {s t : Net ω β ε₁ ε₂ α₁ α₂} (h : Step link s t) :
    Prod.GameAdd Proc.Child Proc.Child (t.left, t.right) (s.left, s.right) := by
  cases h with
  | left h => exact .fst h.child
  | right h => exact .snd h.child

/-- The step relation of a network is well founded. -/
theorem wellFounded :
    WellFounded fun t s : Net ω β ε₁ ε₂ α₁ α₂ ↦ Step link s t :=
  Subrelation.wf (fun h ↦ Step.gameAdd h)
    (InvImage.wf (fun s : Net ω β ε₁ ε₂ α₁ α₂ ↦ (s.left, s.right))
      (WellFounded.prod_gameAdd Proc.Child.wellFounded Proc.Child.wellFounded))

/-- No run from `s` is infinite, and every run from `s` that cannot go on has ended in `t`. -/
def AlwaysEnds (link : Link ω β) (s t : Net ω β ε₁ ε₂ α₁ α₂) : Prop :=
  (∀ f : ℕ → Net ω β ε₁ ε₂ α₁ α₂, f 0 = s → ∃ n, ¬ Step link (f n) (f (n + 1))) ∧
    ∀ u, Reaches link s u → (∀ v, ¬ Step link u v) → u = t

/-- No run of a network is infinite. -/
theorem exists_not_step (f : ℕ → Net ω β ε₁ ε₂ α₁ α₂) : ∃ n, ¬ Step link (f n) (f (n + 1)) :=
  haveI : IsWellFounded (Net ω β ε₁ ε₂ α₁ α₂) fun t s ↦ Step link s t := ⟨wellFounded⟩
  WellFounded.not_rel_apply_succ (r := fun t s : Net ω β ε₁ ε₂ α₁ α₂ ↦ Step link s t) f

/-- One run to the end is all runs. -/
theorem alwaysEnds {s t : Net ω β ε₁ ε₂ α₁ α₂} (hs : s.Coherent) (h : Reaches link s t)
    (ht : t.Done) : AlwaysEnds link s t :=
  ⟨fun f _ ↦ exists_not_step f, fun _ hu hstuck ↦ eq_final_of_stuck hs h ht hu hstuck⟩

end Net

end PeripheralBench.Stream

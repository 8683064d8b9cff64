import PeripheralBench.Stream.Net

/-!
# Specifying a program by its conversation

To show what a network does it is enough to exhibit one run, and one run is most easily described
by the messages exchanged.  `Consumes p bs es q` says that `p` can read exactly `bs`, recording
`es`, and become `q`; `Produces p xs es q` says the same of writing.  `Talk p acts es q` strings
such phases together.  All three compose along `Proc.bind`, so the specification of a program is
put together from those of its parts, one party at a time.

`Net.reaches_of_talk` joins the two parties: when the left program talks through a list of messages
and the right program talks through the same list from the other side, the network has the run in
which each message is written and then read.  `Proc.drain` runs a program whose peer has gone.
-/

namespace PeripheralBench.Stream

open Relation

/-- One phase of a conversation, seen from one program. -/
inductive Act (ω β : Type) where
  /-- These items are read. -/
  | inp (bs : List β)
  /-- These items are written. -/
  | out (xs : List ω)

namespace Proc

variable {ω β ε α γ : Type}

/-- `p` can read exactly `bs`, recording `es`, and become `q`. -/
inductive Consumes : Proc ω β ε α → List β → List ε → Proc ω β ε α → Prop
  /-- Nothing is read. -/
  | refl (p : Proc ω β ε α) : Consumes p [] [] p
  /-- One read, answered with `bs`. -/
  | read {max : ℕ} {k : List β → Proc ω β ε α} {bs cs : List β} {es : List ε} {q : Proc ω β ε α}
      (hne : bs ≠ []) (hle : bs.length ≤ max) (h : Consumes (k bs) cs es q) :
      Consumes (.read max k) (bs ++ cs) es q
  /-- An observation on the way. -/
  | emit {e : ε} {k q : Proc ω β ε α} {bs : List β} {es : List ε} (h : Consumes k bs es q) :
      Consumes (.emit e k) bs (e :: es) q

/-- `p` can write exactly `xs`, recording `es`, and become `q`. -/
inductive Produces : Proc ω β ε α → List ω → List ε → Proc ω β ε α → Prop
  /-- Nothing is written. -/
  | refl (p : Proc ω β ε α) : Produces p [] [] p
  /-- One write, taken whole. -/
  | write {xs ys : List ω} {k : ℕ → Proc ω β ε α} {es : List ε} {q : Proc ω β ε α}
      (hne : xs ≠ []) (h : Produces (k xs.length) ys es q) :
      Produces (.write xs k) (xs ++ ys) es q
  /-- An observation on the way. -/
  | emit {e : ε} {k q : Proc ω β ε α} {xs : List ω} {es : List ε} (h : Produces k xs es q) :
      Produces (.emit e k) xs (e :: es) q

theorem Consumes.trans {p q r : Proc ω β ε α} {bs cs : List β} {es fs : List ε}
    (h₁ : Consumes p bs es q) (h₂ : Consumes q cs fs r) : Consumes p (bs ++ cs) (es ++ fs) r := by
  induction h₁ with
  | refl => exact h₂
  | read hne hle _ ih => rw [List.append_assoc]; exact .read hne hle (ih h₂)
  | emit _ ih => exact .emit (ih h₂)

theorem Consumes.bind {p q : Proc ω β ε α} {bs : List β} {es : List ε} (h : Consumes p bs es q)
    (f : α → Proc ω β ε γ) : Consumes (p.bind f) bs es (q.bind f) := by
  induction h with
  | refl => exact .refl _
  | read hne hle _ ih => exact .read hne hle ih
  | emit _ ih => exact .emit ih

theorem Produces.trans {p q r : Proc ω β ε α} {xs ys : List ω} {es fs : List ε}
    (h₁ : Produces p xs es q) (h₂ : Produces q ys fs r) : Produces p (xs ++ ys) (es ++ fs) r := by
  induction h₁ with
  | refl => exact h₂
  | write hne _ ih => rw [List.append_assoc]; exact .write hne (ih h₂)
  | emit _ ih => exact .emit (ih h₂)

theorem Produces.bind {p q : Proc ω β ε α} {xs : List ω} {es : List ε} (h : Produces p xs es q)
    (f : α → Proc ω β ε γ) : Produces (p.bind f) xs es (q.bind f) := by
  induction h with
  | refl => exact .refl _
  | write hne _ ih => exact .write hne ih
  | emit _ ih => exact .emit ih

/-- A phase in which nothing is read can also be seen as one in which nothing is written. -/
theorem Consumes.produces {p q : Proc ω β ε α} {bs : List β} {es : List ε}
    (h : Consumes p bs es q) (hbs : bs = []) : Produces p [] es q := by
  induction h with
  | refl => exact .refl _
  | read hne => exact absurd (List.append_eq_nil_iff.mp hbs).1 hne
  | emit _ ih => exact .emit (ih hbs)

/-! ## Conversations -/

/-- `p` can go through the phases `acts` in order, recording `es`, and become `q`. -/
def Talk (p : Proc ω β ε α) : List (Act ω β) → List ε → Proc ω β ε α → Prop
  | [], es, q => Consumes p [] es q
  | .inp bs :: acts, es, q =>
      ∃ r e₁ e₂, es = e₁ ++ e₂ ∧ Consumes p bs e₁ r ∧ Talk r acts e₂ q
  | .out xs :: acts, es, q =>
      ∃ r e₁ e₂, es = e₁ ++ e₂ ∧ Produces p xs e₁ r ∧ Talk r acts e₂ q

theorem Consumes.talk {p q : Proc ω β ε α} {bs : List β} {es : List ε} (h : Consumes p bs es q) :
    Talk p [.inp bs] es q := ⟨q, es, [], by simp, h, .refl q⟩

theorem Produces.talk {p q : Proc ω β ε α} {xs : List ω} {es : List ε} (h : Produces p xs es q) :
    Talk p [.out xs] es q := ⟨q, es, [], by simp, h, .refl q⟩

/-- A phase in which nothing is read is no phase at all. -/
theorem Consumes.talk_nil {p q : Proc ω β ε α} {es : List ε} (h : Consumes p [] es q) :
    Talk p [] es q := h

theorem Talk.refl (p : Proc ω β ε α) : Talk p [] [] p := Consumes.refl p

/-- Observations may be recorded before a conversation. -/
theorem Talk.emits {p q r : Proc ω β ε α} {acts : List (Act ω β)} {es fs : List ε}
    (h₁ : Consumes p [] es q) (h₂ : Talk q acts fs r) : Talk p acts (es ++ fs) r := by
  cases acts with
  | nil => exact h₁.trans h₂
  | cons act acts =>
      cases act with
      | inp bs =>
          obtain ⟨s, e₁, e₂, rfl, hc, ht⟩ := h₂
          exact ⟨s, es ++ e₁, e₂, by simp, h₁.trans hc, ht⟩
      | out xs =>
          obtain ⟨s, e₁, e₂, rfl, hc, ht⟩ := h₂
          exact ⟨s, es ++ e₁, e₂, by simp, (h₁.produces rfl).trans hc, ht⟩

theorem Talk.trans {p q r : Proc ω β ε α} {acts acts' : List (Act ω β)} {es fs : List ε}
    (h₁ : Talk p acts es q) (h₂ : Talk q acts' fs r) : Talk p (acts ++ acts') (es ++ fs) r := by
  induction acts generalizing p es with
  | nil => exact Talk.emits h₁ h₂
  | cons act acts ih =>
      cases act with
      | inp bs =>
          obtain ⟨s, e₁, e₂, rfl, hc, ht⟩ := h₁
          exact ⟨s, e₁, e₂ ++ fs, by simp, hc, ih ht⟩
      | out xs =>
          obtain ⟨s, e₁, e₂, rfl, hc, ht⟩ := h₁
          exact ⟨s, e₁, e₂ ++ fs, by simp, hc, ih ht⟩

theorem Talk.bind {p q : Proc ω β ε α} {acts : List (Act ω β)} {es : List ε}
    (h : Talk p acts es q) (f : α → Proc ω β ε γ) : Talk (p.bind f) acts es (q.bind f) := by
  induction acts generalizing p es with
  | nil => exact Consumes.bind h f
  | cons act acts ih =>
      cases act with
      | inp bs =>
          obtain ⟨s, e₁, e₂, rfl, hc, ht⟩ := h
          exact ⟨s.bind f, e₁, e₂, rfl, hc.bind f, ih ht⟩
      | out xs =>
          obtain ⟨s, e₁, e₂, rfl, hc, ht⟩ := h
          exact ⟨s.bind f, e₁, e₂, rfl, hc.bind f, ih ht⟩

/-! ## The retry loops -/

theorem consumes_readLoop {n : ℕ} {bs : List β} (h : bs.length = n) (acc : List β) :
    Consumes (readLoop n acc : Proc ω β ε _) bs [] (.ret (some (acc ++ bs))) := by
  by_cases hn : n = 0
  · subst hn
    obtain rfl := List.length_eq_zero_iff.mp h
    rw [readLoop_zero, List.append_nil]
    exact .refl _
  · have hne : bs ≠ [] := List.ne_nil_of_length_pos (by omega)
    rw [readLoop_pos hn, ← List.append_nil bs]
    refine .read hne h.le ?_
    rw [if_neg hne, h, Nat.sub_self, readLoop_zero, List.append_nil]
    exact .refl _

theorem produces_writeLoop (xs : List ω) :
    Produces (writeLoop xs : Proc ω β ε Bool) xs [] (.ret true) := by
  by_cases hxs : xs = []
  · subst hxs; rw [writeLoop_nil]; exact .refl _
  · have hlen : xs.length ≠ 0 := fun h ↦ hxs (List.length_eq_zero_iff.mp h)
    have h : Produces (.write xs fun n ↦ if n = 0 then .ret false else writeLoop (xs.drop n))
        (xs ++ []) [] (.ret true : Proc ω β ε Bool) := by
      refine .write hxs ?_
      rw [if_neg hlen, List.drop_length, writeLoop_nil]
      exact .refl _
    rw [List.append_nil] at h
    rwa [writeLoop_ne_nil hxs]

/-! ## A program whose peer has gone -/

/-- What a program records and returns when every read reports the end of the stream and every
write is taken. -/
def drain : Proc ω β ε α → List ε × α
  | .ret a => ([], a)
  | .read _ k => (k []).drain
  | .write xs k => (k xs.length).drain
  | .emit e k => (e :: k.drain.1, k.drain.2)

@[simp] theorem drain_ret (a : α) : (Proc.ret a : Proc ω β ε α).drain = ([], a) := rfl

theorem drain_bind (p : Proc ω β ε α) (f : α → Proc ω β ε γ) :
    (p.bind f).drain = (p.drain.1 ++ (f p.drain.2).drain.1, (f p.drain.2).drain.2) := by
  induction p with
  | ret a => simp
  | read max k ih => exact ih []
  | write xs k ih => exact ih xs.length
  | emit e k ih => simp only [bind_emit, drain, ih, List.cons_append]

theorem drain_readLoop {n : ℕ} (hn : n ≠ 0) (acc : List β) :
    (readLoop n acc : Proc ω β ε _).drain = ([], none) := by
  rw [readLoop_pos hn]; rfl

theorem drain_writeLoop (xs : List ω) : (writeLoop xs : Proc ω β ε Bool).drain = ([], true) := by
  by_cases hxs : xs = []
  · subst hxs; rw [writeLoop_nil]; rfl
  · have hlen : xs.length ≠ 0 := fun h ↦ hxs (List.length_eq_zero_iff.mp h)
    rw [writeLoop_ne_nil hxs]
    simp only [drain, if_neg hlen, List.drop_length, writeLoop_nil]

end Proc

/-! ## Joining the two sides -/

/-- A message of a conversation and the direction it goes. -/
inductive Message (ω : Type) where
  /-- Written by the right program. -/
  | toLeft (xs : List ω)
  /-- Written by the left program. -/
  | toRight (xs : List ω)

namespace Message

variable {ω β : Type}

/-- The message as the left program sees it. -/
def leftAct (transit : ω → β) : Message ω → Act ω β
  | .toLeft xs => .inp (xs.map transit)
  | .toRight xs => .out xs

/-- The message as the right program sees it. -/
def rightAct (transit : ω → β) : Message ω → Act ω β
  | .toLeft xs => .out xs
  | .toRight xs => .inp (xs.map transit)

end Message

namespace Net

variable {ω β ε₁ ε₂ α₁ α₂ : Type} {link : Link ω β}

theorem Reaches.swap {s t : Net ω β ε₁ ε₂ α₁ α₂} (h : Reaches link s t) :
    Reaches link s.swap t.swap := h.lift Net.swap fun _ _ ↦ Step.swap

variable (link) in
/-- The left program consumes what is waiting for it. -/
theorem reaches_of_consumes {p p' : Proc ω β ε₁ α₁} {bs : List β} {es : List ε₁}
    (h : p.Consumes bs es p') (q : Proc ω β ε₂ α₂) (i j : List β) (l : List ε₁) (r : List ε₂) :
    Reaches link ⟨p, q, bs ++ i, j, l, r⟩ ⟨p', q, i, j, l ++ es, r⟩ := by
  induction h generalizing l with
  | refl => rw [List.append_nil]; exact .refl
  | @read max k bs cs es p' hne hle _ ih =>
      have hs : Proc.Step (link.closes && decide q.Done) (.read max k) (bs ++ (cs ++ i))
          (k bs) (cs ++ i) [] [] := by
        have h' : Proc.Step (link.closes && decide q.Done) (.read max k) (bs ++ (cs ++ i))
            (k ((bs ++ (cs ++ i)).take bs.length)) ((bs ++ (cs ++ i)).drop bs.length) [] [] :=
          .read (List.length_pos_of_ne_nil hne) hle (by simp only [List.length_append]; omega)
        rwa [List.take_left, List.drop_left] at h'
      have hn : Step link _ _ := Step.left (j := j) (l := l) (r := r) hs
      rw [List.append_assoc]
      refine .head hn ?_
      simpa only [List.map_nil, List.append_nil] using ih l
  | @emit e k p' bs es _ ih =>
      have hn : Step link ⟨.emit e k, q, bs ++ i, j, l, r⟩ _ := Step.left .emit
      refine .head hn ?_
      simpa only [List.map_nil, List.append_nil, List.append_assoc, List.singleton_append]
        using ih (l ++ [e])

variable (link) in
/-- What the left program produces is waiting for the right one. -/
theorem reaches_of_produces {p p' : Proc ω β ε₁ α₁} {xs : List ω} {es : List ε₁}
    (h : p.Produces xs es p') (q : Proc ω β ε₂ α₂) (i j : List β) (l : List ε₁) (r : List ε₂) :
    Reaches link ⟨p, q, i, j, l, r⟩ ⟨p', q, i, j ++ xs.map link.transit, l ++ es, r⟩ := by
  induction h generalizing j l with
  | refl => simp only [List.map_nil, List.append_nil]; exact .refl
  | @write xs ys k es p' hne _ ih =>
      have hs : Proc.Step (link.closes && decide q.Done) (.write xs k) i (k xs.length) i xs [] := by
        have h' : Proc.Step (link.closes && decide q.Done) (.write xs k) i (k xs.length) i
            (xs.take xs.length) [] := .write (List.length_pos_of_ne_nil hne) le_rfl
        rwa [List.take_length] at h'
      have hn : Step link _ _ := Step.left (j := j) (l := l) (r := r) hs
      refine .head hn ?_
      simpa only [List.map_append, List.append_assoc, List.append_nil]
        using ih (j ++ xs.map link.transit) l
  | @emit e k p' xs es _ ih =>
      have hn : Step link ⟨.emit e k, q, i, j, l, r⟩ _ := Step.left .emit
      refine .head hn ?_
      simpa only [List.map_nil, List.append_nil, List.append_assoc, List.singleton_append]
        using ih j (l ++ [e])

/-- Two programs that go through the same messages from opposite sides have a common run. -/
theorem reaches_of_talk {conv : List (Message ω)} {p p' : Proc ω β ε₁ α₁} {q q' : Proc ω β ε₂ α₂}
    {es : List ε₁} {fs : List ε₂} (hp : p.Talk (conv.map (Message.leftAct link.transit)) es p')
    (hq : q.Talk (conv.map (Message.rightAct link.transit)) fs q') (l : List ε₁) (r : List ε₂) :
    Reaches link ⟨p, q, [], [], l, r⟩ ⟨p', q', [], [], l ++ es, r ++ fs⟩ := by
  induction conv generalizing p q es fs l r with
  | nil =>
      have h₁ := reaches_of_consumes link hp q [] [] l r
      have h₂ := (reaches_of_consumes link hq p' [] [] r (l ++ es)).swap
      exact h₁.trans h₂
  | cons m conv ih =>
      cases m with
      | toRight xs =>
          obtain ⟨p₁, e₁, e₂, rfl, hp₁, hp₂⟩ := hp
          obtain ⟨q₁, f₁, f₂, rfl, hq₁, hq₂⟩ := hq
          have h₁ := reaches_of_produces link hp₁ q [] [] l r
          have h₂ := (reaches_of_consumes link hq₁ p₁ [] [] r (l ++ e₁)).swap
          simp only [List.append_nil] at h₂
          have h₃ := ih hp₂ hq₂ (l ++ e₁) (r ++ f₁)
          simp only [List.append_assoc] at h₃
          exact (h₁.trans h₂).trans h₃
      | toLeft xs =>
          obtain ⟨p₁, e₁, e₂, rfl, hp₁, hp₂⟩ := hp
          obtain ⟨q₁, f₁, f₂, rfl, hq₁, hq₂⟩ := hq
          have h₁ := (reaches_of_produces link hq₁ p [] [] r l).swap
          have h₂ := reaches_of_consumes link hp₁ q₁ [] [] l (r ++ f₁)
          simp only [List.append_nil] at h₂
          have h₃ := ih hp₂ hq₂ (l ++ e₁) (r ++ f₁)
          simp only [List.append_assoc] at h₃
          exact (h₁.trans h₂).trans h₃

/-- A program that is fed `bs` and more reads `bs`, writes its answer and leaves the rest. -/
theorem reaches_fed {xs : List ω} {bs rest : List β} {ys : List ω} {es fs : List ε₂}
    {q : Prog ω β ε₂ α₂} {q' : Proc ω β ε₂ α₂} {a : α₂} (hxs : xs.map link.transit = bs ++ rest)
    (hq : q.1.Consumes bs es q') (hq' : q'.Produces ys fs (.ret a)) :
    Reaches link (init (Prog.writeAll xs : Prog ω β ε₁ Bool) q)
      ⟨.ret true, .ret a, ys.map link.transit, rest, [], es ++ fs⟩ := by
  have h₁ := reaches_of_produces link (Proc.produces_writeLoop (ε := ε₁) xs) q.1 [] [] [] []
  simp only [List.nil_append, hxs] at h₁
  have h₂ := (reaches_of_consumes link hq (.ret true : Proc ω β ε₁ Bool) rest [] [] []).swap
  have h₃ := (reaches_of_produces link hq' (.ret true : Proc ω β ε₁ Bool) rest []
    ([] ++ es) []).swap
  exact (h₁.trans h₂).trans h₃

/-- Once the left program is done and all it wrote has been read, the right program finishes as
`Proc.drain` says. -/
theorem reaches_drain (hlink : link.closes = true) (a : α₁) {q : Proc ω β ε₂ α₂} (hq : q.Coherent)
    (i : List β) (l : List ε₁) (r : List ε₂) :
    ∃ i', Reaches link ⟨.ret a, q, i, [], l, r⟩
      ⟨.ret a, .ret q.drain.2, i', [], l, r ++ q.drain.1⟩ := by
  induction q generalizing i r with
  | ret b => exact ⟨i, by simpa using .refl⟩
  | read max k ih =>
      obtain ⟨i', h⟩ := ih [] (hq.2.1 []) i r
      have hn : Step link ⟨.ret a, .read max k, i, [], l, r⟩ _ :=
        Step.right (.eof (by simp [hlink]))
      exact ⟨i', .head hn (by simpa [Proc.drain] using h)⟩
  | write xs k ih =>
      obtain ⟨i', h⟩ := ih xs.length (hq.2.1 _) (i ++ xs.map link.transit) r
      have hn : Step link ⟨.ret a, .write xs k, i, [], l, r⟩ _ :=
        Step.right (.write (List.length_pos_of_ne_nil hq.1) (le_refl _))
      rw [List.take_length] at hn
      exact ⟨i', .head hn (by simpa [Proc.drain] using h)⟩
  | emit e k ih =>
      obtain ⟨i', h⟩ := ih hq i (r ++ [e])
      have hn : Step link ⟨.ret a, .emit e k, i, [], l, r⟩ _ := Step.right .emit
      exact ⟨i', .head hn (by simpa [Proc.drain] using h)⟩

/-- Two programs that go through the same messages, at the end of which the right one has returned;
the left one is then on its own. -/
theorem reaches_of_talk_drain {conv : List (Message ω)} {p : Prog ω β ε₁ α₁} {q : Prog ω β ε₂ α₂}
    {p' : Proc ω β ε₁ α₁} {a : α₁} {b : α₂} {es es' : List ε₁} {fs : List ε₂}
    (hlink : link.closes = true)
    (hp : p.1.Talk (conv.map (Message.leftAct link.transit)) es p')
    (hq : q.1.Talk (conv.map (Message.rightAct link.transit)) fs (.ret b))
    (hdrain : p'.drain = (es', a)) :
    ∃ i, Reaches link (init p q) ⟨.ret a, .ret b, [], i, es ++ es', fs⟩ := by
  have hrun : Reaches link (init p q) _ := reaches_of_talk hp hq [] []
  have hcoherent := ((coherent_init p q).reaches hrun).1
  obtain ⟨i, h⟩ := reaches_drain hlink b hcoherent [] ([] ++ fs) ([] ++ es)
  rw [hdrain] at h
  exact ⟨i, hrun.trans h.swap⟩

end Net

end PeripheralBench.Stream

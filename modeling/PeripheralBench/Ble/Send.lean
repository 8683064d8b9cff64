import PeripheralBench.Ble.Channel

/-!
# What `l2cap_wolfssl_send` has sent when it returns

The call goes through its chunks in rounds; every round ends with a wait for a completion, and the
call goes on only if the wait succeeds.  What matters of the answers the call gets are its `waits`:
whether the channel has accepted an SDU in the round, and whether the wait was successful.

`Outcome` says what a call with certain waits hands to the channel and returns.  A round whose
`net_buf_alloc` fails at once hands nothing to the channel: the `continue` finds `err` still zero
and leaves the retry loop.  If a completion that belongs to an earlier SDU then ends the wait, the
chunk is counted as sent all the same.

`l2capWolfsslSend_exactly_once` says exactly when the bytes handed to the channel are the bytes
returned.
-/

open PeripheralBench.Text

namespace PeripheralBench.Ble

/-! ## Waits -/

/-- The end of a round. -/
structure Wait where
  /-- The channel has accepted an SDU since the wait before this one. -/
  accepted : Bool
  /-- The semaphore was given in time. -/
  completed : Bool
deriving DecidableEq

/-- The waits in a sequence of events; `accepted` says if an SDU has been accepted already. -/
def waits : Bool → List Event → List Wait
  | _, [] => []
  | _, .act (.send none) :: es => waits true es
  | accepted, .act (.take completed) :: es => ⟨accepted, completed⟩ :: waits false es
  | accepted, _ :: es => waits accepted es

/-- Every wait succeeds if and only if an SDU has been accepted. -/
def Balanced (ws : List Wait) : Prop := ∀ w ∈ ws, w.accepted = w.completed

instance (ws : List Wait) : Decidable (Balanced ws) := inferInstanceAs (Decidable (∀ w ∈ ws, _))

/-- Some rounds that are in order, and then one whose SDU is accepted and whose wait times out. -/
def lateRounds (k : ℕ) : List Wait := List.replicate k ⟨true, true⟩ ++ [⟨true, false⟩]

/-- One chunk is skipped, the next ones are sent, and the wait for the last one times out after it
has been accepted, while the bytes of these chunks repeat every `mtu` bytes: the chunks that were
sent look like the ones that are counted. -/
def Coincides (mtu : ℕ) (bs : Bytes) (ws : List Wait) : Prop :=
  ∃ s k, ws = List.replicate s ⟨true, true⟩ ++ ⟨false, true⟩ :: lateRounds k ∧
    (bs.drop (s * mtu)).take ((k + 1) * mtu) = (bs.drop ((s + 1) * mtu)).take ((k + 1) * mtu)

/-! ## Outcomes -/

/-- What a call that has `sent` bytes hands to the channel and returns, by its remaining waits. -/
inductive Outcome (buf : Bytes) (mtu : ℕ) : ℕ → List Wait → List Bytes → SendReturn → Prop
  /-- Everything has been sent. -/
  | finished {sent : ℕ} (h : buf.length ≤ sent) : Outcome buf mtu sent [] [] (.sent sent)
  /-- The channel refuses an SDU for good. -/
  | fatal {sent : ℕ} (h : sent < buf.length) :
      Outcome buf mtu sent [] [] (SendCall.sentOr sent .general)
  /-- A round whose wait succeeds. -/
  | completed {sent : ℕ} {accepted : Bool} {ws : List Wait} {handed : List Bytes} {r : SendReturn}
      (h : sent < buf.length)
      (rest : Outcome buf mtu (sent + ((buf.drop sent).take mtu).length) ws handed r) :
      Outcome buf mtu sent (⟨accepted, true⟩ :: ws)
        ((if accepted then [(buf.drop sent).take mtu] else []) ++ handed) r
  /-- A round whose wait times out. -/
  | timeout {sent : ℕ} {accepted : Bool} (h : sent < buf.length) :
      Outcome buf mtu sent [⟨accepted, false⟩]
        (if accepted then [(buf.drop sent).take mtu] else []) (SendCall.sentOr sent .timeout)

/-! ## Calls have outcomes -/

theorem run_done {buf : Bytes} {mtu : ℕ} {c c' : SendCall} {ch ch' : Channel} {r : SendReturn}
    {es : List Event} (hpoint : c.point = .done r)
    (h : run (SendCall.act buf mtu) (c, ch) es = some (c', ch')) :
    c' = c ∧ waits false es = [] := by
  induction es generalizing ch with
  | nil =>
      obtain ⟨rfl, -⟩ := Prod.mk.inj (Option.some.inj h)
      exact ⟨rfl, rfl⟩
  | cons e es ih =>
      cases e with
      | act a => simp [run, SendCall.act, hpoint] at h
      | call e =>
          obtain ⟨ch₁, -, h⟩ := Option.bind_eq_some_iff.mp h
          exact ih h

/-- What one statement of a call does while the channel is up. -/
inductive Stepped (buf : Bytes) (mtu : ℕ) (c : SendCall) : Action → SendCall → Prop
  /-- Nothing is handed over, and the call goes on. -/
  | silent {a : Action} {err : Option SendError} {point : SendPoint} (hfrom : c.point ≠ .take)
      (hgoes : ∀ r, point ≠ .done r) (hwaits : ∀ acc es, waits acc (.act a :: es) = waits acc es) :
      Stepped buf mtu c a { c with err := err, point := point }
  /-- The SDU is refused for good. -/
  | refused (hfrom : c.point ≠ .take) :
      Stepped buf mtu c (.send (some .other))
        { c with point := .done (SendCall.sentOr c.sent .general) }
  /-- The SDU is accepted. -/
  | accepted (hfrom : c.point ≠ .take) :
      Stepped buf mtu c (.send none)
        { c with err := none, point := .take, handed := c.handed ++ [c.chunk buf mtu] }
  /-- The wait succeeds. -/
  | completed (hfrom : c.point = .take) :
      Stepped buf mtu c (.take true)
        (SendCall.loop buf { c with sent := c.sent + (c.chunk buf mtu).length })
  /-- The wait times out. -/
  | timedOut (hfrom : c.point = .take) :
      Stepped buf mtu c (.take false)
        { c with point := .done (SendCall.sentOr c.sent .timeout) }

theorem retry_eq (c : SendCall) :
    ∃ point, (∀ r, point ≠ .done r) ∧ c.retry = { c with point := point } := by
  rw [SendCall.retry]
  split
  · exact ⟨.check, by rintro r ⟨⟩, rfl⟩
  · exact ⟨.take, by rintro r ⟨⟩, rfl⟩

theorem connected_of_take {ch ch' : Channel} {completed : Bool} (h : ch.take completed = some ch')
    (hconn : ch.Connected) : ch'.Connected := by
  rw [Channel.take] at h
  split at h
  · obtain rfl := Option.some.inj h
    exact hconn
  · cases h

theorem connected_of_callback {ch ch' : Channel} {e : Callback} (h : ch.callback e = some ch')
    (hdisconnected : e ≠ .disconnected) (hreleased : e ≠ .released) (hconn : ch.Connected) :
    ch'.Connected := by
  cases e with
  | sent =>
      rw [Channel.callback] at h
      split at h
      · obtain rfl := Option.some.inj h
        exact hconn
      · cases h
  | disconnected => exact absurd rfl hdisconnected
  | released => exact absurd rfl hreleased
  | rx pending =>
      obtain rfl := Option.some.inj h
      exact hconn

/-- **One statement.** -/
theorem act_cases {buf : Bytes} {mtu : ℕ} {c c' : SendCall} {ch ch' : Channel} {a : Action}
    (hconn : ch.Connected) (h : SendCall.act buf mtu c ch a = some (c', ch')) :
    Stepped buf mtu c a c' ∧ ch'.Connected := by
  have hpeer : ch.peerDisconnected = false := hconn.2
  have hup : ch.conn = true := hconn.1
  unfold SendCall.act at h
  split at h
  case h_1 hpoint =>
    simp only [hpeer, hup, Bool.false_and, Bool.not_true, Bool.false_eq_true, if_false] at h
    obtain ⟨rfl, rfl⟩ := Prod.mk.inj (Option.some.inj h)
    exact ⟨.silent (by simp [hpoint]) (fun r ↦ by simp) fun _ _ ↦ rfl, hconn⟩
  case h_2 hpoint =>
    obtain ⟨rfl, rfl⟩ := Prod.mk.inj (Option.some.inj h)
    exact ⟨.silent (by simp [hpoint]) (fun r ↦ by simp) fun _ _ ↦ rfl, hconn⟩
  case h_3 hpoint =>
    obtain ⟨point, hgoes, hretry⟩ := retry_eq c
    rw [hretry] at h
    obtain ⟨rfl, rfl⟩ := Prod.mk.inj (Option.some.inj h)
    exact ⟨.silent (by simp [hpoint]) hgoes fun _ _ ↦ rfl, hconn⟩
  case h_4 hpoint =>
    obtain ⟨rfl, rfl⟩ := Prod.mk.inj (Option.some.inj h)
    exact ⟨.silent (by simp [hpoint]) (fun r ↦ by simp) fun _ _ ↦ rfl, hconn⟩
  case h_5 hpoint =>
    obtain ⟨rfl, rfl⟩ := Prod.mk.inj (Option.some.inj h)
    exact ⟨.accepted (by simp [hpoint]), hconn⟩
  case h_6 hpoint =>
    obtain ⟨rfl, rfl⟩ := Prod.mk.inj (Option.some.inj h)
    exact ⟨.refused (by simp [hpoint]), hconn⟩
  case h_7 e _ hpoint =>
    obtain ⟨point, hgoes, hretry⟩ := retry_eq { c with err := some e }
    rw [hretry] at h
    obtain ⟨rfl, rfl⟩ := Prod.mk.inj (Option.some.inj h)
    exact ⟨.silent (by simp [hpoint]) hgoes fun _ _ ↦ rfl, hconn⟩
  case h_8 hpoint =>
    obtain ⟨ch₁, htake, h⟩ := Option.map_eq_some_iff.mp h
    obtain ⟨rfl, rfl⟩ := Prod.mk.inj h
    exact ⟨.timedOut hpoint, connected_of_take htake hconn⟩
  case h_9 hpoint =>
    obtain ⟨ch₁, htake, h⟩ := Option.map_eq_some_iff.mp h
    have hconn₁ := connected_of_take htake hconn
    rw [hconn₁.lost_eq, if_neg (by simp)] at h
    obtain ⟨rfl, rfl⟩ := Prod.mk.inj h
    exact ⟨.completed hpoint, hconn₁⟩
  case h_10 => cases h

/-- A call in the middle of a round: `before` is what it has handed over in the rounds before. -/
structure InRound (buf : Bytes) (mtu : ℕ) (accepted : Bool) (before : List Bytes) (c : SendCall) :
    Prop where
  goes : ∀ r, c.point ≠ .done r
  sent_lt : c.sent < buf.length
  handed : c.handed = before ++ if accepted then [c.chunk buf mtu] else []
  waiting : accepted = true → c.point = .take

theorem InRound.eq_false {buf : Bytes} {mtu : ℕ} {accepted : Bool} {before : List Bytes}
    {c : SendCall} (h : InRound buf mtu accepted before c) (hfrom : c.point ≠ .take) :
    accepted = false := Bool.eq_false_iff.mpr fun haccepted ↦ hfrom (h.waiting haccepted)

theorem InRound.handed_of_false {buf : Bytes} {mtu : ℕ} {before : List Bytes} {c : SendCall}
    (h : InRound buf mtu false before c) : c.handed = before := by
  rw [h.handed]
  exact List.append_nil _

@[simp] theorem sent_loop (buf : Bytes) (c : SendCall) : (SendCall.loop buf c).sent = c.sent := by
  rw [SendCall.loop]
  split <;> rfl

theorem inRound_loop {buf : Bytes} (mtu : ℕ) {c : SendCall} (h : c.sent < buf.length) :
    InRound buf mtu false c.handed (SendCall.loop buf c) := by
  rw [SendCall.loop, if_pos h]
  exact ⟨fun r ↦ by simp, h, by simp, by simp⟩

/-- One statement of a call in the middle of a round.  The call goes on, and what it still does
gives the outcome from here; or it returns. -/
theorem InRound.step {buf : Bytes} {mtu : ℕ} {c c' : SendCall} {a : Action} {accepted : Bool}
    {before : List Bytes} (hround : InRound buf mtu accepted before c)
    (h : Stepped buf mtu c a c') :
    (∃ accepted' before', InRound buf mtu accepted' before' c' ∧
      ∀ es handed r, Outcome buf mtu c'.sent (waits accepted' es) handed r →
        ∃ handed', Outcome buf mtu c.sent (waits accepted (.act a :: es)) handed' r ∧
          before ++ handed' = before' ++ handed) ∨
    ∃ r, c'.point = .done r ∧ ∀ es, waits false es = [] →
      ∃ handed, Outcome buf mtu c.sent (waits accepted (.act a :: es)) handed r ∧
        c'.handed = before ++ handed := by
  cases h with
  | @silent _ err point hfrom hgoes hwaits =>
      obtain rfl := hround.eq_false hfrom
      refine .inl ⟨false, before, ⟨hgoes, hround.sent_lt, hround.handed, by simp⟩, ?_⟩
      intro es handed r hrest
      rw [hwaits]
      exact ⟨handed, hrest, rfl⟩
  | refused hfrom =>
      obtain rfl := hround.eq_false hfrom
      refine .inr ⟨_, rfl, fun es hwaits ↦ ⟨[], ?_, hround.handed⟩⟩
      rw [show waits false (.act (.send (some .other)) :: es) = [] from hwaits]
      exact .fatal hround.sent_lt
  | accepted hfrom =>
      obtain rfl := hround.eq_false hfrom
      refine .inl ⟨true, before, ⟨fun r ↦ by simp, hround.sent_lt, ?_, fun _ ↦ rfl⟩,
        fun es handed r hrest ↦ ⟨handed, hrest, rfl⟩⟩
      rw [hround.handed_of_false]
      rfl
  | completed hfrom =>
      have hwaits : ∀ es, waits accepted (.act (.take true) :: es) =
        ⟨accepted, true⟩ :: waits false es := fun _ ↦ rfl
      by_cases hlt : c.sent + (c.chunk buf mtu).length < buf.length
      · have hround' := inRound_loop mtu
          (c := { c with sent := c.sent + (c.chunk buf mtu).length }) hlt
        refine .inl ⟨false, _, hround', fun es handed r hrest ↦ ?_⟩
        rw [sent_loop] at hrest
        rw [hwaits]
        refine ⟨_, .completed hround.sent_lt hrest, ?_⟩
        rw [hround.handed, List.append_assoc]
        rfl
      · rw [SendCall.loop, if_neg hlt]
        refine .inr ⟨_, rfl, fun es hnone ↦ ?_⟩
        rw [hwaits, hnone]
        refine ⟨_, .completed hround.sent_lt (.finished (not_lt.mp hlt)), ?_⟩
        rw [List.append_nil]
        exact hround.handed
  | timedOut hfrom =>
      refine .inr ⟨_, rfl, fun es hnone ↦ ⟨_, ?_, hround.handed⟩⟩
      rw [show waits accepted (.act (.take false) :: es) = [⟨accepted, false⟩] from
        congrArg _ hnone]
      exact .timeout hround.sent_lt

/-- **Every call that returns has an outcome.** -/
theorem run_outcome {buf : Bytes} {mtu : ℕ} {c c' : SendCall} {ch ch' : Channel} {r : SendReturn}
    {es : List Event} {accepted : Bool} {before : List Bytes}
    (hround : InRound buf mtu accepted before c) (hconn : ch.Connected) (hup : StaysUp es)
    (h : run (SendCall.act buf mtu) (c, ch) es = some (c', ch')) (hret : c'.point = .done r) :
    ∃ handed, Outcome buf mtu c.sent (waits accepted es) handed r ∧
    c'.handed = before ++ handed := by
  induction es generalizing c ch accepted before with
  | nil =>
      obtain ⟨rfl, -⟩ := Prod.mk.inj (Option.some.inj h)
      exact absurd hret (hround.goes r)
  | cons e es ih =>
      have hup' : StaysUp es :=
        ⟨fun h ↦ hup.1 (List.mem_cons_of_mem _ h), fun h ↦ hup.2 (List.mem_cons_of_mem _ h)⟩
      cases e with
      | call e =>
          obtain ⟨ch₁, hcall, h⟩ := Option.bind_eq_some_iff.mp h
          refine ih hround (connected_of_callback hcall ?_ ?_ hconn) hup' h
          · rintro rfl
            exact hup.1 (List.mem_cons_self ..)
          · rintro rfl
            exact hup.2 (List.mem_cons_self ..)
      | act a =>
          obtain ⟨⟨c₁, ch₁⟩, hact, h⟩ := Option.bind_eq_some_iff.mp h
          obtain ⟨hstep, hconn₁⟩ := act_cases hconn hact
          obtain ⟨accepted', before', hround', houtcome⟩ | ⟨r', hdone, houtcome⟩ :=
            hround.step hstep
          · obtain ⟨handed, hrest, hhanded⟩ := ih hround' hconn₁ hup' h
            obtain ⟨handed', hrest', heq⟩ := houtcome es handed r hrest
            exact ⟨handed', hrest', hhanded.trans heq.symm⟩
          · obtain ⟨rfl, hnone⟩ := run_done hdone h
            obtain rfl := SendPoint.done.inj (hdone.symm.trans hret)
            exact houtcome es hnone

/-! ## What has been counted -/

/-- The bytes that a call counts as sent, by its remaining waits. -/
def counted (buf : Bytes) (mtu : ℕ) : ℕ → List Wait → ℕ
  | sent, [] => sent
  | sent, ⟨_, true⟩ :: ws => counted buf mtu (sent + ((buf.drop sent).take mtu).length) ws
  | sent, ⟨_, false⟩ :: _ => sent

section Counted

variable {buf : Bytes} {mtu sent : ℕ} {ws : List Wait} {handed : List Bytes} {r : SendReturn}

theorem le_counted (buf : Bytes) (mtu sent : ℕ) (ws : List Wait) :
    sent ≤ counted buf mtu sent ws := by
  induction ws generalizing sent with
  | nil => exact le_rfl
  | cons w ws ih =>
      obtain ⟨accepted, completed⟩ := w
      cases completed with
      | true => exact (Nat.le_add_right _ _).trans (ih _)
      | false => exact le_rfl

theorem sentOr_cases (sent : ℕ) {e : SendReturn} (he : ∀ n, e ≠ .sent n) :
    SendCall.sentOr sent e = .sent sent ∨ sent = 0 ∧ ∀ n, SendCall.sentOr sent e ≠ .sent n := by
  rw [SendCall.sentOr]
  split
  · exact .inl rfl
  · exact .inr ⟨by omega, he⟩

/-- A call returns the bytes it has counted, or an error if there are none. -/
theorem Outcome.returned (h : Outcome buf mtu sent ws handed r) :
    r = .sent (counted buf mtu sent ws) ∨
      counted buf mtu sent ws = 0 ∧ ∀ n, r ≠ .sent n := by
  induction h with
  | finished h => exact .inl rfl
  | fatal h => exact sentOr_cases _ (by rintro n ⟨⟩)
  | completed h rest ih => exact ih
  | timeout h => exact sentOr_cases _ (by rintro n ⟨⟩)

/-- If more rounds follow, the chunk of a round is a full one. -/
theorem Outcome.length_chunk {w : Wait}
    (h : Outcome buf mtu (sent + ((buf.drop sent).take mtu).length) (w :: ws) handed r) :
    ((buf.drop sent).take mtu).length = mtu := by
  have hlt : sent + ((buf.drop sent).take mtu).length < buf.length := by
    cases h with
    | completed h _ => exact h
    | timeout h => exact h
  rw [List.length_take, List.length_drop] at hlt ⊢
  omega

/-- The counted bytes of a round that is completed, and those after it. -/
theorem take_counted (buf : Bytes) (mtu sent : ℕ) (ws : List Wait) :
    (buf.drop sent).take (counted buf mtu sent (⟨true, true⟩ :: ws) - sent) =
      (buf.drop sent).take mtu ++
        (buf.drop (sent + ((buf.drop sent).take mtu).length)).take
          (counted buf mtu sent (⟨true, true⟩ :: ws) -
          (sent + ((buf.drop sent).take mtu).length)) := by
  have hle := le_counted buf mtu (sent + ((buf.drop sent).take mtu).length) ws
  rw [counted]
  set chunk := (buf.drop sent).take mtu with hchunk
  have hbegins : (buf.drop sent).take chunk.length = chunk :=
    (List.prefix_iff_eq_take.mp (List.take_prefix mtu (buf.drop sent))).symm
  conv_lhs => rw [show counted buf mtu (sent + chunk.length) ws - sent =
    chunk.length + (counted buf mtu (sent + chunk.length) ws - (sent + chunk.length)) by omega,
    List.take_add, hbegins, List.drop_drop]

theorem lateRounds_succ (k : ℕ) : lateRounds (k + 1) = ⟨true, true⟩ :: lateRounds k := rfl

theorem lateRounds_eq_cons (k : ℕ) : ∃ w ws, lateRounds k = w :: ws := by
  cases k with
  | zero => exact ⟨_, _, rfl⟩
  | succ k => exact ⟨_, _, lateRounds_succ k⟩

/-- Such rounds hand over one chunk more than they count. -/
theorem Outcome.of_lateRounds {k : ℕ} (h : Outcome buf mtu sent (lateRounds k) handed r) :
    counted buf mtu sent (lateRounds k) = sent + k * mtu ∧
      handed.flatten = (buf.drop sent).take ((k + 1) * mtu) := by
  induction k generalizing sent handed with
  | zero =>
      cases h with
      | timeout h => exact ⟨by simp [counted, lateRounds], by simp⟩
  | succ k ih =>
      rw [lateRounds_succ] at h ⊢
      generalize hws : lateRounds k = ws at h ih ⊢
      cases h with
      | @completed _ _ _ handed _ h rest =>
          obtain ⟨hcounted, hflatten⟩ := ih rest
          have hlen : ((buf.drop sent).take mtu).length = mtu := by
            obtain ⟨w, ws', hcons⟩ := lateRounds_eq_cons k
            rw [← hws, hcons] at rest
            exact rest.length_chunk
          constructor
          · rw [counted, hcounted, hlen, Nat.succ_mul]
            omega
          · rw [if_pos rfl, List.flatten_append, hflatten, hlen, Nat.succ_mul (k + 1),
              Nat.add_comm ((k + 1) * mtu), List.take_add, List.drop_drop]
            simp

/-- Only such rounds hand over more than they count. -/
theorem Outcome.exists_lateRounds (h : Outcome buf mtu sent ws handed r)
    (hlt : counted buf mtu sent ws - sent < handed.flatten.length) : ∃ k, ws = lateRounds k := by
  induction h with
  | finished h => simp at hlt
  | fatal h => simp at hlt
  | timeout h =>
      rename_i accepted
      cases accepted with
      | true => exact ⟨0, rfl⟩
      | false => simp at hlt
  | @completed sent accepted ws handed r h rest ih =>
      have hle := le_counted buf mtu (sent + ((buf.drop sent).take mtu).length) ws
      simp only [counted] at hlt
      cases accepted with
      | true =>
          simp only [if_true, List.flatten_append, List.length_append,
            List.flatten_singleton] at hlt
          obtain ⟨k, rfl⟩ := ih (by omega)
          exact ⟨k + 1, rfl⟩
      | false =>
          simp only [Bool.false_eq_true, if_false, List.nil_append] at hlt
          obtain ⟨k, hk⟩ := ih (by omega)
          subst hk
          obtain ⟨hcounted, hflatten⟩ := rest.of_lateRounds
          obtain ⟨w, ws', hcons⟩ := lateRounds_eq_cons k
          rw [hcons] at rest
          have hlen := rest.length_chunk
          have hshort : handed.flatten.length ≤ (k + 1) * mtu := by
            rw [hflatten]; exact List.length_take_le _ _
          rw [Nat.succ_mul] at hshort
          omega

/-- The first round is in order. -/
theorem coincides_cons_completed (bs : Bytes) (ws : List Wait) :
    Coincides mtu bs (⟨true, true⟩ :: ws) ↔ Coincides mtu (bs.drop mtu) ws := by
  have hdrop : ∀ s, (bs.drop mtu).drop (s * mtu) = bs.drop ((s + 1) * mtu) := by
    intro s
    rw [List.drop_drop, Nat.succ_mul, Nat.add_comm]
  constructor
  · rintro ⟨s, k, hws, hbytes⟩
    cases s with
    | zero => cases hws
    | succ s =>
        refine ⟨s, k, (List.cons.inj hws).2, ?_⟩
        rw [hdrop, hdrop]
        exact hbytes
  · rintro ⟨s, k, rfl, hbytes⟩
    refine ⟨s + 1, k, rfl, ?_⟩
    rw [← hdrop, ← hdrop]
    exact hbytes

/-- The first round skips its chunk. -/
theorem coincides_cons_skipped (bs : Bytes) (ws : List Wait) :
    Coincides mtu bs (⟨false, true⟩ :: ws) ↔
      ∃ k, ws = lateRounds k ∧ bs.take ((k + 1) * mtu) = (bs.drop mtu).take ((k + 1) * mtu) := by
  constructor
  · rintro ⟨s, k, hws, hbytes⟩
    cases s with
    | zero =>
        refine ⟨k, (List.cons.inj hws).2, ?_⟩
        simpa using hbytes
    | succ s => cases hws
  · rintro ⟨k, rfl, hbytes⟩
    exact ⟨0, k, rfl, by simpa using hbytes⟩

theorem not_coincides_timeout (mtu : ℕ) (bs : Bytes) (accepted : Bool) :
    ¬ Coincides mtu bs [⟨accepted, false⟩] := by
  rintro ⟨s, k, hws, -⟩
  cases s with
  | zero => cases hws
  | succ s => cases hws

theorem not_coincides_nil (bs : Bytes) : ¬ Coincides mtu bs [] := by
  rintro ⟨s, k, hws, -⟩
  cases s with
  | zero => cases hws
  | succ s => cases hws

/-- The rounds after the first one begin after its chunk. -/
theorem Outcome.coincides_drop_iff
    (h : Outcome buf mtu (sent + ((buf.drop sent).take mtu).length) ws handed r) :
    Coincides mtu ((buf.drop sent).drop mtu) ws ↔
      Coincides mtu (buf.drop (sent + ((buf.drop sent).take mtu).length)) ws := by
  cases ws with
  | nil => exact iff_of_false (not_coincides_nil _) (not_coincides_nil _)
  | cons w ws => rw [h.length_chunk, List.drop_drop]

theorem counted_le (buf : Bytes) (mtu : ℕ) {sent : ℕ} (hsent : sent ≤ buf.length) (ws : List Wait) :
    counted buf mtu sent ws ≤ buf.length := by
  induction ws generalizing sent with
  | nil => exact hsent
  | cons w ws ih =>
      obtain ⟨accepted, completed⟩ := w
      cases completed with
      | true =>
          refine ih ?_
          rw [List.length_take, List.length_drop]
          omega
      | false => exact hsent

/-- After a skipped chunk only late rounds can hand over as much as is counted. -/
theorem Outcome.skipped_iff (hmtu : 0 < mtu) (hsent : sent < buf.length)
    (h : Outcome buf mtu (sent + ((buf.drop sent).take mtu).length) ws handed r) :
    handed.flatten = (buf.drop sent).take (counted buf mtu sent (⟨false, true⟩ :: ws) - sent) ↔
      ∃ k, ws = lateRounds k ∧ (buf.drop sent).take ((k + 1) * mtu) =
        ((buf.drop sent).drop mtu).take ((k + 1) * mtu) := by
  have hchunk : 0 < ((buf.drop sent).take mtu).length := by
    rw [List.length_take, List.length_drop]
    omega
  have key : ∀ k, ws = lateRounds k →
      (handed.flatten = (buf.drop sent).take (counted buf mtu sent (⟨false, true⟩ :: ws) - sent) ↔
        (buf.drop sent).take ((k + 1) * mtu) =
          ((buf.drop sent).drop mtu).take ((k + 1) * mtu)) := by
    rintro k rfl
    obtain ⟨hcounted, hflatten⟩ := h.of_lateRounds
    have hlen : ((buf.drop sent).take mtu).length = mtu := by
      obtain ⟨w, ws', hcons⟩ := lateRounds_eq_cons k
      rw [hcons] at h
      exact h.length_chunk
    rw [counted, hcounted, hflatten, hlen, List.drop_drop,
      show sent + mtu + k * mtu - sent = (k + 1) * mtu by rw [Nat.succ_mul]; omega, eq_comm]
  constructor
  · intro heq
    have hle := le_counted buf mtu (sent + ((buf.drop sent).take mtu).length) ws
    have hmax : counted buf mtu sent (⟨false, true⟩ :: ws) ≤ buf.length :=
      counted_le buf mtu hsent.le _
    have hlength := congrArg List.length heq
    rw [List.length_take, List.length_drop, Nat.min_eq_left (by omega)] at hlength
    rw [counted] at hlength
    obtain ⟨k, hk⟩ := h.exists_lateRounds (by omega)
    exact ⟨k, hk, (key k hk).mp heq⟩
  · rintro ⟨k, hk, hbytes⟩
    exact (key k hk).mpr hbytes

/-- **What is handed over is what is counted** if the waits are balanced, or by coincidence. -/
theorem Outcome.handed_eq_iff (hmtu : 0 < mtu) (h : Outcome buf mtu sent ws handed r) :
    handed.flatten = (buf.drop sent).take (counted buf mtu sent ws - sent) ↔
      Balanced ws ∨ Coincides mtu (buf.drop sent) ws := by
  induction h with
  | finished h => simp [counted, Balanced]
  | fatal h => simp [counted, Balanced]
  | @timeout sent accepted h =>
      have hcoincides := not_coincides_timeout mtu (buf.drop sent) accepted
      cases accepted with
      | true =>
          have hne : (buf.drop sent).take mtu ≠ [] := by
            rw [← List.length_pos_iff, List.length_take, List.length_drop]
            omega
          simp only [counted, Nat.sub_self, List.take_zero, if_true, List.flatten_singleton, hne,
            hcoincides, or_false, false_iff]
          intro hbalanced
          exact absurd (hbalanced _ (List.mem_singleton_self _)) (by decide)
      | false => simp [counted, Balanced]
  | @completed sent accepted ws handed r h rest ih =>
      cases accepted with
      | true =>
          have hbalanced : Balanced (⟨true, true⟩ :: ws) ↔ Balanced ws := by simp [Balanced]
          rw [take_counted, if_pos rfl, List.flatten_append, List.flatten_singleton,
            List.append_cancel_left_eq, hbalanced, coincides_cons_completed,
            rest.coincides_drop_iff, ← ih]
          rfl
      | false =>
          have hbalanced : ¬ Balanced (⟨false, true⟩ :: ws) :=
            fun h ↦ absurd (h _ (List.mem_cons_self ..)) (by decide)
          rw [coincides_cons_skipped, or_iff_right hbalanced]
          exact rest.skipped_iff hmtu h

end Counted

/-! ## Exactly once -/

/-- If the call returns a number of bytes, then the channel has accepted exactly these bytes from
it. -/
def ExactlyOnce (buf : Bytes) (c : SendCall) : Prop :=
  ∀ n, c.point = .done (.sent n) → c.handed.flatten = buf.take n

theorem sduMtu_pos (txMtu : ℕ) : 0 < SendCall.sduMtu txMtu := by
  rw [SendCall.sduMtu]
  split <;> omega

/-- An error is returned in the first round only, and not after a round that was in order. -/
theorem Outcome.balanced_of_error {buf : Bytes} {mtu : ℕ} {ws : List Wait} {handed : List Bytes}
    {r : SendReturn} (hmtu : 0 < mtu) (h : Outcome buf mtu 0 ws handed r) (hr : ∀ n, r ≠ .sent n)
    (hcounted : counted buf mtu 0 ws = 0) : Balanced ws ∨ ws.head? = some ⟨true, false⟩ := by
  cases h with
  | finished h => exact absurd rfl (hr 0)
  | fatal h => exact .inl (by simp [Balanced])
  | @completed _ _ ws _ _ h rest =>
      have hle := le_counted buf mtu (0 + ((buf.drop 0).take mtu).length) ws
      rw [counted] at hcounted
      rw [hcounted, List.length_take, List.length_drop] at hle
      omega
  | @timeout _ accepted h =>
      cases accepted with
      | true => exact .inr rfl
      | false => exact .inl (by simp [Balanced])

/-- A call whose first wait times out returns an error. -/
theorem Outcome.error_of_head {buf : Bytes} {mtu : ℕ} {ws : List Wait} {handed : List Bytes}
    {r : SendReturn} (h : Outcome buf mtu 0 ws handed r) (hhead : ws.head? = some ⟨true, false⟩) :
    r = .timeout := by
  cases h with
  | finished h => cases hhead
  | fatal h => cases hhead
  | completed h rest => cases hhead
  | timeout h => rfl

/-- **What `l2cap_wolfssl_send` returns is what it has sent** if and only if every wait succeeds
exactly when an SDU has been accepted for it, or the first wait times out, so that an error is
returned, or the chunks that were sent happen to look like the ones that are counted. -/
theorem l2capWolfsslSend_exactly_once {buf : Bytes} {ch ch' : Channel} {es : List Event}
    {c : SendCall} {r : SendReturn} (hconn : ch.Connected) (hup : StaysUp es)
    (hrun : l2capWolfsslSend buf ch es = some (c, ch')) (hret : c.point = .done r) :
    ExactlyOnce buf c ↔
      Balanced (waits false es) ∨ (waits false es).head? = some ⟨true, false⟩ ∨
        Coincides (SendCall.sduMtu ch.txMtu) buf (waits false es) := by
  have hmtu := sduMtu_pos ch.txMtu
  rw [l2capWolfsslSend, SendCall.start, hconn.1, hconn.2, if_neg (by simp),
    if_neg (by simp)] at hrun
  by_cases hbuf : 0 < buf.length
  · obtain ⟨handed, houtcome, hhanded⟩ :=
      run_outcome (inRound_loop (SendCall.sduMtu ch.txMtu) (c := ⟨0, none, .check, []⟩) hbuf) hconn
        hup hrun hret
    rw [sent_loop] at houtcome
    have hiff := houtcome.handed_eq_iff hmtu
    rw [List.drop_zero, Nat.sub_zero] at hiff
    rw [ExactlyOnce, hret, show c.handed = handed from hhanded]
    rcases houtcome.returned with rfl | ⟨hcounted, hr⟩
    · have hhead : (waits false es).head? ≠ some ⟨true, false⟩ := by
        intro h
        exact absurd (houtcome.error_of_head h) (by simp)
      simp only [SendPoint.done.injEq, SendReturn.sent.injEq, forall_eq', hiff, hhead, false_or]
    · have hbalanced := houtcome.balanced_of_error hmtu hr hcounted
      refine iff_of_true ?_ (hbalanced.imp_right .inl)
      intro n hn
      exact absurd (SendPoint.done.inj hn) (hr n)
  · obtain rfl : buf = [] := List.eq_nil_of_length_eq_zero (by omega)
    rw [SendCall.loop, if_neg (by simp)] at hrun
    obtain ⟨rfl, hwaits⟩ := run_done rfl hrun
    rw [hwaits]
    exact iff_of_true (by simp [ExactlyOnce]) (.inl (by simp [Balanced]))

/-- A channel that has just been opened. -/
def freshChannel : Channel := ⟨64, true, false, false, false, 0⟩

/-- A TLS alert, sent over a channel that reports its completion. -/
theorem l2capWolfsslSend_exactly_once_alert :
    ∃ c ch', l2capWolfsslSend [0x15, 0x03, 0x03, 0x00, 0x02, 0x01, 0x00] freshChannel
      [.act .check, .act (.alloc true), .act .reset, .act (.send none), .call .sent,
        .act (.take true)] = some (c, ch') ∧
      ExactlyOnce [0x15, 0x03, 0x03, 0x00, 0x02, 0x01, 0x00] c := by
  have hconn : freshChannel.Connected := by decide
  have hup : StaysUp [.act .check, .act (.alloc true), .act .reset, .act (.send none), .call .sent,
      .act (.take true)] := by decide
  exact ⟨_, _, rfl, (l2capWolfsslSend_exactly_once hconn hup rfl rfl).mpr (.inl (by decide))⟩

/-- **A chunk is lost.**  A control message has timed out, and its SDU still holds the only buffer.
The alert gets no buffer, and while the call sleeps the completion of the control message arrives:
the call returns the length of the alert, and has handed nothing to the channel. -/
theorem l2capWolfsslSend_skips :
    ∃ control ch c ch',
      benchmarkControlSend (ascii "[BENCH_PROGRESS]") 1 freshChannel
        [.act .reset, .act (.alloc true), .act (.send none), .act (.take false)] =
          some (control, ch) ∧
      l2capWolfsslSend [0x15, 0x03, 0x03, 0x00, 0x02, 0x01, 0x00] ch
        [.act .check, .act (.alloc false), .call .sent, .act (.take true)] = some (c, ch') ∧
      c.point = .done (.sent 7) ∧ c.handed = [] ∧
      ¬ ExactlyOnce [0x15, 0x03, 0x03, 0x00, 0x02, 0x01, 0x00] c := by
  refine ⟨_, _, _, _, rfl, rfl, rfl, rfl, ?_⟩
  intro h
  exact absurd (h 7 rfl) (by decide)

end PeripheralBench.Ble

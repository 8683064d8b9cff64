import PeripheralBench.Ble.Channel

/-!
# Control frames

What `benchmark_control_send` puts on the channel: the message cut into pieces, each behind a
header. A call that is cut short leaves the first of these frames (`benchmarkControlSend_handed`).
-/

open PeripheralBench.Text

namespace PeripheralBench.Ble

/-! ## Cutting -/

/-- The pieces of at most `size` bytes that a loop over an offset sends; at least one. -/
def cut (size : ℕ) (bs : Bytes) : List Bytes :=
  if bs.length ≤ size ∨ size = 0 then [bs] else bs.take size :: cut size (bs.drop size)
termination_by bs.length
decreasing_by rw [List.length_drop]; omega

theorem flatten_cut (size : ℕ) (bs : Bytes) : (cut size bs).flatten = bs := by
  induction bs using cut.induct size with
  | case1 bs h => rw [cut, if_pos h, List.flatten_singleton]
  | case2 bs h ih => rw [cut, if_neg h, List.flatten_cons, ih, List.take_append_drop]

/-! ## Frames -/

/-- The frames of a message that has been cut into pieces. -/
def framesFrom (messageId : UInt16) : Bool → List Bytes → List Bytes
  | _, [] => []
  | start, [piece] => [controlFrame start true messageId piece]
  | start, piece :: pieces =>
      controlFrame start false messageId piece :: framesFrom messageId false pieces

/-- The frames of a message on a channel. -/
def controlFrames (messageId : UInt16) (mtu : ℕ) (message : Bytes) : List Bytes :=
  framesFrom messageId true (cut (mtu - controlHeaderSize) message)

theorem cut_ne_nil (size : ℕ) (bs : Bytes) : cut size bs ≠ [] := by
  rw [cut]
  split <;> exact List.cons_ne_nil _ _

/-! ## What `benchmark_control_send` hands over -/

section Send

variable (message : Bytes) (messageId : UInt16) (mtu : ℕ)

/-- The frames from an offset on. -/
def framesAt (offset : ℕ) : List Bytes :=
  framesFrom messageId (decide (offset = 0)) (cut (mtu - controlHeaderSize) (message.drop offset))

/-- The frames after the one at an offset. -/
def framesAfter (offset : ℕ) : List Bytes :=
  if offset + (ControlCall.chunk message mtu offset).length < message.length then
    framesAt message messageId mtu (offset + (ControlCall.chunk message mtu offset).length)
  else []

theorem framesAt_eq_cons (hmtu : controlHeaderSize < mtu) {offset : ℕ}
    (hoffset : offset ≤ message.length) :
    framesAt message messageId mtu offset =
      ControlCall.frame message messageId mtu offset ::
        framesAfter message messageId mtu offset := by
  have hsize : mtu - controlHeaderSize ≠ 0 := by omega
  rw [framesAt, cut]
  by_cases hle : (message.drop offset).length ≤ mtu - controlHeaderSize
  · have hchunk : ControlCall.chunk message mtu offset = message.drop offset :=
      List.take_of_length_le hle
    have hlen : offset + (message.drop offset).length = message.length := by
      rw [List.length_drop]; omega
    rw [if_pos (.inl hle), framesFrom, framesAfter, ControlCall.frame, hchunk, hlen,
      if_neg (lt_irrefl _), decide_eq_true rfl]
  · have hlen : (ControlCall.chunk message mtu offset).length = mtu - controlHeaderSize := by
      rw [ControlCall.chunk, List.length_take]; omega
    have hlt : offset + (mtu - controlHeaderSize) < message.length := by
      rw [List.length_drop] at hle; omega
    obtain ⟨piece, pieces, hcons⟩ := List.exists_cons_of_ne_nil
      (cut_ne_nil (mtu - controlHeaderSize) ((message.drop offset).drop (mtu - controlHeaderSize)))
    rw [if_neg (by rw [not_or]; exact ⟨hle, hsize⟩), framesAfter, ControlCall.frame,
      hlen, if_pos hlt, framesAt, decide_eq_false hlt.ne,
      decide_eq_false (by omega : ¬ offset + _ = 0),
      ← List.drop_drop, hcons, framesFrom]
    · rfl
    · exact List.cons_ne_nil _ _

/-- The frames a call has yet to hand over, if it goes well. -/
def Pending (c : ControlCall) (rest : List Bytes) : Prop :=
  match c.point with
  | .reset | .alloc | .send => c.offset ≤ message.length ∧
      rest = framesAt message messageId mtu c.offset
  | .take => rest = framesAfter message messageId mtu c.offset
  | .done .ok => rest = []
  | .done _ => True

/-- A call hands over the frames of its message in order. -/
def Handing (c : ControlCall) : Prop :=
  ∃ rest, c.handed ++ rest = controlFrames messageId mtu message ∧
    Pending message messageId mtu c rest

variable {message messageId mtu}

theorem Handing.done {c : ControlCall} (h : Handing message messageId mtu c) {r : ControlReturn}
    (hr : r ≠ .ok) : Handing message messageId mtu { c with point := .done r } := by
  obtain ⟨rest, hframes, -⟩ := h
  refine ⟨rest, hframes, ?_⟩
  cases r with
  | ok => exact absurd rfl hr
  | notConn | msgSize | noMem | send | timedOut => trivial

theorem Handing.act (hmtu : controlHeaderSize < mtu) {c c' : ControlCall} {ch ch' : Channel}
    {a : Action} (h : Handing message messageId mtu c)
    (hact : ControlCall.act message messageId mtu c ch a = some (c', ch')) :
    Handing message messageId mtu c' := by
  have hdone : ∀ r, r ≠ .ok → Handing message messageId mtu { c with point := .done r } :=
    fun r hr ↦ h.done hr
  obtain ⟨rest, hframes, hpending⟩ := h
  unfold ControlCall.act at hact
  split at hact
  case h_1 hpoint =>
    obtain ⟨rfl, -⟩ := Prod.mk.inj (Option.some.inj hact)
    simp only [Pending, hpoint] at hpending
    exact ⟨rest, hframes, hpending⟩
  case h_2 hpoint =>
    obtain ⟨rfl, -⟩ := Prod.mk.inj (Option.some.inj hact)
    simp only [Pending, hpoint] at hpending
    exact ⟨rest, hframes, hpending⟩
  case h_3 hpoint =>
    obtain ⟨rfl, -⟩ := Prod.mk.inj (Option.some.inj hact)
    exact hdone .noMem (by simp)
  case h_4 hpoint =>
    obtain ⟨rfl, -⟩ := Prod.mk.inj (Option.some.inj hact)
    simp only [Pending, hpoint] at hpending
    obtain ⟨hoffset, rfl⟩ := hpending
    rw [framesAt_eq_cons message messageId mtu hmtu hoffset] at hframes
    refine ⟨framesAfter message messageId mtu c.offset, ?_, rfl⟩
    rw [← hframes, List.append_assoc, List.singleton_append]
  case h_5 e hpoint =>
    obtain ⟨rfl, -⟩ := Prod.mk.inj (Option.some.inj hact)
    exact hdone (.send e) (by simp)
  case h_6 hpoint =>
    obtain ⟨ch₁, -, hact⟩ := Option.map_eq_some_iff.mp hact
    obtain ⟨rfl, -⟩ := Prod.mk.inj hact
    exact hdone .timedOut (by simp)
  case h_7 hpoint =>
    obtain ⟨ch₁, -, hact⟩ := Option.map_eq_some_iff.mp hact
    simp only [Pending, hpoint] at hpending
    split at hact
    · obtain ⟨rfl, -⟩ := Prod.mk.inj hact
      exact hdone .timedOut (by simp)
    · obtain ⟨rfl, -⟩ := Prod.mk.inj hact
      rw [framesAfter] at hpending
      refine ⟨rest, ?_, ?_⟩
      · rw [ControlCall.loop]
        split <;> exact hframes
      · rw [ControlCall.loop]
        split at hpending
        case isTrue hlt => rw [if_pos hlt]; exact ⟨hlt.le, hpending⟩
        case isFalse hge => rw [if_neg hge]; exact hpending
  case h_8 => cases hact

end Send

theorem handing_start {message : Bytes} {messageId : UInt16} {mtu : ℕ} :
    Handing message messageId mtu ⟨0, .reset, []⟩ :=
  ⟨_, rfl, Nat.zero_le _, rfl⟩

/-- A call that has returned does nothing more. -/
theorem ControlCall.act_done {message : Bytes} {messageId : UInt16} {mtu : ℕ} {c : ControlCall}
    {r : ControlReturn} (hpoint : c.point = .done r) (ch : Channel) (a : Action) :
    ControlCall.act message messageId mtu c ch a = none := by
  unfold ControlCall.act
  rw [hpoint]

/-- **`benchmark_control_send` hands over the frames of its message**: the first ones, and all of
them if it succeeds. -/
theorem benchmarkControlSend_handed {message : Bytes} {messageId : UInt16} {ch ch' : Channel}
    {es : List Event} {c : ControlCall}
    (h : benchmarkControlSend message messageId ch es = some (c, ch')) :
    c.handed <+: controlFrames messageId (min ch.txMtu l2capTxSduMtu) message ∧
      (c.point = .done .ok →
        c.handed = controlFrames messageId (min ch.txMtu l2capTxSduMtu) message) := by
  have hrefused : ∀ r, r ≠ .ok → ControlCall.start ch = ⟨0, .done r, []⟩ →
      c = ⟨0, .done r, []⟩ := by
    intro r hr hstart
    rw [benchmarkControlSend, hstart] at h
    refine run_invariant (P := fun c ↦ c = ⟨0, .done r, []⟩) ?_ rfl h
    rintro c₁ ch₁ a c₂ ch₂ rfl hact
    rw [ControlCall.act_done rfl] at hact
    cases hact
  by_cases hlost : ch.lost = true
  · rw [hrefused .notConn (by simp) (by rw [ControlCall.start, if_pos hlost])]
    exact ⟨List.nil_prefix, by simp⟩
  by_cases hmtu : min ch.txMtu l2capTxSduMtu ≤ controlHeaderSize
  · rw [hrefused .msgSize (by simp) (by rw [ControlCall.start, if_neg hlost, if_pos hmtu])]
    exact ⟨List.nil_prefix, by simp⟩
  rw [benchmarkControlSend, ControlCall.start, if_neg hlost, if_neg hmtu] at h
  obtain ⟨rest, hframes, hpending⟩ := run_invariant
    (fun hc hact ↦ Handing.act (not_le.mp hmtu) hc hact) handing_start h
  refine ⟨⟨rest, hframes⟩, fun hpoint ↦ ?_⟩
  simp only [Pending, hpoint] at hpending
  rw [← hframes, hpending, List.append_nil]

end PeripheralBench.Ble

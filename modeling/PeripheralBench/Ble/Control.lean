import PeripheralBench.Ble.Transparency

/-!
# Control messages

A control message goes through two programs: the firmware cuts it into frames, and the bridge puts
the frames together again.  Here `handle_control_frame` is looked at with the state that it leaves
behind, whatever it returns, and with the bytes that it prints.  A receiver may have kept anything
of an earlier message; the frames of the next one make it forget that (`control_round_trip`).

The bridge prints lines, so a message that does not end with a newline is given one.
-/

open PeripheralBench.Text

namespace PeripheralBench.Ble

/-! ## `handle_control_frame` -/

/-- What a call leaves behind. -/
structure ControlEffect where
  /-- `*state`. -/
  state : ControlState
  /-- The return value. -/
  returns : ℤ
  /-- What has been written to `stdout`. -/
  output : Bytes
deriving DecidableEq

/-- The marker of a profile that can be used. -/
def readyMarker : Bytes := ascii "[BENCH_PKI] status=ready"

/-- The marker of a profile that cannot be used. -/
def errorMarker : Bytes := ascii "[BENCH_PKI] status=error"

/-- The flags that the end of a message may set. -/
def ControlState.noteIdentity (s : ControlState) : ControlState :=
  let s := if readyMarker <:+: s.pending then { s with identityReady := true } else s
  if errorMarker <:+: s.pending then { s with identityError := true } else s

/-- The message, and a newline unless it ends with one. -/
def printedLine (text : Bytes) : Bytes :=
  if text.length = 0 ∨ text.getLast? ≠ some 10 then text ++ [10] else text

/-- `handle_control_frame`, with all that it changes. -/
def controlEffect (s : ControlState) (data : Bytes) : ControlEffect :=
  match controlBase data with
  | none => ⟨s, 0, []⟩
  | some base =>
      let flags := data.getD (base + 5) 0
      let messageId := le16 (data.getD (base + 6) 0) (data.getD (base + 7) 0)
      let payload := data.drop (base + controlHeaderSize)
      let s :=
        if flags &&& 0x01 ≠ 0 then { s with messageId := messageId, active := true, pending := [] }
        else s
      if s.active = false ∨ s.messageId ≠ messageId then ⟨s, -1, []⟩
      else
        let s := { s with pending := s.pending ++ payload }
        if flags &&& 0x02 ≠ 0 then
          ⟨{ s.noteIdentity with active := false, pending := [] }, 1, printedLine s.pending⟩
        else ⟨s, 1, []⟩

/-- A receiver that has received a whole message. -/
def ControlState.finished (s : ControlState) (messageId : UInt16) (text : Bytes) :
    ControlState where
  messageId := messageId
  active := false
  pending := []
  identityReady := s.identityReady || decide (readyMarker <:+: text)
  identityError := s.identityError || decide (errorMarker <:+: text)

theorem printedLine_eq (text : Bytes) : printedLine text = printed text := by
  rw [printedLine, printed]
  by_cases hlast : text.getLast? = some 10
  · have hlen : text.length ≠ 0 := by
      rintro hnil
      rw [List.eq_nil_of_length_eq_zero hnil] at hlast
      cases hlast
    rw [if_neg (not_or.mpr ⟨hlen, not_not.mpr hlast⟩), if_pos hlast]
  · rw [if_pos (.inr hlast), if_neg hlast]

theorem ControlState.noteIdentity_eq (s : ControlState) :
    { s.noteIdentity with active := false, pending := [] } = s.finished s.messageId s.pending := by
  have hready : (if readyMarker <:+: s.pending then { s with identityReady := true } else s) =
      { s with identityReady := s.identityReady || decide (readyMarker <:+: s.pending) } := by
    split
    case isTrue h => rw [decide_eq_true h, Bool.or_true]
    case isFalse h => rw [decide_eq_false h, Bool.or_false]
  rw [noteIdentity, hready, finished]
  dsimp only
  split
  case isTrue h => rw [decide_eq_true h, Bool.or_true]
  case isFalse h => rw [decide_eq_false h, Bool.or_false]

/-- The return value, and what is printed, are those of `handleControlFrame`; a frame that is
refused leaves the state as it was. -/
theorem controlEffect_eq (s : ControlState) (data : Bytes) :
    controlEffect s data =
      match handleControlFrame s data with
      | .plain => ⟨s, 0, []⟩
      | .invalid => ⟨s, -1, []⟩
      | .consumed s' messages => ⟨s', 1, messages.flatten⟩ := by
  rw [controlEffect, handleControlFrame]
  cases controlBase data with
  | none => rfl
  | some base =>
      have hend : ∀ s : ControlState, endMessage s =
          .consumed (s.finished s.messageId s.pending) [printed s.pending] := fun _ ↦ rfl
      simp only [handleFragment, ControlState.noteIdentity_eq, hend, printedLine_eq]
      by_cases hstart : data.getD (base + 5) 0 &&& 0x01 ≠ 0
      · -- the first fragment of a message is never refused
        simp only [if_pos hstart, Bool.true_eq_false, ne_eq, not_true_eq_false, or_self, if_false]
        split
        case isTrue => exact congrArg (ControlEffect.mk _ 1) List.flatten_singleton.symm
        case isFalse => rfl
      · simp only [if_neg hstart]
        split
        case isTrue => rfl
        case isFalse =>
          split
          case isTrue => exact congrArg (ControlEffect.mk _ 1) List.flatten_singleton.symm
          case isFalse => rfl

/-! ## Frames in sequence -/

section Fragment

variable (s : ControlState) (start stop : Bool) (messageId : UInt16) (payload : Bytes)

/-- The message as far as it is known after a fragment that is accepted. -/
def ControlState.joined : Bytes := (if start then [] else s.pending) ++ payload

/-- What a fragment that is accepted does. -/
def acceptedEffect : ControlEffect :=
  if stop then ⟨s.finished messageId (s.joined start payload), 1, printed (s.joined start payload)⟩
  else ⟨{ s with messageId := messageId, active := true, pending := s.joined start payload }, 1, []⟩

variable {s start messageId}

theorem controlEffect_controlFrame
    (h : start = true ∨ s.active = true ∧ s.messageId = messageId) :
    controlEffect s (controlFrame start stop messageId payload) =
      acceptedEffect s start stop messageId payload := by
  have hend : ∀ s : ControlState, endMessage s =
      .consumed (s.finished s.messageId s.pending) [printed s.pending] := fun _ ↦ rfl
  rw [controlEffect_eq, handleControlFrame_controlFrame, handleFragment]
  cases start with
  | true =>
      simp only [if_pos ((controlFlags_start true stop).mpr rfl), Bool.true_eq_false, ne_eq,
        not_true_eq_false, or_self, if_false, hend]
      cases stop with
      | true =>
          rw [if_pos ((controlFlags_stop true true).mpr rfl)]
          exact congrArg (ControlEffect.mk _ 1) List.flatten_singleton
      | false =>
          rw [if_neg (mt (controlFlags_stop true false).mp Bool.false_ne_true)]
          rfl
  | false =>
      obtain ⟨id, active, pending, ready, error⟩ := s
      obtain ⟨rfl, rfl⟩ : active = true ∧ id = messageId := h.resolve_left Bool.false_ne_true
      have hrefused : ¬(true = false ∨ id ≠ id) :=
        not_or.mpr ⟨Bool.noConfusion, not_not.mpr rfl⟩
      simp only [if_neg (mt (controlFlags_start false stop).mp Bool.false_ne_true), if_neg hrefused,
        hend]
      cases stop with
      | true =>
          rw [if_pos ((controlFlags_stop false true).mpr rfl)]
          exact congrArg (ControlEffect.mk _ 1) List.flatten_singleton
      | false =>
          rw [if_neg (mt (controlFlags_stop false false).mp Bool.false_ne_true)]
          rfl

end Fragment

/-- The calls of `handle_control_frame` for several frames: the state after them, what they return,
and what they print. -/
def feedControl (s : ControlState) : List Bytes → ControlState × List ℤ × Bytes
  | [] => (s, [], [])
  | frame :: frames =>
      let effect := controlEffect s frame
      let rest := feedControl effect.state frames
      (rest.1, effect.returns :: rest.2.1, effect.output ++ rest.2.2)

/-- The frames of a message that has been cut into pieces are put together again. -/
theorem feedControl_framesFrom {s : ControlState} {start : Bool} {messageId : UInt16}
    (h : start = true ∨ s.active = true ∧ s.messageId = messageId) {pieces : List Bytes}
    (hne : pieces ≠ []) :
    feedControl s (framesFrom messageId start pieces) =
      (s.finished messageId (s.joined start pieces.flatten), List.replicate pieces.length 1,
        printed (s.joined start pieces.flatten)) := by
  induction pieces generalizing s start with
  | nil => exact absurd rfl hne
  | cons piece pieces ih =>
      cases pieces with
      | nil =>
          rw [framesFrom, feedControl, controlEffect_controlFrame true piece h,
            List.flatten_singleton]
          exact congrArg (fun output ↦ (s.finished messageId (s.joined start piece), [1], output))
            (List.append_nil _)
      | cons piece' pieces =>
          have hjoined : ({ s with
              messageId := messageId
              active := true
              pending := s.joined start piece } : ControlState).joined false
                (piece' :: pieces).flatten =
                s.joined start (piece :: piece' :: pieces).flatten := by
            rw [List.flatten_cons (l := piece), ControlState.joined, ControlState.joined,
              ControlState.joined, if_neg Bool.false_ne_true, List.append_assoc]
          rw [framesFrom, feedControl, controlEffect_controlFrame false piece h, acceptedEffect,
            if_neg Bool.false_ne_true]
          · dsimp only
            rw [ih (.inr ⟨rfl, rfl⟩) (List.cons_ne_nil _ _), hjoined]
            rfl
          · exact List.cons_ne_nil _ _

/-- The frames of a message, from any state of the receiver. -/
theorem feedControl_controlFrames (s : ControlState) (messageId : UInt16) (mtu : ℕ)
    (message : Bytes) :
    feedControl s (controlFrames messageId mtu message) =
      (s.finished messageId message,
        List.replicate (controlFrames messageId mtu message).length 1, printed message) := by
  rw [controlFrames, length_framesFrom,
    feedControl_framesFrom (.inl rfl) (cut_ne_nil (mtu - controlHeaderSize) message)]
  rw [ControlState.joined, flatten_cut]
  rfl

/-! ## Fragments out of sequence -/

section Header

variable (s : ControlState) {data : Bytes} {base : ℕ}

/-- A later fragment that belongs to no message, or to another one, is refused and changes nothing.
-/
theorem controlEffect_refused (hbase : controlBase data = some base)
    (hstart : data.getD (base + 5) 0 &&& 0x01 = 0)
    (h : s.active = false ∨ s.messageId ≠ le16 (data.getD (base + 6) 0) (data.getD (base + 7) 0)) :
    controlEffect s data = ⟨s, -1, []⟩ := by
  rw [controlEffect, hbase]
  simp only [if_neg (not_not.mpr hstart)]
  exact if_pos h

/-- The first fragment of a message does not depend on what there is of another one. -/
theorem controlEffect_start (hbase : controlBase data = some base)
    (hstart : data.getD (base + 5) 0 &&& 0x01 ≠ 0) (messageId : UInt16) (active : Bool)
    (pending : Bytes) :
    controlEffect { s with messageId := messageId, active := active, pending := pending } data =
      controlEffect s data := by
  rw [controlEffect, controlEffect, hbase]
  simp only [if_pos hstart]

end Header

/-! ## The round trip -/

/-- A message that is sent, after `counter` others, is received as it is. -/
structure ControlRoundTrip (counter : UInt16) (message : Bytes) : Prop where
  /-- A call that succeeds has handed over the frames of the message. -/
  sent : ∀ {ch ch' : Channel} {es : List Event} {c : ControlCall},
    benchmarkControlSend message (counter + 1) ch es = some (c, ch') → c.point = .done .ok →
      c.handed = controlFrames (counter + 1) (min ch.txMtu l2capTxSduMtu) message
  /-- No frame is refused. -/
  accepted : ∀ (s : ControlState) (mtu : ℕ), controlHeaderSize < mtu →
    ∀ code ∈ (feedControl s (controlFrames (counter + 1) mtu message)).2.1, code = 1
  /-- The message is printed as a line. -/
  output : ∀ (s : ControlState) (mtu : ℕ), controlHeaderSize < mtu →
    (feedControl s (controlFrames (counter + 1) mtu message)).2.2 = printedLine message
  inactive : ∀ (s : ControlState) (mtu : ℕ), controlHeaderSize < mtu →
    (feedControl s (controlFrames (counter + 1) mtu message)).1.active = false ∧
      (feedControl s (controlFrames (counter + 1) mtu message)).1.pending = []
  identityReady : ∀ (s : ControlState) (mtu : ℕ), controlHeaderSize < mtu →
    ((feedControl s (controlFrames (counter + 1) mtu message)).1.identityReady = true ↔
      s.identityReady = true ∨ readyMarker <:+: message)
  identityError : ∀ (s : ControlState) (mtu : ℕ), controlHeaderSize < mtu →
    ((feedControl s (controlFrames (counter + 1) mtu message)).1.identityError = true ↔
      s.identityError = true ∨ errorMarker <:+: message)

theorem controlRoundTrip (counter : UInt16) (message : Bytes) :
    ControlRoundTrip counter message where
  sent h hok := (benchmarkControlSend_handed h).2 hok
  accepted s mtu _ code hcode := by
    rw [feedControl_controlFrames] at hcode
    exact List.eq_of_mem_replicate hcode
  output s mtu _ := by rw [feedControl_controlFrames, printedLine_eq]
  inactive s mtu _ := by
    rw [feedControl_controlFrames]
    exact ⟨rfl, rfl⟩
  identityReady s mtu _ := by
    rw [feedControl_controlFrames, ControlState.finished, Bool.or_eq_true, decide_eq_true_iff]
  identityError s mtu _ := by
    rw [feedControl_controlFrames, ControlState.finished, Bool.or_eq_true, decide_eq_true_iff]

/-- **Control messages make the round trip**; a fragment out of sequence is refused, and the first
fragment of a message replaces what there was. -/
theorem control_round_trip :
    (∀ counter message, ControlRoundTrip counter message) ∧
      (∀ (s : ControlState) (data : Bytes) (base : ℕ), controlBase data = some base →
        data.getD (base + 5) 0 &&& 0x01 = 0 →
        s.active = false ∨ s.messageId ≠ le16 (data.getD (base + 6) 0) (data.getD (base + 7) 0) →
        controlEffect s data = ⟨s, -1, []⟩) ∧
      ∀ (s : ControlState) (data : Bytes) (base : ℕ), controlBase data = some base →
        data.getD (base + 5) 0 &&& 0x01 ≠ 0 →
        ∀ (messageId : UInt16) (active : Bool) (pending : Bytes),
          controlEffect
            { s with messageId := messageId, active := active, pending := pending } data =
            controlEffect s data :=
  ⟨controlRoundTrip, fun s _ _ ↦ controlEffect_refused s, fun s _ _ ↦ controlEffect_start s⟩

/-- The bridge prints a newline for the empty message. -/
theorem not_printed_exactly : ¬ ∀ (s : ControlState) (counter : UInt16) (mtu : ℕ) (message : Bytes),
    controlHeaderSize < mtu →
      (feedControl s (controlFrames (counter + 1) mtu message)).2.2 = message := by
  intro h
  have hempty := h {} 0 64 [] (by decide)
  rw [feedControl_controlFrames] at hempty
  exact List.cons_ne_nil _ _ hempty

end PeripheralBench.Ble

import PeripheralBench.Pki.ArmingRuns
import PeripheralBench.Trace.Rounds

/-!
# Every gateway is answered

A gateway that connects while the board waits is told whether the board knows its names, as long as
it is not disturbed: the channel stays open, no wait is over before its time, and the board can hand
over its answer (`answer_of_gateway`).  The gateway, the Bluetooth stack and the main thread of the
board may take their steps in any order, as long as none of them stops.  This holds for any MTU with
room for more than a header, so for an answer that is cut into any number of frames, and whatever
the gateways before it have selected.
-/

open PeripheralBench.Text PeripheralBench.Ble PeripheralBench.Durable PeripheralBench.Trace

namespace PeripheralBench.Pki

namespace Arming

/-! ## The gateway reads the answer -/

/-- What a gateway makes of a message. -/
def stageOf (text : Bytes) : Stage :=
  if readyMarker <:+: text then .ready
  else if errorMarker <:+: text then .failed
  else .waiting

/-- A gateway that has received a whole message. -/
def Gateway.told (g : Gateway) (messageId : UInt16) (text : Bytes) : Gateway :=
  { g with control := g.control.finished messageId text, stage := stageOf text }

/-- Nothing has been said to the gateway yet. -/
structure Gateway.Untold (g : Gateway) : Prop where
  stage : g.stage = .waiting
  ready : g.control.identityReady = false
  error : g.control.identityError = false

section Told

variable {g : Gateway} {start : Bool} {messageId : UInt16} {piece : Bytes}

theorem Gateway.Untold.receive_last (hg : g.Untold)
    (h : start = true ∨ g.control.active = true ∧ g.control.messageId = messageId) :
    g.receive (controlFrame start true messageId piece) =
      g.told messageId (g.control.joined start piece) := by
  have hone : ¬ (1 : ℤ) < 0 := by decide
  rw [Gateway.receive, controlEffect_controlFrame true piece h, acceptedEffect, if_pos rfl,
    Gateway.told, stageOf]
  simp only [if_neg hone, ControlState.finished, hg.ready, hg.error, Bool.false_or,
    decide_eq_true_iff]

/-- A fragment that is not the last one. -/
theorem Gateway.Untold.receive_next (hg : g.Untold)
    (h : start = true ∨ g.control.active = true ∧ g.control.messageId = messageId) :
    g.receive (controlFrame start false messageId piece) =
      { g with control :=
        { g.control with
          messageId := messageId
          active := true
          pending := g.control.joined start piece } } := by
  rw [Gateway.receive, controlEffect_controlFrame false piece h, acceptedEffect,
    if_neg Bool.false_ne_true]
  have hone : ¬ (1 : ℤ) < 0 := by decide
  simp only [if_neg hone, hg.ready, hg.error, hg.stage, if_neg Bool.false_ne_true]

end Told

/-- A gateway that reads a message, with the frames that are under way and their number. -/
inductive Gateway.Reads (text : Bytes) : Gateway → List Bytes → ℕ → Prop where
  | untold {g : Gateway} {start : Bool} {messageId : UInt16} {piece : Bytes} {pieces : List Bytes}
      (untold : g.Untold)
      (follows : start = true ∨ g.control.active = true ∧ g.control.messageId = messageId)
      (joined : g.control.joined start (piece :: pieces).flatten = text) :
      Reads text g (framesFrom messageId start (piece :: pieces)) (pieces.length + 1)
  | told {g : Gateway} (stage : g.stage = stageOf text) : Reads text g [] 0

section Reads

variable {text : Bytes} {g : Gateway} {frame : Bytes} {down : List Bytes} {frames : ℕ}

theorem Gateway.Reads.waiting (h : g.Reads text (frame :: down) frames) : g.stage = .waiting := by
  generalize hall : frame :: down = all at h
  cases h with
  | untold untold => exact untold.stage
  | told => cases hall

/-- A frame is read. -/
theorem Gateway.Reads.receive (h : g.Reads text (frame :: down) frames) :
    ∃ fewer < frames, (g.receive frame).Reads text down fewer := by
  generalize hall : frame :: down = all at h
  cases h with
  | told => cases hall
  | @untold start messageId piece pieces untold follows joined =>
      refine ⟨pieces.length, Nat.lt_succ_self _, ?_⟩
      cases pieces with
      | nil =>
          obtain ⟨rfl, rfl⟩ := List.cons_eq_cons.mp hall
          rw [untold.receive_last follows]
          rw [List.flatten_singleton] at joined
          rw [joined]
          exact .told rfl
      | cons piece' pieces =>
          rw [framesFrom] at hall
          · obtain ⟨rfl, rfl⟩ := List.cons_eq_cons.mp hall
            rw [untold.receive_next follows]
            refine .untold ⟨untold.stage, untold.ready, untold.error⟩ (.inr ⟨rfl, rfl⟩) ?_
            rw [List.flatten_cons (l := piece)] at joined
            rw [← joined, ControlState.joined, ControlState.joined, ControlState.joined,
              if_neg Bool.false_ne_true, List.append_assoc]
          · exact List.cons_ne_nil _ _

theorem Gateway.Reads.eq_zero (h : g.Reads text [] frames) : frames = 0 := by
  generalize hall : ([] : List Bytes) = all at h
  cases h with
  | told => rfl
  | @untold start messageId piece pieces =>
      cases pieces with
      | nil => cases hall
      | cons piece' pieces =>
          rw [framesFrom] at hall
          · cases hall
          · exact List.cons_ne_nil _ _

theorem Gateway.Reads.stage_eq (h : g.Reads text down 0) : g.stage = stageOf text := by
  generalize hnone : 0 = frames at h
  cases h with
  | told stage => exact stage
  | untold => exact absurd hnone.symm (Nat.succ_ne_zero _)

/-- The selection has been sent. -/
theorem Gateway.Reads.ne_connected (h : g.Reads text down frames) : g.stage ≠ .connected := by
  cases h with
  | untold untold => exact untold.stage ▸ Stage.noConfusion
  | told stage =>
      rw [stage, stageOf]
      split
      · exact Stage.noConfusion
      · split <;> exact Stage.noConfusion

/-- The whole message is under way. -/
theorem Gateway.Untold.reads (hg : g.Untold) (messageId : UInt16) (mtu : ℕ) (text : Bytes) :
    g.Reads text (controlFrames messageId mtu text)
      (cut (mtu - controlHeaderSize) text).length := by
  rw [controlFrames]
  generalize hpieces : cut (mtu - controlHeaderSize) text = pieces
  cases pieces with
  | nil => exact absurd hpieces (cut_ne_nil _ text)
  | cons piece pieces =>
      refine .untold hg (.inl rfl) ?_
      rw [← hpieces, flatten_cut]
      rfl

end Reads

/-! ## The course of an answer -/

/-- The answer to the names, and whether a session follows. -/
def answer : Option CaEntry → Option Signature → Bool × Bytes
  | some root, some signature => (true, readyText root signature)
  | _, _ => (false, errorText)

/-- A gateway that comes, and what was there before it. -/
structure Visit where
  /-- The names in its options. -/
  root : Bytes
  leaf : Bytes
  /-- The MTU of its channel. -/
  mtu : ℕ
  /-- The sessions that have been begun before. -/
  begun : List Session

namespace Visit

variable (t : Tables) (v : Visit)

/-- The answer that belongs to the names. -/
def answer : Bool × Bytes := Arming.answer (t.selectRoot v.root) (t.selectSignature v.leaf)

/-- The number of its frames. -/
def frames : ℕ := (cut (min v.mtu l2capTxSduMtu - controlHeaderSize) (v.answer t).2).length

/-- The session that the names stand for. -/
def sessions : List Session :=
  match t.selectRoot v.root, t.selectSignature v.leaf with
  | some root, some signature => [⟨v.root, v.leaf, root, signature⟩]
  | _, _ => []

end Visit

section Visit

variable {t : Tables} {v : Visit}

theorem Visit.sessions_of_some {root : CaEntry} (hroot : t.selectRoot v.root = some root)
    {signature : Signature} (hsignature : t.selectSignature v.leaf = some signature) :
    v.sessions t = [⟨v.root, v.leaf, root, signature⟩] := by
  rw [sessions, hroot, hsignature]

theorem Visit.sessions_of_none (h : t.selectRoot v.root = none ∨ t.selectSignature v.leaf = none) :
    v.sessions t = [] := by
  rw [sessions]
  split
  case h_1 root signature hroot hsignature =>
    rcases h with hnone | hnone
    · cases hroot.symm.trans hnone
    · cases hsignature.symm.trans hnone
  case h_2 => rfl

/-- An answer says that the board is ready if both names are known. -/
theorem answer_cases {root : Option CaEntry} {signature : Option Signature} {ready : Bool}
    {message : Bytes} (h : answer root signature = (ready, message)) :
    (ready = true ∧ root.isSome = true ∧ signature.isSome = true) ∨
      ready = false ∧ (root = none ∨ signature = none) := by
  cases root with
  | none => exact .inr ⟨(congrArg Prod.fst h).symm, .inl rfl⟩
  | some root =>
      cases signature with
      | none => exact .inr ⟨(congrArg Prod.fst h).symm, .inr rfl⟩
      | some signature => exact .inl ⟨(congrArg Prod.fst h).symm, rfl, rfl⟩

end Visit

/-- The parties whose steps are needed. -/
inductive Party where
  | select
  | deliver
  | receive
  | main
deriving DecidableEq

/-- The party takes a step. -/
def Takes : Party → Event → Prop
  | .select, .select | .deliver, .deliver | .receive, .receive | .main, .main _ => True
  | _, _ => False

/-- How far an answer has come. -/
inductive Point where
  /-- The selection has not arrived. -/
  | unheard (sent seen : Bool)
  /-- It has arrived, and the board has to take some steps until it has answered. -/
  | heard (steps : ℕ)
  /-- The answer is under way, and the board has to take some steps until the session begins. -/
  | answered (steps frames : ℕ)

namespace Point

/-- What is left to do. -/
def left (frames : ℕ) : Point → ℕ
  | unheard sent seen => (if sent then 1 else 2) + (if seen then 6 else 7) + 2 + frames
  | heard steps => steps + 2 + frames
  | answered steps frames => steps + frames

/-- Whose turn it is. -/
def turn : Point → Option Party
  | unheard sent _ => some (if sent then .deliver else .select)
  | heard _ => some .main
  | answered (_ + 1) _ => some .main
  | answered 0 (_ + 1) => some .receive
  | answered 0 0 => none

theorem turn_of_left {frames : ℕ} (i : Point) (h : 0 < i.left frames) :
    ∃ party, i.turn = some party := by
  match i with
  | unheard sent seen => exact ⟨_, rfl⟩
  | heard steps => exact ⟨_, rfl⟩
  | answered (steps + 1) frames => exact ⟨_, rfl⟩
  | answered 0 (frames + 1) => exact ⟨_, rfl⟩
  | answered 0 0 => exact absurd h (lt_irrefl 0)

/-- There is nothing left to do at the end only. -/
theorem eq_of_left {frames : ℕ} {i : Point} (h : i.left frames = 0) : i = .answered 0 0 := by
  match i with
  | unheard sent seen =>
      rw [left] at h
      omega
  | heard steps =>
      rw [left] at h
      omega
  | answered (steps + 1) frames =>
      rw [left] at h
      omega
  | answered 0 (frames + 1) =>
      rw [left] at h
      omega
  | answered 0 0 => rfl

end Point

namespace System

/-- The board is on its way to the next wait, or waits, and nothing has come. -/
def Idle (s : System) : Prop :=
  match s.place with
  | .rearm => True
  | .resetSelected | .clearRoot | .clearSignature | .waitConnected => s.connected = false
  | _ => False

/-- The steps of the board up to the answer, when the selection is there. -/
inductive Hears (s : System) : ℕ → Prop where
  | waitConnected (hplace : s.place = .waitConnected) (hconnected : s.connected = true)
      (hselected : s.selected = true) : Hears s 7
  | waitSelected (hplace : s.place = .waitSelected) (hselected : s.selected = true) : Hears s 6
  | checkRoot (hplace : s.place = .checkRoot) : Hears s 5
  | checkSignature (hplace : s.place = .checkSignature) {root : CaEntry}
      (hroot : s.root = some root) : Hears s 4
  | readRoot (hplace : s.place = .readRoot) {root : CaEntry} (hroot : s.root = some root)
      {signature : Signature} (hsignature : s.signature = some signature) : Hears s 3
  | readSignature {root : CaEntry} (hplace : s.place = .readSignature root)
      (hroot : s.root = some root) {signature : Signature}
      (hsignature : s.signature = some signature) : Hears s 2
  | respond {ready : Bool} {message : Bytes} (hplace : s.place = .respond ready message)
      (hanswer : answer s.root s.signature = (ready, message)) : Hears s 1

/-- The steps of the board up to the session, when the answer is under way. -/
inductive Begins (t : Tables) (v : Visit) (s : System) : ℕ → Prop where
  | loadRoot (hplace : s.place = .loadRoot) {root : CaEntry} (hroot : s.root = some root)
      {signature : Signature} (hsignature : s.signature = some signature)
      (hbegun : s.begun ++ [⟨v.root, v.leaf, root, signature⟩] = v.begun ++ v.sessions t) :
      Begins t v s 2
  | loadSignature {root : CaEntry} (hplace : s.place = .loadSignature root)
      {signature : Signature} (hsignature : s.signature = some signature)
      (hbegun : s.begun ++ [⟨v.root, v.leaf, root, signature⟩] = v.begun ++ v.sessions t) :
      Begins t v s 1
  | done (hplace : s.Idle ∨ ∃ root signature, s.place = .session root signature)
      (hbegun : s.begun = v.begun ++ v.sessions t) : Begins t v s 0

/-- The states at a point. -/
def At (t : Tables) (v : Visit) (s : System) : Point → Prop
  | .unheard sent seen =>
      ∃ frame, selectFrame v.root v.leaf = some frame ∧
        s.gateway = some ⟨v.root, v.leaf, if sent then .waiting else .connected, {}⟩ ∧
        s.link = some ⟨v.mtu, if sent then [frame] else [], []⟩ ∧
        s.begun = v.begun ∧ s.selected = false ∧
        if seen then s.place = .waitSelected else s.place = .waitConnected ∧ s.connected = true
  | .heard steps =>
      s.gateway = some ⟨v.root, v.leaf, .waiting, {}⟩ ∧ s.link = some ⟨v.mtu, [], []⟩ ∧
        s.begun = v.begun ∧ s.root = t.selectRoot v.root ∧
        s.signature = t.selectSignature v.leaf ∧ s.Hears steps
  | .answered steps frames =>
      ∃ g link, s.gateway = some g ∧ s.link = some link ∧ g.root = v.root ∧ g.leaf = v.leaf ∧
        (∀ frame ∈ link.up, ¬ IsControl frame) ∧ g.Reads (v.answer t).2 link.down frames ∧
        s.Begins t v steps

/-- The board can hand over its answer as a whole. -/
def HandsOver (s : System) (input : Input) : Prop :=
  match s.place, s.link with
  | .respond _ message, some link =>
      (controlFrames (s.messageId + 1) (min link.mtu l2capTxSduMtu) message).length ≤ input.frames ∧
        input.error = false
  | _, _ => True

instance (s : System) (input : Input) : Decidable (s.HandsOver input) := by
  rw [HandsOver]
  split <;> infer_instance

/-- Nothing disturbs the gateway: the channel stays open, no wait is over before its time, the board
can hand over its answer and does not reboot, and what is relayed does not look like a control
frame. -/
def Undisturbed (s : System) : Event → Prop
  | .forward data => ¬ IsControl data
  | .giveUp | .close => False
  | .main input => input.late = false ∧ input.reboot = false ∧ s.HandsOver input
  | _ => True

instance (s : System) : DecidablePred s.Undisturbed
  | .forward data => inferInstanceAs (Decidable (¬ IsControl data))
  | .giveUp | .close => inferInstanceAs (Decidable False)
  | .main input =>
      inferInstanceAs (Decidable (input.late = false ∧ input.reboot = false ∧ s.HandsOver input))
  | .connect .. | .select | .receive | .deliver => inferInstanceAs (Decidable True)

/-! ## One step -/

/-- From one point to the next. -/
def Moves (t : Tables) (v : Visit) (s' : System) (event : Event) (i : Point) : Prop :=
  ∃ j, s'.At t v j ∧ Advances (Point.left (v.frames t)) Point.turn Takes event i j

variable {t : Tables} {v : Visit} {s : System}

/-- Nothing happens, and it is not the turn of the party that takes the step. -/
theorem At.stays {event : Event} {i : Point} (h : s.At t v i)
    (hstep : s.step t event = s) (hturn : ∀ party ∈ i.turn, ¬ Takes party event) :
    Moves t v (s.step t event) event i :=
  ⟨i, hstep.symm ▸ h, .inr ⟨rfl, rfl, hturn⟩⟩

/-- When the answer is under way, it is the turn of the board or of the gateway. -/
theorem turn_answered {steps frames : ℕ} {party : Party}
    (h : party ∈ (Point.answered steps frames).turn) :
    party = .main ∧ 0 < steps ∨ party = .receive ∧ 0 < frames := by
  match steps, frames with
  | steps + 1, frames => exact .inl ⟨(Option.some_inj.mp h).symm, Nat.succ_pos steps⟩
  | 0, frames + 1 => exact .inr ⟨(Option.some_inj.mp h).symm, Nat.succ_pos frames⟩
  | 0, 0 => cases h

/-- The main thread goes round. -/
theorem Idle.mainStep (h : s.Idle) (input : Input) : (s.mainStep input).Idle := by
  obtain ⟨connected, selected, root, signature, messageId, place⟩ := s
  cases place with
  | rearm => rfl
  | resetSelected => exact h
  | clearRoot => exact h
  | clearSignature => exact h
  | waitConnected =>
      obtain rfl : connected = false := h
      rfl
  | _ => exact h.elim

theorem Idle.mainStep_eq (h : s.Idle) (input : Input) :
    (s.mainStep input).gateway = s.gateway ∧ (s.mainStep input).link = s.link ∧
      (s.mainStep input).begun = s.begun := by
  obtain ⟨connected, selected, root, signature, messageId, place⟩ := s
  cases place with
  | waitConnected =>
      obtain rfl : connected = false := h
      exact ⟨rfl, rfl, rfl⟩
  | rearm => exact ⟨rfl, rfl, rfl⟩
  | resetSelected => exact ⟨rfl, rfl, rfl⟩
  | clearRoot => exact ⟨rfl, rfl, rfl⟩
  | clearSignature => exact ⟨rfl, rfl, rfl⟩
  | _ => exact h.elim

theorem response_eq {text : Bytes} (h : text.length < 192) : response text = some text := by
  have hlength : text.length ≤ 191 := Nat.le_of_lt_succ h
  rw [response, if_pos h.le, List.take_of_length_le hlength, List.take_left' rfl]

theorem gatewayStep_eq {g : Gateway} {link : Link} (hgateway : s.gateway = some g)
    (hlink : s.link = some link) (f : Gateway → Link → Gateway × Link) :
    s.gatewayStep f = { s with gateway := some (f g link).1, link := some (f g link).2 } := by
  simp only [gatewayStep, hgateway, hlink]

theorem gatewayStep_self {g : Gateway} {link : Link} (hgateway : s.gateway = some g)
    (hlink : s.link = some link) {f : Gateway → Link → Gateway × Link}
    (hf : f g link = (g, link)) : s.gatewayStep f = s := by
  rw [gatewayStep_eq hgateway hlink, hf]
  dsimp only
  rw [← hgateway, ← hlink]

theorem connect_self {link : Link} (hlink : s.link = some link) (root leaf : Bytes) (mtu : ℕ) :
    s.connect root leaf mtu = s := by
  simp only [connect, hlink]

theorem deliver_self {link : Link} (hlink : s.link = some link) (hup : link.up = []) :
    s.deliver t = s := by
  obtain ⟨mtu, up, down⟩ := link
  obtain rfl : up = [] := hup
  simp only [deliver, hlink]

theorem select_self {g : Gateway} (h : g.stage ≠ .connected) (link : Link) :
    System.select g link = (g, link) := by
  rw [System.select]
  split
  · exact absurd ‹g.stage = .connected› h
  · exact absurd ‹g.stage = .connected› h
  · rfl

theorem Begins.wire {steps : ℕ} (h : s.Begins t v steps) (g : Gateway) (link : Link) :
    { s with gateway := some g, link := some link : System }.Begins t v steps := by
  cases h with
  | loadRoot hplace hroot hsignature hbegun => exact .loadRoot hplace hroot hsignature hbegun
  | loadSignature hplace hsignature hbegun => exact .loadSignature hplace hsignature hbegun
  | done hplace hbegun => exact .done hplace hbegun

/-- The answer is handed over. -/
theorem respond_eq {link : Link} (hlink : s.link = some link)
    (hmtu : controlHeaderSize < link.mtu) {ready : Bool} {message : Bytes} {input : Input}
    (hframes : (controlFrames (s.messageId + 1) (min link.mtu l2capTxSduMtu) message).length ≤
      input.frames) (herror : input.error = false) :
    s.respond ready message input =
      { s with
        messageId := s.messageId + 1
        place := if ready = true then .loadRoot else .rearm
        link := some { link with
          down := link.down ++
            controlFrames (s.messageId + 1) (min link.mtu l2capTxSduMtu) message } } := by
  have hwide : ¬ min link.mtu l2capTxSduMtu ≤ controlHeaderSize :=
    not_le.mpr (lt_min hmtu (by decide))
  rw [System.respond]
  simp only [hlink, if_neg hwide, hframes, List.take_of_length_le hframes, herror, and_true]

section Steps

variable {event : Event} (hundisturbed : s.Undisturbed event)

include hundisturbed

/-- Before the selection arrives. -/
theorem At.unheard {sent seen : Bool} (hroot : Sendable v.root) (hleaf : Sendable v.leaf)
    (h : s.At t v (.unheard sent seen)) :
    Moves t v (s.step t event) event (.unheard sent seen) := by
  have hall := h
  obtain ⟨frame, hframe, hgateway, hlink, hbegun, hselected, hplace⟩ := h
  cases event with
  | giveUp => exact hundisturbed.elim
  | close => exact hundisturbed.elim
  | connect root leaf mtu =>
      refine hall.stays (connect_self hlink root leaf mtu) ?_
      cases sent <;> rintro _ ⟨⟩ <;> exact id
  | receive =>
      refine hall.stays (gatewayStep_self hgateway hlink ?_) ?_
      · cases sent <;> rfl
      · cases sent <;> rintro _ ⟨⟩ <;> exact id
  | forward data =>
      refine hall.stays (gatewayStep_self hgateway hlink ?_) ?_
      · cases sent <;> rfl
      · cases sent <;> rintro _ ⟨⟩ <;> exact id
  | select =>
      cases sent with
      | true =>
          refine hall.stays (gatewayStep_self hgateway hlink rfl) ?_
          rintro _ ⟨⟩
          exact id
      | false =>
          refine ⟨.unheard true seen, ⟨frame, hframe, ?_, ?_, ?_⟩, .inl ?_⟩
          · rw [step, gatewayStep_eq hgateway hlink]
            simp only [select, hframe]
            rfl
          · rw [step, gatewayStep_eq hgateway hlink]
            simp only [select, hframe]
            rfl
          · rw [step, gatewayStep_eq hgateway hlink]
            exact ⟨hbegun, hselected, hplace⟩
          · rw [Point.left, Point.left, if_pos rfl, if_neg Bool.false_ne_true]
            omega
  | deliver =>
      cases sent with
      | false =>
          refine hall.stays (deliver_self hlink rfl) ?_
          rintro _ ⟨⟩
          exact id
      | true =>
          obtain ⟨hcontrol, hscan⟩ := scanSelect_selectFrame hroot hleaf hframe
          refine ⟨.heard (if seen then 6 else 7), ?_, .inl ?_⟩
          · have hdeliver : s.deliver t =
                { s with
                  root := t.selectRoot v.root
                  signature := t.selectSignature v.leaf
                  selected := true
                  link := some ⟨v.mtu, [], []⟩ } := by
              rw [if_pos rfl] at hlink
              simp only [deliver, hlink, l2capRecv, if_pos hcontrol, hscan]
            rw [step, hdeliver]
            refine ⟨hgateway, rfl, hbegun, rfl, rfl, ?_⟩
            cases seen with
            | true => exact .waitSelected hplace rfl
            | false => exact .waitConnected hplace.1 hplace.2 rfl
          · rw [Point.left, Point.left, if_pos rfl]
            omega
  | main input =>
      cases seen with
      | true =>
          refine hall.stays ?_ ?_
          · simp only [step, mainStep, show s.place = .waitSelected from hplace, hselected,
              hundisturbed.1, if_neg Bool.false_ne_true]
          · cases sent <;> rintro _ ⟨⟩ <;> exact id
      | false =>
          obtain ⟨hwait, hconnected⟩ := hplace
          have hmain :
              s.mainStep input = { s with connected := false, place := .waitSelected } := by
            simp only [mainStep, hwait, if_pos hconnected]
          refine ⟨.unheard sent true, ?_, .inl ?_⟩
          · rw [step, hmain]
            exact ⟨frame, hframe, hgateway, hlink, hbegun, hselected, rfl⟩
          · rw [Point.left, Point.left, if_pos rfl, if_neg Bool.false_ne_true]
            omega

/-- Until the board has answered. -/
theorem At.heard {steps : ℕ} (hfits : Fits t) (hmtu : controlHeaderSize < v.mtu)
    (h : s.At t v (.heard steps)) : Moves t v (s.step t event) event (.heard steps) := by
  have hall := h
  obtain ⟨hgateway, hlink, hbegun, hroot, hsignature, hhears⟩ := h
  cases event with
  | giveUp => exact hundisturbed.elim
  | close => exact hundisturbed.elim
  | connect root leaf mtu =>
      refine hall.stays (connect_self hlink root leaf mtu) ?_
      rintro _ ⟨⟩
      exact id
  | receive =>
      refine hall.stays (gatewayStep_self hgateway hlink rfl) ?_
      rintro _ ⟨⟩
      exact id
  | forward data =>
      refine hall.stays (gatewayStep_self hgateway hlink rfl) ?_
      rintro _ ⟨⟩
      exact id
  | select =>
      refine hall.stays (gatewayStep_self hgateway hlink rfl) ?_
      rintro _ ⟨⟩
      exact id
  | deliver =>
      refine hall.stays (deliver_self hlink rfl) ?_
      rintro _ ⟨⟩
      exact id
  | main input =>
      -- the board gets one step further, to the answer at once if it does not know a name
      have hgo : ∀ (connected selected : Bool) (place : Place) {fewer : ℕ}, s.mainStep input =
          { s with connected := connected, selected := selected, place := place } →
          { s with connected := connected, selected := selected, place := place : System }.Hears
            fewer →
          fewer < steps → Moves t v (s.step t (.main input)) (.main input) (.heard steps) := by
        intro connected selected place fewer hmain hnext hless
        refine ⟨.heard fewer, ?_, .inl ?_⟩
        · rw [step, hmain]
          exact ⟨hgateway, hlink, hbegun, hroot, hsignature, hnext⟩
        · rw [Point.left, Point.left]
          omega
      cases hhears with
      | waitConnected hplace hconnected hselected =>
          refine hgo false s.selected .waitSelected ?_ (.waitSelected rfl hselected) (by decide)
          simp only [mainStep, hplace, if_pos hconnected]
      | waitSelected hplace hselected =>
          refine hgo s.connected false .checkRoot ?_ (.checkRoot rfl) (by decide)
          simp only [mainStep, hplace, if_pos hselected]
      | checkRoot hplace =>
          cases hsome : s.root with
          | none =>
              refine hgo s.connected s.selected (.respond false errorText) ?_ (.respond rfl ?_)
                (by decide)
              · simp only [mainStep, hplace, hsome]
              · simp only [hsome, answer]
          | some root =>
              refine hgo s.connected s.selected .checkSignature ?_ (.checkSignature rfl hsome)
                (by decide)
              simp only [mainStep, hplace, hsome]
      | checkSignature hplace hknown =>
          cases hsome : s.signature with
          | none =>
              refine hgo s.connected s.selected (.respond false errorText) ?_ (.respond rfl ?_)
                (by decide)
              · simp only [mainStep, hplace, hsome]
              · simp only [hknown, hsome, answer]
          | some signature =>
              refine hgo s.connected s.selected .readRoot ?_ (.readRoot rfl hknown hsome)
                (by decide)
              simp only [mainStep, hplace, hsome]
      | @readRoot hplace root hknown signature hsome =>
          refine hgo s.connected s.selected (.readSignature root) ?_
            (.readSignature rfl hknown hsome) (by decide)
          simp only [mainStep, hplace, hknown]
      | @readSignature root hplace hknown signature hsome =>
          have hlength := hfits root (List.mem_of_find?_eq_some (hroot.symm.trans hknown)) signature
            (List.mem_of_find?_eq_some (hsignature.symm.trans hsome))
          refine hgo s.connected s.selected (.respond true (readyText root signature)) ?_
            (.respond rfl ?_) (by decide)
          · simp only [mainStep, hplace, hsome, Option.bind_some, response_eq hlength]
          · simp only [hknown, hsome, answer]
      | @respond ready message hplace hanswer =>
          obtain ⟨-, -, hhanded⟩ := hundisturbed
          rw [HandsOver, hplace, hlink] at hhanded
          obtain ⟨hhanded, herror⟩ := hhanded
          have hrespond : s.mainStep input = s.respond ready message input := by
            simp only [mainStep, hplace]
          have hmain := hrespond.trans (respond_eq hlink hmtu hhanded herror)
          have hvisit : v.answer t = (ready, message) := by
            rw [Visit.answer, ← hroot, ← hsignature, hanswer]
          have huntold : (⟨v.root, v.leaf, .waiting, {}⟩ : Gateway).Untold := ⟨rfl, rfl, rfl⟩
          have hreads := huntold.reads (s.messageId + 1) (min v.mtu l2capTxSduMtu) message
          have hframes : (cut (min v.mtu l2capTxSduMtu - controlHeaderSize) message).length =
              v.frames t := by
            rw [Visit.frames, hvisit]
          rw [hframes] at hreads
          refine ⟨.answered (if ready = true then 2 else 0) (v.frames t), ?_, .inl ?_⟩
          · rw [step, hmain]
            refine ⟨_, _, hgateway, rfl, rfl, rfl, fun _ hmem ↦ absurd hmem List.not_mem_nil, ?_,
              ?_⟩
            · rw [hvisit]
              exact hreads
            · rcases answer_cases hanswer with ⟨rfl, hknown, hknown'⟩ | ⟨rfl, hnone⟩
              · obtain ⟨root, hsome⟩ := Option.isSome_iff_exists.mp hknown
                obtain ⟨signature, hsome'⟩ := Option.isSome_iff_exists.mp hknown'
                refine .loadRoot rfl hsome hsome' ?_
                rw [Visit.sessions_of_some (hroot.symm.trans hsome) (hsignature.symm.trans hsome')]
                exact congrArg (· ++ _) hbegun
              · refine .done (.inl trivial) ?_
                rw [hroot, hsignature] at hnone
                rw [Visit.sessions_of_none hnone, List.append_nil]
                exact hbegun
          · rw [Point.left, Point.left]
            split <;> omega

/-- After the board has answered. -/
theorem At.answered {steps frames : ℕ} (h : s.At t v (.answered steps frames)) :
    Moves t v (s.step t event) event (.answered steps frames) := by
  have hall := h
  obtain ⟨g, link, hgateway, hlink, hroot, hleaf, hup, hreads, hbegins⟩ := h
  cases event with
  | giveUp => exact hundisturbed.elim
  | close => exact hundisturbed.elim
  | connect root leaf mtu =>
      refine hall.stays (connect_self hlink root leaf mtu) fun party hparty ↦ ?_
      rcases turn_answered hparty with ⟨rfl, -⟩ | ⟨rfl, -⟩ <;> exact id
  | select =>
      refine hall.stays (gatewayStep_self hgateway hlink (select_self hreads.ne_connected link))
        fun party hparty ↦ ?_
      rcases turn_answered hparty with ⟨rfl, -⟩ | ⟨rfl, -⟩ <;> exact id
  | forward data =>
      refine ⟨.answered steps frames, ?_, .inr ⟨rfl, rfl, fun party hparty ↦ ?_⟩⟩
      · rw [step, gatewayStep_eq hgateway hlink]
        refine ⟨_, _, rfl, rfl, ?_⟩
        rw [forward]
        split
        · refine ⟨hroot, hleaf, fun frame hmem ↦ ?_, hreads, hbegins.wire _ _⟩
          rcases List.mem_append.mp hmem with hmem | hmem
          · exact hup frame hmem
          · exact List.mem_singleton.mp hmem ▸ hundisturbed
        · exact ⟨hroot, hleaf, hup, hreads, hbegins.wire _ _⟩
      · rcases turn_answered hparty with ⟨rfl, -⟩ | ⟨rfl, -⟩ <;> exact id
  | deliver =>
      refine ⟨.answered steps frames, ?_, .inr ⟨rfl, rfl, fun party hparty ↦ ?_⟩⟩
      · obtain ⟨mtu, up, down⟩ := link
        cases up with
        | nil =>
            rw [step, deliver_self hlink rfl]
            exact hall
        | cons frame up =>
            -- what is relayed is no selection
            have hdeliver : s.deliver t = { s with link := some ⟨mtu, up, down⟩ } := by
              simp only [deliver, hlink, l2capRecv, if_neg (hup frame List.mem_cons_self)]
            rw [step, hdeliver]
            refine ⟨g, _, hgateway, rfl, hroot, hleaf, fun frame' hmem ↦ ?_, hreads, ?_⟩
            · exact hup frame' (List.mem_cons_of_mem _ hmem)
            · rw [hgateway]
              exact hbegins.wire g _
      · rcases turn_answered hparty with ⟨rfl, -⟩ | ⟨rfl, -⟩ <;> exact id
  | receive =>
      obtain ⟨mtu, up, down⟩ := link
      cases down with
      | nil =>
          have hreceive : receive g ⟨mtu, up, []⟩ = (g, ⟨mtu, up, []⟩) := by
            rw [receive]
            split <;> first | rfl | cases ‹[] = _ :: _›
          refine hall.stays (gatewayStep_self hgateway hlink hreceive) fun party hparty ↦ ?_
          rcases turn_answered hparty with ⟨rfl, -⟩ | ⟨-, hpos⟩
          · exact id
          · exact absurd hreads.eq_zero hpos.ne'
      | cons frame down =>
          obtain ⟨fewer, hfewer, hnext⟩ := hreads.receive
          refine ⟨.answered steps fewer, ?_, .inl (Nat.add_lt_add_left hfewer steps)⟩
          rw [step, gatewayStep_eq hgateway hlink]
          simp only [receive, hreads.waiting]
          exact ⟨_, _, rfl, rfl, hroot, hleaf, hup, hnext, hbegins.wire _ _⟩
  | main input =>
      obtain ⟨-, hreboot, -⟩ := hundisturbed
      cases hbegins with
      | @loadRoot hplace root hloaded signature hsignature hbegun =>
          have hmain : s.mainStep input = { s with place := .loadSignature root } := by
            simp only [mainStep, hplace, hloaded, hsignature]
          refine ⟨.answered 1 frames, ?_, .inl (Nat.add_lt_add_right (by decide) frames)⟩
          rw [step, hmain]
          exact ⟨g, link, hgateway, hlink, hroot, hleaf, hup, hreads,
            .loadSignature rfl hsignature hbegun⟩
      | @loadSignature root hplace signature hsignature hbegun =>
          have hmain : s.mainStep input = s.begin root signature := by
            simp only [mainStep, hplace, hsignature]
          refine ⟨.answered 0 frames, ?_, .inl (Nat.add_lt_add_right (by decide) frames)⟩
          rw [step, hmain]
          refine ⟨g, link, hgateway, hlink, hroot, hleaf, hup, hreads,
            .done (.inr ⟨root, signature, rfl⟩) ?_⟩
          simp only [System.begin, hgateway, Option.toList_some, List.map_singleton, hroot, hleaf]
          exact hbegun
      | done hplace hbegun =>
          refine ⟨.answered 0 frames, ?_, .inr ⟨rfl, rfl, fun party hparty ↦ ?_⟩⟩
          · rcases hplace with hidle | ⟨root, signature, hsession⟩
            · obtain ⟨hgateway', hlink', hbegun'⟩ := hidle.mainStep_eq input
              exact ⟨g, link, hgateway'.trans hgateway, hlink'.trans hlink, hroot, hleaf, hup,
                hreads, .done (.inl (hidle.mainStep input)) (hbegun'.trans hbegun)⟩
            · have hmain : s.mainStep input = { s with place := .rearm } := by
                simp only [mainStep, hsession, leave, hreboot, if_neg Bool.false_ne_true]
              rw [step, hmain]
              exact ⟨g, link, hgateway, hlink, hroot, hleaf, hup, hreads,
                .done (.inl trivial) hbegun⟩
          · rcases turn_answered hparty with ⟨-, hpos⟩ | ⟨rfl, -⟩
            · exact absurd hpos (lt_irrefl 0)
            · exact id

end Steps

/-- The course of the answer to a gateway. -/
def course (hfits : Fits t) (v : Visit) (hroot : Sendable v.root) (hleaf : Sendable v.leaf)
    (hmtu : controlHeaderSize < v.mtu) : Course (ι := Point) (step t) Undisturbed Takes where
  At i s := s.At t v i
  left := Point.left (v.frames t)
  turn := Point.turn
  turn_of_left := Point.turn_of_left
  advance i s event h hundisturbed := by
    cases i with
    | unheard sent seen => exact h.unheard hundisturbed hroot hleaf
    | heard steps => exact h.heard hundisturbed hfits hmtu
    | answered steps frames => exact h.answered hundisturbed

/-! ## Every run that is not disturbed -/

/-- The gateway is told that it is ready, and the board has begun its session. -/
structure Served (s final : System) (root leaf : Bytes) (entry : CaEntry) (signature : Signature) :
    Prop where
  gateway : ∃ g, final.gateway = some g ∧ g.root = root ∧ g.leaf = leaf ∧ g.stage = .ready
  begun : final.begun = s.begun ++ [⟨root, leaf, entry, signature⟩]

/-- The gateway is told that the board does not know the names, and the board begins no session. -/
structure Refused (s final : System) (root leaf : Bytes) : Prop where
  gateway : ∃ g, final.gateway = some g ∧ g.root = root ∧ g.leaf = leaf ∧ g.stage = .failed
  begun : final.begun = s.begun

/-- What comes of a gateway that is not disturbed. -/
def Answered (t : Tables) (s final : System) (root leaf : Bytes) : Prop :=
  match t.selectRoot root, t.selectSignature leaf with
  | some entry, some signature => Served s final root leaf entry signature
  | _, _ => Refused s final root leaf

theorem readyMarker_readyText (root : CaEntry) (signature : Signature) :
    readyMarker <:+: readyText root signature := by
  refine List.IsPrefix.isInfix ⟨ascii " root=" ++ root.id ++ ascii " leaf=" ++ signature.name ++
    ascii " certificate_verify_alg=" ++ signature.tlsSignatureScheme ++ [10], ?_⟩
  have hword : ascii "[BENCH_PKI] status=ready root=" = readyMarker ++ ascii " root=" := rfl
  simp only [readyText, hword, List.append_assoc]

theorem stageOf_readyText (root : CaEntry) (signature : Signature) :
    stageOf (readyText root signature) = .ready := if_pos (readyMarker_readyText root signature)

theorem stageOf_errorText : stageOf errorText = .failed := by decide

/-- At the end of its course, the answer has been given. -/
theorem At.served {final : System} (h : final.At t v (.answered 0 0)) :
    Answered t { s with begun := v.begun } final v.root v.leaf := by
  obtain ⟨g, link, hgateway, -, hroot, hleaf, -, hreads, hbegins⟩ := h
  have hstage := hreads.stage_eq
  have hbegun : final.begun = v.begun ++ v.sessions t := by
    cases hbegins with
    | done _ hbegun => exact hbegun
  rw [Visit.answer] at hstage
  rw [Visit.sessions] at hbegun
  rw [Answered]
  cases hentry : t.selectRoot v.root with
  | none =>
      rw [hentry] at hstage hbegun
      exact ⟨⟨g, hgateway, hroot, hleaf, hstage.trans stageOf_errorText⟩,
        hbegun.trans (List.append_nil _)⟩
  | some entry =>
      cases hsignature : t.selectSignature v.leaf with
      | none =>
          rw [hentry, hsignature] at hstage hbegun
          exact ⟨⟨g, hgateway, hroot, hleaf, hstage.trans stageOf_errorText⟩,
            hbegun.trans (List.append_nil _)⟩
      | some signature =>
          rw [hentry, hsignature] at hstage hbegun
          exact ⟨⟨g, hgateway, hroot, hleaf, hstage.trans (stageOf_readyText entry signature)⟩,
            hbegun⟩

/-- A gateway that connects while the board waits, and is not disturbed, is told that it is ready if
the board knows the names, and the board begins the session with what they stand for; otherwise it
is told that they are not known.  This takes no more rounds than the answer has frames, and eleven.
-/
theorem answer_of_gateway {setup : Setup} {p : ProfileRoots} {profile : Bytes}
    (ht : setup.build p profile = some t) (s : System)
    (hplace : s.place = .waitConnected ∨ s.place = .waitSelected) (hlink : s.link = none)
    (hselected : s.selected = false) {root leaf : Bytes} (hroot : Sendable root)
    (hleaf : Sendable leaf) {mtu : ℕ} (hmtu : controlHeaderSize < mtu)
    {rounds : List (List Event)} (hrounds : ∀ events ∈ rounds, IsRound Takes events)
    (hmany : (Visit.mk root leaf mtu s.begun).frames t + 11 ≤ rounds.length)
    (h : Along (step t) Undisturbed (s.step t (.connect root leaf mtu)) rounds.flatten) :
    Answered t s (lives (step t) (s.step t (.connect root leaf mtu)) rounds.flatten) root leaf := by
  obtain ⟨_, hholds⟩ := exists_holds ht
  obtain ⟨frame, hframe, -⟩ := exists_selectFrame hroot hleaf
  have hconnect : s.step t (.connect root leaf mtu) =
      { s with
        connected := true
        gateway := some { root := root, leaf := leaf }
        link := some { mtu := mtu }
        earlier := s.earlier ++ s.gateway.toList } := by
    simp only [step, connect, hlink]
  have hstart : ∃ seen, (s.step t (.connect root leaf mtu)).At t ⟨root, leaf, mtu, s.begun⟩
      (.unheard false seen) := by
    rw [hconnect]
    rcases hplace with hplace | hplace
    · exact ⟨false, frame, hframe, rfl, rfl, rfl, hselected, hplace, rfl⟩
    · exact ⟨true, frame, hframe, rfl, rfl, rfl, hselected, hplace⟩
  obtain ⟨seen, hstart⟩ := hstart
  have hleft : Point.left ((Visit.mk root leaf mtu s.begun).frames t) (.unheard false seen) ≤
      rounds.length := by
    refine le_trans ?_ hmany
    rw [Point.left, if_neg Bool.false_ne_true]
    split <;> omega
  obtain ⟨j, hj, hdone⟩ := (course (fits_of_holds hholds) ⟨root, leaf, mtu, s.begun⟩ hroot hleaf
    hmtu).done (i := .unheard false seen) hstart hrounds hleft h
  obtain rfl := Point.eq_of_left hdone
  exact At.served (s := s) hj

end System

/-- A round in which the gateway, the stack and the board take their steps. -/
def someRound : List Event := [.receive, .main { frames := 20 }, .deliver, .select]

/-- An answer in small frames. -/
theorem System.answer_of_gateway_labelled :
    System.Answered labelledTables { place := .waitConnected }
      (lives (System.step labelledTables)
        (System.step labelledTables { place := .waitConnected }
          (.connect (ascii "ML-DSA-44") (ascii "ML-DSA-44") 23))
        (List.replicate 30 someRound).flatten)
      (ascii "ML-DSA-44") (ascii "ML-DSA-44") := by
  have hnamed : Sendable (ascii "ML-DSA-44") :=
    sendable_of_signatureByName (show signatureByName (ascii "ML-DSA-44") = some _ from rfl)
  refine System.answer_of_gateway build_labelled _ (.inl rfl) rfl rfl hnamed hnamed
    (by decide) (fun events hevents ↦ ?_) (by decide +kernel) ?_
  · obtain rfl := List.eq_of_mem_replicate hevents
    intro party
    cases party <;> simp [someRound, Takes]
  · decide +kernel

end Arming

end PeripheralBench.Pki

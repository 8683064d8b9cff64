import PeripheralBench.Pki.Arming

/-!
# Whom the board answers

A gateway that is told `status=ready` does not compare the names in the answer with its own, and the
answer does not say to whom it is given.  Still, the board begins each session with the root and the
leaf that its gateway has named, and only a gateway whose names it knows is told that it is ready
(`sessions_agree`), however the steps of the main thread, the callbacks, the frames under way and
broken channels follow one another.  No pointer to a selection is followed that a callback has
cleared.

This rests on one thing that the code does not check: no gateway connects while the board has a
selection that it has not answered (`Regular`).  Otherwise the answer to one gateway can reach the
next (`not_sessions_agree`).
-/

open PeripheralBench.Text PeripheralBench.Ble PeripheralBench.Durable

namespace PeripheralBench.Ble

/-! ## Frames of a message that is cut short -/

theorem identityReady_controlEffect {s : ControlState} (h : s.identityReady = true) (data : Bytes) :
    (controlEffect s data).state.identityReady = true := by
  rw [controlEffect]
  cases controlBase data with
  | none => exact h
  | some base =>
      have hstart : ∀ messageId : UInt16, (if data.getD (base + 5) 0 &&& 0x01 ≠ 0 then
          { s with messageId := messageId, active := true, pending := [] }
          else s).identityReady = true := by
        intro messageId
        split <;> exact h
      dsimp only
      generalize hs : (if data.getD (base + 5) 0 &&& 0x01 ≠ 0 then
        ({ s with
          messageId := le16 (data.getD (base + 6) 0) (data.getD (base + 7) 0)
          active := true
          pending := [] } : ControlState) else s) = s'
      have hready : s'.identityReady = true := hs ▸ hstart _
      split
      · exact hready
      · split
        · rw [ControlState.noteIdentity_eq, ControlState.finished, Bool.or_eq_true]
          exact .inl hready
        · exact hready

theorem feedControl_append (s : ControlState) (frames frames' : List Bytes) :
    (feedControl s (frames ++ frames')).1 = (feedControl (feedControl s frames).1 frames').1 := by
  induction frames generalizing s with
  | nil => rfl
  | cons frame frames ih => exact ih _

theorem identityReady_feedControl {s : ControlState} (h : s.identityReady = true)
    (frames : List Bytes) : (feedControl s frames).1.identityReady = true := by
  induction frames generalizing s with
  | nil => exact h
  | cons frame frames ih => exact ih (identityReady_controlEffect h frame)

/-- A message that is not complete says nothing. -/
theorem identityReady_feedControl_take {s : ControlState} {start : Bool} {messageId : UInt16}
    (h : start = true ∨ s.active = true ∧ s.messageId = messageId) {pieces : List Bytes} {n : ℕ}
    (hn : n < pieces.length) :
    (feedControl s ((framesFrom messageId start pieces).take n)).1.identityReady =
      s.identityReady := by
  induction pieces generalizing s start n with
  | nil => exact absurd hn (Nat.not_lt_zero n)
  | cons piece pieces ih =>
      cases n with
      | zero => rfl
      | succ n =>
          cases pieces with
          | nil => exact absurd (Nat.lt_of_succ_lt_succ hn) (Nat.not_lt_zero n)
          | cons piece' pieces =>
              have hfirst : (controlEffect s (controlFrame start false messageId piece)).state =
                  { s with
                    messageId := messageId
                    active := true
                    pending := s.joined start piece } := by
                rw [controlEffect_controlFrame false piece h, acceptedEffect,
                  if_neg Bool.false_ne_true]
              rw [framesFrom, List.take_succ_cons, feedControl]
              · dsimp only
                rw [hfirst, ih (.inr ⟨rfl, rfl⟩) (Nat.lt_of_succ_lt_succ hn)]
              · exact List.cons_ne_nil _ _

/-- What some first frames of a message say. -/
theorem identityReady_controlFrames_take (s : ControlState) (messageId : UInt16) (mtu n : ℕ)
    (message : Bytes)
    (h : (feedControl s ((controlFrames messageId mtu message).take n)).1.identityReady = true) :
    s.identityReady = true ∨ readyMarker <:+: message := by
  by_cases hn : (controlFrames messageId mtu message).length ≤ n
  · rw [List.take_of_length_le hn, feedControl_controlFrames, ControlState.finished,
      Bool.or_eq_true, decide_eq_true_iff] at h
    exact h
  · rw [controlFrames, length_framesFrom] at hn
    rw [controlFrames, identityReady_feedControl_take (.inl rfl) (not_le.mp hn)] at h
    exact .inl h

end PeripheralBench.Ble

namespace PeripheralBench.Pki

namespace Arming

/-! ## What a run keeps up -/

/-- The board has taken a selection, and is not done with it. -/
def Place.IsAnswering : Place → Prop
  | .rearm | .resetSelected | .clearRoot | .clearSignature | .waitConnected | .waitSelected => False
  | _ => True

instance (place : Place) : Decidable place.IsAnswering := by
  cases place <;> first | exact isFalse id | exact isTrue trivial

section Tables

variable (t : Tables)

/-- The tables have what the gateway has named. -/
def Knows (g : Gateway) : Prop :=
  (t.selectRoot g.root).isSome = true ∧ (t.selectSignature g.leaf).isSome = true

/-- What is under way between a gateway and the board. -/
structure Wire (g : Gateway) (link : Link) : Prop where
  up : ∀ frame ∈ link.up, IsControl frame → selectFrame g.root g.leaf = some frame
  down : g.stage = .connected ∨ g.stage = .waiting →
    (feedControl g.control link.down).1.identityReady = true → Knows t g

/-- The names in the options of the gateway are those of algorithms. -/
def Gateway.Named (g : Gateway) : Prop := Sendable g.root ∧ Sendable g.leaf

/-- What is selected is what the gateway has named, or it has been cleared. -/
structure Selects (root : Option CaEntry) (signature : Option Signature) (g : Gateway) : Prop where
  root : root = none ∨ root = t.selectRoot g.root
  signature : signature = none ∨ signature = t.selectSignature g.leaf

/-- The root and the signature of a session are those with the names in the options of its gateway.
-/
structure Session.Looked (b : Session) : Prop where
  named : Sendable b.rootName ∧ Sendable b.leafName
  root : t.selectRoot b.rootName = some b.root
  signature : t.selectSignature b.leafName = some b.signature

namespace System

/-- What the main thread has seen is still there. -/
def Seen (s : System) : Prop :=
  match s.place with
  | .checkSignature => s.root.isSome = true
  | .readRoot | .loadRoot | .respond true _ => s.root.isSome = true ∧ s.signature.isSome = true
  | .readSignature root | .loadSignature root => s.root = some root ∧ s.signature.isSome = true
  | .respond false message => ¬ readyMarker <:+: message
  | .session root signature => s.root = some root ∧ s.signature = some signature
  | .fault => False
  | _ => True

/-- What holds at all times. -/
structure Inv (s : System) : Prop where
  selected : s.selected = true ∨ s.place.IsAnswering →
    ∃ g, s.gateway = some g ∧ Selects t s.root s.signature g
  seen : s.Seen
  named : ∀ g, s.gateway = some g → g.Named
  wire : ∀ link, s.link = some link → ∃ g, s.gateway = some g ∧ Wire t g link
  ready : ∀ g ∈ s.gateways, g.stage = .ready → Knows t g
  begun : ∀ b ∈ s.begun, b.Looked t

/-- No gateway connects while the board has a selection that it has not answered.  The names of a
gateway are those of algorithms, and what it relays does not look like a control frame. -/
def Regular (s : System) : Event → Prop
  | .connect root leaf _ =>
      s.link = none → Sendable root ∧ Sendable leaf ∧ s.selected = false ∧ ¬ s.place.IsAnswering
  | .forward data => ¬ IsControl data
  | _ => True

/-- The text of every answer fits into the buffer. -/
def Fits : Prop :=
  ∀ root ∈ t.caBundle, ∀ signature ∈ t.signatureProfiles, (readyText root signature).length < 192

end System

end Tables

/-! ## The gateway -/

section Gateway

variable {t : Tables} {g : Gateway} {link : Link}

/-- A step of the gateway, which keeps its names. -/
structure Kept (t : Tables) (g : Gateway) (next : Gateway × Link) : Prop where
  root : next.1.root = g.root
  leaf : next.1.leaf = g.leaf
  wire : Wire t next.1 next.2
  ready : next.1.stage = .ready → Knows t next.1

theorem Wire.kept (h : Wire t g link) (hready : g.stage = .ready → Knows t g) :
    Kept t g (g, link) := ⟨rfl, rfl, h, hready⟩

theorem Wire.select (h : Wire t g link) (hready : g.stage = .ready → Knows t g) :
    Kept t g (System.select g link) := by
  rw [System.select]
  split
  case h_1 frame hstage hframe =>
    refine ⟨rfl, rfl, ⟨?_, fun _ ↦ h.down (.inl hstage)⟩, Stage.noConfusion⟩
    intro frame' hmem hcontrol
    rcases List.mem_append.mp hmem with hmem | hmem
    · exact h.up frame' hmem hcontrol
    · exact List.mem_singleton.mp hmem ▸ hframe
  case h_2 =>
    refine ⟨rfl, rfl, ⟨h.up, ?_⟩, Stage.noConfusion⟩
    rintro (hstage | hstage) <;> cases hstage
  case h_3 => exact h.kept hready

theorem Wire.forward (h : Wire t g link) (hready : g.stage = .ready → Knows t g) {data : Bytes}
    (hdata : ¬ IsControl data) : Kept t g (System.forward data g link) := by
  rw [System.forward]
  split
  · refine ⟨rfl, rfl, ⟨?_, h.down⟩, hready⟩
    intro frame hmem hcontrol
    rcases List.mem_append.mp hmem with hmem | hmem
    · exact h.up frame hmem hcontrol
    · exact absurd (List.mem_singleton.mp hmem ▸ hcontrol) hdata
  · exact h.kept hready

theorem Wire.giveUp (h : Wire t g link) (hready : g.stage = .ready → Knows t g) :
    Kept t g (System.giveUp g link) := by
  rw [System.giveUp]
  split
  · refine ⟨rfl, rfl, ⟨h.up, ?_⟩, Stage.noConfusion⟩
    rintro (hstage | hstage) <;> cases hstage
  · exact h.kept hready

/-- The answer is read, as far as it is there. -/
theorem Wire.receive (h : Wire t g link) (hready : g.stage = .ready → Knows t g) :
    Kept t g (System.receive g link) := by
  rw [System.receive]
  split
  case h_1 frame down hstage hdown =>
    have hfeed : (feedControl g.control link.down).1 =
        (feedControl (g.receive frame).control down).1 := hdown ▸ rfl
    refine ⟨rfl, rfl, ⟨h.up, fun _ hsaid ↦ h.down (.inr hstage) (hfeed ▸ hsaid)⟩, ?_⟩
    intro hnow
    have hsaid : (g.receive frame).control.identityReady = true := by
      rw [Gateway.receive] at hnow ⊢
      dsimp only at hnow ⊢
      split at hnow
      · cases hnow
      · split at hnow
        · assumption
        · split at hnow <;> cases hnow
    exact h.down (.inr hstage) (hfeed ▸ identityReady_feedControl hsaid down)
  case h_2 hstage hdown =>
    refine ⟨rfl, rfl, ⟨h.up, ?_⟩, hready⟩
    rintro (hconnected | hwaiting)
    · exact absurd (hstage.symm.trans hconnected) Stage.noConfusion
    · exact absurd (hstage.symm.trans hwaiting) Stage.noConfusion
  case h_3 => exact h.kept hready

end Gateway

/-! ## The selection arrives -/

/-- The board reads the names that the gateway has sent. -/
theorem scanSelect_selectFrame {root leaf frame : Bytes} (hroot : Sendable root)
    (hleaf : Sendable leaf) (h : selectFrame root leaf = some frame) :
    IsControl frame ∧
      scanSelect.run ((frame.drop controlHeaderSize).take 159) = some (root, leaf) := by
  obtain ⟨frame', hframe, hreceived⟩ := exists_selectFrame hroot hleaf
  obtain rfl : frame = frame' := Option.some_inj.mp (h.symm.trans hframe)
  have hselected := hreceived {}
  rw [Rx.l2capRecv] at hselected
  split at hselected
  case isTrue hcontrol =>
    refine ⟨hcontrol, ?_⟩
    cases hscan : scanSelect.run ((frame.drop controlHeaderSize).take 159) with
    | none =>
        rw [hscan] at hselected
        cases hselected
    | some names =>
        rw [hscan] at hselected
        exact hselected
  case isFalse => cases hselected

namespace System

variable {t : Tables} {s : System}

/-- A selection changes nothing that the main thread has seen. -/
theorem Seen.select {g : Gateway} (hseen : s.Seen)
    (hselects : s.place.IsAnswering → Selects t s.root s.signature g) :
    { s with
      root := t.selectRoot g.root
      signature := t.selectSignature g.leaf
      selected := true : System }.Seen := by
  have hroot : ∀ root, s.root = some root → s.place.IsAnswering →
      t.selectRoot g.root = some root := by
    intro root hsome hanswering
    rcases (hselects hanswering).root with hnone | hnamed
    · cases hsome.symm.trans hnone
    · exact hnamed.symm.trans hsome
  have hsignature : ∀ signature, s.signature = some signature → s.place.IsAnswering →
      t.selectSignature g.leaf = some signature := by
    intro signature hsome hanswering
    rcases (hselects hanswering).signature with hnone | hnamed
    · cases hsome.symm.trans hnone
    · exact hnamed.symm.trans hsome
  have hroot' : s.root.isSome = true → s.place.IsAnswering →
      (t.selectRoot g.root).isSome = true := by
    intro hsome hanswering
    obtain ⟨root, hsome⟩ := Option.isSome_iff_exists.mp hsome
    exact Option.isSome_iff_exists.mpr ⟨root, hroot root hsome hanswering⟩
  have hsignature' : s.signature.isSome = true → s.place.IsAnswering →
      (t.selectSignature g.leaf).isSome = true := by
    intro hsome hanswering
    obtain ⟨signature, hsome⟩ := Option.isSome_iff_exists.mp hsome
    exact Option.isSome_iff_exists.mpr ⟨signature, hsignature signature hsome hanswering⟩
  obtain ⟨connected, selected, root, signature, messageId, place⟩ := s
  cases place with
  | checkSignature => exact hroot' hseen trivial
  | readRoot => exact ⟨hroot' hseen.1 trivial, hsignature' hseen.2 trivial⟩
  | loadRoot => exact ⟨hroot' hseen.1 trivial, hsignature' hseen.2 trivial⟩
  | readSignature => exact ⟨hroot _ hseen.1 trivial, hsignature' hseen.2 trivial⟩
  | loadSignature => exact ⟨hroot _ hseen.1 trivial, hsignature' hseen.2 trivial⟩
  | session => exact ⟨hroot _ hseen.1 trivial, hsignature _ hseen.2 trivial⟩
  | respond ready =>
      cases ready with
      | false => exact hseen
      | true => exact ⟨hroot' hseen.1 trivial, hsignature' hseen.2 trivial⟩
  | fault => exact hseen
  | _ => trivial

theorem Inv.deliver (h : s.Inv t) : (s.deliver t).Inv t := by
  rw [System.deliver]
  split
  case h_2 => exact h
  case h_1 mtu frame up down hlink =>
    obtain ⟨g, hgateway, hwire⟩ := h.wire _ hlink
    have hrest : ∀ link, some (⟨mtu, up, down⟩ : Link) = some link →
        ∃ g, s.gateway = some g ∧ Wire t g link := by
      rintro link ⟨⟩
      refine ⟨g, hgateway, ?_, hwire.down⟩
      intro frame' hmem
      exact hwire.up frame' (List.mem_cons_of_mem _ hmem)
    rw [l2capRecv]
    split
    case isFalse => exact ⟨h.selected, h.seen, h.named, hrest, h.ready, h.begun⟩
    case isTrue hcontrol =>
      obtain ⟨hroot, hleaf⟩ := h.named g hgateway
      obtain ⟨-, hscan⟩ := scanSelect_selectFrame hroot hleaf
        (hwire.up frame List.mem_cons_self hcontrol)
      rw [hscan]
      have hselects : s.place.IsAnswering → Selects t s.root s.signature g := by
        intro hanswering
        obtain ⟨g', hgateway', hselects⟩ := h.selected (.inr hanswering)
        obtain rfl : g = g' := Option.some_inj.mp (hgateway.symm.trans hgateway')
        exact hselects
      refine ⟨fun _ ↦ ⟨g, hgateway, .inr rfl, .inr rfl⟩, ?_, h.named, hrest, h.ready, h.begun⟩
      exact h.seen.select hselects

/-! ## The gateway's steps -/

theorem Inv.gatewayStep (h : s.Inv t) {f : Gateway → Link → Gateway × Link}
    (hf : ∀ g link, Wire t g link → (g.stage = .ready → Knows t g) → Kept t g (f g link)) :
    (s.gatewayStep f).Inv t := by
  rw [System.gatewayStep]
  split
  case h_2 => exact h
  case h_1 g link hgateway hlink =>
    obtain ⟨g', hgateway', hwire⟩ := h.wire link hlink
    obtain rfl : g = g' := Option.some_inj.mp (hgateway.symm.trans hgateway')
    have hmem : g ∈ s.gateways :=
      List.mem_append_right _ (Option.mem_toList.mpr hgateway)
    obtain ⟨hroot, hleaf, hnext, hready⟩ := hf g link hwire (h.ready g hmem)
    refine ⟨fun hselected ↦ ?_, h.seen, ?_, ?_, ?_, h.begun⟩
    · obtain ⟨g', hgateway', hselects⟩ := h.selected hselected
      obtain rfl : g = g' := Option.some_inj.mp (hgateway.symm.trans hgateway')
      exact ⟨_, rfl, hroot ▸ hselects.root, hleaf ▸ hselects.signature⟩
    · rintro _ ⟨⟩
      rw [Gateway.Named, hroot, hleaf]
      exact h.named g hgateway
    · rintro _ ⟨⟩
      exact ⟨_, rfl, hnext⟩
    · intro g' hg'
      rcases List.mem_append.mp hg' with hg' | hg'
      · exact h.ready g' (List.mem_append_left _ hg')
      · obtain rfl := List.mem_singleton.mp hg'
        exact hready

theorem Inv.connect (h : s.Inv t) {root leaf : Bytes} {mtu : ℕ}
    (hregular : s.Regular (.connect root leaf mtu)) : (s.connect root leaf mtu).Inv t := by
  rw [System.connect]
  split
  case h_1 => exact h
  case h_2 hlink =>
    obtain ⟨hroot, hleaf, hselected, hplace⟩ := hregular hlink
    refine ⟨?_, h.seen, ?_, ?_, ?_, h.begun⟩
    · rintro (hset | hanswering)
      · exact absurd (hselected.symm.trans hset) Bool.false_ne_true
      · exact absurd hanswering hplace
    · rintro _ ⟨⟩
      exact ⟨hroot, hleaf⟩
    · rintro _ ⟨⟩
      exact ⟨_, rfl, fun _ hmem ↦ absurd hmem List.not_mem_nil, fun _ hsaid ↦ absurd hsaid
        Bool.false_ne_true⟩
    · intro g hg
      rcases List.mem_append.mp hg with hg | hg
      · exact h.ready g hg
      · obtain rfl := List.mem_singleton.mp hg
        exact Stage.noConfusion

theorem Inv.close (h : s.Inv t) : { s with link := none : System }.Inv t :=
  ⟨h.selected, h.seen, h.named, fun _ hlink ↦ absurd hlink.symm (Option.some_ne_none _), h.ready,
    h.begun⟩

/-! ## The main thread -/

/-- The main thread goes somewhere, with the selection as it is. -/
theorem Inv.go (h : s.Inv t) {place : Place}
    (hplace : place.IsAnswering → s.selected = true ∨ s.place.IsAnswering)
    (hseen : { s with place := place : System }.Seen) : { s with place := place : System }.Inv t :=
  ⟨fun hnow ↦ h.selected (hnow.elim .inl hplace), hseen, h.named, h.wire, h.ready, h.begun⟩

/-- What has been selected, while the board is answering. -/
theorem Inv.known (h : s.Inv t) (hanswering : s.place.IsAnswering) :
    ∃ g, s.gateway = some g ∧
      (∀ root, s.root = some root → t.selectRoot g.root = some root) ∧
      ∀ signature, s.signature = some signature → t.selectSignature g.leaf = some signature := by
  obtain ⟨g, hgateway, hselects⟩ := h.selected (.inr hanswering)
  refine ⟨g, hgateway, ?_, ?_⟩
  · intro root hroot
    rcases hselects.root with hnone | hnamed
    · cases hroot.symm.trans hnone
    · exact hnamed.symm.trans hroot
  · intro signature hsignature
    rcases hselects.signature with hnone | hnamed
    · cases hsignature.symm.trans hnone
    · exact hnamed.symm.trans hsignature

/-- The answer names the selection, and fits. -/
theorem Inv.exists_response (h : s.Inv t) (hfits : Fits t) {root : CaEntry}
    (hplace : s.place = .readSignature root) :
    ∃ message, (s.signature.bind fun signature ↦ response (readyText root signature)) =
      some message := by
  have hseen := h.seen
  rw [Seen, hplace] at hseen
  obtain ⟨hroot, hsome⟩ := hseen
  obtain ⟨signature, hsignature⟩ := Option.isSome_iff_exists.mp hsome
  obtain ⟨g, -, hknownRoot, hknownSignature⟩ := h.known (hplace ▸ trivial)
  have hlength := hfits root (List.mem_of_find?_eq_some (hknownRoot root hroot)) signature
    (List.mem_of_find?_eq_some (hknownSignature signature hsignature))
  rw [hsignature, Option.bind_some, response, if_pos hlength.le]
  exact ⟨_, rfl⟩

theorem Inv.leave (h : s.Inv t) (input : Input) : (s.leave input).Inv t := by
  rw [System.leave]
  split
  · refine ⟨?_, trivial, h.named, fun _ hlink ↦ absurd hlink.symm (Option.some_ne_none _), h.ready,
      h.begun⟩
    rintro (hset | hanswering)
    · cases hset
    · exact absurd hanswering id
  · exact h.go (fun hanswering ↦ absurd hanswering id) trivial

/-- An answer goes to the gateway that has made the selection. -/
theorem Inv.respond (h : s.Inv t) {ready : Bool} {message : Bytes}
    (hplace : s.place = .respond ready message) (input : Input) :
    (s.respond ready message input).Inv t := by
  have hrearm : ∀ messageId, { s with messageId := messageId, place := .rearm : System }.Inv t :=
    fun _ ↦ ⟨fun hnow ↦ h.selected (hnow.elim .inl fun hanswering ↦ absurd hanswering id), trivial,
      h.named, h.wire, h.ready, h.begun⟩
  rw [System.respond]
  split
  case h_1 => exact hrearm _
  case h_2 link hlink =>
    have hlink : s.link = some link := hlink
    dsimp only
    split
    · exact hrearm _
    · obtain ⟨g, hgateway, hwire⟩ := h.wire link hlink
      have hanswering : s.place.IsAnswering := hplace ▸ trivial
      have hseen := h.seen
      rw [Seen, hplace] at hseen
      refine ⟨fun _ ↦ h.selected (.inr hanswering), ?_, h.named, ?_, h.ready, h.begun⟩
      · by_cases hdone : ready = true ∧ (controlFrames (s.messageId + 1)
            (min link.mtu l2capTxSduMtu) message).length ≤ input.frames ∧ input.error = false
        · simp only [Seen, if_pos hdone]
          obtain ⟨rfl, -⟩ := hdone
          exact hseen
        · simp only [Seen, if_neg hdone]
      · rintro _ ⟨⟩
        refine ⟨g, hgateway, hwire.up, fun hstage hsaid ↦ ?_⟩
        rw [feedControl_append] at hsaid
        rcases identityReady_controlFrames_take _ _ _ _ _ hsaid with hsaid | hmarker
        · exact hwire.down hstage hsaid
        · cases ready with
          | false => exact absurd hmarker hseen
          | true =>
              obtain ⟨g', hgateway', hroot, hsignature⟩ := h.known hanswering
              obtain rfl : g = g' := Option.some_inj.mp (hgateway.symm.trans hgateway')
              obtain ⟨root, hsome⟩ := Option.isSome_iff_exists.mp hseen.1
              obtain ⟨signature, hsome'⟩ := Option.isSome_iff_exists.mp hseen.2
              exact ⟨Option.isSome_iff_exists.mpr ⟨root, hroot root hsome⟩,
                Option.isSome_iff_exists.mpr ⟨signature, hsignature signature hsome'⟩⟩

/-- One step of the main thread. -/
theorem Inv.mainStep (h : s.Inv t) (hfits : Fits t) (input : Input) : (s.mainStep input).Inv t := by
  have hseen := h.seen
  rw [Seen] at hseen
  rw [System.mainStep]
  split
  case h_1 => exact ⟨fun hnow ↦ h.selected (hnow.elim .inl fun hanswering ↦ absurd hanswering id),
    trivial, h.named, h.wire, h.ready, h.begun⟩
  case h_2 =>
    refine ⟨?_, trivial, h.named, h.wire, h.ready, h.begun⟩
    rintro (hset | hanswering)
    · cases hset
    · exact absurd hanswering id
  case h_3 =>
    refine ⟨?_, trivial, h.named, h.wire, h.ready, h.begun⟩
    rintro (hset | hanswering)
    · obtain ⟨g, hgateway, hselects⟩ := h.selected (.inl hset)
      exact ⟨g, hgateway, .inl rfl, hselects.signature⟩
    · exact absurd hanswering id
  case h_4 =>
    refine ⟨?_, trivial, h.named, h.wire, h.ready, h.begun⟩
    rintro (hset | hanswering)
    · obtain ⟨g, hgateway, hselects⟩ := h.selected (.inl hset)
      exact ⟨g, hgateway, hselects.root, .inl rfl⟩
    · exact absurd hanswering id
  case h_5 =>
    split
    · exact ⟨fun hnow ↦ h.selected (hnow.elim .inl fun hanswering ↦ absurd hanswering id),
        trivial, h.named, h.wire, h.ready, h.begun⟩
    · exact h
  case h_6 =>
    split
    case isTrue hset =>
      exact ⟨fun _ ↦ h.selected (.inl hset), trivial, h.named, h.wire, h.ready, h.begun⟩
    case isFalse =>
      split
      · exact h.go (fun hanswering ↦ absurd hanswering id) trivial
      · exact h
  case h_7 hplace =>
    have hgo : ∀ {place : Place}, { s with place := place : System }.Seen →
        { s with place := place : System }.Inv t :=
      fun hnext ↦ h.go (fun _ ↦ .inr (hplace ▸ trivial)) hnext
    split
    case h_1 => exact hgo (by decide : ¬ readyMarker <:+: errorText)
    case h_2 root hroot => exact hgo (by rw [Seen, hroot]; rfl)
  case h_8 hplace =>
    have hgo : ∀ {place : Place}, { s with place := place : System }.Seen →
        { s with place := place : System }.Inv t :=
      fun hnext ↦ h.go (fun _ ↦ .inr (hplace ▸ trivial)) hnext
    rw [hplace] at hseen
    split
    case h_1 => exact hgo (by decide : ¬ readyMarker <:+: errorText)
    case h_2 signature hsignature => exact hgo ⟨hseen, by rw [hsignature]; rfl⟩
  case h_9 hplace =>
    rw [hplace] at hseen
    split
    case h_1 hnone =>
      rw [hnone] at hseen
      exact absurd hseen.1 Bool.false_ne_true
    case h_2 root hroot => exact h.go (fun _ ↦ .inr (hplace ▸ trivial)) ⟨hroot, hseen.2⟩
  case h_10 root hplace =>
    obtain ⟨message, hmessage⟩ := h.exists_response hfits hplace
    rw [hplace] at hseen
    rw [hmessage]
    exact h.go (fun _ ↦ .inr (hplace ▸ trivial)) ⟨Option.isSome_of_eq_some hseen.1, hseen.2⟩
  case h_11 ready message hplace => exact h.respond hplace input
  case h_12 hplace =>
    split
    case h_1 root signature hroot hsignature =>
      exact h.go (fun _ ↦ .inr (hplace ▸ trivial)) ⟨hroot, Option.isSome_of_eq_some hsignature⟩
    case h_2 => exact h.leave input
  case h_13 root hplace =>
    rw [hplace] at hseen
    split
    case h_1 hnone =>
      rw [hnone] at hseen
      exact absurd hseen.2 Bool.false_ne_true
    case h_2 signature hsignature =>
      -- the session is with what the gateway has named
      obtain ⟨g, hgateway, hroot, hleaf⟩ := h.known (hplace ▸ trivial)
      refine ⟨fun _ ↦ h.selected (.inr (hplace ▸ trivial)), ⟨hseen.1, hsignature⟩, h.named, h.wire,
        h.ready, ?_⟩
      intro b hb
      rcases List.mem_append.mp hb with hb | hb
      · exact h.begun b hb
      · rw [hgateway] at hb
        obtain rfl := List.mem_singleton.mp hb
        exact ⟨h.named g hgateway, hroot root hseen.1, hleaf signature hsignature⟩
  case h_14 => exact h.leave input
  case h_15 => exact h

theorem Inv.step (h : s.Inv t) (hfits : Fits t) {event : Event} (hregular : s.Regular event) :
    (s.step t event).Inv t := by
  cases event with
  | connect root leaf mtu => exact h.connect hregular
  | select => exact h.gatewayStep fun _ _ hwire hready ↦ hwire.select hready
  | forward data => exact h.gatewayStep fun _ _ hwire hready ↦ hwire.forward hready hregular
  | receive => exact h.gatewayStep fun _ _ hwire hready ↦ hwire.receive hready
  | giveUp => exact h.gatewayStep fun _ _ hwire hready ↦ hwire.giveUp hready
  | deliver => exact h.deliver
  | close => exact h.close
  | main input => exact h.mainStep hfits input

theorem inv_start : ({} : System).Inv t where
  selected := by
    rintro (hset | hanswering)
    · cases hset
    · exact absurd hanswering id
  seen := trivial
  named _ hgateway := absurd hgateway.symm (Option.some_ne_none _)
  wire _ hlink := absurd hlink.symm (Option.some_ne_none _)
  ready _ hg := absurd hg List.not_mem_nil
  begun _ hb := absurd hb List.not_mem_nil

theorem inv_run (hfits : Fits t) {events : List Event}
    (h : Along (System.step t) Regular {} events) : (run t events).Inv t :=
  lives_invariant (fun _ _ hs hregular ↦ hs.step hfits hregular) inv_start h

end System

/-! ## Firmware that has been built -/

/-- The names and the schemes of all algorithms are short. -/
theorem fits_of_holds {s : Setup} {roots : List Bytes} {t : Tables} (h : s.Holds roots t) :
    System.Fits t := by
  intro root hroot signature hsignature
  obtain ⟨-, chainId, chain, hchain, hid, -⟩ := h.root_mem root hroot
  obtain ⟨item, hitem⟩ := hchain.rootKnown
  have hrootLength := (sendable_of_signatureByName hitem).length_le
  have hleaf := (h.leaf_mem signature hsignature).1
  have hleafLength := (sendable_of_signatureByName hleaf).length_le
  have hschemes : signatures.all (fun item ↦ item.tlsSignatureScheme.length ≤ 30) = true := by
    decide
  have hscheme := of_decide_eq_true
    (List.all_eq_true.mp hschemes signature (List.mem_of_find?_eq_some hleaf))
  have hpieces : (ascii "[BENCH_PKI] status=ready root=").length = 30 ∧
      (ascii " leaf=").length = 6 ∧ (ascii " certificate_verify_alg=").length = 24 :=
    ⟨rfl, rfl, rfl⟩
  obtain ⟨hfirst, hsecond, hthird⟩ := hpieces
  rw [hid] at hrootLength
  simp only [readyText, List.length_append, hfirst, hsecond, hthird, List.length_singleton]
  omega

theorem exists_holds {s : Setup} {p : ProfileRoots} {profile : Bytes} {t : Tables}
    (ht : s.build p profile = some t) : ∃ roots, s.Holds roots t := by
  obtain ⟨directories, hdirectories, hbuild⟩ := Option.bind_eq_some_iff.mp ht
  obtain ⟨roots, hroots, -⟩ := Option.bind_eq_some_iff.mp hbuild
  obtain ⟨t', ht', hholds⟩ := Setup.exists_build hdirectories hroots
  obtain rfl : t = t' := Option.some_inj.mp (ht.symm.trans ht')
  exact ⟨roots, hholds⟩

/-- The board and the gateways agree. -/
structure Agrees (s : Setup) (t : Tables) (final : System) : Prop where
  /-- No null pointer has been followed, and no buffer left. -/
  sound : final.place ≠ .fault
  /-- Nothing changes the selection in a session. -/
  kept : ∀ root signature, final.place = .session root signature →
    final.root = some root ∧ final.signature = some signature
  /-- The trust anchor of a session is the root certificate of a chain, with the algorithm that the
  gateway has named. -/
  root : ∀ b ∈ final.begun, b.root.id = b.rootName ∧ ∃ chainId chain, s.IsSelected chainId chain ∧
    chain.rootSigAlg = b.rootName ∧ s.rootDer chainId = b.root.data
  /-- Its signature scheme is that of the leaf that the gateway has named. -/
  leaf : ∀ b ∈ final.begun, signatureByName b.leafName = some b.signature
  /-- The board knows what a gateway has named that relays a session. -/
  ready : ∀ g ∈ final.gateways, g.stage = .ready → Knows t g

/-- In every run of the firmware of a profile in which no gateway connects too early, the board
begins its sessions with what the gateways have named, and answers only those whose names it knows.
-/
theorem sessions_agree (s : Setup) {p : ProfileRoots} {profile : Bytes} {t : Tables}
    (ht : s.build p profile = some t) {events : List Event}
    (h : Along (System.step t) System.Regular {} events) : Agrees s t (System.run t events) := by
  obtain ⟨roots, hholds⟩ := exists_holds ht
  have hinv := System.inv_run (fits_of_holds hholds) h
  constructor
  · intro hfault
    have hseen := hinv.seen
    rw [System.Seen, hfault] at hseen
    exact hseen
  · intro root signature hsession
    have hseen := hinv.seen
    rw [System.Seen, hsession] at hseen
    exact hseen
  · intro b hb
    obtain ⟨⟨hroot, -⟩, hfind, -⟩ := hinv.begun b hb
    obtain ⟨hmem, hid⟩ := hholds.root_of_selectRoot hroot.zero_notMem hfind
    obtain ⟨-, chainId, chain, hchain, hname, hder⟩ := hholds.root_mem b.root hmem
    exact ⟨hid, chainId, chain, hchain, hname.trans hid, hder⟩
  · intro b hb
    obtain ⟨⟨-, hleaf⟩, -, hfind⟩ := hinv.begun b hb
    obtain ⟨hmem, hname⟩ := hholds.leaf_of_selectSignature hleaf.zero_notMem hfind
    exact hname ▸ (hholds.leaf_mem b.signature hmem).1
  · exact hinv.ready

/-- The tables in the firmware of `labelled`. -/
def labelledTables : Tables where
  caBundle := [⟨ascii "ML-DSA-44", ascii "homogeneous_ml_dsa_44"⟩]
  signatureProfiles := [⟨ascii "ML-DSA-44", ascii "mldsa44", 0x0904⟩]

theorem build_labelled :
    labelled.build (ProfileRoots.universal [ascii "ML-DSA-44"]) (ascii "universal") =
      some labelledTables := rfl

/-- A session from the start of the board. -/
def oneSession : List Event :=
  [.main {}, .main {}, .main {}, .main {}, .connect (ascii "ML-DSA-44") (ascii "ML-DSA-44") 512,
    .main {}, .select, .deliver, .main {}, .main {}, .main {}, .main {}, .main {},
    .main { frames := 1 }, .receive, .main {}, .main {}, .forward [22, 3, 3], .deliver, .close,
    .main {}]

theorem sessions_agree_one :
    Agrees labelled labelledTables (System.run labelledTables oneSession) ∧
      (System.run labelledTables oneSession).begun.length = 1 := by
  have hnamed : Sendable (ascii "ML-DSA-44") :=
    sendable_of_signatureByName (show signatureByName (ascii "ML-DSA-44") = some _ from rfl)
  refine ⟨sessions_agree labelled build_labelled ?_, by decide +kernel⟩
  exact ⟨trivial, trivial, trivial, trivial, fun _ ↦ ⟨hnamed, hnamed, rfl, id⟩, trivial, trivial,
    trivial, trivial, trivial, trivial, trivial, trivial, trivial, trivial, trivial, trivial,
    (by decide : ¬ IsControl [22, 3, 3]), trivial, trivial, trivial, trivial⟩

/-- A gateway selects and goes away, and another one connects before the board has answered. -/
def twoGateways : List Event :=
  [.main {}, .main {}, .main {}, .main {}, .connect (ascii "ML-DSA-44") (ascii "ML-DSA-44") 512,
    .main {}, .select, .deliver, .close, .connect (ascii "ECDSA-P-256") (ascii "ECDSA-P-256") 512,
    .select, .main {}, .main {}, .main {}, .main {}, .main {}, .main { frames := 1 }, .receive]

/-- The second gateway is told that it is ready, with names that the board does not know. -/
theorem not_sessions_agree :
    ¬ Agrees labelled labelledTables (System.run labelledTables twoGateways) := by
  intro h
  have hready : ∃ g ∈ (System.run labelledTables twoGateways).gateways, g.stage = .ready ∧
      labelledTables.selectRoot g.root = none := by
    decide +kernel
  obtain ⟨g, hg, hstage, hnone⟩ := hready
  have hknown := (h.ready g hg hstage).1
  rw [hnone] at hknown
  cases hknown

end Arming

end PeripheralBench.Pki

import PeripheralBench.Power.Markers
import PeripheralBench.Power.Profiler

/-!
# What the profiler makes of the markers

The profiler tells the kinds of operations apart by the two pins.  After each call of a marker
function that works: the window which is active is the one of the operation that runs
(`markers_classify`).

While a call runs it need not.  A classical key exchange moves its two pins one after the other, and
a sample taken in between looks like ML-KEM when the exchange starts, and like a signature when it
ends (`not_ownOnly`).  These are the only samples that are misplaced (`ownOnly_iff`).
-/

open PeripheralBench.Durable

namespace PeripheralBench.Power

/-! ## After each call -/

/-- The window of the operations of a kind. -/
def Phase.window : Phase → WindowName
  | .mlkem => .mlkem
  | .classicalKex => .classicalKex
  | .signature => .clientSignature

/-- What the two pins should be while nothing but operations of this kind run. -/
theorem window_of_pins {pins : Pins} {mask : ℕ} (h : pins.Shows mask) {phase : Phase}
    (hkem : pins.kem = decide (phase ≠ .signature))
    (hsig : pins.signature = decide (phase ≠ .mlkem)) :
    (∀ p : Phase, windowActive p.window mask = decide (p = phase)) ∧
      windowActive .clientKem mask = decide (phase ≠ .signature) := by
  obtain ⟨-, -, h5, h4⟩ := h
  rw [hkem] at h5
  rw [hsig] at h4
  refine ⟨fun p ↦ ?_, ?_⟩
  · cases p <;> simp only [Phase.window, windowActive, maskBit_eq, h5, h4] <;> cases phase <;> rfl
  · simp only [windowActive, maskBit_eq, h5]

theorem depth_le_length (phase : Phase) (calls : List Call) : depth phase calls ≤ calls.length := by
  induction calls using List.reverseRecOn with
  | nil => exact Nat.le_refl 0
  | append_singleton calls c ih =>
      rw [depth_concat, List.length_append, List.length_singleton]
      cases c with
      | reset => exact Nat.zero_le _
      | totalSet active => exact ih.trans (Nat.le_succ _)
      | handshakeSet active => exact ih.trans (Nat.le_succ _)
      | cryptoStart operation => rw [nest]; split <;> omega
      | cryptoStop operation => rw [nest]; split <;> omega

theorem countable_of_length_lt {calls : List Call} (h : calls.length < 2 ^ 32) : Countable calls :=
  fun l hl phase ↦ ((depth_le_length phase l).trans hl.length_le).trans_lt h

/-- The counters are the depths, the pins are what the depths say, they are down after balanced
calls, and while operations of one kind run their window is the one that is active. -/
theorem markers_classify (calls : List Call) (h : Countable calls) :
    (∀ phase, ((Board.run calls).markers.counter phase).toNat = depth phase calls) ∧
      ((Board.run calls).pins.kem = true ↔
        0 < depth .mlkem calls ∨ 0 < depth .classicalKex calls) ∧
      ((Board.run calls).pins.signature = true ↔
        0 < depth .classicalKex calls ∨ 0 < depth .signature calls) ∧
      ((∀ phase, Balanced phase calls) →
        (Board.run calls).pins.kem = false ∧ (Board.run calls).pins.signature = false) ∧
      ∀ phase, (∀ p, 0 < depth p calls ↔ p = phase) →
        ∀ mask, (Board.run calls).pins.Shows mask →
          (∀ p : Phase, windowActive p.window mask = decide (p = phase)) ∧
            windowActive .clientKem mask = decide (phase ≠ .signature) := by
  have hrun := agrees_run h
  refine ⟨hrun.counter, hrun.kem, hrun.signature, fun hbalanced ↦ ?_,
    fun phase honly mask hmask ↦ ?_⟩
  · have hzero := fun phase ↦ (hbalanced phase).depth_eq_zero
    have hkem := hrun.kem
    have hsig := hrun.signature
    rw [hzero, hzero] at hkem hsig
    exact ⟨Bool.eq_false_iff.mpr fun hup ↦ absurd (hkem.mp hup) (by simp),
      Bool.eq_false_iff.mpr fun hup ↦ absurd (hsig.mp hup) (by simp)⟩
  · have hkem := hrun.kem
    have hsig := hrun.signature
    rw [honly, honly] at hkem hsig
    refine window_of_pins hmask ?_ ?_
    · rw [Bool.eq_iff_iff, hkem, decide_eq_true_iff]
      cases phase <;> simp
    · rw [Bool.eq_iff_iff, hsig, decide_eq_true_iff]
      cases phase <;> simp

/-- A signature is verified that outlasts a key exchange. -/
theorem markers_classify_nested :
    (Board.run [.cryptoStart .classicalKexKeygen, .cryptoStart .certVerify,
      .cryptoStop .classicalKexKeygen]).pins.kem = false ∧
      windowActive Phase.signature.window 0x10 = true := by
  have h := markers_classify [.cryptoStart .classicalKexKeygen, .cryptoStart .certVerify,
    .cryptoStop .classicalKexKeygen] (countable_of_length_lt (by decide))
  have honly := h.2.2.2.2 .signature (by rintro (_ | _ | _) <;> decide) 0x10 ⟨rfl, rfl, rfl, rfl⟩
  exact ⟨Bool.eq_false_iff.mpr (mt h.2.1.mp (by decide)), honly.1 .signature⟩

/-! ## While a call runs -/

/-- A moment at which the pins can be sampled. -/
structure Moment where
  /-- The operation whose start has been called, and whose stop has not returned. -/
  operation : Option CryptoOperation
  /-- The marker function that runs. -/
  call : Option Call
  /-- How often it has accessed the port. -/
  written : ℕ
  pins : Pins
deriving DecidableEq

namespace Board

/-- The board between two calls. -/
def idle (b : Board) (operation : Option CryptoOperation) : Moment where
  operation := operation
  call := none
  written := 0
  pins := b.pins

/-- The moments of a call: before its first access to the port, and after each of them. -/
def during (b : Board) (operation : Option CryptoOperation) (c : Call) : List Moment :=
  let writes := (b.markers.call c).2
  (List.range (writes.length + 1)).map fun n ↦
    { operation := operation
      call := some c
      written := n
      pins := (writes.take n).foldl Pins.write b.pins }

end Board

/-- What happens within a total window. -/
inductive Item where
  /-- An operation from its start to its stop. -/
  | operation (operation : CryptoOperation)
  /-- The handshake begins or ends. -/
  | handshake (active : Bool)
deriving DecidableEq

namespace Item

/-- The calls. -/
def calls : Item → List Call
  | operation op => [.cryptoStart op, .cryptoStop op]
  | handshake active => [.handshakeSet active]

/-- The moments, up to the next item. -/
def moments (b : Board) : Item → List Moment
  | operation op =>
      b.during (some op) (.cryptoStart op) ++ [(b.call (.cryptoStart op)).idle (some op)] ++
        (b.call (.cryptoStart op)).during (some op) (.cryptoStop op) ++
        [((b.call (.cryptoStart op)).call (.cryptoStop op)).idle none]
  | handshake active =>
      b.during none (.handshakeSet active) ++ [(b.call (.handshakeSet active)).idle none]

/-- The board after an item. -/
def after (b : Board) (i : Item) : Board := i.calls.foldl Board.call b

/-- The moments of several items. -/
def allMoments : Board → List Item → List Moment
  | _, [] => []
  | b, i :: items => i.moments b ++ allMoments (i.after b) items

end Item

/-- The moments of a total window, which comes after other calls and a reset. -/
def windowMoments (before : List Call) (items : List Item) : List Moment :=
  let cleared := (Board.run before).call .reset
  let opened := cleared.call (.totalSet true)
  let last := items.foldl Item.after opened
  cleared.during none (.totalSet true) ++ [opened.idle none] ++ Item.allMoments opened items ++
    last.during none (.totalSet false) ++ [(last.call (.totalSet false)).idle none]

/-- The samples were taken at these moments, in order: any number of them at each moment. -/
inductive SampledAt : List Moment → List (Moment × Sample) → Prop where
  | nil : SampledAt [] []
  | skip {i is taken} : SampledAt is taken → SampledAt (i :: is) taken
  | sample {i is x taken} : i.pins.Shows x.mask → SampledAt (i :: is) taken →
      SampledAt (i :: is) ((i, x) :: taken)

/-- The profiler adds this sample to a window, in a capture that takes these samples. -/
def Adds (c : Capture) (taken : List (Moment × Sample)) (name : WindowName) (i : Moment)
    (x : Sample) : Prop :=
  ∃ pre post, taken = pre ++ (i, x) :: post ∧
    (c.run (pre.map Prod.snd)).adds name (c.run (pre.map Prod.snd)).sampleIndex x = true

/-- The operation whose start or stop runs. -/
def Moment.running (i : Moment) : Option CryptoOperation :=
  match i.call with
  | some (.cryptoStart operation) | some (.cryptoStop operation) => some operation
  | _ => none

/-- Every sample in the windows for ML-KEM and for signatures is of such an operation, and none is
of a classical key exchange that starts or stops. -/
structure OwnOnly (c : Capture) (taken : List (Moment × Sample)) : Prop where
  mlkem : ∀ i x, Adds c taken .mlkem i x → ∃ op, i.operation = some op ∧ op.isMlkem = true
  signature : ∀ i x, Adds c taken .clientSignature i x →
    ∃ op, i.operation = some op ∧ op.isSignature = true
  classicalKex : ∀ i x op, i.running = some op → op.isClassicalKex = true →
    ¬ Adds c taken .mlkem i x ∧ ¬ Adds c taken .clientSignature i x

/-- The start or the stop of a classical key exchange has moved one of its two pins. -/
def Moment.Torn (i : Moment) : Prop :=
  i.written = 1 ∧ i.running.any CryptoOperation.isClassicalKex = true

instance (i : Moment) : Decidable i.Torn := inferInstanceAs (Decidable (_ ∧ _))

/-! ## The pins at every moment -/

/-- What the pins say about the operation: the classical exchange is recognised unless it is torn.
-/
def Moment.told (i : Moment) : Bool :=
  (i.running = none || i.running = i.operation) &&
    match i.operation.map CryptoOperation.phase with
    | none => !i.pins.kem && !i.pins.signature
    | some .mlkem => !i.pins.signature
    | some .signature => !i.pins.kem
    | some .classicalKex => (i.pins.kem = i.pins.signature) = ¬ i.Torn

/-- A board on which no operation runs. -/
def quiet (total handshake : Bool) : Board where
  markers := { ready := true }
  pins := { total := total, handshake := handshake }

theorem ready_call {b : Board} (h : b.markers.ready = true) (c : Call) :
    (b.call c).markers.ready = true := by
  cases c with
  | reset => rw [Board.call, Markers.call, Markers.reset, if_pos h]; exact h
  | totalSet active => rw [Board.call, Markers.call, Markers.totalSet, if_pos h]; exact h
  | handshakeSet active => rw [Board.call, Markers.call, Markers.handshakeSet, if_pos h]; exact h
  | cryptoStart operation =>
      rw [Board.call, Markers.call, Markers.cryptoStart_of_ready h]
      cases operation.phase <;> exact h
  | cryptoStop operation =>
      rw [Board.call, Markers.call, Markers.cryptoStop_of_ready h]
      cases operation.phase with
      | mlkem => rw [Markers.stop, Markers.stopMlkem]; split <;> exact h
      | classicalKex => rw [Markers.stop, Markers.stopClassicalKex]; split <;> exact h
      | signature => rw [Markers.stop, Markers.stopSignature]; split <;> exact h

theorem ready_run (calls : List Call) : (Board.run calls).markers.ready = true :=
  lives_invariant (P := fun _ _ ↦ True) (I := fun b : Board ↦ b.markers.ready = true)
    (fun _ c h _ ↦ ready_call h c) rfl (along_of_forall fun _ _ ↦ trivial)

/-- A reset forgets everything. -/
theorem reset_run (calls : List Call) : (Board.run calls).call .reset = quiet false false := by
  have h := ready_run calls
  rw [Board.call, Markers.call, Markers.reset, if_pos h, h]
  rfl

theorem told_of_mem_moments (item : Item) (total handshake : Bool) :
    (item.moments (quiet total handshake)).all Moment.told = true := by
  cases item with
  | operation operation => cases total <;> cases handshake <;> cases operation <;> rfl
  | handshake active => cases total <;> cases handshake <;> cases active <;> rfl

theorem after_quiet (item : Item) (total handshake : Bool) :
    ∃ handshake', item.after (quiet total handshake) = quiet total handshake' := by
  cases item with
  | operation operation =>
      refine ⟨handshake, ?_⟩
      cases operation <;> cases total <;> cases handshake <;> rfl
  | handshake active => exact ⟨active, rfl⟩

theorem told_of_mem_allMoments (items : List Item) (total handshake : Bool) :
    (Item.allMoments (quiet total handshake) items).all Moment.told = true ∧
      ∃ handshake', items.foldl Item.after (quiet total handshake) = quiet total handshake' := by
  induction items generalizing handshake with
  | nil => exact ⟨rfl, handshake, rfl⟩
  | cons item items ih =>
      obtain ⟨handshake', hafter⟩ := after_quiet item total handshake
      rw [Item.allMoments, List.foldl_cons, hafter, List.all_append, told_of_mem_moments,
        Bool.true_and]
      exact ih handshake'

theorem told_of_mem_windowMoments {before : List Call} {items : List Item} {i : Moment}
    (h : i ∈ windowMoments before items) : i.told = true := by
  refine List.all_eq_true.mp ?_ i h
  have hopened : (quiet false false).call (.totalSet true) = quiet true false := rfl
  obtain ⟨hall, handshake, hlast⟩ := told_of_mem_allMoments items true false
  rw [windowMoments, reset_run]
  simp only [hopened, hlast, List.all_append, hall]
  cases handshake <;> rfl

/-! ## The samples in the windows -/

/-- A sample that is not torn is in none but the window of its operation. -/
theorem Moment.own_of_told {i : Moment} (h : i.told = true) (htorn : ¬ i.Torn) {x : Sample}
    (hx : i.pins.Shows x.mask) :
    (windowActive .mlkem x.mask = true → ∃ op, i.operation = some op ∧ op.isMlkem = true) ∧
      (windowActive .clientSignature x.mask = true →
        ∃ op, i.operation = some op ∧ op.isSignature = true) ∧
      ∀ op, i.running = some op → op.isClassicalKex = true →
        windowActive .mlkem x.mask = false ∧ windowActive .clientSignature x.mask = false := by
  obtain ⟨-, -, h5, h4⟩ := hx
  simp only [windowActive, maskBit_eq, h5, h4]
  rw [Moment.told, Bool.and_eq_true, Bool.or_eq_true, decide_eq_true_iff, decide_eq_true_iff] at h
  obtain ⟨hrunning, hpins⟩ := h
  have hsame : ∀ op, i.running = some op → i.operation = some op := by
    intro op hop
    rcases hrunning with hnone | hsame
    · rw [hop] at hnone
      exact nomatch hnone
    · rw [← hsame, hop]
  cases hoperation : i.operation with
  | none =>
      rw [hoperation] at hpins
      simp only [Option.map_none, Bool.and_eq_true, Bool.not_eq_true'] at hpins
      refine ⟨?_, ?_, fun op hop ↦ ?_⟩
      · rw [hpins.1]
        exact nofun
      · rw [hpins.2]
        exact nofun
      · rw [hpins.1, hpins.2]
        exact fun _ ↦ ⟨rfl, rfl⟩
  | some op =>
      rw [hoperation, Option.map_some] at hpins
      have hkex : ∀ op', i.running = some op' → op' = op :=
        fun op' hop ↦ Option.some_inj.mp ((hsame op' hop).symm.trans hoperation)
      cases hphase : op.phase with
      | mlkem =>
          rw [hphase] at hpins
          have hsig : i.pins.signature = false := (Bool.not_eq_true' _).mp hpins
          rw [hsig]
          refine ⟨fun _ ↦ ⟨op, rfl, ?_⟩, nofun, fun op' hop h ↦ ?_⟩
          · rw [op.isMlkem_eq, hphase]
            rfl
          · rw [hkex op' hop, op.isClassicalKex_eq, hphase] at h
            exact nomatch h
      | classicalKex =>
          rw [hphase] at hpins
          have hpins : (i.pins.kem = i.pins.signature) = ¬ i.Torn := of_decide_eq_true hpins
          rw [hpins.mpr htorn, Bool.and_not_self]
          exact ⟨nofun, nofun, fun _ _ _ ↦ ⟨rfl, rfl⟩⟩
      | signature =>
          rw [hphase] at hpins
          have hkem : i.pins.kem = false := (Bool.not_eq_true' _).mp hpins
          rw [hkem]
          refine ⟨nofun, fun _ ↦ ⟨op, rfl, ?_⟩, fun op' hop h ↦ ?_⟩
          · rw [op.isSignature_eq, hphase]
            rfl
          · rw [hkex op' hop, op.isClassicalKex_eq, hphase] at h
            exact nomatch h

/-- A sample that is torn is in a window of another kind of operations. -/
theorem Moment.misplaced_of_told {i : Moment} (h : i.told = true) (htorn : i.Torn) {x : Sample}
    (hx : i.pins.Shows x.mask) :
    (∃ op, i.running = some op ∧ op.isClassicalKex = true) ∧
      (windowActive .mlkem x.mask = true ∨ windowActive .clientSignature x.mask = true) := by
  obtain ⟨-, -, h5, h4⟩ := hx
  simp only [windowActive, maskBit_eq, h5, h4]
  obtain ⟨op, hop, hkex⟩ := (Option.any_eq_true _ _).mp htorn.2
  refine ⟨⟨op, hop, hkex⟩, ?_⟩
  rw [Moment.told, Bool.and_eq_true, Bool.or_eq_true, decide_eq_true_iff,
    decide_eq_true_iff, hop] at h
  obtain ⟨hrunning, hpins⟩ := h
  have hphase : i.operation.map CryptoOperation.phase = some .classicalKex := by
    rw [op.isClassicalKex_eq, decide_eq_true_iff] at hkex
    rw [← hrunning.resolve_left nofun, Option.map_some, hkex]
  rw [hphase] at hpins
  have hpins : (i.pins.kem = i.pins.signature) = ¬ i.Torn := of_decide_eq_true hpins
  have hne : i.pins.kem ≠ i.pins.signature := fun heq ↦ hpins.mp heq htorn
  cases hkem : i.pins.kem <;> cases hsig : i.pins.signature
  · exact absurd (hkem.trans hsig.symm) hne
  · exact .inr rfl
  · exact .inl rfl
  · exact absurd (hkem.trans hsig.symm) hne

theorem sampledAt_nil (is : List Moment) : SampledAt is [] := by
  induction is with
  | nil => exact .nil
  | cons i is ih => exact .skip ih

/-- One sample. -/
theorem sampledAt_singleton {is : List Moment} {i : Moment} {x : Sample} (hi : i ∈ is)
    (hx : i.pins.Shows x.mask) : SampledAt is [(i, x)] := by
  induction is with
  | nil => exact absurd hi List.not_mem_nil
  | cons j is ih =>
      rcases List.mem_cons.mp hi with rfl | hi
      · exact .sample hx (sampledAt_nil _)
      · exact .skip (ih hi)

theorem mem_moments_of_sampledAt {is : List Moment} {taken : List (Moment × Sample)}
    (h : SampledAt is taken) {i : Moment} {x : Sample} (hmem : (i, x) ∈ taken) :
    i ∈ is ∧ i.pins.Shows x.mask := by
  induction h with
  | nil => exact absurd hmem List.not_mem_nil
  | skip _ ih => exact (ih hmem).imp_left (.tail _)
  | sample hshows _ ih =>
      rcases List.mem_cons.mp hmem with heq | hmem
      · cases heq
        exact ⟨.head _, hshows⟩
      · exact ih hmem

section

variable (vddMv outputRate : ℕ) (transferMode : Bool) (earlier : List Sample)

/-- The profiler adds a sample to a window if its markers are up. -/
theorem adds_iff (taken : List (Moment × Sample)) (name : WindowName) (i : Moment) (x : Sample) :
    Adds ((Capture.fresh vddMv outputRate transferMode).run earlier) taken name i x ↔
      (i, x) ∈ taken ∧ windowActive name x.mask = true := by
  have hadds : ∀ pre : List (Moment × Sample), ∀ index,
      (((Capture.fresh vddMv outputRate transferMode).run earlier).run (pre.map Prod.snd)).adds
        name index x = windowActive name x.mask := by
    intro pre index
    rw [Capture.run, Capture.run, ← List.foldl_append]
    exact (Capture.records_run vddMv outputRate transferMode _).adds name index x
  constructor
  · rintro ⟨pre, post, rfl, h⟩
    rw [hadds] at h
    exact ⟨List.mem_append_right _ (.head _), h⟩
  · rintro ⟨hmem, h⟩
    obtain ⟨pre, post, rfl⟩ := List.append_of_mem hmem
    exact ⟨pre, post, rfl, by rw [hadds, h]⟩

/-- The windows hold what they should if and only if no sample was taken between the two accesses to
the port that start or stop a classical key exchange. -/
theorem ownOnly_iff (before : List Call) (items : List Item) (taken : List (Moment × Sample))
    (h : SampledAt (windowMoments before items) taken) :
    OwnOnly ((Capture.fresh vddMv outputRate transferMode).run earlier) taken ↔
      ∀ p ∈ taken, ¬ p.1.Torn := by
  have hadds := adds_iff vddMv outputRate transferMode earlier taken
  constructor
  · rintro hown ⟨i, x⟩ hmem htorn
    obtain ⟨hi, hx⟩ := mem_moments_of_sampledAt h hmem
    obtain ⟨⟨op, hop, hkex⟩, hwindow⟩ :=
      Moment.misplaced_of_told (told_of_mem_windowMoments hi) htorn hx
    obtain ⟨hmlkem, hsignature⟩ := hown.classicalKex i x op hop hkex
    rcases hwindow with hwindow | hwindow
    · exact hmlkem ((hadds _ _ _).mpr ⟨hmem, hwindow⟩)
    · exact hsignature ((hadds _ _ _).mpr ⟨hmem, hwindow⟩)
  · intro htorn
    have hown : ∀ i x, (i, x) ∈ taken → _ := fun i x hmem ↦
      Moment.own_of_told (told_of_mem_windowMoments (mem_moments_of_sampledAt h hmem).1)
        (htorn (i, x) hmem) (mem_moments_of_sampledAt h hmem).2
    refine ⟨fun i x hi ↦ ?_, fun i x hi ↦ ?_, fun i x op hop hkex ↦ ⟨fun hi ↦ ?_, fun hi ↦ ?_⟩⟩
    · obtain ⟨hmem, hwindow⟩ := (hadds _ _ _).mp hi
      exact (hown i x hmem).1 hwindow
    · obtain ⟨hmem, hwindow⟩ := (hadds _ _ _).mp hi
      exact (hown i x hmem).2.1 hwindow
    · obtain ⟨hmem, hwindow⟩ := (hadds _ _ _).mp hi
      exact Bool.eq_false_iff.mp ((hown i x hmem).2.2 op hop hkex).1 hwindow
    · obtain ⟨hmem, hwindow⟩ := (hadds _ _ _).mp hi
      exact Bool.eq_false_iff.mp ((hown i x hmem).2.2 op hop hkex).2 hwindow

end

/-- A key exchange that runs puts no sample into another window. -/
theorem ownOnly_running : OwnOnly ((Capture.fresh 3000 100 false).run [])
    [((quiet true false |>.call (.cryptoStart .classicalKexKeygen)).idle
      (some .classicalKexKeygen), ⟨100, 0xB0⟩)] := by
  refine (ownOnly_iff 3000 100 false [] [] [.operation .classicalKexKeygen] _
    (sampledAt_singleton ?_ ⟨rfl, rfl, rfl, rfl⟩)).mpr ?_
  · decide
  · decide

/-- A key exchange that starts puts a sample into the window for ML-KEM. -/
theorem not_ownOnly : ∃ taken,
    SampledAt (windowMoments [] [.operation .classicalKexKeygen]) taken ∧
      ¬ OwnOnly (Capture.fresh 3000 100 false) taken := by
  let torn : Moment :=
    { operation := some .classicalKexKeygen
      call := some (.cryptoStart .classicalKexKeygen)
      written := 1
      pins := { total := true, kem := true } }
  refine ⟨[(torn, ⟨100, 0xA0⟩)], sampledAt_singleton ?_ ⟨rfl, rfl, rfl, rfl⟩, fun h ↦ ?_⟩
  · decide
  · exact (h.classicalKex torn ⟨100, 0xA0⟩ .classicalKexKeygen rfl rfl).1 ⟨[], [], rfl, rfl⟩

end PeripheralBench.Power

import PeripheralBench.Durable.Rewrite

/-!
# The power markers of the firmware

While it is measured the board tells the power profiler through four pins what it is doing.  Two of
them say which kind of cryptographic operation runs: the KEM pin is up for ML-KEM, the signature pin
for signatures, and both are up for a classical key exchange.  Operations may be nested, so there is
a counter for each kind, and every start and stop consults the others.

After any calls whatsoever the pins are what the counters say (`markers_classify`), as long as the
counters do not overflow.
-/

open PeripheralBench.Durable

namespace PeripheralBench.Power

/-! ## Operations -/

/-- `enum benchmark_crypto_operation`. -/
inductive CryptoOperation where
  | kemKeygen
  | kemEncapsulate
  | kemDecapsulate
  | certVerify
  | classicalKexKeygen
  | classicalKexSharedSecret
  | tlsCertVerify
  | mtlsSign
deriving DecidableEq

/-- The kinds of operations. -/
inductive Phase where
  | mlkem
  | classicalKex
  | signature
deriving DecidableEq

namespace CryptoOperation

/-- `is_mlkem`. -/
def isMlkem (operation : CryptoOperation) : Bool :=
  operation = kemKeygen || operation = kemEncapsulate || operation = kemDecapsulate

/-- `is_classical_kex`. -/
def isClassicalKex (operation : CryptoOperation) : Bool :=
  operation = classicalKexKeygen || operation = classicalKexSharedSecret

/-- `is_signature`. -/
def isSignature (operation : CryptoOperation) : Bool :=
  operation = certVerify || operation = tlsCertVerify || operation = mtlsSign

/-- The kind of an operation: it has exactly one. -/
def phase : CryptoOperation → Phase
  | kemKeygen | kemEncapsulate | kemDecapsulate => .mlkem
  | classicalKexKeygen | classicalKexSharedSecret => .classicalKex
  | certVerify | tlsCertVerify | mtlsSign => .signature

@[simp] theorem isMlkem_eq (operation : CryptoOperation) :
    operation.isMlkem = decide (operation.phase = .mlkem) := by
  cases operation <;> rfl

@[simp] theorem isClassicalKex_eq (operation : CryptoOperation) :
    operation.isClassicalKex = decide (operation.phase = .classicalKex) := by
  cases operation <;> rfl

@[simp] theorem isSignature_eq (operation : CryptoOperation) :
    operation.isSignature = decide (operation.phase = .signature) := by
  cases operation <;> rfl

end CryptoOperation

/-! ## Pins -/

/-- The levels of the marker pins. -/
structure Pins where
  /-- P0.03, which the profiler sees as D7. -/
  total : Bool := false
  /-- P0.04, D6. -/
  handshake : Bool := false
  /-- P0.28, D5. -/
  kem : Bool := false
  /-- P0.29, D4. -/
  signature : Bool := false
deriving DecidableEq

/-- One access to the port. -/
inductive PinWrite where
  | setTotal (value : Bool)
  | setHandshake (value : Bool)
  | setKem (value : Bool)
  | setSignature (value : Bool)
  /-- All four pins are cleared at once. -/
  | clearAll
deriving DecidableEq

namespace Pins

/-- The levels after an access. -/
def write (pins : Pins) : PinWrite → Pins
  | .setTotal value => { pins with total := value }
  | .setHandshake value => { pins with handshake := value }
  | .setKem value => { pins with kem := value }
  | .setSignature value => { pins with signature := value }
  | .clearAll => {}

/-- The profiler sees these levels in the upper bits of its mask.  The lower ones are not connected.
-/
def Shows (pins : Pins) (mask : ℕ) : Prop :=
  mask.testBit 7 = pins.total ∧ mask.testBit 6 = pins.handshake ∧ mask.testBit 5 = pins.kem ∧
    mask.testBit 4 = pins.signature

end Pins

/-! ## The marker functions -/

/-- The variables of `power_markers.c`.  On this machine an `unsigned int` has 32 bits. -/
structure Markers where
  ready : Bool := false
  mlkemDepth : UInt32 := 0
  classicalKexDepth : UInt32 := 0
  signatureDepth : UInt32 := 0
deriving DecidableEq

namespace Markers

/-- What a piece of code does: the variables after it, and its accesses to the port in order. -/
abbrev Effect : Type := Markers × List PinWrite

/-- One piece of code after another. -/
def andThen (before : Effect) (next : Markers → Effect) : Effect :=
  ((next before.1).1, before.2 ++ (next before.1).2)

/-- A piece of code under a condition. -/
def guarded (condition : Bool) (code : Markers → Effect) (m : Markers) : Effect :=
  if condition then code m else (m, [])

/-- `benchmark_power_markers_init`. -/
def init (m : Markers) (deviceIsReady : Bool) : Effect :=
  if deviceIsReady then
    ({ m with ready := true },
      [.setTotal false, .setHandshake false, .setKem false, .setSignature false])
  else (m, [])

/-- `benchmark_power_markers_reset`. -/
def reset (m : Markers) : Effect :=
  if m.ready then
    ({ m with mlkemDepth := 0, classicalKexDepth := 0, signatureDepth := 0 }, [.clearAll])
  else (m, [])

/-- `benchmark_power_total_set`. -/
def totalSet (m : Markers) (active : Bool) : Effect :=
  if m.ready then (m, [.setTotal active]) else (m, [])

/-- `benchmark_power_handshake_set`. -/
def handshakeSet (m : Markers) (active : Bool) : Effect :=
  if m.ready then (m, [.setHandshake active]) else (m, [])

/-- The first condition of `benchmark_power_crypto_start`. -/
def startMlkem (m : Markers) : Effect :=
  ({ m with mlkemDepth := m.mlkemDepth + 1 }, if m.mlkemDepth = 0 then [.setKem true] else [])

/-- The second condition: D5+D4 stand for the classical component. -/
def startClassicalKex (m : Markers) : Effect :=
  ({ m with classicalKexDepth := m.classicalKexDepth + 1 },
    if m.classicalKexDepth = 0 then [.setKem true, .setSignature true] else [])

/-- The third condition. -/
def startSignature (m : Markers) : Effect :=
  ({ m with signatureDepth := m.signatureDepth + 1 },
    if m.signatureDepth = 0 then [.setSignature true] else [])

/-- `benchmark_power_crypto_start`. -/
def cryptoStart (m : Markers) (operation : CryptoOperation) : Effect :=
  if m.ready then
    andThen (andThen (guarded operation.isMlkem startMlkem m)
      (guarded operation.isClassicalKex startClassicalKex))
      (guarded operation.isSignature startSignature)
  else (m, [])

/-- The first condition of `benchmark_power_crypto_stop`. -/
def stopMlkem (m : Markers) : Effect :=
  if 0 < m.mlkemDepth then
    ({ m with mlkemDepth := m.mlkemDepth - 1 },
      if m.mlkemDepth - 1 = 0 ∧ m.classicalKexDepth = 0 then [.setKem false] else [])
  else (m, [])

/-- The second condition. -/
def stopClassicalKex (m : Markers) : Effect :=
  if 0 < m.classicalKexDepth then
    ({ m with classicalKexDepth := m.classicalKexDepth - 1 },
      if m.classicalKexDepth - 1 = 0 then
        (if m.mlkemDepth = 0 then [.setKem false] else []) ++
          if m.signatureDepth = 0 then [.setSignature false] else []
      else [])
  else (m, [])

/-- The third condition. -/
def stopSignature (m : Markers) : Effect :=
  if 0 < m.signatureDepth then
    ({ m with signatureDepth := m.signatureDepth - 1 },
      if m.signatureDepth - 1 = 0 ∧ m.classicalKexDepth = 0 then [.setSignature false] else [])
  else (m, [])

/-- `benchmark_power_crypto_stop`. -/
def cryptoStop (m : Markers) (operation : CryptoOperation) : Effect :=
  if m.ready then
    andThen (andThen (guarded operation.isMlkem stopMlkem m)
      (guarded operation.isClassicalKex stopClassicalKex))
      (guarded operation.isSignature stopSignature)
  else (m, [])

/-- The counter for a kind of operations. -/
def counter (m : Markers) : Phase → UInt32
  | .mlkem => m.mlkemDepth
  | .classicalKex => m.classicalKexDepth
  | .signature => m.signatureDepth

end Markers

/-! ## Calls -/

/-- A call of one of the marker functions. -/
inductive Call where
  | reset
  | totalSet (active : Bool)
  | handshakeSet (active : Bool)
  | cryptoStart (operation : CryptoOperation)
  | cryptoStop (operation : CryptoOperation)
deriving DecidableEq

/-- The markers and the pins they drive. -/
structure Board where
  markers : Markers := {}
  pins : Pins := {}
deriving DecidableEq

/-- What a call does. -/
def Markers.call (m : Markers) : Call → Markers.Effect
  | .reset => m.reset
  | .totalSet active => m.totalSet active
  | .handshakeSet active => m.handshakeSet active
  | .cryptoStart operation => m.cryptoStart operation
  | .cryptoStop operation => m.cryptoStop operation

namespace Board

/-- The board after some code. -/
def after (b : Board) (effect : Markers.Effect) : Board where
  markers := effect.1
  pins := effect.2.foldl Pins.write b.pins

/-- The board after a call. -/
def call (b : Board) (c : Call) : Board := b.after (b.markers.call c)

/-- The board after `benchmark_power_markers_init` and these calls. -/
def run (calls : List Call) : Board :=
  lives call (({} : Board).after (({} : Markers).init true)) calls

end Board

/-! ## Nesting -/

/-- The depth to which operations of a kind are nested, after another call.  A stop with nothing to
stop changes nothing. -/
def nest (phase : Phase) (depth : ℕ) : Call → ℕ
  | .reset => 0
  | .cryptoStart operation => if operation.phase = phase then depth + 1 else depth
  | .cryptoStop operation => if operation.phase = phase then depth - 1 else depth
  | .totalSet _ | .handshakeSet _ => depth

/-- The depth to which operations of a kind are nested, after these calls. -/
def depth (phase : Phase) (calls : List Call) : ℕ := calls.foldl (nest phase) 0

/-- At no time do the operations of a kind nest more deeply than an `unsigned int` can count. -/
def Countable (calls : List Call) : Prop :=
  ∀ l, l <+: calls → ∀ phase, depth phase l < 2 ^ 32

/-- The number of starts of operations of a kind. -/
def starts (phase : Phase) (calls : List Call) : ℕ :=
  calls.countP fun
    | .cryptoStart operation => operation.phase = phase
    | _ => false

/-- The number of stops. -/
def stops (phase : Phase) (calls : List Call) : ℕ :=
  calls.countP fun
    | .cryptoStop operation => operation.phase = phase
    | _ => false

/-- Every start of an operation of a kind has its stop, and no stop comes before its start. -/
structure Balanced (phase : Phase) (calls : List Call) : Prop where
  stops_le : ∀ l, l <+: calls → stops phase l ≤ starts phase l
  settled : stops phase calls = starts phase calls

@[simp] theorem depth_nil (phase : Phase) : depth phase [] = 0 := rfl

@[simp] theorem depth_concat (phase : Phase) (calls : List Call) (c : Call) :
    depth phase (calls ++ [c]) = nest phase (depth phase calls) c := by
  rw [depth, List.foldl_append]
  rfl

theorem starts_append (phase : Phase) (calls calls' : List Call) :
    starts phase (calls ++ calls') = starts phase calls + starts phase calls' := List.countP_append

theorem stops_append (phase : Phase) (calls calls' : List Call) :
    stops phase (calls ++ calls') = stops phase calls + stops phase calls' := List.countP_append

/-- Resets and stops with nothing to stop aside, the depth is the number of starts without a stop.
-/
theorem depth_add_stops_le {phase : Phase} {calls : List Call}
    (h : ∀ l, l <+: calls → stops phase l ≤ starts phase l) :
    depth phase calls + stops phase calls ≤ starts phase calls := by
  induction calls using List.reverseRecOn with
  | nil => exact Nat.le_refl 0
  | append_singleton calls c ih =>
      have ih := ih fun l hl ↦ h l (hl.trans (List.prefix_append _ _))
      have hall := h _ List.prefix_rfl
      rw [stops_append, starts_append] at hall ⊢
      rw [depth_concat]
      cases c with
      | reset => exact (Nat.zero_add _).trans_le hall
      | totalSet active => exact ih
      | handshakeSet active => exact ih
      | cryptoStart operation =>
          by_cases hphase : operation.phase = phase
          · simp only [nest, starts, stops, hphase, if_true, List.countP_singleton] at ih ⊢
            simp only [decide_true, if_true, Bool.false_eq_true, if_false]
            omega
          · simp only [nest, starts, stops, hphase, if_false, List.countP_singleton] at ih ⊢
            simpa using ih
      | cryptoStop operation =>
          by_cases hphase : operation.phase = phase
          · simp only [nest, starts, stops, hphase, if_true, List.countP_singleton] at ih hall ⊢
            simp only [decide_true, if_true, Bool.false_eq_true, if_false] at hall ⊢
            omega
          · simp only [nest, starts, stops, hphase, if_false, List.countP_singleton] at ih ⊢
            simpa using ih

theorem Balanced.depth_eq_zero {phase : Phase} {calls : List Call} (h : Balanced phase calls) :
    depth phase calls = 0 := by
  have hle := depth_add_stops_le h.stops_le
  rw [h.settled] at hle
  omega

/-! ## One function for each kind -/

namespace Markers

/-- What the start of an operation of a kind does. -/
def start (m : Markers) : Phase → Effect
  | .mlkem => m.startMlkem
  | .classicalKex => m.startClassicalKex
  | .signature => m.startSignature

/-- What the stop of an operation of a kind does. -/
def stop (m : Markers) : Phase → Effect
  | .mlkem => m.stopMlkem
  | .classicalKex => m.stopClassicalKex
  | .signature => m.stopSignature

theorem andThen_nil (effect : Effect) : andThen effect (fun m ↦ (m, [])) = effect := by
  rw [andThen, List.append_nil]

theorem nil_andThen (m : Markers) (next : Markers → Effect) : andThen (m, []) next = next m := by
  rw [andThen, List.nil_append]

theorem cryptoStart_of_ready {m : Markers} (h : m.ready = true) (operation : CryptoOperation) :
    m.cryptoStart operation = m.start operation.phase := by
  rw [cryptoStart, if_pos h, operation.isMlkem_eq, operation.isClassicalKex_eq,
    operation.isSignature_eq]
  cases operation.phase with
  | mlkem => exact (andThen_nil _).trans (andThen_nil _)
  | classicalKex => exact (andThen_nil _).trans (nil_andThen _ _)
  | signature => exact nil_andThen _ _

theorem cryptoStop_of_ready {m : Markers} (h : m.ready = true) (operation : CryptoOperation) :
    m.cryptoStop operation = m.stop operation.phase := by
  rw [cryptoStop, if_pos h, operation.isMlkem_eq, operation.isClassicalKex_eq,
    operation.isSignature_eq]
  cases operation.phase with
  | mlkem => exact (andThen_nil _).trans (andThen_nil _)
  | classicalKex => exact (andThen_nil _).trans (nil_andThen _ _)
  | signature => exact nil_andThen _ _

end Markers

/-! ## The pins are what the depths say -/

/-- The counters are these depths, and the pins are what follows from them. -/
structure Agrees (b : Board) (d : Phase → ℕ) : Prop where
  ready : b.markers.ready = true
  counter : ∀ phase, (b.markers.counter phase).toNat = d phase
  kem : b.pins.kem = true ↔ 0 < d .mlkem ∨ 0 < d .classicalKex
  signature : b.pins.signature = true ↔ 0 < d .classicalKex ∨ 0 < d .signature

theorem toNat_add_one {n : UInt32} (h : n.toNat + 1 < 2 ^ 32) : (n + 1).toNat = n.toNat + 1 := by
  rw [UInt32.toNat_add]
  exact Nat.mod_eq_of_lt h

theorem toNat_sub_one {n : UInt32} (h : 0 < n) : (n - 1).toNat = n.toNat - 1 :=
  UInt32.toNat_sub_of_le _ _ (UInt32.le_iff_toNat_le.mpr (UInt32.lt_iff_toNat_lt.mp h))

theorem eq_zero_iff (n : UInt32) : n = 0 ↔ n.toNat = 0 := by
  rw [← UInt32.toNat_inj]
  rfl

theorem pos_iff (n : UInt32) : 0 < n ↔ 0 < n.toNat := UInt32.lt_iff_toNat_lt

namespace Agrees

variable {b : Board} {d : Phase → ℕ}

theorem reset (h : Agrees b d) : Agrees (b.call .reset) fun _ ↦ 0 := by
  rw [Board.call, Markers.call, Markers.reset, if_pos h.ready]
  refine ⟨h.ready, ?_, ?_, ?_⟩
  · rintro (_ | _ | _) <;> rfl
  · exact ⟨Bool.noConfusion, fun h ↦ absurd h (by simp)⟩
  · exact ⟨Bool.noConfusion, fun h ↦ absurd h (by simp)⟩

theorem totalSet (h : Agrees b d) (active : Bool) : Agrees (b.call (.totalSet active)) d := by
  rw [Board.call, Markers.call, Markers.totalSet, if_pos h.ready]
  exact ⟨h.ready, h.counter, h.kem, h.signature⟩

theorem handshakeSet (h : Agrees b d) (active : Bool) :
    Agrees (b.call (.handshakeSet active)) d := by
  rw [Board.call, Markers.call, Markers.handshakeSet, if_pos h.ready]
  exact ⟨h.ready, h.counter, h.kem, h.signature⟩

theorem counter_eq_zero (h : Agrees b d) (phase : Phase) :
    b.markers.counter phase = 0 ↔ d phase = 0 := by
  rw [eq_zero_iff, h.counter]

theorem start (h : Agrees b d) {phase : Phase} (hlt : d phase + 1 < 2 ^ 32) :
    Agrees (b.after (b.markers.start phase)) fun p ↦ if phase = p then d p + 1 else d p := by
  have hzero := h.counter_eq_zero phase
  have hcounter := h.counter
  have hadd := toNat_add_one ((hcounter phase).symm ▸ hlt)
  rw [hcounter] at hadd
  have hpos : ¬ d phase = 0 → 0 < d phase := Nat.pos_of_ne_zero
  refine ⟨?_, ?_, ?_, ?_⟩
  · cases phase <;> exact h.ready
  · intro p
    by_cases hp : phase = p
    · subst hp
      rw [if_pos rfl, ← hadd]
      cases phase <;> rfl
    · rw [if_neg hp, ← hcounter p]
      cases phase <;> cases p <;> first | exact absurd rfl hp | rfl
  · cases phase with
    | mlkem =>
        refine iff_of_true ?_ (.inl (Nat.succ_pos _))
        by_cases hz : b.markers.mlkemDepth = 0
        · rw [Markers.start, Markers.startMlkem, if_pos hz]
          rfl
        · rw [Markers.start, Markers.startMlkem, if_neg hz]
          exact h.kem.mpr (.inl (hpos (mt hzero.mpr hz)))
    | classicalKex =>
        refine iff_of_true ?_ (.inr (Nat.succ_pos _))
        by_cases hz : b.markers.classicalKexDepth = 0
        · rw [Markers.start, Markers.startClassicalKex, if_pos hz]
          rfl
        · rw [Markers.start, Markers.startClassicalKex, if_neg hz]
          exact h.kem.mpr (.inr (hpos (mt hzero.mpr hz)))
    | signature =>
        rw [Markers.start, Markers.startSignature]
        split <;> exact h.kem
  · cases phase with
    | mlkem =>
        rw [Markers.start, Markers.startMlkem]
        split <;> exact h.signature
    | classicalKex =>
        refine iff_of_true ?_ (.inl (Nat.succ_pos _))
        by_cases hz : b.markers.classicalKexDepth = 0
        · rw [Markers.start, Markers.startClassicalKex, if_pos hz]
          rfl
        · rw [Markers.start, Markers.startClassicalKex, if_neg hz]
          exact h.signature.mpr (.inl (hpos (mt hzero.mpr hz)))
    | signature =>
        refine iff_of_true ?_ (.inr (Nat.succ_pos _))
        by_cases hz : b.markers.signatureDepth = 0
        · rw [Markers.start, Markers.startSignature, if_pos hz]
          rfl
        · rw [Markers.start, Markers.startSignature, if_neg hz]
          exact h.signature.mpr (.inr (hpos (mt hzero.mpr hz)))

/-- A stop with nothing to stop. -/
theorem stop_of_zero (h : Agrees b d) {phase : Phase} (hzero : d phase = 0) :
    b.markers.stop phase = (b.markers, []) := by
  have hpos : ¬ 0 < b.markers.counter phase := by
    rw [pos_iff, h.counter, hzero]
    exact Nat.lt_irrefl 0
  cases phase with
  | mlkem => exact if_neg hpos
  | classicalKex => exact if_neg hpos
  | signature => exact if_neg hpos

theorem kem_stopMlkem (h : 0 < b.markers.mlkemDepth) :
    (b.after b.markers.stopMlkem).pins.kem =
      if b.markers.mlkemDepth - 1 = 0 ∧ b.markers.classicalKexDepth = 0 then false
      else b.pins.kem := by
  rw [Markers.stopMlkem, if_pos h, Board.after]
  split <;> rfl

theorem signature_stopMlkem (h : 0 < b.markers.mlkemDepth) :
    (b.after b.markers.stopMlkem).pins.signature = b.pins.signature := by
  rw [Markers.stopMlkem, if_pos h, Board.after]
  split <;> rfl

theorem kem_stopClassicalKex (h : 0 < b.markers.classicalKexDepth) :
    (b.after b.markers.stopClassicalKex).pins.kem =
      if b.markers.classicalKexDepth - 1 = 0 ∧ b.markers.mlkemDepth = 0 then false
      else b.pins.kem := by
  rw [Markers.stopClassicalKex, if_pos h, Board.after]
  by_cases hlast : b.markers.classicalKexDepth - 1 = 0
  · by_cases hm : b.markers.mlkemDepth = 0
    · rw [if_pos hlast, if_pos hm, if_pos (And.intro hlast hm)]
      split <;> rfl
    · rw [if_pos hlast, if_neg hm, if_neg (mt And.right hm)]
      split <;> rfl
  · rw [if_neg hlast, if_neg (mt And.left hlast)]
    rfl

theorem signature_stopClassicalKex (h : 0 < b.markers.classicalKexDepth) :
    (b.after b.markers.stopClassicalKex).pins.signature =
      if b.markers.classicalKexDepth - 1 = 0 ∧ b.markers.signatureDepth = 0 then false
      else b.pins.signature := by
  rw [Markers.stopClassicalKex, if_pos h, Board.after]
  by_cases hlast : b.markers.classicalKexDepth - 1 = 0
  · by_cases hs : b.markers.signatureDepth = 0
    · rw [if_pos hlast, if_pos hs, if_pos (And.intro hlast hs)]
      split <;> rfl
    · rw [if_pos hlast, if_neg hs, if_neg (mt And.right hs)]
      split <;> rfl
  · rw [if_neg hlast, if_neg (mt And.left hlast)]
    rfl

theorem kem_stopSignature (h : 0 < b.markers.signatureDepth) :
    (b.after b.markers.stopSignature).pins.kem = b.pins.kem := by
  rw [Markers.stopSignature, if_pos h, Board.after]
  split <;> rfl

theorem signature_stopSignature (h : 0 < b.markers.signatureDepth) :
    (b.after b.markers.stopSignature).pins.signature =
      if b.markers.signatureDepth - 1 = 0 ∧ b.markers.classicalKexDepth = 0 then false
      else b.pins.signature := by
  rw [Markers.stopSignature, if_pos h, Board.after]
  split <;> rfl

theorem ready_stop (b : Board) (phase : Phase) :
    (b.after (b.markers.stop phase)).markers.ready = b.markers.ready := by
  cases phase with
  | mlkem =>
      rw [Markers.stop, Markers.stopMlkem]
      split <;> rfl
  | classicalKex =>
      rw [Markers.stop, Markers.stopClassicalKex]
      split <;> rfl
  | signature =>
      rw [Markers.stop, Markers.stopSignature]
      split <;> rfl

theorem counter_stop {phase : Phase} (h : 0 < b.markers.counter phase) (p : Phase) :
    (b.after (b.markers.stop phase)).markers.counter p =
      if phase = p then b.markers.counter p - 1 else b.markers.counter p := by
  cases phase with
  | mlkem =>
      have hstop : b.markers.stop .mlkem = _ := if_pos h
      rw [hstop]
      cases p <;> rfl
  | classicalKex =>
      have hstop : b.markers.stop .classicalKex = _ := if_pos h
      rw [hstop]
      cases p <;> rfl
  | signature =>
      have hstop : b.markers.stop .signature = _ := if_pos h
      rw [hstop]
      cases p <;> rfl

/-- A pin for two kinds of operations falls when the last operation of both has stopped. -/
theorem falls_iff {level : Bool} {own other : ℕ} {last : Prop} [Decidable last]
    (hlevel : level = true ↔ 0 < own ∨ 0 < other) (hpos : 0 < own)
    (hlast : last ↔ own - 1 = 0 ∧ other = 0) :
    (if last then false else level) = true ↔ 0 < own - 1 ∨ 0 < other := by
  by_cases h : last
  · obtain ⟨hown, hother⟩ := hlast.mp h
    rw [if_pos h, hown, hother]
    exact iff_of_false Bool.noConfusion (not_or.mpr ⟨Nat.lt_irrefl 0, Nat.lt_irrefl 0⟩)
  · rw [if_neg h]
    refine iff_of_true (hlevel.mpr (.inl hpos)) ?_
    by_contra hnone
    rw [not_or, Nat.not_lt, Nat.not_lt, Nat.le_zero, Nat.le_zero] at hnone
    exact h (hlast.mpr hnone)

/-- The code of a stop with something to stop. -/
theorem stop_of_pos (h : Agrees b d) {phase : Phase} (hpos : 0 < d phase) :
    Agrees (b.after (b.markers.stop phase)) fun p ↦ if phase = p then d p - 1 else d p := by
  have hcounter : 0 < b.markers.counter phase := by
    rw [pos_iff, h.counter]
    exact hpos
  have hsub := toNat_sub_one hcounter
  have hone := eq_zero_iff (b.markers.counter phase - 1)
  rw [h.counter] at hsub
  rw [hsub] at hone
  have hlast : ∀ p, b.markers.counter phase - 1 = 0 ∧ b.markers.counter p = 0 ↔
      d phase - 1 = 0 ∧ d p = 0 := fun p ↦ and_congr hone (h.counter_eq_zero p)
  refine ⟨(ready_stop b phase).trans h.ready, ?_, ?_, ?_⟩
  · intro p
    rw [counter_stop hcounter]
    split
    case isTrue hp => rw [← hp, hsub]
    case isFalse => exact h.counter p
  · cases phase with
    | mlkem =>
        rw [Markers.stop, kem_stopMlkem hcounter]
        exact falls_iff h.kem hpos (hlast .classicalKex)
    | classicalKex =>
        rw [Markers.stop, kem_stopClassicalKex hcounter, or_comm]
        exact falls_iff (h.kem.trans or_comm) hpos (hlast .mlkem)
    | signature =>
        rw [Markers.stop, kem_stopSignature hcounter]
        exact h.kem
  · cases phase with
    | mlkem =>
        rw [Markers.stop, signature_stopMlkem hcounter]
        exact h.signature
    | classicalKex =>
        rw [Markers.stop, signature_stopClassicalKex hcounter]
        exact falls_iff h.signature hpos (hlast .signature)
    | signature =>
        rw [Markers.stop, signature_stopSignature hcounter, or_comm]
        exact falls_iff (h.signature.trans or_comm) hpos (hlast .classicalKex)

theorem stop (h : Agrees b d) (phase : Phase) :
    Agrees (b.after (b.markers.stop phase)) fun p ↦ if phase = p then d p - 1 else d p := by
  by_cases hzero : d phase = 0
  · have hsame : (fun p ↦ if phase = p then d p - 1 else d p) = d := by
      funext p
      split
      case isTrue hp => rw [← hp, hzero]
      case isFalse => rfl
    rw [h.stop_of_zero hzero, hsame]
    exact h
  · exact h.stop_of_pos (Nat.pos_of_ne_zero hzero)

/-- Any call. -/
theorem call (h : Agrees b d) {c : Call} (hlt : ∀ phase, nest phase (d phase) c < 2 ^ 32) :
    Agrees (b.call c) fun phase ↦ nest phase (d phase) c := by
  cases c with
  | reset => exact h.reset
  | totalSet active => exact h.totalSet active
  | handshakeSet active => exact h.handshakeSet active
  | cryptoStart operation =>
      have hlt := hlt operation.phase
      rw [nest, if_pos rfl] at hlt
      rw [Board.call, Markers.call, Markers.cryptoStart_of_ready h.ready]
      exact h.start hlt
  | cryptoStop operation =>
      rw [Board.call, Markers.call, Markers.cryptoStop_of_ready h.ready]
      exact h.stop operation.phase

end Agrees

theorem agrees_run {calls : List Call} (h : Countable calls) :
    Agrees (.run calls) fun phase ↦ depth phase calls := by
  induction calls using List.reverseRecOn with
  | nil =>
      refine ⟨rfl, ?_, ?_, ?_⟩
      · rintro (_ | _ | _) <;> rfl
      · exact iff_of_false Bool.noConfusion (not_or.mpr ⟨Nat.lt_irrefl 0, Nat.lt_irrefl 0⟩)
      · exact iff_of_false Bool.noConfusion (not_or.mpr ⟨Nat.lt_irrefl 0, Nat.lt_irrefl 0⟩)
  | append_singleton calls c ih =>
      have ih := ih fun l hl ↦ h l (hl.trans (List.prefix_append _ _))
      have hlt := h _ List.prefix_rfl
      simp only [depth_concat] at hlt ⊢
      have hrun : Board.run (calls ++ [c]) = (Board.run calls).call c := List.foldl_concat _ _ _ _
      rw [hrun]
      exact ih.call hlt

end PeripheralBench.Power

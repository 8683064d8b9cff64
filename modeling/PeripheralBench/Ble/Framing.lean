import PeripheralBench.Ble.Bridge

/-!
# SDUs with their length in front

Depending on the socket, the bridge reads a whole SDU at a time, or fragments of a stream in which
every SDU has its length in front.  `forward_ble_payload` finds out which from the first read, and
in the second case removes the lengths.

What it has not been able to deal with yet is kept: half a length, or the number of bytes that are
missing.  So reading in fragments is the same as reading all of them at once
(`drainPrefixedSdu_append`).
-/

open PeripheralBench.Text PeripheralBench.Mqtt

namespace PeripheralBench.Ble

/-! ## What is on the wire -/

/-- An SDU behind its length. -/
def prefixedSdu (sdu : Bytes) : Bytes :=
  UInt8.ofNat sdu.length :: UInt8.ofNat (sdu.length >>> 8) :: sdu

/-- The stream of SDUs that have their lengths in front. -/
def wire (sdus : List Bytes) : Bytes := sdus.flatMap prefixedSdu

/-- The bytes of SDUs among the first `n` bytes on the wire. -/
def payloadReceived : List Bytes → ℕ → Bytes
  | [], _ => []
  | sdu :: sdus, n => sdu.take (n - 2) ++ payloadReceived sdus (n - 2 - sdu.length)

theorem payloadReceived_zero (sdus : List Bytes) : payloadReceived sdus 0 = [] := by
  induction sdus with
  | nil => rfl
  | cons sdu sdus ih =>
      rw [payloadReceived, Nat.zero_sub, Nat.zero_sub, List.take_zero, List.nil_append, ih]

/-! ## `drain_prefixed_sdu` -/

@[simp] theorem drainPrefixedSdu_nil (expected : ℕ) :
    drainPrefixedSdu [] expected = ([], [], expected) := by
  rw [drainPrefixedSdu]

theorem drainPrefixedSdu_singleton (b : UInt8) : drainPrefixedSdu [b] 0 = ([], [b], 0) := by
  rw [drainPrefixedSdu, if_pos rfl]

theorem drainPrefixedSdu_length (b c : UInt8) (rest : Bytes) :
    drainPrefixedSdu (b :: c :: rest) 0 = drainPrefixedSdu rest (le16 b c).toNat := by
  rw [drainPrefixedSdu, if_pos rfl]

/-- Bytes of the current SDU. -/
theorem drainPrefixedSdu_of_pos (pending : Bytes) {expected : ℕ} (h : 0 < expected) :
    drainPrefixedSdu pending expected =
      (pending.take expected ++
          (drainPrefixedSdu (pending.drop expected) (expected - pending.length)).1,
        (drainPrefixedSdu (pending.drop expected) (expected - pending.length)).2) := by
  cases pending with
  | nil =>
      rw [List.take_nil, List.drop_nil, List.length_nil, Nat.sub_zero, drainPrefixedSdu_nil]
      rfl
  | cons b rest =>
      rw [drainPrefixedSdu.eq_def]
      simp only [if_neg h.ne', ← List.length_cons (a := b)]
      rcases Nat.le_total expected (b :: rest).length with hle | hle
      · rw [Nat.min_eq_left hle, Nat.sub_self, Nat.sub_eq_zero_of_le hle]
      · rw [Nat.min_eq_right hle, List.take_length, List.drop_length, List.take_of_length_le hle,
          List.drop_of_length_le hle]

theorem drainPrefixedSdu_of_length_le {pending : Bytes} {expected : ℕ}
    (h : pending.length ≤ expected) :
    drainPrefixedSdu pending expected = (pending, [], expected - pending.length) := by
  rcases Nat.eq_zero_or_pos expected with rfl | hpos
  · rw [List.eq_nil_of_length_eq_zero (Nat.le_zero.mp h), drainPrefixedSdu_nil]
    rfl
  · rw [drainPrefixedSdu_of_pos _ hpos, List.take_of_length_le h, List.drop_of_length_le h,
      drainPrefixedSdu_nil, List.append_nil]

/-- **Reading in fragments**: the bytes that come later are dealt with after those that came before.
-/
theorem drainPrefixedSdu_append (p q : Bytes) (expected : ℕ) :
    drainPrefixedSdu (p ++ q) expected =
      ((drainPrefixedSdu p expected).1 ++
          (drainPrefixedSdu ((drainPrefixedSdu p expected).2.1 ++ q)
            (drainPrefixedSdu p expected).2.2).1,
        (drainPrefixedSdu ((drainPrefixedSdu p expected).2.1 ++ q)
          (drainPrefixedSdu p expected).2.2).2) := by
  induction hn : p.length using Nat.strong_induction_on generalizing p expected with
  | _ n ih =>
      subst hn
      rcases Nat.eq_zero_or_pos expected with rfl | hpos
      · match p with
        | [] => rw [drainPrefixedSdu_nil]; rfl
        | [b] => rw [drainPrefixedSdu_singleton]; rfl
        | b :: c :: rest =>
            rw [List.cons_append, List.cons_append, drainPrefixedSdu_length,
              drainPrefixedSdu_length]
            exact ih rest.length (by simp only [List.length_cons]; omega) rest _ rfl
      · rcases Nat.lt_or_ge p.length expected with hlt | hge
        · -- all of `p` belongs to the current SDU, and more is missing
          have hmissing : 0 < expected - p.length := Nat.sub_pos_of_lt hlt
          rw [drainPrefixedSdu_of_length_le hlt.le, drainPrefixedSdu_of_pos _ hpos,
            List.nil_append, drainPrefixedSdu_of_pos _ hmissing, List.take_append,
            List.drop_append, List.take_of_length_le hlt.le, List.drop_of_length_le hlt.le,
            List.nil_append, List.length_append, Nat.sub_add_eq, List.append_assoc]
        · have hrest : (p.drop expected).length < p.length := by
            rw [List.length_drop]
            omega
          rw [drainPrefixedSdu_of_pos (p ++ q) hpos,
            drainPrefixedSdu_of_pos p hpos, List.take_append_of_le_length hge,
            List.drop_append_of_le_length hge, List.length_append,
            Nat.sub_eq_zero_of_le hge, Nat.sub_eq_zero_of_le (hge.trans (Nat.le_add_right _ _)),
            ih _ hrest (p.drop expected) 0 rfl, List.append_assoc]

/-- The first bytes on the wire. -/
theorem drainPrefixedSdu_wire {sdus : List Bytes} (hsdus : ∀ sdu ∈ sdus, sdu.length < 2 ^ 16)
    (n : ℕ) : (drainPrefixedSdu ((wire sdus).take n) 0).1 = payloadReceived sdus n := by
  induction sdus generalizing n with
  | nil => rw [wire, List.flatMap_nil, List.take_nil, drainPrefixedSdu_nil, payloadReceived]
  | cons sdu sdus ih =>
      have hle16 : (le16 (UInt8.ofNat sdu.length) (UInt8.ofNat (sdu.length >>> 8))).toNat =
          sdu.length := by
        have hlen : sdu.length < 2 ^ 16 := hsdus sdu (.head _)
        rw [le16, word16_be16 hlen, UInt16.toNat_ofNat', Nat.mod_eq_of_lt hlen]
      rw [payloadReceived, wire, List.flatMap_cons, prefixedSdu]
      match n with
      | 0 =>
          rw [List.take_zero, drainPrefixedSdu_nil, Nat.zero_sub, Nat.zero_sub, List.take_zero,
            payloadReceived_zero]
          rfl
      | 1 =>
          rw [List.cons_append, List.take_succ_cons, List.take_zero, drainPrefixedSdu_singleton,
            Nat.sub_eq_zero_of_le (Nat.le_succ 1), Nat.zero_sub, List.take_zero,
            payloadReceived_zero]
          rfl
      | n + 2 =>
          rw [List.cons_append, List.cons_append, List.take_succ_cons, List.take_succ_cons,
            drainPrefixedSdu_length, hle16, Nat.add_sub_cancel, List.take_append,
            drainPrefixedSdu_append, drainPrefixedSdu_of_length_le (List.length_take_le' _ _)]
          refine congrArg (sdu.take n ++ ·) ?_
          rw [List.nil_append, List.length_take]
          rcases Nat.le_total n sdu.length with hle | hle
          · rw [Nat.sub_eq_zero_of_le hle, List.take_zero, drainPrefixedSdu_nil,
              payloadReceived_zero]
          · rw [Nat.min_eq_right hle, Nat.sub_self]
            exact ih (fun sdu h ↦ hsdus sdu (.tail _ h)) _

/-! ## The loop -/

/-- The variables of the loop of `drain_prefixed_sdu`, with what has been sent. -/
structure Drain where
  /-- `state->pending`. -/
  pending : Bytes
  /-- `state->expected_sdu_len`. -/
  expected : ℕ
  /-- The bytes sent to the server. -/
  sent : Bytes

namespace Drain

/-- The second half of the body: as much of the current SDU as there is.  The result says if the
loop goes on. -/
def sendChunk (d : Drain) : Drain × Bool :=
  let chunk := min d.expected d.pending.length
  if chunk = 0 then (d, false)
  else
    (⟨d.pending.drop chunk, d.expected - chunk, d.sent ++ d.pending.take chunk⟩, true)

/-- The body of the loop. -/
def body (d : Drain) : Drain × Bool :=
  if d.expected = 0 then
    if d.pending.length < 2 then (d, false)
    else
      let length := (le16 (d.pending.getD 0 0) (d.pending.getD 1 0)).toNat
      let d := { d with expected := length, pending := d.pending.drop 2 }
      if length = 0 then (d, true) else d.sendChunk
  else d.sendChunk

/-- The loop, if it ends within so many rounds. -/
def loop : ℕ → Drain → Option Drain
  | 0, _ => none
  | rounds + 1, d =>
      if d.pending.length = 0 then some d
      else if d.body.2 then loop rounds d.body.1 else some d.body.1

/-- What the loop is for. -/
def drained (d : Drain) : Drain :=
  ⟨(drainPrefixedSdu d.pending d.expected).2.1, (drainPrefixedSdu d.pending d.expected).2.2,
    d.sent ++ (drainPrefixedSdu d.pending d.expected).1⟩

theorem drained_of_nil {d : Drain} (h : d.pending.length = 0) : d.drained = d := by
  obtain ⟨pending, expected, sent⟩ := d
  obtain rfl := List.eq_nil_of_length_eq_zero h
  rw [drained, drainPrefixedSdu_nil, List.append_nil]

theorem sendChunk_spec {d : Drain} (h : 0 < d.expected) :
    (d.sendChunk.2 = true → d.sendChunk.1.pending.length < d.pending.length ∧
      d.sendChunk.1.drained = d.drained) ∧ (d.sendChunk.2 = false → d.sendChunk.1 = d.drained) := by
  obtain ⟨pending, expected, sent⟩ := d
  rw [sendChunk]
  dsimp only at h ⊢
  rcases Nat.eq_zero_or_pos pending.length with hnil | hpos
  · rw [hnil, Nat.min_zero, if_pos rfl]
    exact ⟨fun h ↦ absurd h Bool.false_ne_true, fun _ ↦ (drained_of_nil hnil).symm⟩
  · rw [if_neg (by omega)]
    refine ⟨fun _ ↦ ⟨?_, ?_⟩, fun h ↦ absurd h Bool.noConfusion⟩
    · rw [List.length_drop]
      omega
    · rw [drained, drained]
      dsimp only
      rw [drainPrefixedSdu_of_pos pending h]
      rcases Nat.le_total expected pending.length with hle | hle
      · rw [Nat.min_eq_left hle, Nat.sub_self, Nat.sub_eq_zero_of_le hle, List.append_assoc]
      · rw [Nat.min_eq_right hle, List.take_length, List.drop_length, List.take_of_length_le hle,
          List.drop_of_length_le hle, List.append_assoc]

theorem body_singleton (b : UInt8) (sent : Bytes) :
    body ⟨[b], 0, sent⟩ = (⟨[b], 0, sent⟩, false) := rfl

theorem body_length (b c : UInt8) (rest sent : Bytes) :
    body ⟨b :: c :: rest, 0, sent⟩ =
      if (le16 b c).toNat = 0 then (⟨rest, (le16 b c).toNat, sent⟩, true)
      else sendChunk ⟨rest, (le16 b c).toNat, sent⟩ := by
  rw [body, if_pos rfl, if_neg (by simp only [List.length_cons]; omega)]
  rfl

theorem body_spec {d : Drain} (h : d.pending.length ≠ 0) :
    (d.body.2 = true → d.body.1.pending.length < d.pending.length ∧ d.body.1.drained = d.drained) ∧
      (d.body.2 = false → d.body.1 = d.drained) := by
  obtain ⟨pending, expected, sent⟩ := d
  rcases Nat.eq_zero_or_pos expected with rfl | hpos
  · match pending with
    | [] => exact absurd rfl h
    | [b] =>
        rw [body_singleton]
        refine ⟨fun h ↦ absurd h Bool.false_ne_true, fun _ ↦ ?_⟩
        rw [drained, drainPrefixedSdu_singleton, List.append_nil]
    | b :: c :: rest =>
        have hdrained : drained ⟨b :: c :: rest, 0, sent⟩ =
            drained ⟨rest, (le16 b c).toNat, sent⟩ := by
          rw [drained, drained, drainPrefixedSdu_length]
        have hlt : rest.length < (b :: c :: rest).length := by
          simp only [List.length_cons]
          omega
        rw [body_length, hdrained]
        split
        case isTrue hzero => exact ⟨fun _ ↦ ⟨hlt, rfl⟩, fun h ↦ absurd h Bool.noConfusion⟩
        case isFalse hne =>
          obtain ⟨hgo, hstop⟩ := sendChunk_spec (d := ⟨rest, (le16 b c).toNat, sent⟩)
            (Nat.pos_of_ne_zero hne)
          exact ⟨fun h ↦ ⟨(hgo h).1.trans hlt, (hgo h).2⟩, hstop⟩
  · rw [body, if_neg hpos.ne']
    exact sendChunk_spec hpos

/-- **The loop ends**, after one round more than there are bytes at most. -/
theorem loop_eq (d : Drain) {rounds : ℕ} (h : d.pending.length < rounds) :
    loop rounds d = some d.drained := by
  induction rounds generalizing d with
  | zero => exact absurd h (Nat.not_lt_zero _)
  | succ rounds ih =>
      rw [loop]
      split
      case isTrue hnil => rw [drained_of_nil hnil]
      case isFalse hne =>
        obtain ⟨hgo, hstop⟩ := body_spec hne
        split
        case isTrue hbody =>
          rw [ih _ ((hgo hbody).1.trans_le (Nat.le_of_lt_succ h)), (hgo hbody).2]
        case isFalse hbody => rw [hstop (Bool.not_eq_true _ ▸ hbody)]

end Drain

/-! ## Reads -/

/-- The bridge after these reads. -/
def forwardReads (b : Bridge) (reads : List Bytes) : Option Bridge :=
  reads.foldlM Bridge.forwardBlePayload b

theorem forwardReads_append_singleton (b : Bridge) (reads : List Bytes) (data : Bytes) :
    forwardReads b (reads ++ [data]) =
      (forwardReads b reads).bind fun b ↦ b.forwardBlePayload data := by
  rw [forwardReads, List.foldlM_append]
  refine congrArg (Option.bind (forwardReads b reads)) (funext fun b ↦ ?_)
  exact Option.bind_fun_some _

theorem forwardBlePayload_plain (b : Bridge) {data : Bytes} (h : controlBase data = none) :
    b.forwardBlePayload data = some (b.forwardPlain data) := by
  rw [Bridge.forwardBlePayload, handleControlFrame, h]

/-- The framing mode has been found out. -/
structure Decided (b : Bridge) (stripPrefix : Bool) : Prop where
  framingDecided : b.framing.framingDecided = true
  stripPrefix_eq : b.framing.stripPrefix = stripPrefix

theorem forwardPlain_complete {b : Bridge} {data : Bytes}
    (h : (Bridge.decideFraming b.framing data).stripPrefix = false) :
    b.forwardPlain data =
      { b with framing := Bridge.decideFraming b.framing data, tcp := b.tcp ++ data } := by
  simp only [Bridge.forwardPlain, h, Bool.false_eq_true, if_false]

theorem forwardPlain_prefixed {b : Bridge} {data : Bytes}
    (h : (Bridge.decideFraming b.framing data).stripPrefix = true) :
    b.forwardPlain data =
      { b with
        framing := { Bridge.decideFraming b.framing data with
          pending := (drainPrefixedSdu (b.framing.pending ++ data) b.framing.expectedSduLen).2.1
          expectedSduLen :=
            (drainPrefixedSdu (b.framing.pending ++ data) b.framing.expectedSduLen).2.2 }
        tcp := b.tcp ++
          (drainPrefixedSdu (b.framing.pending ++ data) b.framing.expectedSduLen).1 } := by
  have hkeep : (Bridge.decideFraming b.framing data).pending = b.framing.pending ∧
      (Bridge.decideFraming b.framing data).expectedSduLen = b.framing.expectedSduLen := by
    rw [Bridge.decideFraming]
    split <;> exact ⟨rfl, rfl⟩
  simp only [Bridge.forwardPlain, h, if_true, hkeep.1, hkeep.2]

theorem framingDecided_decideFraming (s : SduPrefixState) (data : Bytes) :
    (Bridge.decideFraming s data).framingDecided = true := by
  rw [Bridge.decideFraming]
  split
  case isTrue h => exact h
  case isFalse => rfl

theorem Decided.stripPrefix_decideFraming {b : Bridge} {stripPrefix : Bool}
    (h : Decided b stripPrefix) (data : Bytes) :
    (Bridge.decideFraming b.framing data).stripPrefix = stripPrefix := by
  rw [Bridge.decideFraming, if_pos h.framingDecided]
  exact h.stripPrefix_eq

/-- The bridge after reads of whole SDUs. -/
structure AfterComplete (sdus : List Bytes) (b : Bridge) : Prop where
  decided : sdus ≠ [] → Decided b false
  undecided : sdus = [] → b.framing = {}
  tcp : b.tcp = sdus.flatten

/-- The bridge after reads of fragments. -/
structure AfterFragments (reads : List Bytes) (b : Bridge) : Prop where
  decided : reads ≠ [] → Decided b true
  undecided : reads = [] → b.framing = {}
  pending : b.framing.pending = (drainPrefixedSdu reads.flatten 0).2.1
  expected : b.framing.expectedSduLen = (drainPrefixedSdu reads.flatten 0).2.2
  tcp : b.tcp = (drainPrefixedSdu reads.flatten 0).1

/-- What the next read makes of the framing mode. -/
theorem stripPrefix_next {reads : List Bytes} {data : Bytes} {b : Bridge} {stripPrefix : Bool}
    (hdecided : reads ≠ [] → Decided b stripPrefix) (hundecided : reads = [] → b.framing = {})
    (hfirst : ∀ first ∈ (reads ++ [data]).head?, Bridge.looksPrefixed first = stripPrefix) :
    (Bridge.decideFraming b.framing data).stripPrefix = stripPrefix := by
  cases reads with
  | nil =>
      rw [hundecided rfl]
      exact hfirst data rfl
  | cons first reads => exact (hdecided (List.cons_ne_nil _ _)).stripPrefix_decideFraming data

theorem head?_append_singleton {α : Type} {xs : List α} {x y : α} (h : y ∈ xs.head?) :
    y ∈ (xs ++ [x]).head? := by
  cases xs with
  | nil => cases h
  | cons z xs => exact h

theorem forwardReads_complete (sdus : List Bytes) (hplain : ∀ sdu ∈ sdus, controlBase sdu = none)
    (hfirst : ∀ sdu ∈ sdus.head?, Bridge.looksPrefixed sdu = false) :
    ∃ b, forwardReads {} sdus = some b ∧ AfterComplete sdus b := by
  induction sdus using List.reverseRecOn with
  | nil => exact ⟨{}, rfl, fun h ↦ absurd rfl h, fun _ ↦ rfl, rfl⟩
  | append_singleton sdus sdu ih =>
      obtain ⟨b, hb, hafter⟩ := ih (fun s hs ↦ hplain s (List.mem_append_left _ hs))
        (fun s hs ↦ hfirst s (head?_append_singleton hs))
      have hsdu := hplain sdu (List.mem_append_right _ (.head _))
      have hstrip := stripPrefix_next hafter.decided hafter.undecided hfirst
      rw [forwardReads_append_singleton, hb, Option.bind_some, forwardBlePayload_plain b hsdu,
        forwardPlain_complete hstrip]
      refine ⟨_, rfl, fun _ ↦ ⟨framingDecided_decideFraming _ _, hstrip⟩,
        fun h ↦ absurd h (List.append_ne_nil_of_right_ne_nil _ (List.cons_ne_nil _ _)), ?_⟩
      rw [List.flatten_append, List.flatten_singleton, ← hafter.tcp]

theorem forwardReads_fragments (reads : List Bytes)
    (hplain : ∀ data ∈ reads, controlBase data = none)
    (hfirst : ∀ data ∈ reads.head?, Bridge.looksPrefixed data = true) :
    ∃ b, forwardReads {} reads = some b ∧ AfterFragments reads b := by
  induction reads using List.reverseRecOn with
  | nil =>
      refine ⟨{}, rfl, fun h ↦ absurd rfl h, fun _ ↦ rfl, ?_, ?_, ?_⟩
      all_goals
        rw [List.flatten_nil, drainPrefixedSdu_nil]
  | append_singleton reads data ih =>
      obtain ⟨b, hb, hafter⟩ := ih (fun s hs ↦ hplain s (List.mem_append_left _ hs))
        (fun s hs ↦ hfirst s (head?_append_singleton hs))
      have hdata := hplain data (List.mem_append_right _ (.head _))
      have hstrip := stripPrefix_next hafter.decided hafter.undecided hfirst
      have hall := drainPrefixedSdu_append reads.flatten data 0
      rw [← hafter.tcp, ← hafter.pending, ← hafter.expected] at hall
      rw [forwardReads_append_singleton, hb, Option.bind_some, forwardBlePayload_plain b hdata,
        forwardPlain_prefixed hstrip]
      refine ⟨_, rfl, fun _ ↦ ⟨framingDecided_decideFraming _ _, hstrip⟩,
        fun h ↦ absurd h (List.append_ne_nil_of_right_ne_nil _ (List.cons_ne_nil _ _)), ?_, ?_, ?_⟩
      all_goals
        rw [List.flatten_append, List.flatten_singleton, hall]

/-! ## The first read -/

/-- The content types of TLS records that the bridge knows. -/
def contentTypes : List UInt8 := [20, 21, 22, 23]

/-- The stream begins with the header of a TLS record: the content type, the version, of which the
high byte is 3, and the length. -/
def BeginsRecord (stream : Bytes) : Prop :=
  5 ≤ stream.length ∧ stream.getD 0 0 ∈ contentTypes ∧ stream.getD 1 0 = 3

/-- The low byte of the version and the high byte of the length could be a content type and the high
byte of a version. -/
def Ambiguous (stream : Bytes) : Prop := stream.getD 2 0 ∈ contentTypes ∧ stream.getD 3 0 = 3

theorem looksPrefixed_iff (data : Bytes) :
    Bridge.looksPrefixed data = true ↔ 5 ≤ data.length ∧ Ambiguous data := by
  simp only [Bridge.looksPrefixed, Ambiguous, contentTypes, Bool.and_eq_true, Bool.or_eq_true,
    decide_eq_true_iff, beq_iff_eq, List.mem_cons, List.not_mem_nil, or_false, or_assoc, and_assoc]

theorem getD_append {xs : Bytes} (ys : Bytes) {i : ℕ} (h : i < xs.length) :
    (xs ++ ys).getD i 0 = xs.getD i 0 := by
  rw [List.getD_eq_getElem?_getD, List.getD_eq_getElem?_getD, List.getElem?_append_left h]

/-- Whole SDUs, read one by one.  The bridge looks at the first of them, and only if it has the five
bytes of a header. -/
structure CompleteReads (sdus : List Bytes) : Prop where
  header : BeginsRecord sdus.flatten
  unambiguous : ∀ sdu ∈ sdus.head?, 5 ≤ sdu.length → ¬ Ambiguous sdu
  plain : ∀ sdu ∈ sdus, controlBase sdu = none

theorem CompleteReads.looksPrefixed_head {sdus : List Bytes} (h : CompleteReads sdus) :
    ∀ sdu ∈ sdus.head?, Bridge.looksPrefixed sdu = false := by
  intro sdu hsdu
  refine Bool.eq_false_iff.mpr fun hlooks ↦ ?_
  obtain ⟨hlen, hambiguous⟩ := (looksPrefixed_iff sdu).mp hlooks
  exact h.unambiguous sdu hsdu hlen hambiguous

/-- Fragments of a stream of SDUs that have their lengths in front. -/
structure FragmentReads (sdus reads : List Bytes) : Prop where
  length_lt : ∀ sdu ∈ sdus, sdu.length < 2 ^ 16
  header : ∀ sdu ∈ sdus.head?, BeginsRecord sdu
  onWire : reads.flatten <+: wire sdus
  five_le : ∀ data ∈ reads.head?, 5 ≤ data.length
  plain : ∀ data ∈ reads, controlBase data = none

theorem FragmentReads.looksPrefixed_head {sdus reads : List Bytes} (h : FragmentReads sdus reads) :
    ∀ data ∈ reads.head?, Bridge.looksPrefixed data = true := by
  intro data hdata
  have hlen := h.five_le data hdata
  obtain ⟨rest, rfl⟩ := List.head?_eq_some_iff.mp hdata
  obtain ⟨tail, htail⟩ := h.onWire
  rw [List.flatten_cons, List.append_assoc] at htail
  cases sdus with
  | nil =>
      have hnil := List.append_eq_nil_iff.mp htail
      rw [hnil.1] at hlen
      exact absurd hlen (by decide)
  | cons sdu sdus =>
      obtain ⟨hfive, htype, hversion⟩ := h.header sdu rfl
      have hget : ∀ i, i < 2 → data.getD (i + 2) 0 = sdu.getD i 0 := by
        intro i hi
        rw [← getD_append (rest.flatten ++ tail) (by omega), htail, wire, List.flatMap_cons,
          prefixedSdu, List.cons_append, List.cons_append, List.getD_cons_succ, List.getD_cons_succ,
          getD_append _ (by omega)]
      refine (looksPrefixed_iff data).mpr ⟨hlen, ?_⟩
      rw [Ambiguous, hget 0 (by omega), hget 1 (by omega)]
      exact ⟨htype, hversion⟩

/-- **The lengths are removed**: after every read the server has been sent the bytes of SDUs that
have been received so far, whichever way they are read. -/
theorem forward_sdus :
    (∀ sdus : List Bytes, CompleteReads sdus → ∀ k, ∃ b, forwardReads {} (sdus.take k) = some b ∧
      (sdus.take k ≠ [] → Decided b false) ∧ b.tcp = (sdus.take k).flatten) ∧
    (∀ sdus reads : List Bytes, FragmentReads sdus reads → ∀ k, ∃ b,
      forwardReads {} (reads.take k) = some b ∧ (reads.take k ≠ [] → Decided b true) ∧
        b.tcp = payloadReceived sdus (reads.take k).flatten.length) ∧
    ∀ d : Drain, Drain.loop (d.pending.length + 1) d = some d.drained := by
  have htake : ∀ {xs : List Bytes} {k : ℕ} {P : Bytes → Prop}, (∀ x ∈ xs.head?, P x) →
      ∀ x ∈ (xs.take k).head?, P x := by
    intro xs k P h x hx
    cases xs with
    | nil => exact h x (List.take_nil ▸ hx)
    | cons y xs =>
        cases k with
        | zero => cases hx
        | succ k => exact h x hx
  refine ⟨fun sdus h k ↦ ?_, fun sdus reads h k ↦ ?_, fun d ↦ d.loop_eq (Nat.lt_succ_self _)⟩
  · obtain ⟨b, hb, hafter⟩ := forwardReads_complete (sdus.take k)
      (fun sdu hsdu ↦ h.plain sdu (List.mem_of_mem_take hsdu)) (htake h.looksPrefixed_head)
    exact ⟨b, hb, hafter.decided, hafter.tcp⟩
  · obtain ⟨b, hb, hafter⟩ := forwardReads_fragments (reads.take k)
      (fun data hdata ↦ h.plain data (List.mem_of_mem_take hdata)) (htake h.looksPrefixed_head)
    refine ⟨b, hb, hafter.decided, ?_⟩
    have honWire : (reads.take k).flatten <+: wire sdus := by
      refine List.IsPrefix.trans ⟨(reads.drop k).flatten, ?_⟩ h.onWire
      rw [← List.flatten_append, List.take_append_drop]
    rw [hafter.tcp, ← drainPrefixedSdu_wire h.length_lt, ← List.prefix_iff_eq_take.mp honWire]

/-- A record of version 3.20 with at least 768 bytes is taken for an SDU behind its length. -/
theorem not_decided : ¬ ∀ sdus : List Bytes, BeginsRecord sdus.flatten →
    (∀ sdu ∈ sdus, controlBase sdu = none) →
    ∃ b, forwardReads {} sdus = some b ∧ Decided b false ∧ b.tcp = sdus.flatten := by
  intro h
  obtain ⟨b, hb, hdecided, -⟩ := h [[22, 3, 20, 3, 0]] ⟨by decide, by decide, rfl⟩ (by decide)
  have hstrip : (forwardReads {} [[22, 3, 20, 3, 0]]).map (·.framing.stripPrefix) = some true := rfl
  rw [hb] at hstrip
  exact Bool.noConfusion (hdecided.stripPrefix_eq.symm.trans (Option.some.inj hstrip))

end PeripheralBench.Ble

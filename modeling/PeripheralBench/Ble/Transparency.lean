import PeripheralBench.Ble.Bridge

/-!
# Transparency of the bridge

What a party puts on the L2CAP channel is a list of `Sent` items: control messages, of which a call
that is cut short sends the first frames only, and chunks of TLS data.  A chunk that does not look
like a control frame arrives as it is (`relay_items`, `run_items`); one that does is taken for a
control frame, and is lost (`bridge_not_transparent`).

In the direction of the server the bridge also looks at the first chunk, to find out if SDUs come
with their length in front.  The header of the first TLS record keeps it from thinking so.
-/

open PeripheralBench.Text PeripheralBench.Mqtt

namespace PeripheralBench.Ble

/-! ## What is sent -/

/-- Something that a party sends over the channel. -/
inductive Sent where
  /-- The first `frames` frames of a control message. -/
  | message (messageId : UInt16) (text : Bytes) (frames : ℕ)
  /-- A chunk of TLS data. -/
  | tls (chunk : Bytes)
deriving DecidableEq

namespace Sent

/-- The SDUs of an item. -/
def sdus (mtu : ℕ) : Sent → List Bytes
  | .message messageId text frames => (controlFrames messageId mtu text).take frames
  | .tls chunk => [chunk]

/-- The TLS bytes of an item. -/
def tlsBytes : Sent → Bytes
  | .message _ _ _ => []
  | .tls chunk => chunk

/-- The control message of an item, as it is printed, if all of it has been sent. -/
def text (mtu : ℕ) : Sent → List Bytes
  | .message messageId text frames =>
      if (controlFrames messageId mtu text).length ≤ frames then [printed text] else []
  | .tls _ => []

end Sent

/-- The chunks of TLS data among what is sent. -/
def chunks (items : List Sent) : List Bytes := items.filterMap fun
  | .message _ _ _ => none
  | .tls chunk => some chunk

theorem tlsBytes_eq_flatten_chunks (items : List Sent) :
    items.flatMap Sent.tlsBytes = (chunks items).flatten := by
  induction items with
  | nil => rfl
  | cons item items ih =>
      rw [List.flatMap_cons, ih]
      cases item with
      | message => rfl
      | tls chunk => rfl

/-! ## TLS data -/

/-- A TLS record. -/
structure TlsRecord where
  /-- The content type. -/
  contentType : UInt8
  /-- The low byte of the version; the high one is 3. -/
  minor : UInt8
  /-- The payload. -/
  fragment : Bytes
  contentType_mem : contentType ∈ ([20, 21, 22, 23, 24] : List UInt8)
  minor_le : minor ≤ 4
  length_le : fragment.length ≤ 2 ^ 14 + 2048

/-- The bytes of a record. -/
def TlsRecord.encode (r : TlsRecord) : Bytes :=
  [r.contentType, 3, r.minor] ++ be16 r.fragment.length ++ r.fragment

/-- The beginning of a sequence of TLS records. -/
def IsTlsStream (bs : Bytes) : Prop :=
  ∃ records : List TlsRecord, bs <+: records.flatMap TlsRecord.encode

/-- The first chunk of a TLS stream does not look as if it came with its length in front. -/
theorem looksPrefixed_eq_false {chunk rest : Bytes} (h : IsTlsStream (chunk ++ rest)) :
    Bridge.looksPrefixed chunk = false := by
  obtain ⟨records, hrecords⟩ := h
  have hchunk : chunk <+: records.flatMap TlsRecord.encode :=
    (List.prefix_append chunk rest).trans hrecords
  rw [Bridge.looksPrefixed]
  by_cases hlen : 5 ≤ chunk.length
  · cases records with
    | nil =>
        rw [List.prefix_nil.mp hchunk] at hlen
        simp at hlen
    | cons r records =>
        have hminor : chunk.getD 2 0 = r.minor := by
          have hget := hchunk.getElem (i := 2) (by omega)
          rw [List.getD_eq_getElem _ _ (by omega), hget]
          rfl
        have hle : r.minor.toNat ≤ 4 := r.minor_le
        have hne : ∀ n : UInt8, 4 < n.toNat → (r.minor == n) = false := by
          intro n hn
          rw [beq_eq_false_iff_ne]
          rintro rfl
          omega
        rw [hminor, hne 20 (by decide), hne 21 (by decide), hne 22 (by decide), hne 23 (by decide)]
        simp
  · rw [decide_eq_false hlen]
    rfl

/-! ## Control frames at the bridge -/

theorem controlFlags_start (start stop : Bool) :
    (controlFlags start stop &&& 0x01 ≠ 0) ↔ start = true := by
  cases start <;> cases stop <;> decide

theorem controlFlags_stop (start stop : Bool) :
    (controlFlags start stop &&& 0x02 ≠ 0) ↔ stop = true := by
  cases start <;> cases stop <;> decide

theorem le16_messageId (messageId : UInt16) :
    le16 (UInt8.ofNat messageId.toNat) (UInt8.ofNat (messageId.toNat / 256)) = messageId := by
  have h := word16_be16 messageId.toNat_lt
  rw [Nat.shiftRight_eq_div_pow] at h
  rw [le16, h, UInt16.ofNat_toNat]

/-- A control frame is recognised and taken apart. -/
theorem handleControlFrame_controlFrame (s : ControlState) (start stop : Bool) (messageId : UInt16)
    (payload : Bytes) :
    handleControlFrame s (controlFrame start stop messageId payload) =
      handleFragment s (controlFlags start stop) messageId payload := by
  have hbase : controlBase (controlFrame start stop messageId payload) = some 0 := by
    rw [controlBase, if_pos]
    constructor
    · rw [controlFrame, List.length_append]
      exact Nat.le_add_right _ _
    · rfl
  have hid := le16_messageId messageId
  rw [handleControlFrame, hbase]
  exact congrArg (fun id ↦ handleFragment s (controlFlags start stop) id payload) hid

/-- A fragment in sequence is added to the message; the last one ends it. -/
theorem handleFragment_eq {s : ControlState} {start : Bool} {messageId : UInt16}
    (h : start = true ∨ s.active = true ∧ s.messageId = messageId) (stop : Bool) (payload : Bytes) :
    ∃ s', handleFragment s (controlFlags start stop) messageId payload = .consumed s'
        (if stop then [printed ((if start then [] else s.pending) ++ payload)] else []) ∧
      (stop = false → s'.active = true ∧ s'.messageId = messageId ∧
        s'.pending = (if start then [] else s.pending) ++ payload) := by
  rw [handleFragment]
  cases start with
  | true =>
      have hstart : controlFlags true stop &&& 0x01 ≠ 0 := (controlFlags_start _ _).mpr rfl
      simp only [if_pos hstart]
      rw [if_neg (by simp)]
      cases stop with
      | true =>
          rw [if_pos ((controlFlags_stop _ _).mpr rfl)]
          exact ⟨_, rfl, by simp⟩
      | false =>
          rw [if_neg (by rw [controlFlags_stop]; simp)]
          exact ⟨_, rfl, fun _ ↦ ⟨rfl, rfl, rfl⟩⟩
  | false =>
      obtain ⟨hactive, hid⟩ := h.resolve_left (by simp)
      have hstart : ¬ (controlFlags false stop &&& 0x01 ≠ 0) := by rw [controlFlags_start]; simp
      simp only [if_neg hstart]
      rw [if_neg (by simp [hactive, hid])]
      cases stop with
      | true =>
          rw [if_pos ((controlFlags_stop _ _).mpr rfl)]
          exact ⟨_, rfl, by simp⟩
      | false =>
          rw [if_neg (by rw [controlFlags_stop]; simp)]
          exact ⟨_, rfl, fun _ ↦ ⟨hactive, hid, rfl⟩⟩

theorem controlFrame_ne_nil (start stop : Bool) (messageId : UInt16) (payload : Bytes) :
    controlFrame start stop messageId payload ≠ [] := List.cons_ne_nil _ _

/-- The bridge takes a frame in sequence off the stream. -/
theorem receive_controlFrame {b : Bridge} {start : Bool} {messageId : UInt16}
    (h : start = true ∨ b.control.active = true ∧ b.control.messageId = messageId) (stop : Bool)
    (payload : Bytes) :
    ∃ s, b.receive (controlFrame start stop messageId payload) = some { b with
        control := s
        stdout := b.stdout ++ if stop then
          [printed ((if start then [] else b.control.pending) ++ payload)] else [] } ∧
      (stop = false → s.active = true ∧ s.messageId = messageId ∧
        s.pending = (if start then [] else b.control.pending) ++ payload) := by
  obtain ⟨s, hs, hnext⟩ := handleFragment_eq h stop payload
  refine ⟨s, ?_, hnext⟩
  rw [Bridge.receive, if_neg (controlFrame_ne_nil _ _ _ _), Bridge.forwardBlePayload,
    handleControlFrame_controlFrame, hs]

theorem relay_nil (b : Bridge) : relay b [] = some b := rfl

theorem relay_cons (b : Bridge) (sdu : Bytes) (sdus : List Bytes) :
    relay b (sdu :: sdus) = (b.receive sdu).bind fun b ↦ relay b sdus := rfl

theorem relay_append (b : Bridge) (xs ys : List Bytes) :
    relay b (xs ++ ys) = (relay b xs).bind fun b ↦ relay b ys := List.foldlM_append

theorem length_framesFrom (messageId : UInt16) (start : Bool) (pieces : List Bytes) :
    (framesFrom messageId start pieces).length = pieces.length := by
  induction pieces generalizing start with
  | nil => rfl
  | cons piece pieces ih =>
      cases pieces with
      | nil => rfl
      | cons piece' pieces =>
          rw [framesFrom, List.length_cons, ih, List.length_cons]
          · rfl
          · exact List.cons_ne_nil _ _

/-- **The frames of a message** are taken off the stream, and the message is printed if they are all
there. -/
theorem relay_frames {b : Bridge} {start : Bool} {messageId : UInt16}
    (h : start = true ∨ b.control.active = true ∧ b.control.messageId = messageId)
    {pieces : List Bytes} (hne : pieces ≠ []) (n : ℕ) :
    ∃ s, relay b ((framesFrom messageId start pieces).take n) = some { b with
      control := s
      stdout := b.stdout ++ if pieces.length ≤ n then
        [printed ((if start then [] else b.control.pending) ++ pieces.flatten)] else [] } := by
  induction pieces generalizing b start n with
  | nil => exact absurd rfl hne
  | cons piece pieces ih =>
      cases n with
      | zero =>
          refine ⟨b.control, ?_⟩
          rw [List.take_zero, relay_nil, if_neg (by simp), List.append_nil]
      | succ n =>
          cases pieces with
          | nil =>
              obtain ⟨s, hs, -⟩ := receive_controlFrame h true piece
              refine ⟨s, ?_⟩
              rw [framesFrom, List.take_succ_cons, relay_cons, hs, Option.bind_some, List.take_nil,
                relay_nil, if_pos rfl, List.flatten_singleton,
                if_pos (show [piece].length ≤ n + 1 from Nat.succ_le_succ (Nat.zero_le n))]
          | cons piece' pieces =>
              obtain ⟨s, hs, hnext⟩ := receive_controlFrame h false piece
              obtain ⟨hactive, hid, hpending⟩ := hnext rfl
              have hrest : false = true ∨ s.active = true ∧ s.messageId = messageId :=
                .inr ⟨hactive, hid⟩
              obtain ⟨s', hs'⟩ := ih (b := { b with control := s }) hrest (List.cons_ne_nil _ _) n
              refine ⟨s', ?_⟩
              rw [framesFrom, List.take_succ_cons, relay_cons, hs, Option.bind_some]
              · simp only [Bool.false_eq_true, if_false, List.append_nil]
                rw [hs']
                simp only [Bool.false_eq_true, if_false, hpending, List.length_cons,
                  List.flatten_cons, List.append_assoc, Nat.add_le_add_iff_right]
              · exact List.cons_ne_nil _ _

/-- **The frames of a control message on the channel.** -/
theorem relay_message (b : Bridge) (messageId : UInt16) (mtu : ℕ) (text : Bytes) (frames : ℕ) :
    ∃ s, relay b (Sent.sdus mtu (.message messageId text frames)) = some { b with
      control := s
      stdout := b.stdout ++ Sent.text mtu (.message messageId text frames) } := by
  have hstart : true = true ∨ b.control.active = true ∧ b.control.messageId = messageId := .inl rfl
  obtain ⟨s, hs⟩ := relay_frames hstart (cut_ne_nil (mtu - controlHeaderSize) text) frames
  refine ⟨s, ?_⟩
  rw [Sent.sdus, controlFrames, hs, Sent.text, controlFrames, length_framesFrom, if_pos rfl,
    flatten_cut, List.nil_append]

/-! ## TLS chunks at the bridge -/

/-- The bridge forwards SDUs as they are, now or once it has seen the first of these chunks. -/
def Unprefixed (b : Bridge) (chunks : List Bytes) : Prop :=
  b.framing.stripPrefix = false ∧
    (b.framing.framingDecided = false → ∀ chunk ∈ chunks.head?, Bridge.looksPrefixed chunk = false)

/-- A chunk that does not look like a control frame is forwarded. -/
theorem receive_tls {b : Bridge} {chunk : Bytes} {rest : List Bytes}
    (hb : Unprefixed b (chunk :: rest)) (hne : chunk ≠ []) (hplain : controlBase chunk = none) :
    ∃ framing, b.receive chunk = some { b with framing := framing, tcp := b.tcp ++ chunk } ∧
      framing.stripPrefix = false ∧ framing.framingDecided = true := by
  have hframing : (Bridge.decideFraming b.framing chunk).stripPrefix = false ∧
      (Bridge.decideFraming b.framing chunk).framingDecided = true := by
    rw [Bridge.decideFraming]
    split
    case isTrue hdecided => exact ⟨hb.1, hdecided⟩
    case isFalse hundecided =>
      exact ⟨hb.2 (Bool.eq_false_iff.mpr hundecided) chunk rfl, rfl⟩
  refine ⟨_, ?_, hframing⟩
  rw [Bridge.receive, if_neg hne, Bridge.forwardBlePayload, handleControlFrame, hplain]
  simp only [Bridge.forwardPlain, hframing.1, Bool.false_eq_true, if_false]

/-- **From the device to the server**: the TLS bytes are forwarded, and the control messages
printed. -/
theorem relay_items {mtu : ℕ} {items : List Sent} {b : Bridge} (hb : Unprefixed b (chunks items))
    (hne : ∀ chunk ∈ chunks items, chunk ≠ [])
    (hplain : ∀ chunk ∈ chunks items, controlBase chunk = none) :
    ∃ framing control, relay b (items.flatMap (Sent.sdus mtu)) = some {
      framing := framing
      control := control
      tcp := b.tcp ++ items.flatMap Sent.tlsBytes
      stdout := b.stdout ++ items.flatMap (Sent.text mtu) } := by
  induction items generalizing b with
  | nil =>
      refine ⟨b.framing, b.control, ?_⟩
      simp only [List.flatMap_nil, List.append_nil]
      rfl
  | cons item items ih =>
      cases item with
      | message messageId text frames =>
          obtain ⟨s, hs⟩ := relay_message b messageId mtu text frames
          obtain ⟨framing, control, hrest⟩ := ih (b := { b with
            control := s
            stdout := b.stdout ++ Sent.text mtu (.message messageId text frames) }) hb hne hplain
          refine ⟨framing, control, ?_⟩
          rw [List.flatMap_cons, relay_append, hs, Option.bind_some, hrest]
          simp only [List.flatMap_cons, Sent.tlsBytes, List.nil_append, List.append_assoc]
      | tls chunk =>
          obtain ⟨framing, hreceive, hstrip, hdecided⟩ := receive_tls hb
            (hne chunk (List.mem_cons_self ..)) (hplain chunk (List.mem_cons_self ..))
          obtain ⟨framing', control, hrest⟩ := ih
            (b := { b with framing := framing, tcp := b.tcp ++ chunk })
            ⟨hstrip, fun h ↦ absurd (hdecided.symm.trans h) (by simp)⟩
            (fun c hc ↦ hne c (List.mem_cons_of_mem _ hc))
            (fun c hc ↦ hplain c (List.mem_cons_of_mem _ hc))
          refine ⟨framing', control, ?_⟩
          rw [List.flatMap_cons, relay_append, Sent.sdus, relay_cons, hreceive, Option.bind_some,
            relay_nil, Option.bind_some, hrest]
          simp only [List.flatMap_cons, Sent.tlsBytes, Sent.text, List.nil_append,
            List.append_assoc]

/-! ## At the device -/

namespace Receiver

/-- What has been received and not yet given to wolfSSL. -/
def pending (r : Receiver) : Bytes := r.current.getD [] ++ r.fifo.flatten

theorem getD_rest (rest : Bytes) : (if rest = [] then none else some rest).getD [] = rest := by
  split
  case isTrue h => rw [h]; rfl
  case isFalse => rfl

/-- Reading moves bytes, and loses none. -/
theorem read_eq (r : Receiver) (size : ℕ) :
    (r.l2capWolfsslRecv size).1.delivered ++ (r.l2capWolfsslRecv size).1.pending =
      r.delivered ++ r.pending := by
  obtain ⟨fifo, current, overflow, lost, selected, delivered⟩ := r
  rw [l2capWolfsslRecv]
  cases overflow with
  | true => rfl
  | false =>
      cases current with
      | some data =>
          simp only [next, pending, getD_rest, Bool.false_eq_true, if_false, Option.getD_some,
            List.append_assoc]
          rw [← List.append_assoc (data.take _), List.take_append_drop]
      | none =>
          cases fifo with
          | cons data fifo =>
              simp only [next, pending, getD_rest, Bool.false_eq_true, if_false, Option.getD_none,
                List.append_assoc, List.flatten_cons, List.nil_append]
              rw [← List.append_assoc (data.take _), List.take_append_drop]
          | nil => rfl

/-- An SDU is queued unless it looks like a control frame. -/
theorem l2capRecv_eq (r : Receiver) (data : Bytes) :
    (r.l2capRecv data).delivered ++ (r.l2capRecv data).pending =
      r.delivered ++ r.pending ++ if IsControl data then [] else data := by
  rw [l2capRecv]
  by_cases h : IsControl data
  · rw [if_pos h, if_pos h, List.append_nil]
    split <;> rfl
  · rw [if_neg h, if_neg h]
    simp [pending]

end Receiver

/-- The SDUs that arrive. -/
def arriving (es : List RxEvent) : List Bytes := es.filterMap fun
  | .sdu data => some data
  | .read _ => none

theorem arriving_reads (n size : ℕ) : arriving (List.replicate n (.read size)) = [] := by
  induction n with
  | zero => rfl
  | succ n ih => exact ih

/-- Every SDU that does not look like a control frame is delivered or pending. -/
theorem run_eq (r : Receiver) (es : List RxEvent) :
    (r.run es).delivered ++ (r.run es).pending = r.delivered ++ r.pending ++
      ((arriving es).flatMap fun data ↦ if IsControl data then [] else data) := by
  induction es generalizing r with
  | nil => exact (List.append_nil _).symm
  | cons e es ih =>
      rw [Receiver.run, List.foldl_cons, ← Receiver.run, ih]
      cases e with
      | sdu data =>
          rw [show (r.step (.sdu data)) = r.l2capRecv data from rfl, r.l2capRecv_eq,
            show arriving (.sdu data :: es) = data :: arriving es from rfl, List.flatMap_cons,
            List.append_assoc]
      | read size =>
          rw [show (r.step (.read size)) = (r.l2capWolfsslRecv size).1 from rfl, r.read_eq]
          rfl

theorem isControl_of_mem_framesFrom {messageId : UInt16} {start : Bool} {pieces : List Bytes}
    {frame : Bytes} (h : frame ∈ framesFrom messageId start pieces) : IsControl frame := by
  have hframe : ∀ start stop piece, IsControl (controlFrame start stop messageId piece) := by
    intro start stop piece
    constructor
    · rw [controlFrame, List.length_append]
      exact Nat.le_add_right _ _
    · rfl
  induction pieces generalizing start with
  | nil => exact absurd h List.not_mem_nil
  | cons piece pieces ih =>
      cases pieces with
      | nil =>
          rw [framesFrom, List.mem_singleton] at h
          rw [h]
          exact hframe _ _ _
      | cons piece' pieces =>
          rw [framesFrom, List.mem_cons] at h
          · rcases h with rfl | h
            · exact hframe _ _ _
            · exact ih h
          · exact List.cons_ne_nil _ _

/-- What is left of the SDUs of the items when the control frames are taken out. -/
theorem flatMap_sdus_eq {mtu : ℕ} {items : List Sent}
    (hplain : ∀ chunk ∈ chunks items, ¬ IsControl chunk) :
    ((items.flatMap (Sent.sdus mtu)).flatMap fun data ↦ if IsControl data then [] else data) =
      items.flatMap Sent.tlsBytes := by
  induction items with
  | nil => rfl
  | cons item items ih =>
      rw [List.flatMap_cons, List.flatMap_append, List.flatMap_cons]
      cases item with
      | message messageId text frames =>
          rw [ih hplain]
          refine congrArg (· ++ _) (List.flatMap_eq_nil_iff.mpr ?_)
          intro frame hframe
          rw [if_pos (isControl_of_mem_framesFrom (List.mem_of_mem_take hframe))]
      | tls chunk =>
          rw [ih fun c hc ↦ hplain c (List.mem_cons_of_mem _ hc), Sent.sdus, List.flatMap_singleton,
            if_neg (hplain chunk (List.mem_cons_self ..)), Sent.tlsBytes]

theorem flatten_relayTcp {mtu : ℕ} {reads : List Bytes} (h : ∀ read ∈ reads, read ≠ []) :
    (relayTcp mtu reads).flatten = reads.flatten := by
  rw [relayTcp, List.takeWhile_eq_self_iff.mpr fun read hread ↦ decide_eq_true (h read hread),
    List.flatMap_def, List.flatten_flatten, List.map_map]
  simp only [Function.comp_def, flatten_cut, List.map_id']

/-- **From the server to the device**: in every state of the receiving side, what wolfSSL has been
given and what is waiting for it are the bytes of the server. -/
theorem run_items {mtu : ℕ} {reads : List Bytes} {items : List Sent} {es : List RxEvent}
    (hreads : ∀ read ∈ reads, read ≠ []) (hitems : chunks items = relayTcp mtu reads)
    (hplain : ∀ chunk ∈ chunks items, ¬ IsControl chunk)
    (hes : arriving es = items.flatMap (Sent.sdus mtu)) :
    (Receiver.run {} es).delivered ++ (Receiver.run {} es).pending = reads.flatten := by
  rw [run_eq, hes, flatMap_sdus_eq hplain, tlsBytes_eq_flatten_chunks, hitems,
    flatten_relayTcp hreads]
  rfl

/-! ## Transparency -/

namespace Receiver

/-- How much there is left to read. -/
def remaining (r : Receiver) : ℕ :=
  r.pending.length + r.fifo.length + if r.current.isSome then 1 else 0

/-- A read makes progress as long as something is pending. -/
theorem remaining_read_lt {r : Receiver} (hover : r.overflow = false) (hpending : r.pending ≠ [])
    {size : ℕ} (hsize : 0 < size) :
    (r.l2capWolfsslRecv size).1.remaining < r.remaining ∧
      (r.l2capWolfsslRecv size).1.overflow = false := by
  obtain ⟨fifo, current, overflow, lost, selected, delivered⟩ := r
  obtain rfl : overflow = false := hover
  cases current with
  | some data =>
      refine ⟨?_, rfl⟩
      simp only [l2capWolfsslRecv, next, remaining, pending, getD_rest,
        Bool.false_eq_true, if_false, Option.getD_some, List.length_append, List.length_drop]
      by_cases hdata : data = []
      · subst hdata
        simp
      · have hpos : 0 < data.length := List.length_pos_iff.mpr hdata
        simp only [Option.isSome_some, if_true]
        split
        · simp
        · simp
          omega
  | none =>
      cases fifo with
      | nil => exact absurd rfl hpending
      | cons data fifo =>
          refine ⟨?_, rfl⟩
          simp only [l2capWolfsslRecv, next, remaining, pending, getD_rest, Bool.false_eq_true,
            if_false, Option.getD_none, List.length_append, List.length_drop, List.nil_append,
            List.flatten_cons, List.length_cons, Option.isSome_none, Nat.add_zero]
          by_cases hdata : data = []
          · subst hdata
            simp
          · have hpos : 0 < data.length := List.length_pos_iff.mpr hdata
            split
            · simp
              omega
            · simp
              omega

/-- Enough reads deliver everything. -/
theorem exists_reads {r : Receiver} (hover : r.overflow = false) {size : ℕ} (hsize : 0 < size) :
    ∃ n, (r.run (List.replicate n (.read size))).delivered = r.delivered ++ r.pending := by
  induction hm : r.remaining using Nat.strong_induction_on generalizing r with
  | _ m ih =>
      by_cases hpending : r.pending = []
      · exact ⟨0, by rw [hpending, List.append_nil]; rfl⟩
      · obtain ⟨hlt, hover'⟩ := remaining_read_lt hover hpending hsize
        obtain ⟨n, hn⟩ := ih _ (hm ▸ hlt) hover' rfl
        refine ⟨n + 1, ?_⟩
        rw [List.replicate_succ, run, List.foldl_cons, ← run,
          show r.step (.read size) = (r.l2capWolfsslRecv size).1 from rfl, hn, r.read_eq]

theorem overflow_step (r : Receiver) (e : RxEvent) : (r.step e).overflow = r.overflow := by
  cases e with
  | sdu data =>
      rw [step, l2capRecv]
      split
      · split <;> rfl
      · rfl
  | read size =>
      obtain ⟨fifo, current, overflow, lost, selected, delivered⟩ := r
      cases overflow with
      | true => rfl
      | false =>
          cases current with
          | some data => rfl
          | none => cases fifo <;> rfl

theorem overflow_run (r : Receiver) (es : List RxEvent) : (r.run es).overflow = r.overflow := by
  induction es generalizing r with
  | nil => rfl
  | cons e es ih => exact (ih _).trans (overflow_step r e)

end Receiver

/-- **The bridge is transparent to TLS data that does not look like a control frame.**  Whatever
control messages come in between and however the data is cut, the server gets the bytes of the
device and every control message is printed; and at any time the device has been given, or has
waiting, the bytes of the server, and reading on gives it all of them. -/
theorem bridge_transparent :
    (∀ (mtu : ℕ) (items : List Sent), IsTlsStream (items.flatMap Sent.tlsBytes) →
      (∀ chunk ∈ chunks items, chunk ≠ [] ∧ controlBase chunk = none) →
      ∃ b, relay {} (items.flatMap (Sent.sdus mtu)) = some b ∧
        b.tcp = items.flatMap Sent.tlsBytes ∧ b.stdout = items.flatMap (Sent.text mtu)) ∧
    ∀ (mtu : ℕ) (reads : List Bytes) (items : List Sent) (es : List RxEvent),
      (∀ read ∈ reads, read ≠ []) → chunks items = relayTcp mtu reads →
      (∀ chunk ∈ chunks items, ¬ IsControl chunk) →
      arriving es = items.flatMap (Sent.sdus mtu) →
      (Receiver.run {} es).delivered ++ (Receiver.run {} es).pending = reads.flatten ∧
        ∀ size, 0 < size → ∃ n,
          ((Receiver.run {} es).run (List.replicate n (.read size))).delivered = reads.flatten := by
  constructor
  · intro mtu items hstream hchunks
    have hfirst : ∀ chunk ∈ (chunks items).head?, Bridge.looksPrefixed chunk = false := by
      intro chunk hchunk
      rw [tlsBytes_eq_flatten_chunks] at hstream
      cases hcons : chunks items with
      | nil => rw [hcons] at hchunk; cases hchunk
      | cons c rest =>
          rw [hcons] at hchunk hstream
          obtain rfl := Option.some.inj hchunk
          exact looksPrefixed_eq_false hstream
    obtain ⟨framing, control, hrelay⟩ := relay_items (b := {}) ⟨rfl, fun _ ↦ hfirst⟩
      (fun chunk h ↦ (hchunks chunk h).1) (fun chunk h ↦ (hchunks chunk h).2)
    exact ⟨_, hrelay, rfl, rfl⟩
  · intro mtu reads items es hreads hitems hplain hes
    have hrun := run_items hreads hitems hplain hes
    refine ⟨hrun, fun size hsize ↦ ?_⟩
    rw [← hrun]
    exact Receiver.exists_reads (Receiver.overflow_run {} es) hsize

/-- A TLS alert. -/
def alert : TlsRecord where
  contentType := 21
  minor := 3
  fragment := [1, 0]
  contentType_mem := by decide
  minor_le := by decide
  length_le := by decide

/-- A progress message, and an alert in two chunks. -/
def alertItems : List Sent :=
  [.tls [21, 3, 3, 0, 2], .message 1 (ascii "[BENCH_PROGRESS]\n") 1, .tls [1, 0]]

/-- The alert passes the bridge in both directions. -/
theorem bridge_transparent_alert :
    (∃ b, relay {} (alertItems.flatMap (Sent.sdus 64)) = some b ∧ b.tcp = [21, 3, 3, 0, 2, 1, 0]) ∧
      ∃ n, ((Receiver.run {} ((alertItems.flatMap (Sent.sdus 64)).map .sdu)).run
        (List.replicate n (.read 5))).delivered = [21, 3, 3, 0, 2, 1, 0] := by
  have hreads : ∀ read ∈ chunks alertItems, read ≠ [] := by decide
  have hcut : chunks alertItems = relayTcp 64 (chunks alertItems) := by
    simp [relayTcp, chunks, alertItems, cut]
  have harriving : arriving ((alertItems.flatMap (Sent.sdus 64)).map .sdu) =
      alertItems.flatMap (Sent.sdus 64) := by
    rw [arriving, List.filterMap_map]
    exact List.filterMap_some
  constructor
  · obtain ⟨b, hrelay, htcp, -⟩ := bridge_transparent.1 64 alertItems ⟨[alert], List.prefix_rfl⟩
      (by decide)
    exact ⟨b, hrelay, htcp⟩
  · exact (bridge_transparent.2 64 (chunks alertItems) alertItems _ hreads hcut (by decide)
      harriving).2 5 (by decide)

/-- An application data record. -/
def appData : TlsRecord where
  contentType := 23
  minor := 3
  fragment := ascii "BCTL1" ++ [3, 0, 0] ++ ascii "payload\n"
  contentType_mem := by decide
  minor_le := by decide
  length_le := by decide

/-- Its header and its payload, one chunk each. -/
def appDataItems : List Sent :=
  [.tls [23, 3, 3, 0, 16], .tls (ascii "BCTL1" ++ [3, 0, 0] ++ ascii "payload\n")]

/-- **TLS data can look like a control frame.**  A record whose encrypted payload begins with the
marker, and is a chunk of its own: the bridge prints it instead of sending it to the server, and the
device drops it. -/
theorem bridge_not_transparent :
    IsTlsStream (appDataItems.flatMap Sent.tlsBytes) ∧
      (∃ b, relay {} (appDataItems.flatMap (Sent.sdus 672)) = some b ∧
        b.tcp ≠ appDataItems.flatMap Sent.tlsBytes ∧ b.stdout = [ascii "payload\n"]) ∧
      chunks appDataItems = relayTcp 672 (chunks appDataItems) ∧
      ∀ n, ((Receiver.run {} ((appDataItems.flatMap (Sent.sdus 672)).map .sdu)).run
        (List.replicate n (.read 100))).delivered ≠ appDataItems.flatMap Sent.tlsBytes := by
  refine ⟨⟨[appData], ?_⟩, ⟨_, rfl, ?_, rfl⟩, ?_, ?_⟩
  · exact List.prefix_rfl
  · decide
  · simp [relayTcp, chunks, appDataItems, cut, ascii]
  · intro n h
    have hrun := run_eq (Receiver.run {} ((appDataItems.flatMap (Sent.sdus 672)).map .sdu))
      (List.replicate n (.read 100))
    have hgiven : (Receiver.run {} ((appDataItems.flatMap (Sent.sdus 672)).map .sdu)).delivered ++
        (Receiver.run {} ((appDataItems.flatMap (Sent.sdus 672)).map .sdu)).pending =
          [23, 3, 3, 0, 16] := by decide
    rw [arriving_reads, hgiven, h] at hrun
    have hlen := congrArg List.length hrun
    rw [List.length_append, show (appDataItems.flatMap Sent.tlsBytes).length = 21 from rfl] at hlen
    simp at hlen
    omega

end PeripheralBench.Ble

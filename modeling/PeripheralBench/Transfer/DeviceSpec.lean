import PeripheralBench.Stream.Talk
import PeripheralBench.Transfer.Texts

/-!
# What the device does in a session

One specification for each function of `Transfer.Device`: the packets it reads and writes, in order,
and what it records on the way.  The data payload of a download is whatever arrives
(`talk_transferDown`); the verdict depends on whether it is the expected one.  The specifications of
a whole operation come in three forms: the operation succeeds (`talk_runOperation`), or it stops in
the middle because the downloaded payload was not the expected one (`talk_runOperation_down`) or
because the server did not acknowledge the upload (`talk_runOperation_up`).
-/

open PeripheralBench.Stream PeripheralBench.Text PeripheralBench.Mqtt PeripheralBench.Mqtt.Firmware

namespace PeripheralBench.Transfer

/-! ## Packets and observations -/

/-- A PUBLISH that belongs to no data payload. -/
def publishItems (topic : Bytes) (id : ℕ) (payload : Bytes) : List Item :=
  plain (publishBytes topic id payload)

/-- The PUBLISH of the data payload of an operation. -/
def dataItems (operation : ℕ) (topic : Bytes) (id : ℕ) (payload : Bytes) : List Item :=
  plain (headerBytes topic id payload.length) ++ placed operation 0 payload

/-- A PUBACK. -/
def pubackItems (id : ℕ) : List Item := plain (pubackBytes id)

/-- A PUBLISH has been read on the topic it was due on. -/
def seenPublish (topic : Bytes) : List Event := [.packet 0x32 0x32, .topic topic topic]

/-- The PUBACK that was due has been read. -/
def seenPuback (id : ℕ) : List Event := [.packet 0x40 0x40, .puback id id]

/-- The topic of the data payload. -/
def TransferOperation.dataTopic (op : TransferOperation) : Bytes :=
  if op.IsDown then topicDown else topicUp

/-- The data payload is not empty and fits its packet. -/
structure TransferOperation.Fits (op : TransferOperation) : Prop where
  pos : 0 < op.payloadBytes.toNat
  remaining_lt : 2 + op.dataTopic.length + 2 + op.payloadBytes.toNat < 2 ^ 28

namespace Device

variable (sha : Bytes → Digest)

/-! ## Reading and writing one packet -/

theorem consumes_readPublish {topic payload : Bytes} {id : ℕ}
    (h : PublishFits topic id payload.length) (topicCapacity : ℕ) (small : Bytes)
    (smallCapacity : ℕ) (expectedSize expectedSeed : UInt32) (htopic : topic.length < topicCapacity)
    (hsmall : smallCapacity ≤ small.length) :
    ∃ small', (payload.length ≤ smallCapacity → small' = memcpy small 0 payload) ∧
      (readPublish sha topic topicCapacity small smallCapacity expectedSize
          expectedSeed).proc.Consumes (publishBytes topic id payload) (seenPublish topic)
        (.ret (.ok {
          topic := topic
          payloadSize := payload.length
          packetId := id
          integrity := expectedSize = 0 || payload = pattern expectedSeed expectedSize.toNat
          hash := hashToHex (sha payload)
          small := small' })) := by
  obtain ⟨p, rfl, rfl, rfl⟩ := h.exists_publish
  exact Firmware.consumes_readPublish sha p p.topic expectedSize expectedSeed htopic hsmall

theorem produces_publishMemory {topic payload : Bytes} {id : UInt16}
    (h : PublishFits topic id.toNat payload.length) (hzero : 0 ∉ topic) :
    (publishMemory topic payload id).proc.Produces (publishItems topic id.toNat payload) []
      (.ret (.ok ())) := by
  let p : Publish := ⟨topic, id, payload, h.topic_lt, h.remaining_lt⟩
  exact Firmware.produces_publishMemory p hzero

theorem produces_publishPattern {topic : Bytes} {id : UInt16} {seed : UInt32} {size : ℕ}
    (operation : ℕ) (h : PublishFits topic id.toNat size) (hzero : 0 ∉ topic) :
    (publishPattern sha operation topic seed size id).proc.Produces
      (dataItems operation topic id.toNat (pattern seed size)) []
      (.ret (.ok (hashToHex (sha (pattern seed size))))) := by
  let p : Publish := ⟨topic, id, pattern seed size, h.topic_lt,
    by rw [length_pattern]; exact h.remaining_lt⟩
  exact Firmware.produces_publishPattern sha operation p hzero rfl

theorem zero_notMem_topicControl : 0 ∉ topicControl := by decide
theorem zero_notMem_topicUp : 0 ∉ topicUp := by decide
theorem zero_notMem_topicDown : 0 ∉ topicDown := by decide
theorem zero_notMem_topicDeviceAck : 0 ∉ topicDeviceAck := by decide
theorem zero_notMem_topicMetrics : 0 ∉ topicMetrics := by decide

/-- A control message is read into its buffer and acknowledged. -/
theorem talk_readControl {text : Bytes} {capacity : ℕ} (id : ℕ) (hzero : 0 ∉ text)
    (hlen : text.length < capacity) (hcap : capacity < 2 ^ 16) (hid : id < 2 ^ 16) :
    ∃ buffer, cstr buffer = text ∧ buffer.length = capacity ∧
      (readControl sha capacity).proc.Talk
        [.inp (publishBytes topicControl id text), .out (pubackItems id)]
        (seenPublish topicControl) (.ret (.ok buffer)) := by
  have hfits : PublishFits topicControl id text.length :=
    ⟨by decide, hid, by rw [show topicControl.length = 13 from rfl]; omega⟩
  obtain ⟨small', hsmall, hread⟩ := consumes_readPublish sha hfits 32 (zeros capacity)
    (capacity - 1) 0 0 (by decide) (by simp [zeros])
  obtain rfl := hsmall (by omega)
  have hbuffer : (memcpy (zeros capacity) 0 text).length = capacity := by
    rw [length_memcpy (by simp [zeros]; omega)]; simp [zeros]
  refine ⟨terminate (memcpy (zeros capacity) 0 text) text.length,
    cstr_terminate _ hzero, ?_, ?_⟩
  · rw [terminate, length_memcpy (by rw [hbuffer]; exact hlen), hbuffer]
  · refine Io.talk_inp (Io.consumes_orFail hread _) ?_
    rw [Io.proc_require_bind ⟨strEq_self _, hlen⟩]
    exact Io.talk_out (Io.produces_orFail (produces_sendPuback id) _) (.refl _)

/-! ## The data phase -/

/-- **A download**, of whatever payload of the right size arrives. -/
theorem talk_transferDown {c : Command} {payload : Bytes} {id : ℕ} {digest : Digest}
    (ids : PacketIds) (hfits : PublishFits topicDown id payload.length)
    (hdigest : sha payload = digest) :
    (transferDown sha c ids).proc.Talk
      [.inp (publishBytes topicDown id payload), .out (pubackItems id),
        .out (publishItems topicDeviceAck ids.next.toNat (ackDown c.sequence
          (c.payloadSize = 0 || payload = pattern c.payloadSeed c.payloadSize.toNat)
          (hashToHex digest))),
        .inp (pubackBytes ids.next.toNat)]
      (seenPublish topicDown ++ seenPuback ids.next.toNat)
      (.ret (.ok ⟨.ok (), c.payloadSize = 0 || payload = pattern c.payloadSeed c.payloadSize.toNat,
        hashToHex digest, id, ⟨ids.next.toNat, ids.next + 1⟩⟩)) := by
  obtain ⟨small', -, hread⟩ := consumes_readPublish sha hfits 32 [] 0 c.payloadSize c.payloadSeed
    (by decide) le_rfl
  rw [hdigest] at hread
  have hack : PublishFits topicDeviceAck ids.next.toNat (ackDown c.sequence
      (c.payloadSize = 0 || payload = pattern c.payloadSeed c.payloadSize.toNat)
      (hashToHex digest)).length := by
    have hlen := length_ackDown c.sequence
      (c.payloadSize = 0 || payload = pattern c.payloadSeed c.payloadSize.toNat) digest
    exact ⟨by decide, ids.next.toNat_lt, by
      rw [show topicDeviceAck.length = 16 from rfl]; omega⟩
  refine Io.talk_inp (Io.consumes_attempt hread) ?_
  refine Io.talk_out (Io.produces_attempt (produces_sendPuback id)) ?_
  refine Io.talk_out (Io.produces_attempt
    (produces_publishMemory hack zero_notMem_topicDeviceAck)) ?_
  exact Io.talk_inp (Io.consumes_attempt (consumes_waitPuback ids.next)) (.refl _)

/-- The verdict of the server is read and accepted. -/
theorem talk_readAckUp (op : TransferOperation) {control : Bytes} {id : ℕ} (hid : id < 2 ^ 16)
    (hcontrol : control.length = 192) :
    (readAckUp sha control (commandOf sha op) (op.hash sha)).proc.Talk
      [.inp (publishBytes topicControl id (Server.ackUp sha op)), .out (pubackItems id)]
      (seenPublish topicControl) (.ret (.ok (.ok (), true))) := by
  have hlen := length_ackUp sha op
  have hfits : PublishFits topicControl id (Server.ackUp sha op).length :=
    ⟨by decide, hid, by rw [show topicControl.length = 13 from rfl]; omega⟩
  obtain ⟨small', hsmall, hread⟩ := consumes_readPublish sha hfits 32 control 191 0 0 (by decide)
    (by omega)
  obtain rfl := hsmall (by omega)
  have hscan := scanAckUp_ackUp sha op (cstr_terminate control (zero_notMem_ackUp sha op))
  refine Io.talk_inp (Io.consumes_attempt hread) ?_
  refine Io.talk_out (Io.produces_attempt (produces_sendPuback id)) ?_
  simp only [if_pos hlen, hscan, commandOf, decide_true, strEq_self, Bool.and_self]
  exact .refl _

/-- **An upload** that the server accepts. -/
theorem talk_transferUp (operation : ℕ) (op : TransferOperation) {control : Bytes} {id : ℕ}
    (ids : PacketIds) (hid : id < 2 ^ 16) (hcontrol : control.length = 192)
    (hfits : PublishFits topicUp ids.next.toNat op.payloadBytes.toNat) :
    (transferUp sha operation control (commandOf sha op) ids).proc.Talk
      [.out (dataItems operation topicUp ids.next.toNat op.payload),
        .inp (pubackBytes ids.next.toNat),
        .inp (publishBytes topicControl id (Server.ackUp sha op)), .out (pubackItems id)]
      (seenPuback ids.next.toNat ++ seenPublish topicControl)
      (.ret (.ok ⟨.ok (), true, op.hash sha, ids.next.toNat,
        ⟨ids.next.toNat, ids.next + 1⟩⟩)) := by
  have hdata : (publishPattern sha operation topicUp (commandOf sha op).payloadSeed
      (commandOf sha op).payloadSize.toNat ids.next).proc.Produces
      (dataItems operation topicUp ids.next.toNat op.payload) [] (.ret (.ok (op.hash sha))) :=
    produces_publishPattern sha operation hfits zero_notMem_topicUp
  refine Io.talk_out (Io.produces_attempt hdata) ?_
  refine Io.talk_inp (Io.consumes_attempt (consumes_waitPuback ids.next)) ?_
  have hack := talk_readAckUp sha op hid hcontrol
  have h := Io.talk_bind hack (f := fun r ↦ (pure ⟨r.1, r.2, op.hash sha, ids.next.toNat,
    ⟨ids.next.toNat, ids.next + 1⟩⟩ : Tls Outcome)) (.refl _)
  exact h

/-! ## The end of an operation -/

/-- The direction of an operation in the records. -/
def recordedDirection (op : TransferOperation) : Bytes := directionName (Server.commandWord op)

/-- The line the device prints for an operation that succeeded. -/
def successLine (r : Readings) (op : TransferOperation) (packetId : ℕ) : Bytes :=
  resultLine op.order (recordedDirection op) op.payloadBytes true 0 packetId (op.hash sha) r

/-- The metrics of an operation that succeeded. -/
def successMetrics (r : Readings) (op : TransferOperation) (packetId : ℕ) : Bytes :=
  (metricsFields op.order (recordedDirection op) op.payloadBytes true 0 packetId (op.hash sha)
    r).print

theorem length_successMetrics (r : Readings) (op : TransferOperation) {packetId : ℕ}
    (h : packetId < 2 ^ 16) :
    0 < (successMetrics sha r op packetId).length ∧
      (successMetrics sha r op packetId).length < 1024 := by
  constructor
  · simp only [successMetrics, metricsFields, resultFields, Fields.print, List.cons_append,
      List.flatMap_cons, List.length_append]
    have : (ascii "sequence=").length = 9 := rfl
    omega
  · apply length_metrics op.order ?_ op.payloadBytes h
    rw [recordedDirection, directionName]
    split <;> decide

/-- **An operation that succeeded** is recorded and its metrics are published. -/
theorem talk_finishOperation (r : Readings) (operation : ℕ) (op : TransferOperation) {packetId : ℕ}
    (hid : packetId < 2 ^ 16) (ids : PacketIds) :
    (finishOperation r operation (commandOf sha op)
        ⟨.ok (), true, op.hash sha, packetId, ids⟩).proc.Talk
      [.out (publishItems topicMetrics ids.next.toNat (successMetrics sha r op packetId)),
        .inp (pubackBytes ids.next.toNat)]
      (.record operation true (successLine sha r op packetId) :: seenPuback ids.next.toNat)
      (.ret (.ok { ids with next := ids.next + 1 })) := by
  have hvalid : Outcome.success ⟨.ok (), true, op.hash sha, packetId, ids⟩ (commandOf sha op) =
      true := by
    rw [Outcome.success, commandOf, strEq_self]; rfl
  have hlen := length_successMetrics sha r op hid
  have hfits : PublishFits topicMetrics ids.next.toNat (successMetrics sha r op packetId).length :=
    ⟨by decide, ids.next.toNat_lt, by rw [show topicMetrics.length = 13 from rfl]; omega⟩
  have hpublish : (publishTransferMetrics (successMetrics sha r op packetId) ids.next).proc.Talk
      [.out (publishItems topicMetrics ids.next.toNat (successMetrics sha r op packetId)),
        .inp (pubackBytes ids.next.toNat)]
      (seenPuback ids.next.toNat) (.ret (.ok ())) := by
    rw [publishTransferMetrics, Io.proc_require_bind hlen, snprintf_of_lt hlen.2]
    exact Io.talk_out (produces_publishMemory hfits zero_notMem_topicMetrics)
      (consumes_waitPuback ids.next).talk
  rw [finishOperation]
  simp only [hvalid]
  refine Io.talk_emit ?_
  have h := Io.talk_bind (f := fun _ ↦ do
    Io.require (true = true) Errno.eio
    pure { ids with next := ids.next + 1 }) (Io.talk_orFail hpublish .eio) (.refl _)
  exact h

/-- The metrics cannot be published to a server that has gone. -/
theorem drain_publishTransferMetrics (text : Bytes) (packetId : UInt16) :
    ∃ e, (publishTransferMetrics text packetId).proc.drain = ([], .error e) := by
  rw [publishTransferMetrics]
  by_cases h : 0 < text.length ∧ text.length < 1024
  · rw [Io.proc_require_bind h]
    have hpublish : (publishMemory topicMetrics (snprintf 1024 text) packetId).proc.drain =
        ([], .ok ()) := by
      rw [publishMemory, Io.drain_bind_ok (Io.drain_writeAll _ _), Io.drain_writeAll]
      rfl
    rw [Io.drain_bind_ok hpublish, drain_waitPuback]
    exact ⟨_, rfl⟩
  · rw [Io.proc_require_bind_neg h]
    exact ⟨_, rfl⟩

/-- **An operation that failed** is recorded as a failure, and is the last one. -/
theorem drain_finishOperation (r : Readings) (operation : ℕ) (c : Command) {o : Outcome}
    (h : o.success c = false) :
    ∃ line, (finishOperation r operation c o).proc.drain =
      ([.record operation false line], .error .eio) := by
  obtain ⟨e, he⟩ := drain_publishTransferMetrics (metricsFields c.sequence
    (directionName c.direction) c.payloadSize false o.errorCode o.resultPacketId o.hash r).print
    o.ids.next
  have hrest := Io.drain_bind_error (f := fun _ ↦ do
    Io.require (false = true) Errno.eio
    pure { o.ids with next := o.ids.next + 1 }) (Io.drain_orFail_error he .eio)
  simp only [finishOperation, h]
  rw [Io.proc_emit_bind, Proc.drain, hrest]
  exact ⟨_, rfl⟩

/-! ## A whole operation -/

/-- The device's part of the data phase of an operation that succeeds; `id` is the packet id of the
server's second PUBLISH, `next` that of the device's first. -/
def dataActs (operation : ℕ) (op : TransferOperation) (id next : ℕ) : List (Act Item UInt8) :=
  if op.IsDown then
    [.inp (publishBytes topicDown id op.payload), .out (pubackItems id),
      .out (publishItems topicDeviceAck next (Server.expectedAck sha op)), .inp (pubackBytes next)]
  else
    [.out (dataItems operation topicUp next op.payload), .inp (pubackBytes next),
      .inp (publishBytes topicControl id (Server.ackUp sha op)), .out (pubackItems id)]

/-- What the device records in that phase. -/
def dataLog (op : TransferOperation) (next : ℕ) : List Event :=
  if op.IsDown then seenPublish topicDown ++ seenPuback next
  else seenPuback next ++ seenPublish topicControl

/-- The packet id of the data payload. -/
def resultPacketId (op : TransferOperation) (id next : ℕ) : ℕ := if op.IsDown then id else next

/-- The device's part of an operation that succeeds; `id` is the packet id of its command. -/
def operationActs (r : Readings) (operation : ℕ) (op : TransferOperation) (id : ℕ) (next : UInt16) :
    List (Act Item UInt8) :=
  [.inp (publishBytes topicControl id (Server.command sha op)), .out (pubackItems id)]
    ++ (dataActs sha operation op (id + 1) next.toNat
      ++ [.out (publishItems topicMetrics (next + 1).toNat
          (successMetrics sha r op (resultPacketId op (id + 1) next.toNat))),
        .inp (pubackBytes (next + 1).toNat)])

/-- What the device records of an operation that succeeds. -/
def operationLog (r : Readings) (operation : ℕ) (op : TransferOperation) (id : ℕ)
    (next : UInt16) : List Event :=
  .operation operation :: (seenPublish topicControl ++ (dataLog op next.toNat ++
    .record operation true (successLine sha r op (resultPacketId op (id + 1) next.toNat)) ::
      seenPuback (next + 1).toNat))

theorem transfer_down {op : TransferOperation} (h : op.IsDown) (operation : ℕ) (control : Bytes)
    (ids : PacketIds) :
    transfer sha operation control (commandOf sha op) ids =
      transferDown sha (commandOf sha op) ids :=
  if_pos (by rw [commandOf, strEq_commandWord_down, decide_eq_true h])

theorem transfer_up {op : TransferOperation} (h : ¬ op.IsDown) (operation : ℕ) (control : Bytes)
    (ids : PacketIds) :
    transfer sha operation control (commandOf sha op) ids =
      transferUp sha operation control (commandOf sha op) ids := by
  have hdown : ¬ strEq (commandOf sha op).direction (ascii "DOWN") = true := by
    rw [commandOf, strEq_commandWord_down]
    simpa using h
  have hup : strEq (commandOf sha op).direction (ascii "UP") = true := strEq_commandWord_up h
  rw [transfer, if_neg hdown, if_pos hup]

/-- The command of an operation is read, understood and acknowledged; what follows is the data phase
and the end of the operation. -/
theorem talk_runOperation_command (r : Readings) (operation : ℕ) (op : TransferOperation)
    {id : ℕ} (hid : id < 2 ^ 16) (ids : PacketIds) :
    ∃ control, control.length = 192 ∧ (runOperation sha r operation ids).proc.Talk
      [.inp (publishBytes topicControl id (Server.command sha op)), .out (pubackItems id)]
      (.operation operation :: seenPublish topicControl)
      (transfer sha operation control (commandOf sha op) ids >>=
        finishOperation r operation (commandOf sha op)).proc := by
  obtain ⟨control, hcstr, hlen, htalk⟩ := talk_readControl sha id (zero_notMem_command sha op)
    (length_command sha op) (by norm_num) hid
  refine ⟨control, hlen, Io.talk_emit (Io.talk_bind_cont htalk ?_)⟩
  simp only [scanCommand_command sha op hcstr]

variable {op : TransferOperation}

theorem fits_down (hfits : op.Fits) (h : op.IsDown) {id : ℕ} (hid : id < 2 ^ 16) :
    PublishFits topicDown id op.payloadBytes.toNat := by
  have hlt := hfits.remaining_lt
  rw [TransferOperation.dataTopic, if_pos h] at hlt
  exact ⟨by decide, hid, hlt⟩

theorem fits_up (hfits : op.Fits) (h : ¬ op.IsDown) {id : ℕ} (hid : id < 2 ^ 16) :
    PublishFits topicUp id op.payloadBytes.toNat := by
  have hlt := hfits.remaining_lt
  rw [TransferOperation.dataTopic, if_neg h] at hlt
  exact ⟨by decide, hid, hlt⟩

@[simp] theorem length_payload (op : TransferOperation) :
    op.payload.length = op.payloadBytes.toNat := length_pattern _ _

/-- The verdict of the device on a downloaded payload. -/
theorem integrity_eq (hfits : op.Fits) (payload : Bytes) :
    (decide ((commandOf sha op).payloadSize = 0) || decide (payload =
      pattern (commandOf sha op).payloadSeed (commandOf sha op).payloadSize.toNat)) =
        decide (payload = op.payload) := by
  have hne : op.payloadBytes ≠ 0 := by
    intro h0
    have hpos := hfits.pos
    rw [h0] at hpos
    exact absurd hpos (by decide)
  simp only [commandOf, hne, decide_false, Bool.false_or]
  exact decide_eq_decide.mpr Iff.rfl

/-- The data phase of an operation whose payload arrives as it was sent. -/
theorem talk_transfer (operation : ℕ) (hfits : op.Fits) {control : Bytes} {id : ℕ}
    (hid : id < 2 ^ 16) (hcontrol : control.length = 192) (ids : PacketIds) :
    (transfer sha operation control (commandOf sha op) ids).proc.Talk
      (dataActs sha operation op id ids.next.toNat) (dataLog op ids.next.toNat)
      (.ret (.ok ⟨.ok (), true, op.hash sha, resultPacketId op id ids.next.toNat,
        ⟨ids.next.toNat, ids.next + 1⟩⟩)) := by
  by_cases h : op.IsDown
  · have hdata : PublishFits topicDown id op.payload.length := by
      rw [length_payload]; exact fits_down hfits h hid
    have htalk := talk_transferDown sha (c := commandOf sha op) ids hdata rfl
    rw [integrity_eq sha hfits, decide_eq_true rfl] at htalk
    rw [transfer_down sha h, dataActs, dataLog, resultPacketId, if_pos h, if_pos h, if_pos h,
      ← ackDown_eq_expectedAck]
    exact htalk
  · rw [transfer_up sha h, dataActs, dataLog, resultPacketId, if_neg h, if_neg h, if_neg h]
    exact talk_transferUp sha operation op ids hid hcontrol (fits_up hfits h ids.next.toNat_lt)

/-- **An operation that succeeds.** -/
theorem talk_runOperation (r : Readings) (operation : ℕ) (hfits : op.Fits) (id : ℕ)
    (hid : id + 1 < 2 ^ 16) (ids : PacketIds) :
    (runOperation sha r operation ids).proc.Talk (operationActs sha r operation op id ids.next)
      (operationLog sha r operation op id ids.next)
      (.ret (.ok ⟨ids.next.toNat, ids.next + 2⟩)) := by
  obtain ⟨control, hcontrol, hcommand⟩ :=
    talk_runOperation_command sha r operation op (Nat.lt_of_succ_lt hid) ids
  have hresult : resultPacketId op (id + 1) ids.next.toNat < 2 ^ 16 := by
    rw [resultPacketId]
    split
    · exact hid
    · exact ids.next.toNat_lt
  have hdata := talk_transfer sha operation hfits hid hcontrol ids
  have hend := talk_finishOperation sha r operation op hresult ⟨ids.next.toNat, ids.next + 1⟩
  have htwo : ids.next + 1 + 1 = ids.next + 2 := by rw [UInt16.add_assoc]; rfl
  rw [htwo] at hend
  exact hcommand.trans (Io.talk_bind hdata hend)

/-- **A download that arrives altered**: the device says so, the server acknowledges what it says,
and then the failure is recorded. -/
theorem talk_runOperation_down (r : Readings) (operation : ℕ) (hfits : op.Fits) (h : op.IsDown)
    {id : ℕ} (hid : id + 1 < 2 ^ 16) (ids : PacketIds) {payload : Bytes}
    (hlen : payload.length = op.payloadBytes.toNat) (hne : payload ≠ op.payload) :
    ∃ p line, p.drain = ([.record operation false line], .error .eio) ∧
      (runOperation sha r operation ids).proc.Talk
        [.inp (publishBytes topicControl id (Server.command sha op)), .out (pubackItems id),
          .inp (publishBytes topicDown (id + 1) payload), .out (pubackItems (id + 1)),
          .out (publishItems topicDeviceAck ids.next.toNat
            (ackDown op.order false (hashToHex (sha payload)))),
          .inp (pubackBytes ids.next.toNat)]
        (.operation operation :: (seenPublish topicControl ++ (seenPublish topicDown ++
          seenPuback ids.next.toNat))) p := by
  obtain ⟨control, -, hcommand⟩ :=
    talk_runOperation_command sha r operation op (Nat.lt_of_succ_lt hid) ids
  have hdata : PublishFits topicDown (id + 1) payload.length := by
    rw [hlen]; exact fits_down hfits h hid
  have htalk := talk_transferDown sha (c := commandOf sha op) ids hdata rfl
  rw [integrity_eq sha hfits, decide_eq_false hne, ← transfer_down sha h operation control] at htalk
  obtain ⟨line, hline⟩ := drain_finishOperation r operation (commandOf sha op)
    (o := ⟨.ok (), false, hashToHex (sha payload), id + 1, ⟨ids.next.toNat, ids.next + 1⟩⟩) rfl
  refine ⟨_, line, hline, ?_⟩
  have hbind := Io.talk_bind (f := finishOperation r operation (commandOf sha op)) htalk (.refl _)
  rw [List.append_nil, List.append_nil] at hbind
  exact hcommand.trans hbind

/-- **An upload that the server does not acknowledge**: once the server is gone, the failure is
recorded. -/
theorem talk_runOperation_up (r : Readings) (operation : ℕ) (hfits : op.Fits) (h : ¬ op.IsDown)
    {id : ℕ} (hid : id < 2 ^ 16) (ids : PacketIds) :
    ∃ p line, p.drain = ([.record operation false line], .error .eio) ∧
      (runOperation sha r operation ids).proc.Talk
        [.inp (publishBytes topicControl id (Server.command sha op)), .out (pubackItems id),
          .out (dataItems operation topicUp ids.next.toNat op.payload)]
        (.operation operation :: seenPublish topicControl) p := by
  obtain ⟨control, -, hcommand⟩ := talk_runOperation_command sha r operation op hid ids
  have hpublish : (publishPattern sha operation topicUp (commandOf sha op).payloadSeed
      (commandOf sha op).payloadSize.toNat ids.next).proc.Produces
      (dataItems operation topicUp ids.next.toNat op.payload) [] (.ret (.ok (op.hash sha))) :=
    produces_publishPattern sha operation (fits_up hfits h ids.next.toNat_lt) zero_notMem_topicUp
  have hsend : (transferUp sha operation control (commandOf sha op) ids).proc.Produces
      (dataItems operation topicUp ids.next.toNat op.payload) []
      (awaitAckUp sha control (commandOf sha op) (op.hash sha) ids).proc :=
    Io.produces_bind_cont (Io.produces_attempt hpublish)
  have hawait : (awaitAckUp sha control (commandOf sha op) (op.hash sha) ids).proc.drain =
      ([], .ok ⟨.error .einval, false, op.hash sha, ids.next.toNat,
        ⟨ids.next.toNat, ids.next + 1⟩⟩) := by
    have hwait : (andThen (.ok ()) (waitPuback ids.next)).proc.drain = ([], .ok (.error .einval)) :=
      Io.drain_attempt (drain_waitPuback ids.next)
    rw [awaitAckUp, Io.drain_bind_ok hwait]
    rfl
  obtain ⟨line, hline⟩ := drain_finishOperation r operation (commandOf sha op)
    (o := ⟨.error .einval, false, op.hash sha, ids.next.toNat, ⟨ids.next.toNat, ids.next + 1⟩⟩) rfl
  rw [← transfer_up sha h operation control] at hsend
  refine ⟨(awaitAckUp sha control (commandOf sha op) (op.hash sha) ids >>=
    finishOperation r operation (commandOf sha op)).proc, line, ?_, ?_⟩
  · rw [Io.drain_bind_ok hawait, hline]
    rfl
  · have hbind := Io.talk_bind_left (f := finishOperation r operation (commandOf sha op)) hsend.talk
    rw [← Io.proc_bind] at hbind
    have h' := hcommand.trans hbind
    rw [List.append_nil] at h'
    exact h'

/-! ## The session -/

/-- The device's part of a sequence of operations; `id` is the packet id of the first command. -/
def operationsActs (readings : ℕ → Readings) :
    List TransferOperation → ℕ → ℕ → UInt16 → List (Act Item UInt8)
  | [], _, _, _ => []
  | op :: ops, operation, id, next =>
      operationActs sha (readings operation) operation op id next
        ++ operationsActs readings ops (operation + 1) (id + 2) (next + 2)

/-- What the device records of a sequence of operations that succeed. -/
def operationsLog (readings : ℕ → Readings) :
    List TransferOperation → ℕ → ℕ → UInt16 → List Event
  | [], _, _, _ => []
  | op :: ops, operation, id, next =>
      operationLog sha (readings operation) operation op id next
        ++ operationsLog readings ops (operation + 1) (id + 2) (next + 2)

/-- The value of `next_packet_id` after a number of operations. -/
def nextAfter (next : UInt16) : ℕ → UInt16
  | 0 => next
  | count + 1 => nextAfter (next + 2) count

/-- **The first operations of a plan succeed**; the others are left. -/
theorem talk_runOperations (readings : ℕ → Readings) (ops : List TransferOperation) (count : ℕ)
    (operation id : ℕ) (hfits : ∀ op ∈ ops, op.Fits) (hid : id + 2 * ops.length ≤ 2 ^ 16)
    (ids : PacketIds) :
    ∃ last, (runOperations sha readings (ops.length + count) operation ids).proc.Talk
      (operationsActs sha readings ops operation id ids.next)
      (operationsLog sha readings ops operation id ids.next)
      (runOperations sha readings count (operation + ops.length)
        ⟨last, nextAfter ids.next ops.length⟩).proc := by
  induction ops generalizing operation id ids with
  | nil =>
      rw [List.length_nil, Nat.zero_add, Nat.add_zero]
      exact ⟨ids.last, .refl _⟩
  | cons op ops ih =>
      rw [List.length_cons] at hid
      obtain ⟨last, hrest⟩ := ih (operation + 1) (id + 2)
        (fun o ho ↦ hfits o (List.mem_cons_of_mem _ ho)) (by omega) ⟨ids.next.toNat, ids.next + 2⟩
      have hop := talk_runOperation sha (readings operation) operation
        (hfits op (List.mem_cons_self ..)) id (by omega) ids
      refine ⟨last, ?_⟩
      rw [List.length_cons, show ops.length + 1 + count = ops.length + count + 1 by omega,
        show operation + (ops.length + 1) = operation + 1 + ops.length by omega]
      exact Io.talk_bind hop hrest

/-- The device's part of the opening of a session of `count` operations. -/
def openingActs (next : UInt16) (count : ℕ) : List (Act Item UInt8) :=
  [.out (plain (0x82 :: (varint (subscribeBody next).length ++ subscribeBody next))),
    .inp (Server.subackBytes next.toNat),
    .out (publishItems topicUp (next + 1).toNat (ascii "READY")),
    .inp (pubackBytes (next + 1).toNat),
    .inp (publishBytes topicControl 100 (Server.beginText count)), .out (pubackItems 100)]

/-- What the device records in the opening. -/
def openingLog (next : UInt16) : List Event :=
  .packet 0x90 0x90 :: (seenPuback (next + 1).toNat ++ seenPublish topicControl)

theorem talk_subscribeTopics (next : UInt16) :
    (subscribeTopics next).proc.Talk
      [.out (plain (0x82 :: (varint (subscribeBody next).length ++ subscribeBody next))),
        .inp (Server.subackBytes next.toNat)] [.packet 0x90 0x90] (.ret (.ok ())) := by
  have hlen : (subscribeBody next).length = 31 := rfl
  have hencode : encodeRemaining (UInt32.ofNat (subscribeBody next).length) =
      varint (subscribeBody next).length :=
    encodeRemaining_eq (by rw [hlen]; norm_num) (by rw [hlen]; norm_num)
  have hheader := Io.consumes_orFail (consumes_readPacketHeader 0x90 (n := 4) (by norm_num)) .einval
  rw [varint_of_lt (by norm_num)] at hheader
  have hsuback : Server.subackBytes next.toNat =
      [0x90, 0x04] ++ (be16 next.toNat ++ [0x01, 0x01]) := by
    rw [Server.subackBytes, List.append_assoc]
  rw [subscribeTopics]
  simp only [hencode]
  refine Io.talk_out (Io.produces_writeAll _ _) ?_
  rw [hsuback]
  refine (Io.consumes_bind hheader ?_).talk
  rw [Io.proc_emit_bind, Io.proc_require_bind ⟨rfl, by norm_num⟩]
  have hbody : (Io.readExact 4 Errno.einval : Tls _).proc.Consumes (be16 next.toNat ++ [0x01, 0x01])
      [] (.ret (.ok (be16 next.toNat ++ [0x01, 0x01]))) :=
    Io.consumes_readExact (show (be16 next.toNat ++ [0x01, 0x01]).length = 4 from rfl) _
  exact .emit (Io.consumes_bind_pure hbody rfl)

/-- **The opening of a session** tells the device how many operations there are. -/
theorem talk_opening (readings : ℕ → Readings) (next : UInt16) {count : ℕ} (hpos : count ≠ 0)
    (hcount : count ≤ maxOperations) :
    (benchmarkMqttTransferRun sha readings next).proc.Talk (openingActs next count)
      (openingLog next)
      (runOperations sha readings count 0 ⟨(next + 1).toNat, next + 2⟩).proc := by
  have hlt : count < 2 ^ 32 := hcount.trans_lt (by norm_num [maxOperations])
  have hbegin := beginText_eq hlt
  have hlen : (Server.beginText count).length < 64 := by
    have : (decimal count).length ≤ 10 :=
      length_decimal_le (by norm_num) (hlt.trans (by norm_num))
    have hprefix : (ascii "BEGIN").length = 5 := rfl
    rw [hbegin, List.length_append, List.length_cons]
    omega
  obtain ⟨buffer, hcstr, -, hcontrol⟩ := talk_readControl sha 100
    (zero_notMem_beginText hlt) hlen (by norm_num) (by norm_num)
  have hready : PublishFits topicUp (next + 1).toNat (ascii "READY").length :=
    ⟨by decide, (next + 1).toNat_lt, by decide⟩
  refine Io.talk_bind (Io.talk_orFail (talk_subscribeTopics next) _) ?_
  refine Io.talk_out (Io.produces_orFail (produces_publishMemory hready zero_notMem_topicUp) _) ?_
  refine Io.talk_inp (Io.consumes_orFail (consumes_waitPuback (next + 1)) _) ?_
  refine Io.talk_bind_cont hcontrol ?_
  simp only [scanBegin_beginText hlt hcstr, UInt32.toNat_ofNat_of_lt' hlt]
  exact Io.proc_require_bind ⟨hpos, hcount⟩ _ _

end Device

end PeripheralBench.Transfer

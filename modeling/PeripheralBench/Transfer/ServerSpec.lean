import PeripheralBench.Transfer.DeviceSpec

/-!
# What the server does in a session

The counterpart of `Transfer.DeviceSpec`: for each function of `Transfer.Server` the packets it
reads and writes, in order, and what it records.  An operation succeeds (`talk_runOperation`), or
the server gives up without a record: on a report that is not the expected one
(`talk_runOperation_down`), or on an uploaded payload that is not the expected one
(`talk_runOperation_up`).
-/

open PeripheralBench.Stream PeripheralBench.Text PeripheralBench.Mqtt PeripheralBench.Mqtt.Server

namespace PeripheralBench.Transfer.Server

variable (sha : Bytes → Digest)

/-! ## Reading and writing one packet -/

theorem consumes_readPublish {topic payload : Bytes} {id : ℕ}
    (h : PublishFits topic id payload.length) (htopic : topic.length < 64) :
    (readPublish topic 64).proc.Consumes (publishBytes topic id payload) (seenPublish topic)
      (.ret (.ok (topic, payload, id))) := by
  obtain ⟨p, rfl, rfl, rfl⟩ := h.exists_publish
  exact Mqtt.Server.consumes_readPublish p p.topic htopic

theorem toNat_succ {state : UInt32} {id : ℕ} (hstate : state.toNat = id) (hid : id + 1 < 2 ^ 32) :
    (state + 1).toNat = id + 1 := by
  rw [UInt32.toNat_add, hstate, UInt32.toNat_one, Nat.mod_eq_of_lt hid]

/-- A PUBLISH is written and its PUBACK read. -/
theorem talk_publish (operation : Option ℕ) {topic payload : Bytes} {state : UInt32} {id : ℕ}
    (hstate : state.toNat = id) (h : PublishFits topic id payload.length) (hzero : 0 ∉ topic) :
    (publish operation topic payload state).proc.Talk
      [.out (plain (headerBytes topic id payload.length) ++ items operation 0 payload),
        .inp (pubackBytes id)]
      (seenPuback id) (.ret (.ok (state + 1))) := by
  obtain ⟨p, rfl, rfl, rfl⟩ := h.exists_publish
  have hwait := consumes_waitPuback state (by rw [hstate]; exact h.id_lt)
  rw [hstate] at hwait
  have hrest := (Io.consumes_bind_pure (f := fun _ ↦ (pure (state + 1) : Tls UInt32))
    hwait rfl).talk
  have hwrite := (produces_publish operation p hzero hstate).talk
  exact hwrite.trans hrest

theorem talk_publishControl {text : Bytes} {state : UInt32} {id : ℕ} (hstate : state.toNat = id)
    (hid : id < 2 ^ 16) (hlen : text.length < 192) (hzero : 0 ∉ text) :
    (publishControl text state).proc.Talk
      [.out (publishItems topicControl id text), .inp (pubackBytes id)]
      (seenPuback id) (.ret (.ok (state + 1))) := by
  have hfits : PublishFits topicControl id text.length :=
    ⟨by decide, hid, by rw [show topicControl.length = 13 from rfl]; omega⟩
  rw [publishControl, cstr_of_notMem hzero, publishItems, publishBytes, plain_append]
  exact talk_publish none hstate hfits Device.zero_notMem_topicControl

/-! ## The data phase -/

/-- The report of the device is read and acknowledged, whatever it says. -/
theorem talk_transferDown_report (index : ℕ) {op : TransferOperation} {text : Bytes}
    {state : UInt32} {id next : ℕ} (hstate : state.toNat = id)
    (hfits : PublishFits topicDown id op.payload.length) (hnext : next < 2 ^ 16)
    (hlen : text.length < 192) :
    (transferDown sha index op state).proc.Talk
      [.out (dataItems index topicDown id op.payload), .inp (pubackBytes id),
        .inp (publishBytes topicDeviceAck next text), .out (pubackItems next)]
      (seenPuback id ++ seenPublish topicDeviceAck)
      (Io.require (strEq text (expectedAck sha op)) () >>=
        fun _ ↦ (pure (state + 1) : Tls UInt32)).proc := by
  have hreport : PublishFits topicDeviceAck next text.length :=
    ⟨by decide, hnext, by rw [show topicDeviceAck.length = 16 from rfl]; omega⟩
  refine Io.talk_bind (talk_publish (some index) hstate hfits Device.zero_notMem_topicDown) ?_
  rw [← List.append_nil (seenPublish topicDeviceAck)]
  refine Io.talk_inp (consumes_readPublish hreport (by decide)) ?_
  rw [Io.proc_require_bind ⟨strEq_self _, hlen⟩]
  exact Io.talk_out (produces_sendPuback next) (.refl _)

/-- An uploaded payload that is the expected one is acknowledged and confirmed. -/
theorem talk_transferUp {op : TransferOperation} {state : UInt32} {id next : ℕ}
    (hstate : state.toNat = id) (hid : id < 2 ^ 16)
    (hfits : PublishFits topicUp next op.payload.length) :
    (transferUp sha op state).proc.Talk
      [.inp (publishBytes topicUp next op.payload), .out (pubackItems next),
        .out (publishItems topicControl id (ackUp sha op)), .inp (pubackBytes id)]
      (seenPublish topicUp ++ seenPuback id) (.ret (.ok (state + 1))) := by
  refine Io.talk_inp (consumes_readPublish hfits (by decide)) ?_
  rw [Io.proc_require_bind ⟨strEq_self _, Device.length_payload op, rfl⟩]
  refine Io.talk_out (produces_sendPuback next) ?_
  exact talk_publishControl hstate hid (length_ackUp sha op) (zero_notMem_ackUp sha op)

/-- An uploaded payload that is not the expected one ends the session. -/
theorem talk_transferUp_error {op : TransferOperation} {payload : Bytes} (state : UInt32) {next : ℕ}
    (hfits : PublishFits topicUp next payload.length) (hne : payload ≠ op.payload) :
    (transferUp sha op state).proc.Talk [.inp (publishBytes topicUp next payload)]
      (seenPublish topicUp) (.ret (.error ())) := by
  rw [← List.append_nil (seenPublish topicUp)]
  refine Io.talk_inp (consumes_readPublish hfits (by decide)) ?_
  rw [Io.proc_require_bind_neg (fun h ↦ hne h.2.2)]
  exact .refl _

/-! ## A whole operation -/

/-- The server's part of the data phase of an operation that succeeds. -/
def dataActs (operation : ℕ) (op : TransferOperation) (id next : ℕ) : List (Act Item UInt8) :=
  if op.IsDown then
    [.out (dataItems operation topicDown id op.payload), .inp (pubackBytes id),
      .inp (publishBytes topicDeviceAck next (expectedAck sha op)), .out (pubackItems next)]
  else
    [.inp (publishBytes topicUp next op.payload), .out (pubackItems next),
      .out (publishItems topicControl id (ackUp sha op)), .inp (pubackBytes id)]

/-- What the server records in that phase. -/
def dataLog (op : TransferOperation) (id : ℕ) : List Event :=
  if op.IsDown then seenPuback id ++ seenPublish topicDeviceAck
  else seenPublish topicUp ++ seenPuback id

/-- The server's part of an operation that succeeds and whose metrics are `metrics`. -/
def operationActs (operation : ℕ) (op : TransferOperation) (metrics : Bytes) (id : ℕ)
    (next : UInt16) : List (Act Item UInt8) :=
  [.out (publishItems topicControl id (command sha op)), .inp (pubackBytes id)]
    ++ (dataActs sha operation op (id + 1) next.toNat
      ++ [.inp (publishBytes topicMetrics (next + 1).toNat metrics),
        .out (pubackItems (next + 1).toNat)])

/-- What the server records of an operation that succeeds. -/
def operationLog (elapsed : Int64) (operation : ℕ) (op : TransferOperation) (metrics : Bytes)
    (id : ℕ) : List Event :=
  .operation operation :: (seenPuback id ++ (dataLog op (id + 1) ++ (seenPublish topicMetrics ++
    [.print (ascii "[BENCH_TRANSFER_DEVICE] " ++ cstr metrics ++ ascii "\n"),
      .record operation true (resultLine sha op elapsed)])))

variable {op : TransferOperation}

theorem transfer_down (h : op.IsDown) (operation : ℕ) (state : UInt32) :
    transfer sha operation op state = transferDown sha operation op state := if_pos h

theorem transfer_up (h : ¬ op.IsDown) (operation : ℕ) (state : UInt32) :
    transfer sha operation op state = transferUp sha op state := if_neg h

/-- The data phase of an operation whose payload arrives as it was sent. -/
theorem talk_transfer (operation : ℕ) (hfits : op.Fits) {state : UInt32} {id next : ℕ}
    (hstate : state.toNat = id) (hid : id < 2 ^ 16) (hnext : next < 2 ^ 16) :
    (transfer sha operation op state).proc.Talk (dataActs sha operation op id next)
      (dataLog op id) (.ret (.ok (state + 1))) := by
  by_cases h : op.IsDown
  · have hdata : PublishFits topicDown id op.payload.length := by
      rw [Device.length_payload]; exact Device.fits_down hfits h hid
    have hack : (expectedAck sha op).length < 192 := by
      rw [← ackDown_eq_expectedAck]; exact length_ackDown _ _ _
    have htalk := talk_transferDown_report sha operation hstate hdata hnext hack
    rw [Io.proc_require_bind (strEq_self _)] at htalk
    rw [transfer_down sha h, dataActs, dataLog, if_pos h, if_pos h]
    exact htalk
  · have hdata : PublishFits topicUp next op.payload.length := by
      rw [Device.length_payload]; exact Device.fits_up hfits h hnext
    rw [transfer_up sha h, dataActs, dataLog, if_neg h, if_neg h]
    exact talk_transferUp sha hstate hid hdata

/-- **An operation that succeeds.** -/
theorem talk_runOperation (elapsed : Int64) (operation : ℕ) (hfits : op.Fits) {metrics : Bytes}
    (hmetrics : metrics.length < 1024) {state : UInt32} {id : ℕ} (next : UInt16)
    (hstate : state.toNat = id) (hid : id + 1 < 2 ^ 16) :
    (runOperation sha elapsed operation op state).proc.Talk
      (operationActs sha operation op metrics id next)
      (operationLog sha elapsed operation op metrics id) (.ret (.ok (state + 2))) := by
  have hsucc := toNat_succ hstate (by omega)
  have hpublish : PublishFits topicMetrics (next + 1).toNat metrics.length :=
    ⟨by decide, (next + 1).toNat_lt, by rw [show topicMetrics.length = 13 from rfl]; omega⟩
  have htwo : state + 1 + 1 = state + 2 := by rw [UInt32.add_assoc]; rfl
  rw [runOperation]
  refine Io.talk_emit ?_
  refine Io.talk_bind (talk_publishControl hstate (by omega) (length_command sha op)
    (zero_notMem_command sha op)) ?_
  refine Io.talk_bind (talk_transfer sha operation hfits hsucc hid next.toNat_lt) ?_
  refine Io.talk_inp (consumes_readPublish hpublish (by decide)) ?_
  rw [Io.proc_require_bind (strEq_self _), htwo]
  refine Io.talk_out (produces_sendPuback _) ?_
  exact Io.talk_emit (Io.talk_emit (.refl _))

/-- A report that is not the expected one ends the session. -/
theorem talk_runOperation_down (elapsed : Int64) (operation : ℕ) (hfits : op.Fits)
    (h : op.IsDown) {text : Bytes} (hlen : text.length < 192)
    (hne : strEq text (expectedAck sha op) ≠ true) {state : UInt32} {id next : ℕ}
    (hstate : state.toNat = id) (hid : id + 1 < 2 ^ 16) (hnext : next < 2 ^ 16) :
    (runOperation sha elapsed operation op state).proc.Talk
      [.out (publishItems topicControl id (command sha op)), .inp (pubackBytes id),
        .out (dataItems operation topicDown (id + 1) op.payload), .inp (pubackBytes (id + 1)),
        .inp (publishBytes topicDeviceAck next text), .out (pubackItems next)]
      (.operation operation :: (seenPuback id ++ (seenPuback (id + 1) ++
        seenPublish topicDeviceAck))) (.ret (.error ())) := by
  have hsucc := toNat_succ hstate (by omega)
  have hdata : PublishFits topicDown (id + 1) op.payload.length := by
    rw [Device.length_payload]; exact Device.fits_down hfits h hid
  have hreport := talk_transferDown_report sha operation hsucc hdata hnext hlen
  rw [Io.proc_require_bind_neg hne] at hreport
  rw [runOperation]
  refine Io.talk_emit ?_
  refine Io.talk_bind (talk_publishControl hstate (by omega) (length_command sha op)
    (zero_notMem_command sha op)) ?_
  rw [transfer_down sha h]
  exact Io.talk_bind_error hreport

/-- An uploaded payload that is not the expected one ends the session. -/
theorem talk_runOperation_up (elapsed : Int64) (operation : ℕ) (h : ¬ op.IsDown)
    {payload : Bytes} (hne : payload ≠ op.payload) {state : UInt32} {id next : ℕ}
    (hfits : PublishFits topicUp next payload.length)
    (hstate : state.toNat = id) (hid : id < 2 ^ 16) :
    (runOperation sha elapsed operation op state).proc.Talk
      [.out (publishItems topicControl id (command sha op)), .inp (pubackBytes id),
        .inp (publishBytes topicUp next payload)]
      (.operation operation :: (seenPuback id ++ seenPublish topicUp)) (.ret (.error ())) := by
  rw [runOperation]
  refine Io.talk_emit ?_
  refine Io.talk_bind (talk_publishControl hstate hid (length_command sha op)
    (zero_notMem_command sha op)) ?_
  rw [transfer_up sha h]
  exact Io.talk_bind_error (talk_transferUp_error sha _ hfits hne)

/-! ## The session -/

/-- The metrics that the device publishes for an operation that succeeds. -/
def metricsOf (r : Device.Readings) (op : TransferOperation) (id : ℕ) (next : UInt16) : Bytes :=
  Device.successMetrics sha r op (Device.resultPacketId op (id + 1) next.toNat)

theorem length_metricsOf (r : Device.Readings) (op : TransferOperation) {id : ℕ}
    (hid : id + 1 < 2 ^ 16) (next : UInt16) : (metricsOf sha r op id next).length < 1024 := by
  refine (Device.length_successMetrics sha r op ?_).2
  rw [Device.resultPacketId]
  split
  · exact hid
  · exact next.toNat_lt

/-- The server's part of a sequence of operations; `id` is the packet id of the first command and
`next` that of the device's first PUBLISH. -/
def operationsActs (readings : ℕ → Device.Readings) :
    List TransferOperation → ℕ → ℕ → UInt16 → List (Act Item UInt8)
  | [], _, _, _ => []
  | op :: ops, operation, id, next =>
      operationActs sha operation op (metricsOf sha (readings operation) op id next) id next
        ++ operationsActs readings ops (operation + 1) (id + 2) (next + 2)

/-- What the server records of a sequence of operations that succeed. -/
def operationsLog (elapsed : ℕ → Int64) (readings : ℕ → Device.Readings) :
    List TransferOperation → ℕ → ℕ → UInt16 → List Event
  | [], _, _, _ => []
  | op :: ops, operation, id, next =>
      operationLog sha (elapsed operation) operation op
          (metricsOf sha (readings operation) op id next) id
        ++ operationsLog elapsed readings ops (operation + 1) (id + 2) (next + 2)

/-- **The first operations of a plan succeed**; `rest` is left. -/
theorem talk_runOperations (elapsed : ℕ → Int64) (readings : ℕ → Device.Readings)
    (ops rest : List TransferOperation) (operation : ℕ) (hfits : ∀ op ∈ ops, op.Fits)
    {state : UInt32} {id : ℕ} (hstate : state.toNat = id) (hid : id + 2 * ops.length ≤ 2 ^ 16)
    (next : UInt16) :
    ∃ last : UInt32, last.toNat = id + 2 * ops.length ∧
      (runOperations sha elapsed (ops ++ rest) operation state).proc.Talk
        (operationsActs sha readings ops operation id next)
        (operationsLog sha elapsed readings ops operation id next)
        (runOperations sha elapsed rest (operation + ops.length) last).proc := by
  induction ops generalizing operation state id next with
  | nil => exact ⟨state, hstate, .refl _⟩
  | cons op ops ih =>
      rw [List.length_cons] at hid
      have hnext : (state + 2).toNat = id + 2 := by
        rw [UInt32.toNat_add, hstate, show (2 : UInt32).toNat = 2 from rfl]
        exact Nat.mod_eq_of_lt (by omega)
      obtain ⟨last, hlast, hrest⟩ := ih (operation + 1)
        (fun o ho ↦ hfits o (List.mem_cons_of_mem _ ho)) hnext (by omega) (next + 2)
      have hop := talk_runOperation sha (elapsed operation) operation
        (hfits op (List.mem_cons_self ..))
        (length_metricsOf sha (readings operation) op (show id + 1 < 2 ^ 16 by omega) next) next
          hstate
        (by omega)
      refine ⟨last, by rw [hlast, List.length_cons]; omega, ?_⟩
      rw [List.length_cons, show operation + (ops.length + 1) = operation + 1 + ops.length by omega]
      exact Io.talk_bind hop hrest

/-- The server's part of the opening of a session of `count` operations. -/
def openingActs (next : UInt16) (count : ℕ) : List (Act Item UInt8) :=
  [.inp (0x82 :: (varint (Device.subscribeBody next).length ++ Device.subscribeBody next)),
    .out (plain (subackBytes next.toNat)),
    .inp (publishBytes topicUp (next + 1).toNat (ascii "READY")),
    .out (pubackItems (next + 1).toNat),
    .out (publishItems topicControl 100 (beginText count)), .inp (pubackBytes 100)]

/-- What the server records in the opening. -/
def openingLog : List Event :=
  .packet 0x82 0x82 :: (seenPublish topicUp ++
    .print (ascii "[BENCH_TRANSFER_SERVER] status=ready\n") :: seenPuback 100)

theorem talk_handleSubscribeAndReady (next : UInt16) :
    handleSubscribeAndReady.proc.Talk
      [.inp (0x82 :: (varint (Device.subscribeBody next).length ++ Device.subscribeBody next)),
        .out (plain (subackBytes next.toNat)),
        .inp (publishBytes topicUp (next + 1).toNat (ascii "READY")),
        .out (pubackItems (next + 1).toNat)]
      (.packet 0x82 0x82 :: seenPublish topicUp) (.ret (.ok ())) := by
  have hsubscribe := consumes_readPacket 0x82 (Device.subscribeBody next)
    (by rw [show (Device.subscribeBody next).length = 31 from rfl]; norm_num)
  have hid : word16 ((Device.subscribeBody next).getD 0 0) ((Device.subscribeBody next).getD 1 0) =
      next.toNat := word16_be16 next.toNat_lt
  have hsize : 2 ≤ (Device.subscribeBody next).length := Nat.le_of_ble_eq_true rfl
  have hready : PublishFits topicUp (next + 1).toNat (ascii "READY").length :=
    ⟨by decide, (next + 1).toNat_lt, by decide⟩
  refine Io.talk_inp hsubscribe ?_
  refine Io.talk_emit ?_
  rw [Io.proc_require_bind ⟨rfl, hsize⟩, hid]
  refine Io.talk_out (Io.produces_writeAll _ _) ?_
  rw [← List.append_nil (seenPublish topicUp)]
  refine Io.talk_inp (consumes_readPublish hready (by decide)) ?_
  rw [Io.proc_require_bind ⟨strEq_self _, rfl⟩]
  exact (produces_sendPuback _).talk

/-- **The opening of a session** tells the device how many operations there are. -/
theorem talk_opening (elapsed : ℕ → Int64) (ops : List TransferOperation)
    (hcount : ops.length ≤ Device.maxOperations) (next : UInt16) :
    (runTransfers sha elapsed ops).proc.Talk (openingActs next ops.length) openingLog
      (runOperations sha elapsed ops 0 101 >>= fun _ ↦
        Io.emit (.print (ascii "[BENCH_TRANSFER_SERVER] status=complete\n"))).proc := by
  have hlt : ops.length < 2 ^ 32 := hcount.trans_lt (by norm_num [Device.maxOperations])
  have hlen : (beginText ops.length).length < 192 := by
    have : (decimal ops.length).length ≤ 10 :=
      length_decimal_le (by norm_num) (hlt.trans (by norm_num))
    have hprefix : (ascii "BEGIN").length = 5 := rfl
    rw [beginText_eq hlt, List.length_append, List.length_cons]
    omega
  have hbegin := talk_publishControl (show (100 : UInt32).toNat = 100 from rfl) (by norm_num) hlen
    (zero_notMem_beginText hlt)
  refine Io.talk_bind (talk_handleSubscribeAndReady next) ?_
  refine Io.talk_emit ?_
  have h := Io.talk_bind hbegin (f := fun state ↦ do
    runOperations sha elapsed ops 0 state
    Io.emit (.print (ascii "[BENCH_TRANSFER_SERVER] status=complete\n"))) (.refl _)
  exact h

end PeripheralBench.Transfer.Server

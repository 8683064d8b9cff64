import PeripheralBench.Transfer.ServerSpec

/-!
# A transfer session

The device and the server of a transfer session, joined by two streams.  The streams deliver what is
written on them in order, in pieces of any size; the bytes of the data payloads, and no others, may
be altered on the way.

The two specifications of a session, `Transfer.DeviceSpec` and `Transfer.ServerSpec`, are two views
of one list of messages (`operationsConv`).  When no payload is altered this gives one run in which
both parties succeed, and by determinacy every run (`reaches_success`).  When one is, both parties
follow the messages up to the first altered operation, and then give up (`reaches_failure`).
-/

open PeripheralBench.Stream PeripheralBench.Text PeripheralBench.Mqtt

namespace PeripheralBench.Transfer

/-- The two parties and what is in flight between them. -/
abbrev SessionNet : Type :=
  Net Item UInt8 Event Event (Except Firmware.Errno Unit) (Except Unit Unit)

/-- Both parties at their beginning. -/
def session (sha : Bytes → Digest) (readings : ℕ → Device.Readings) (elapsed : ℕ → Int64)
    (nextPacketId : UInt16) (operations : List TransferOperation) : SessionNet :=
  Net.init (ExceptT.run (Device.benchmarkMqttTransferRun sha readings nextPacketId))
    (ExceptT.run (Server.runTransfers sha elapsed operations))

/-! ## The streams -/

/-- What becomes of the bytes of the data payloads: the byte at an offset of the payload of an
operation arrives as another one. -/
abbrev Alteration : Type := ℕ → ℕ → UInt8 → UInt8

/-- What arrives of a written byte. -/
def transit (alter : Alteration) (x : Item) : UInt8 :=
  match x.place with
  | none => x.byte
  | some (operation, offset) => alter operation offset x.byte

/-- Two streams that deliver everything in order, and end when their writer returns. -/
def streams (alter : Alteration) : Link Item UInt8 := ⟨transit alter, true⟩

/-- What arrives of the data payload of an operation. -/
def arrived (alter : Alteration) (operation : ℕ) (payload : Bytes) : Bytes :=
  (placed operation 0 payload).map (transit alter)

/-- The data payload of an operation is altered on its way. -/
def Altered (alter : Alteration) (operation : ℕ) (op : TransferOperation) : Prop :=
  arrived alter operation op.payload ≠ op.payload

variable (alter : Alteration)

@[simp] theorem map_transit_plain (bs : Bytes) : (plain bs).map (transit alter) = bs := by
  rw [plain, List.map_map]
  exact List.map_id bs

@[simp] theorem map_transit_publishItems (topic : Bytes) (id : ℕ) (payload : Bytes) :
    (publishItems topic id payload).map (transit alter) = publishBytes topic id payload :=
  map_transit_plain alter _

@[simp] theorem map_transit_pubackItems (id : ℕ) :
    (pubackItems id).map (transit alter) = pubackBytes id := map_transit_plain alter _

@[simp] theorem length_arrived (operation : ℕ) (payload : Bytes) :
    (arrived alter operation payload).length = payload.length := by
  have h := congrArg List.length (map_byte_placed operation 0 payload)
  rw [List.length_map] at h
  rw [arrived, List.length_map, h]

/-- The header of a data packet arrives as it is; the payload may be altered. -/
theorem map_transit_dataItems (operation : ℕ) (topic : Bytes) (id : ℕ) (payload : Bytes) :
    (dataItems operation topic id payload).map (transit alter) =
      publishBytes topic id (arrived alter operation payload) := by
  rw [dataItems, List.map_append, map_transit_plain, publishBytes, length_arrived]
  rfl

/-- Streams that alter nothing. -/
theorem arrived_unaltered (operation : ℕ) (payload : Bytes) :
    arrived (fun _ _ b ↦ b) operation payload = payload := by
  have h : transit (fun _ _ b ↦ b) = Item.byte := by
    funext x
    rw [transit]
    split <;> rfl
  rw [arrived, h, map_byte_placed]

/-! ## The conversation -/

variable (sha : Bytes → Digest)

/-- The messages of the opening of a session. -/
def openingConv (next : UInt16) (count : ℕ) : List (Message Item) :=
  [.toRight (plain (0x82 :: (varint (Device.subscribeBody next).length
      ++ Device.subscribeBody next))),
    .toLeft (plain (Server.subackBytes next.toNat)),
    .toRight (publishItems topicUp (next + 1).toNat (ascii "READY")),
    .toLeft (pubackItems (next + 1).toNat),
    .toLeft (publishItems topicControl 100 (Server.beginText count)),
    .toRight (pubackItems 100)]

/-- The messages of the data phase of an operation. -/
def dataConv (operation : ℕ) (op : TransferOperation) (id next : ℕ) : List (Message Item) :=
  if op.IsDown then
    [.toLeft (dataItems operation topicDown id op.payload), .toRight (pubackItems id),
      .toRight (publishItems topicDeviceAck next (Server.expectedAck sha op)),
      .toLeft (pubackItems next)]
  else
    [.toRight (dataItems operation topicUp next op.payload), .toLeft (pubackItems next),
      .toLeft (publishItems topicControl id (Server.ackUp sha op)), .toRight (pubackItems id)]

/-- The messages of an operation. -/
def operationConv (r : Device.Readings) (operation : ℕ) (op : TransferOperation) (id : ℕ)
    (next : UInt16) : List (Message Item) :=
  [.toLeft (publishItems topicControl id (Server.command sha op)), .toRight (pubackItems id)]
    ++ (dataConv sha operation op (id + 1) next.toNat
      ++ [.toRight (publishItems topicMetrics (next + 1).toNat
          (Server.metricsOf sha r op id next)),
        .toLeft (pubackItems (next + 1).toNat)])

/-- The messages of a sequence of operations. -/
def operationsConv (readings : ℕ → Device.Readings) :
    List TransferOperation → ℕ → ℕ → UInt16 → List (Message Item)
  | [], _, _, _ => []
  | op :: ops, operation, id, next =>
      operationConv sha (readings operation) operation op id next
        ++ operationsConv readings ops (operation + 1) (id + 2) (next + 2)

theorem leftActs_openingConv (next : UInt16) (count : ℕ) :
    (openingConv next count).map (Message.leftAct (transit alter)) =
      Device.openingActs next count := by
  simp only [openingConv, Device.openingActs, List.map_cons, List.map_nil, Message.leftAct,
    map_transit_plain, map_transit_publishItems, map_transit_pubackItems]

theorem rightActs_openingConv (next : UInt16) (count : ℕ) :
    (openingConv next count).map (Message.rightAct (transit alter)) =
      Server.openingActs next count := by
  simp only [openingConv, Server.openingActs, List.map_cons, List.map_nil, Message.rightAct,
    map_transit_plain, map_transit_publishItems, map_transit_pubackItems]

section Unaltered

variable {alter} {operation : ℕ} {op : TransferOperation}

theorem leftActs_operationConv (h : ¬ Altered alter operation op) (r : Device.Readings) (id : ℕ)
    (next : UInt16) :
    (operationConv sha r operation op id next).map (Message.leftAct (transit alter)) =
      Device.operationActs sha r operation op id next := by
  have hsame : arrived alter operation op.payload = op.payload := not_not.mp h
  rw [operationConv, dataConv, Device.operationActs, Device.dataActs, Server.metricsOf]
  by_cases hdown : op.IsDown
  · simp only [if_pos hdown, List.map_append, List.map_cons, List.map_nil, Message.leftAct,
      map_transit_publishItems, map_transit_pubackItems, map_transit_dataItems, hsame]
  · simp only [if_neg hdown, List.map_append, List.map_cons, List.map_nil, Message.leftAct,
      map_transit_publishItems, map_transit_pubackItems]

theorem rightActs_operationConv (h : ¬ Altered alter operation op) (r : Device.Readings) (id : ℕ)
    (next : UInt16) :
    (operationConv sha r operation op id next).map (Message.rightAct (transit alter)) =
      Server.operationActs sha operation op (Server.metricsOf sha r op id next) id next := by
  have hsame : arrived alter operation op.payload = op.payload := not_not.mp h
  rw [operationConv, dataConv, Server.operationActs, Server.dataActs]
  by_cases hdown : op.IsDown
  · simp only [if_pos hdown, List.map_append, List.map_cons, List.map_nil, Message.rightAct,
      map_transit_publishItems, map_transit_pubackItems]
  · simp only [if_neg hdown, List.map_append, List.map_cons, List.map_nil, Message.rightAct,
      map_transit_publishItems, map_transit_pubackItems, map_transit_dataItems, hsame]

end Unaltered

/-- The first operations of a plan arrive as they were sent. -/
def Intact (operation : ℕ) (ops : List TransferOperation) : Prop :=
  ∀ i op, ops[i]? = some op → ¬ Altered alter (operation + i) op

variable {alter}

theorem Intact.head {operation : ℕ} {op : TransferOperation} {ops : List TransferOperation}
    (h : Intact alter operation (op :: ops)) : ¬ Altered alter operation op := h 0 op rfl

theorem Intact.tail {operation : ℕ} {op : TransferOperation} {ops : List TransferOperation}
    (h : Intact alter operation (op :: ops)) : Intact alter (operation + 1) ops := by
  intro i o ho
  have h' := h (i + 1) o ho
  rwa [← Nat.add_assoc, Nat.add_right_comm] at h'

theorem leftActs_operationsConv (readings : ℕ → Device.Readings) (ops : List TransferOperation)
    (operation id : ℕ) (next : UInt16) (h : Intact alter operation ops) :
    (operationsConv sha readings ops operation id next).map (Message.leftAct (transit alter)) =
      Device.operationsActs sha readings ops operation id next := by
  induction ops generalizing operation id next with
  | nil => rfl
  | cons op ops ih =>
      rw [operationsConv, Device.operationsActs, List.map_append,
        leftActs_operationConv sha h.head, ih _ _ _ h.tail]

theorem rightActs_operationsConv (readings : ℕ → Device.Readings) (ops : List TransferOperation)
    (operation id : ℕ) (next : UInt16) (h : Intact alter operation ops) :
    (operationsConv sha readings ops operation id next).map (Message.rightAct (transit alter)) =
      Server.operationsActs sha readings ops operation id next := by
  induction ops generalizing operation id next with
  | nil => rfl
  | cons op ops ih =>
      rw [operationsConv, Server.operationsActs, List.map_append,
        rightActs_operationConv sha h.head, ih _ _ _ h.tail]

/-! ## What is recorded -/

/-- What was read is what was due. -/
def AsExpected : Event → Prop
  | .packet type expected => type = expected
  | .topic topic expected => topic = expected
  | .puback id expected => id = expected
  | _ => True

/-- The operation that is entered. -/
def entry : Event → Option ℕ
  | .operation index => some index
  | _ => none

/-- The result that is recorded: the operation, whether it succeeded, and the line. -/
def result : Event → Option (ℕ × Bool × Bytes)
  | .record index success line => some (index, success, line)
  | _ => none

/-- The operations a party has entered. -/
def entered (log : List Event) : List ℕ := log.filterMap entry

/-- The results a party has recorded. -/
def results (log : List Event) : List (ℕ × Bool × Bytes) := log.filterMap result

@[simp] theorem entered_append (a b : List Event) : entered (a ++ b) = entered a ++ entered b :=
  List.filterMap_append

@[simp] theorem results_append (a b : List Event) : results (a ++ b) = results a ++ results b :=
  List.filterMap_append

variable (sha : Bytes → Digest) (readings : ℕ → Device.Readings) (elapsed : ℕ → Int64)

/-- What the device records of the operations of a plan when they succeed; `id` is the packet id of
the first command. -/
def deviceSuccesses (ops : List TransferOperation) (operation id : ℕ) (next : UInt16) :
    List (ℕ × Bool × Bytes) :=
  ops.mapIdx fun i op ↦ (operation + i, true, Device.successLine sha (readings (operation + i)) op
    (Device.resultPacketId op (id + 2 * i + 1) (Device.nextAfter next i).toNat))

/-- What the server records of the operations of a plan when they succeed. -/
def serverSuccesses (ops : List TransferOperation) (operation : ℕ) : List (ℕ × Bool × Bytes) :=
  ops.mapIdx fun i op ↦ (operation + i, true, Server.resultLine sha op (elapsed (operation + i)))

theorem deviceSuccesses_cons (op : TransferOperation) (ops : List TransferOperation)
    (operation id : ℕ) (next : UInt16) :
    deviceSuccesses sha readings (op :: ops) operation id next =
      (operation, true, Device.successLine sha (readings operation) op
        (Device.resultPacketId op (id + 1) next.toNat)) ::
      deviceSuccesses sha readings ops (operation + 1) (id + 2) (next + 2) := by
  rw [deviceSuccesses, List.mapIdx_cons]
  refine congrArg (List.cons _) (congrArg (fun f ↦ ops.mapIdx f) ?_)
  funext i o
  rw [show operation + (i + 1) = operation + 1 + i by omega,
    show id + 2 * (i + 1) + 1 = id + 2 + 2 * i + 1 by omega, Device.nextAfter]

theorem serverSuccesses_cons (op : TransferOperation) (ops : List TransferOperation)
    (operation : ℕ) :
    serverSuccesses sha elapsed (op :: ops) operation =
      (operation, true, Server.resultLine sha op (elapsed operation)) ::
      serverSuccesses sha elapsed ops (operation + 1) := by
  rw [serverSuccesses, List.mapIdx_cons]
  refine congrArg (List.cons _) (congrArg (fun f ↦ ops.mapIdx f) ?_)
  funext i o
  rw [show operation + (i + 1) = operation + 1 + i by omega]

theorem device_operationLog (r : Device.Readings) (operation : ℕ) (op : TransferOperation) (id : ℕ)
    (next : UInt16) :
    (∀ e ∈ Device.operationLog sha r operation op id next, AsExpected e) ∧
      entered (Device.operationLog sha r operation op id next) = [operation] ∧
      results (Device.operationLog sha r operation op id next) = [(operation, true,
        Device.successLine sha r op (Device.resultPacketId op (id + 1) next.toNat))] := by
  rw [Device.operationLog, Device.dataLog]
  refine ⟨?_, ?_, ?_⟩
  · split <;> simp [seenPublish, seenPuback, AsExpected]
  · split <;> rfl
  · split <;> rfl

theorem server_operationLog (time : Int64) (operation : ℕ) (op : TransferOperation)
    (metrics : Bytes) (id : ℕ) :
    (∀ e ∈ Server.operationLog sha time operation op metrics id, AsExpected e) ∧
      entered (Server.operationLog sha time operation op metrics id) = [operation] ∧
      results (Server.operationLog sha time operation op metrics id) =
        [(operation, true, Server.resultLine sha op time)] := by
  rw [Server.operationLog, Server.dataLog]
  refine ⟨?_, ?_, ?_⟩
  · split <;> simp [seenPublish, seenPuback, AsExpected]
  · split <;> rfl
  · split <;> rfl

/-- What the device records of a sequence of operations that succeed. -/
theorem device_operationsLog (ops : List TransferOperation) (operation id : ℕ) (next : UInt16) :
    (∀ e ∈ Device.operationsLog sha readings ops operation id next, AsExpected e) ∧
      entered (Device.operationsLog sha readings ops operation id next) =
        List.range' operation ops.length ∧
      results (Device.operationsLog sha readings ops operation id next) =
        deviceSuccesses sha readings ops operation id next := by
  induction ops generalizing operation id next with
  | nil => exact ⟨fun e he ↦ absurd he List.not_mem_nil, rfl, rfl⟩
  | cons op ops ih =>
      obtain ⟨hexpected, hentered, hresults⟩ :=
        device_operationLog sha (readings operation) operation op id next
      obtain ⟨ihexpected, ihentered, ihresults⟩ := ih (operation + 1) (id + 2) (next + 2)
      rw [Device.operationsLog]
      refine ⟨?_, ?_, ?_⟩
      · intro e he
        rcases List.mem_append.mp he with he | he
        · exact hexpected e he
        · exact ihexpected e he
      · rw [entered_append, hentered, ihentered]; rfl
      · rw [results_append, hresults, ihresults, deviceSuccesses_cons]; rfl

/-- What the server records of a sequence of operations that succeed. -/
theorem server_operationsLog (ops : List TransferOperation) (operation id : ℕ) (next : UInt16) :
    (∀ e ∈ Server.operationsLog sha elapsed readings ops operation id next, AsExpected e) ∧
      entered (Server.operationsLog sha elapsed readings ops operation id next) =
        List.range' operation ops.length ∧
      results (Server.operationsLog sha elapsed readings ops operation id next) =
        serverSuccesses sha elapsed ops operation := by
  induction ops generalizing operation id next with
  | nil => exact ⟨fun e he ↦ absurd he List.not_mem_nil, rfl, rfl⟩
  | cons op ops ih =>
      obtain ⟨hexpected, hentered, hresults⟩ :=
        server_operationLog sha (elapsed operation) operation
        op (Server.metricsOf sha (readings operation) op id next) id
      obtain ⟨ihexpected, ihentered, ihresults⟩ := ih (operation + 1) (id + 2) (next + 2)
      rw [Server.operationsLog]
      refine ⟨?_, ?_, ?_⟩
      · intro e he
        rcases List.mem_append.mp he with he | he
        · exact hexpected e he
        · exact ihexpected e he
      · rw [entered_append, hentered, ihentered]; rfl
      · rw [results_append, hresults, ihresults, serverSuccesses_cons]; rfl

theorem asExpected_device_opening (next : UInt16) :
    ∀ e ∈ Device.openingLog next, AsExpected e := by
  simp [Device.openingLog, seenPuback, seenPublish, AsExpected]

theorem asExpected_server_opening : ∀ e ∈ Server.openingLog, AsExpected e := by
  simp [Server.openingLog, seenPuback, seenPublish, AsExpected]

theorem lt_of_mem_deviceSuccesses {ops : List TransferOperation} {operation id : ℕ} {next : UInt16}
    {i : ℕ} {success : Bool} {line : Bytes}
    (h : (i, success, line) ∈ deviceSuccesses sha readings ops operation id next) :
    i < operation + ops.length := by
  obtain ⟨k, hk, heq⟩ := List.mem_mapIdx.mp h
  obtain ⟨rfl, -⟩ := Prod.mk.inj heq
  omega

theorem lt_of_mem_serverSuccesses {ops : List TransferOperation} {operation i : ℕ} {success : Bool}
    {line : Bytes} (h : (i, success, line) ∈ serverSuccesses sha elapsed ops operation) :
    i < operation + ops.length := by
  obtain ⟨k, hk, heq⟩ := List.mem_mapIdx.mp h
  obtain ⟨rfl, -⟩ := Prod.mk.inj heq
  omega

/-! ## A session that succeeds -/

/-- Both parties have returned, and have recorded every operation of the plan as a success. -/
structure Succeeded (nextPacketId : UInt16) (ops : List TransferOperation) (t : SessionNet) :
    Prop where
  device : t.left = .ret (.ok ())
  server : t.right = .ret (.ok ())
  asExpected : ∀ e ∈ t.leftLog ++ t.rightLog, AsExpected e
  device_entered : entered t.leftLog = List.range ops.length
  server_entered : entered t.rightLog = List.range ops.length
  device_results : results t.leftLog = deviceSuccesses sha readings ops 0 101 (nextPacketId + 2)
  server_results : results t.rightLog = serverSuccesses sha elapsed ops 0

section Plan

variable {ops : List TransferOperation} (next : UInt16)

/-- **A run in which both parties succeed**; it does not need the streams to end. -/
theorem reaches_success (hne : ops ≠ []) (hlen : ops.length ≤ Device.maxOperations)
    (hfits : ∀ op ∈ ops, op.Fits) (hintact : Intact alter 0 ops) :
    ∃ t, Net.Reaches (streams alter).keptOpen (session sha readings elapsed next ops) t ∧
      Succeeded sha readings elapsed next ops t := by
  have hid : 101 + 2 * ops.length ≤ 2 ^ 16 := by
    have : ops.length ≤ 4096 := hlen
    omega
  have hpos : ops.length ≠ 0 := fun h ↦ hne (List.length_eq_zero_iff.mp h)
  obtain ⟨last, hdevice⟩ := Device.talk_runOperations sha readings ops 0 0 101 hfits hid
    ⟨(next + 1).toNat, next + 2⟩
  obtain ⟨state, -, hserver⟩ := Server.talk_runOperations sha elapsed readings ops [] 0 hfits
    (show (101 : UInt32).toNat = 101 from rfl) hid (next + 2)
  rw [List.append_nil] at hserver
  have hdone := Io.talk_bind (f := fun _ ↦
    Io.emit (.print (ascii "[BENCH_TRANSFER_SERVER] status=complete\n"))) hserver
    (Io.consumes_emit _).talk_nil
  have hp := (Device.talk_opening sha readings next hpos hlen).trans hdevice
  have hq := (Server.talk_opening sha elapsed ops hlen next).trans hdone
  rw [← leftActs_openingConv alter, ← leftActs_operationsConv sha readings ops 0 101 _ hintact,
    ← List.map_append] at hp
  rw [← rightActs_openingConv alter, ← rightActs_operationsConv sha readings ops 0 101 _ hintact,
    List.append_nil, ← List.map_append] at hq
  have hrun : Net.Reaches (streams alter).keptOpen (session sha readings elapsed next ops) _ :=
    Net.reaches_of_talk hp hq [] []
  obtain ⟨hd, hdentered, hdresults⟩ := device_operationsLog sha readings ops 0 101 (next + 2)
  obtain ⟨hs, hsentered, hsresults⟩ :=
    server_operationsLog sha readings elapsed ops 0 101 (next + 2)
  refine ⟨_, hrun, rfl, rfl, ?_, ?_, ?_, ?_, ?_⟩
  · intro e he
    simp only [List.nil_append, List.mem_append, List.mem_singleton] at he
    rcases he with (he | he) | (he | he | rfl)
    · exact asExpected_device_opening next e he
    · exact hd e he
    · exact asExpected_server_opening e he
    · exact hs e he
    · trivial
  · simp only [entered_append, hdentered, List.range_eq_range']
    rfl
  · simp only [entered_append, hsentered, List.range_eq_range']
    exact List.append_nil _
  · simp only [results_append, hdresults]
    rfl
  · simp only [results_append, hsresults]
    exact List.append_nil _

/-! ## A session that fails -/

/-- Both parties have given up at operation `j`: the operations before it are recorded as successes,
the operation itself as a failure by the device and not at all by the server. -/
structure GaveUp (ops : List TransferOperation) (j : ℕ) (t : SessionNet) : Prop where
  device : ∃ e, t.left = .ret (.error e)
  server : t.right = .ret (.error ())
  device_results : ∃ line, results t.leftLog =
    deviceSuccesses sha readings (ops.take j) 0 101 (next + 2) ++ [(j, false, line)]
  server_results : results t.rightLog = serverSuccesses sha elapsed (ops.take j) 0

/-- The messages of an altered download. -/
def alteredDownConv (operation : ℕ) (op : TransferOperation) (id next : ℕ) (report : Bytes) :
    List (Message Item) :=
  [.toLeft (publishItems topicControl id (Server.command sha op)), .toRight (pubackItems id),
    .toLeft (dataItems operation topicDown (id + 1) op.payload), .toRight (pubackItems (id + 1)),
    .toRight (publishItems topicDeviceAck next report), .toLeft (pubackItems next)]

/-- The messages of an altered upload. -/
def alteredUpConv (operation : ℕ) (op : TransferOperation) (id next : ℕ) : List (Message Item) :=
  [.toLeft (publishItems topicControl id (Server.command sha op)), .toRight (pubackItems id),
    .toRight (dataItems operation topicUp next op.payload)]

/-- After some messages the server has given up on an operation, and the device is about to record
its failure and give up as well. -/
def GivesUpOn (alter : Alteration) (operation : ℕ) (device : Firmware.Tls Device.PacketIds)
    (server : Mqtt.Server.Tls UInt32) : Prop :=
  ∃ (conv : List (Message Item))
    (p : Proc Item UInt8 Event (Except Firmware.Errno Device.PacketIds)) (line : Bytes)
    (es fs : List Event), results es = [] ∧ results fs = [] ∧
      p.drain = ([.record operation false line], .error .eio) ∧
      device.proc.Talk (conv.map (Message.leftAct (transit alter))) es p ∧
      server.proc.Talk (conv.map (Message.rightAct (transit alter))) fs (.ret (.error ()))

section Altered

variable (r : Device.Readings) (time : Int64) (operation : ℕ) {op : TransferOperation}
  (hfits : op.Fits) (haltered : Altered alter operation op) {id : ℕ} (hid : id + 1 < 2 ^ 16)
  (ids : Device.PacketIds) {state : UInt32} (hstate : state.toNat = id)

include hfits haltered hid hstate

/-- The device reports that a download is not the expected one. -/
theorem givesUpOn_down (h : op.IsDown) :
    GivesUpOn alter operation (Device.runOperation sha r operation ids)
      (Server.runOperation sha time operation op state) := by
  have hreport := ackDown_ne_expectedAck sha op (sha (arrived alter operation op.payload))
  obtain ⟨p, line, hdrain, hdevice⟩ := Device.talk_runOperation_down sha r operation hfits h hid ids
    (by rw [length_arrived, Device.length_payload]) haltered
  have hserver := Server.talk_runOperation_down sha time operation hfits h
    (length_ackDown op.order false (sha (arrived alter operation op.payload)))
    (fun heq ↦ hreport ((strEq_iff (zero_notMem_ackDown _ _ _)
      (zero_notMem_expectedAck sha op)).mp heq)) hstate hid ids.next.toNat_lt
  refine ⟨alteredDownConv sha operation op id ids.next.toNat
    (Device.ackDown op.order false (hashToHex (sha (arrived alter operation op.payload)))), p, line,
    ?es, ?fs, ?nothing, ?nothing', hdrain, ?left, ?right⟩
  case left =>
    simp only [alteredDownConv, List.map_cons, List.map_nil, Message.leftAct,
      map_transit_publishItems, map_transit_pubackItems, map_transit_dataItems]
    exact hdevice
  case right =>
    simp only [alteredDownConv, List.map_cons, List.map_nil, Message.rightAct,
      map_transit_publishItems, map_transit_pubackItems]
    exact hserver
  case nothing => rfl
  case nothing' => rfl

/-- The server does not acknowledge an upload that is not the expected one. -/
theorem givesUpOn_up (h : ¬ op.IsDown) :
    GivesUpOn alter operation (Device.runOperation sha r operation ids)
      (Server.runOperation sha time operation op state) := by
  obtain ⟨p, line, hdrain, hdevice⟩ := Device.talk_runOperation_up sha r operation hfits h
    (Nat.lt_of_succ_lt hid) ids
  have hdata : PublishFits topicUp ids.next.toNat (arrived alter operation op.payload).length := by
    rw [length_arrived, Device.length_payload]
    exact Device.fits_up hfits h ids.next.toNat_lt
  have hserver := Server.talk_runOperation_up sha time operation h haltered hdata hstate
    (Nat.lt_of_succ_lt hid)
  refine ⟨alteredUpConv sha operation op id ids.next.toNat, p, line, ?es, ?fs, ?nothing, ?nothing',
    hdrain, ?left, ?right⟩
  case left =>
    simp only [alteredUpConv, List.map_cons, List.map_nil, Message.leftAct,
      map_transit_publishItems]
    exact hdevice
  case right =>
    simp only [alteredUpConv, List.map_cons, List.map_nil, Message.rightAct,
      map_transit_pubackItems, map_transit_dataItems]
    exact hserver
  case nothing => rfl
  case nothing' => rfl

/-- **No altered operation is completed.** -/
theorem givesUpOn_altered :
    GivesUpOn alter operation (Device.runOperation sha r operation ids)
      (Server.runOperation sha time operation op state) := by
  by_cases h : op.IsDown
  · exact givesUpOn_down sha r time operation hfits haltered hid ids hstate h
  · exact givesUpOn_up sha r time operation hfits haltered hid ids hstate h

end Altered

/-- **A run in which both parties give up** at the first altered operation. -/
theorem reaches_failure {pre rest : List TransferOperation} {op : TransferOperation}
    (hlen : (pre ++ op :: rest).length ≤ Device.maxOperations)
    (hfits : ∀ o ∈ pre ++ op :: rest, o.Fits) (hintact : Intact alter 0 pre)
    (haltered : Altered alter pre.length op) :
    ∃ t, Net.Reaches (streams alter) (session sha readings elapsed next (pre ++ op :: rest)) t ∧
      GaveUp sha readings elapsed next (pre ++ op :: rest) pre.length t := by
  have hcount : (pre ++ op :: rest).length = pre.length + (rest.length + 1) := by
    rw [List.length_append, List.length_cons]
  have hid : 101 + 2 * pre.length + 1 < 2 ^ 16 := by
    have : (pre ++ op :: rest).length ≤ 4096 := hlen
    omega
  have hpre : ∀ o ∈ pre, o.Fits := fun o ho ↦ hfits o (List.mem_append_left _ ho)
  obtain ⟨last, hdevice⟩ := Device.talk_runOperations sha readings pre (rest.length + 1) 0 101 hpre
    (by omega) ⟨(next + 1).toNat, next + 2⟩
  obtain ⟨state, hstate, hserver⟩ := Server.talk_runOperations sha elapsed readings pre
    (op :: rest) 0
    hpre (show (101 : UInt32).toNat = 101 from rfl) (by omega) (next + 2)
  rw [Nat.zero_add] at hdevice hserver
  obtain ⟨conv, p, line, es, fs, hes, hfs, hdrain, hleft, hright⟩ :=
    givesUpOn_altered sha (readings pre.length) (elapsed pre.length) pre.length
      (hfits op (List.mem_append_right _ (List.mem_cons_self ..))) haltered hid
      ⟨last, Device.nextAfter (next + 2) pre.length⟩ hstate
  have hpos : (pre ++ op :: rest).length ≠ 0 := by omega
  have hp := ((Device.talk_opening sha readings next hpos hlen).trans (hcount ▸ hdevice)).trans
    (Io.talk_bind_left hleft)
  have hq := (Server.talk_opening sha elapsed _ hlen next).trans (Io.talk_bind_error
    (hserver.trans (Io.talk_bind_error hright)))
  rw [← leftActs_openingConv alter, ← leftActs_operationsConv sha readings pre 0 101 _ hintact,
    ← List.map_append, ← List.map_append] at hp
  rw [← rightActs_openingConv alter, ← rightActs_operationsConv sha readings pre 0 101 _ hintact,
    ← List.map_append, ← List.map_append, ← List.append_assoc] at hq
  have hend : (p.bind (Io.andThen fun ids ↦ Device.runOperations sha readings rest.length
      (pre.length + 1) ids)).drain = ([.record pre.length false line], .error .eio) := by
    rw [Proc.drain_bind, hdrain]
    rfl
  have hlink : (streams alter).closes = true := rfl
  obtain ⟨i, hrun⟩ := Net.reaches_of_talk_drain hlink hp hq hend
  obtain ⟨-, -, hdresults⟩ := device_operationsLog sha readings pre 0 101 (next + 2)
  obtain ⟨-, -, hsresults⟩ := server_operationsLog sha readings elapsed pre 0 101 (next + 2)
  refine ⟨_, hrun, ⟨.eio, rfl⟩, rfl, ⟨line, ?_⟩, ?_⟩
  · simp only [results_append, hdresults, hes, List.take_left, List.append_nil]
    rfl
  · simp only [results_append, hsresults, hfs, List.take_left, List.append_nil]
    rfl

end Plan

/-! ## Every session -/

/-- A reachable state of a session over `count` operations whose payloads are not altered. -/
structure Orderly (count : ℕ) (u : SessionNet) : Prop where
  /-- Neither party waits on an empty stream while the other has finished or waits as well. -/
  not_blocked : ¬ u.Blocked
  /-- Every packet that was read has the type, the topic and the packet id that was due. -/
  asExpected : ∀ e ∈ u.leftLog ++ u.rightLog, AsExpected e
  /-- The device takes the operations in the order of the plan. -/
  device_order : entered u.leftLog <+: List.range count
  /-- So does the server. -/
  server_order : entered u.rightLog <+: List.range count

variable {sha readings elapsed}

theorem coherent_session (next : UInt16) (ops : List TransferOperation) :
    (session sha readings elapsed next ops).Coherent := Net.coherent_init _ _

theorem Succeeded.done {next : UInt16} {ops : List TransferOperation} {t : SessionNet}
    (ht : Succeeded sha readings elapsed next ops t) : t.Done := by
  constructor
  · rw [ht.device]; trivial
  · rw [ht.server]; trivial

theorem GaveUp.done {next : UInt16} {ops : List TransferOperation} {j : ℕ} {t : SessionNet}
    (ht : GaveUp sha readings elapsed next ops j t) : t.Done := by
  obtain ⟨e, he⟩ := ht.device
  constructor
  · rw [he]; trivial
  · rw [ht.server]; trivial

/-- Every reachable state of a session that can succeed is orderly. -/
theorem Succeeded.orderly {next : UInt16} {ops : List TransferOperation} {t u : SessionNet}
    (ht : Succeeded sha readings elapsed next ops t)
    (h : Net.Reaches (streams alter).keptOpen (session sha readings elapsed next ops) t)
    (hu : Net.Reaches (streams alter) (session sha readings elapsed next ops) u) :
    Orderly ops.length u := by
  have hbegins := Net.logs_prefix_final (coherent_session next ops) h.of_keptOpen ht.done hu
  refine ⟨Net.not_blocked (coherent_session next ops) h ht.done hu, ?_, ?_, ?_⟩
  · intro e he
    refine ht.asExpected e (List.mem_append.mpr ?_)
    exact (List.mem_append.mp he).imp (hbegins.1.subset ·) (hbegins.2.subset ·)
  · rw [← ht.device_entered]
    exact hbegins.1.filterMap entry
  · rw [← ht.server_entered]
    exact hbegins.2.filterMap entry

/-- No party ever records the operation at which both give up as a success. -/
theorem GaveUp.not_recorded {next : UInt16} {ops : List TransferOperation} {j : ℕ}
    {t u : SessionNet}
    (ht : GaveUp sha readings elapsed next ops j t)
    (h : Net.Reaches (streams alter) (session sha readings elapsed next ops) t)
    (hu : Net.Reaches (streams alter) (session sha readings elapsed next ops) u) (line : Bytes) :
    (j, true, line) ∉ results u.leftLog ∧ (j, true, line) ∉ results u.rightLog := by
  have hbegins := Net.logs_prefix_final (coherent_session next ops) h ht.done hu
  have htake : 0 + (ops.take j).length ≤ j := by rw [List.length_take]; omega
  constructor
  · intro hmem
    obtain ⟨line', hresults⟩ := ht.device_results
    have hmem' := (hbegins.1.filterMap result).subset hmem
    rw [← results, hresults] at hmem'
    rcases List.mem_append.mp hmem' with hmem' | hmem'
    · exact absurd (lt_of_mem_deviceSuccesses sha readings hmem') (by omega)
    · simp at hmem'
  · intro hmem
    have hmem' := (hbegins.2.filterMap result).subset hmem
    rw [← results, ht.server_results] at hmem'
    exact absurd (lt_of_mem_serverSuccesses sha elapsed hmem') (by omega)

/-- **Every transfer session.**  When no data payload is altered, the session always ends with every
operation recorded as a success by both parties, and is orderly on the way there.  Otherwise it
always ends at the first altered operation, which neither party ever records as a success. -/
theorem transfer_session (sha : Bytes → Digest) (readings : ℕ → Device.Readings)
    (elapsed : ℕ → Int64) (next : UInt16) (alter : Alteration) {ops : List TransferOperation}
    (hne : ops ≠ []) (hlen : ops.length ≤ Device.maxOperations) (hfits : ∀ op ∈ ops, op.Fits) :
    (Intact alter 0 ops →
      ∃ t, Net.AlwaysEnds (streams alter) (session sha readings elapsed next ops) t ∧
        Succeeded sha readings elapsed next ops t ∧
        ∀ u, Net.Reaches (streams alter) (session sha readings elapsed next ops) u →
          Orderly ops.length u) ∧
      ∀ j op, ops[j]? = some op → Intact alter 0 (ops.take j) → Altered alter j op →
        ∃ t, Net.AlwaysEnds (streams alter) (session sha readings elapsed next ops) t ∧
          GaveUp sha readings elapsed next ops j t ∧
          ∀ u, Net.Reaches (streams alter) (session sha readings elapsed next ops) u →
            ∀ line, (j, true, line) ∉ results u.leftLog ∧ (j, true, line) ∉ results u.rightLog := by
  constructor
  · intro hintact
    obtain ⟨t, h, ht⟩ := reaches_success sha readings elapsed next hne hlen hfits hintact
    exact ⟨t, Net.alwaysEnds (coherent_session next ops) h.of_keptOpen ht.done, ht,
      fun u hu ↦ ht.orderly h hu⟩
  · intro j op hop hintact haltered
    obtain ⟨hj, rfl⟩ := List.getElem?_eq_some_iff.mp hop
    have hsplit : ops.take j ++ ops[j] :: ops.drop (j + 1) = ops := by
      rw [List.getElem_cons_drop, List.take_append_drop]
    have htake : (ops.take j).length = j := List.length_take_of_le hj.le
    have hlen' : (ops.take j ++ ops[j] :: ops.drop (j + 1)).length ≤ Device.maxOperations := by
      rwa [hsplit]
    have hfits' : ∀ o ∈ ops.take j ++ ops[j] :: ops.drop (j + 1), o.Fits := by rwa [hsplit]
    have haltered' : Altered alter (ops.take j).length ops[j] := by rwa [htake]
    have hfailure := reaches_failure sha readings elapsed next hlen' hfits' hintact haltered'
    rw [hsplit, htake] at hfailure
    obtain ⟨t, h, ht⟩ := hfailure
    exact ⟨t, Net.alwaysEnds (coherent_session next ops) h ht.done, ht,
      fun u hu ↦ ht.not_recorded h hu⟩

/-- A download of three bytes and an upload of five. -/
def twoOperations : List TransferOperation :=
  [⟨1, ascii "server_to_device", 3, 7⟩, ⟨2, ascii "device_to_server", 5, 9⟩]

/-- SHA-256 of the payload of the first operation, and of that of the second. -/
def twoDigests (payload : Bytes) : Digest := fun i ↦
  if payload = pattern 7 3 then
    [0x64, 0x76, 0x74, 0xA2, 0x96, 0x19, 0x74, 0x42, 0xF5, 0x18, 0xBC, 0xCA, 0x32, 0x3E, 0xC6, 0x05,
      0xDD, 0x8D, 0x09, 0x8B, 0x2D, 0x4F, 0x22, 0xEE, 0x1F, 0xDC, 0xDD, 0x2B, 0xB7, 0x53, 0xA1,
      0x89].getD i 0
  else
    [0x61, 0x5C, 0xA7, 0x7B, 0x6E, 0xD6, 0xEB, 0x33, 0xFA, 0x80, 0x60, 0xE6, 0xD9, 0xE0, 0xBB, 0x3F,
      0xB4, 0x7F, 0x9F, 0xF8, 0xCE, 0x00, 0xAF, 0x56, 0x4C, 0xAF, 0xF3, 0xDE, 0x66, 0x75, 0x9B,
      0x38].getD i 0

/-- A board without counters. -/
def noReadings : Device.Readings where
  cpuStart := ⟨0, 0, 0, false⟩
  cpuEnd := ⟨0, 0, 0, false⟩
  dwt := ⟨0, fun _ ↦ 0, false, false⟩
  cycleHz := 64000000
  heap := fun _ ↦ 0
  l2cap := fun _ ↦ 0
  l2capTxWaitUs := 0
  l2capRxOverflows := 0
  dataUs := 1000
  ackUs := 500
  endToEndUs := 1500

/-- The first byte of the upload arrives with one bit changed. -/
def oneBit : Alteration := fun operation offset b ↦
  if operation = 1 ∧ offset = 0 then b ^^^ 1 else b

/-- The two operations over faithful streams, and over streams that change one bit of the upload. -/
theorem transfer_session_two :
    (∃ t, Net.AlwaysEnds (streams fun _ _ b ↦ b)
        (session twoDigests (fun _ ↦ noReadings) (fun _ ↦ 2000) 1 twoOperations) t ∧
      Succeeded twoDigests (fun _ ↦ noReadings) (fun _ ↦ 2000) 1 twoOperations t) ∧
    ∃ t, Net.AlwaysEnds (streams oneBit)
        (session twoDigests (fun _ ↦ noReadings) (fun _ ↦ 2000) 1 twoOperations) t ∧
      GaveUp twoDigests (fun _ ↦ noReadings) (fun _ ↦ 2000) 1 twoOperations 1 t := by
  have hfits : ∀ op ∈ twoOperations, op.Fits := by
    intro op hop
    rcases List.mem_pair.mp hop with rfl | rfl
    · exact ⟨by decide, by decide⟩
    · exact ⟨by decide, by decide⟩
  have hne : twoOperations ≠ [] := List.cons_ne_nil _ _
  have hlen : twoOperations.length ≤ Device.maxOperations := by decide
  have hgood := (transfer_session twoDigests (fun _ ↦ noReadings) (fun _ ↦ 2000) 1 (fun _ _ b ↦ b)
    hne hlen hfits).1
  have hbad := (transfer_session twoDigests (fun _ ↦ noReadings) (fun _ ↦ 2000) 1 oneBit
    hne hlen hfits).2
  constructor
  · obtain ⟨t, hends, ht, -⟩ := hgood fun i op _ h ↦ h (arrived_unaltered _ _)
    exact ⟨t, hends, ht⟩
  · have hfirst : Intact oneBit 0 (twoOperations.take 1) := by
      intro i op hop
      cases i with
      | zero =>
          obtain rfl : _ = op := Option.some.inj hop
          exact not_not.mpr rfl
      | succ i => exact absurd hop (by simp [twoOperations])
    have hsecond : Altered oneBit 1 ⟨2, ascii "device_to_server", 5, 9⟩ := by
      intro h
      exact absurd (congrArg List.head? h) (by decide)
    obtain ⟨t, hends, ht, -⟩ := hbad 1 _ rfl hfirst hsecond
    exact ⟨t, hends, ht⟩

end PeripheralBench.Transfer

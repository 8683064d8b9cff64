import PeripheralBench.Codec.Delimited
import PeripheralBench.Runner.BenchLine
import PeripheralBench.Text.Utf8
import PeripheralBench.Transfer.Plan

/-!
# The texts of both servers

The transfers of a round are driven by one of two programs: the wolfSSL server, which loads the plan
from the file with comma-separated values, or the controller, which formats its texts with no
buffers and no limits.  The board knows nothing of this.

For every plan of at most as many operations as the board allows, both print the same texts, none is
cut off by a buffer on its way, and each side reads what the other one has printed (`codecs_agree`).
-/

open PeripheralBench.Text PeripheralBench.Mqtt PeripheralBench.Codec PeripheralBench.Runner

namespace PeripheralBench.Transfer

namespace Controller

/-! ## The texts of the controller -/

/-- `f"BEGIN {len(plan['operations'])}"`. -/
def beginText (operationCount : ℕ) : Bytes := ascii "BEGIN " ++ decimal operationCount

/-- `'DOWN' if direction == 'server_to_device' else 'UP'`. -/
def commandWord (op : TransferOperation) : Bytes :=
  if op.direction = ascii "server_to_device" then ascii "DOWN" else ascii "UP"

/-- `command`. -/
def command (sha : Bytes → Digest) (op : TransferOperation) : Bytes :=
  commandWord op ++ ascii " " ++ decimal op.order.toNat ++ ascii " " ++
    decimal op.payloadBytes.toNat
    ++ ascii " " ++ decimal op.payloadSeed.toNat ++ ascii " " ++ op.hash sha

/-- The verdict on an upload: `f"ACK_UP {sequence} {int(valid)} {actual}"`. -/
def ackUp (op : TransferOperation) (valid : Bool) (actual : Bytes) : Bytes :=
  ascii "ACK_UP " ++ decimal op.order.toNat ++ ascii " " ++ Device.flag valid ++ ascii " " ++ actual

/-- A text of ASCII characters. -/
def chars (text : Bytes) : Str := text.map fun b ↦ Char.ofNat b.toNat

/-- `f"ACK_DOWN {sequence} 1 {expected}"`. -/
def expectedAck (sha : Bytes → Digest) (op : TransferOperation) : Bytes :=
  ascii "ACK_DOWN " ++ decimal op.order.toNat ++ ascii " 1 " ++ op.hash sha

/-- `valid` of a download, from the report of the board. -/
def acceptsAck (sha : Bytes → Digest) (op : TransferOperation) (payload : Bytes) : Bool :=
  (chars (expectedAck sha op)).isPrefixOf (Utf8.decode payload)

/-- `actual` of a download. -/
def actualHash (payload : Bytes) : Str :=
  let words := Str.split (Utf8.decode payload)
  if 4 ≤ words.length then words.getD 3 [] else []

end Controller

/-! ## Reading texts -/

/-- What is in a buffer of the board when a text has been received in it and ended. -/
def received (buffer text : Bytes) : Bytes := Device.terminate (memcpy buffer 0 text) text.length

theorem cstr_received (buffer : Bytes) {text : Bytes} (h : 0 ∉ text) :
    cstr (received buffer text) = text := cstr_terminate buffer h

/-- A number and the space behind it. -/
theorem delimited_number : Delimited fun n : UInt32 ↦ decimal n.toNat ++ [32] :=
  .of_decode (fun text ↦ (Scan.unsigned text).map Prod.fst) fun n rest ↦ by
    rw [List.append_assoc, List.singleton_append, scan_number]
    rfl

/-- A truth value and the space behind it. -/
theorem delimited_flag : Delimited fun valid : Bool ↦ Device.flag valid ++ [32] :=
  .of_decode (fun text ↦ some (decide (text.head? = some 49))) fun valid rest ↦ by
    cases valid <;> rfl

/-- The report begins with the expected text only if it is that text. -/
theorem expectedAck_prefix_iff (sha : Bytes → Digest) (op : TransferOperation) (order : UInt32)
    (valid : Bool) (digest : Digest) :
    Controller.expectedAck sha op <+: Device.ackDown order valid (hashToHex digest) ↔
      order = op.order ∧ valid = true ∧ hashToHex digest = op.hash sha := by
  have hexpected : Controller.expectedAck sha op = ascii "ACK_DOWN " ++
      ((decimal op.order.toNat ++ [32]) ++ ((Device.flag true ++ [32]) ++ op.hash sha)) := by
    simp only [Controller.expectedAck, List.append_assoc]
    rfl
  have hack : Device.ackDown order valid (hashToHex digest) = ascii "ACK_DOWN " ++
      ((decimal order.toNat ++ [32]) ++ ((Device.flag valid ++ [32]) ++ hashToHex digest)) := by
    rw [ackDown_eq]
    simp only [List.append_assoc]
    cases valid <;> rfl
  rw [hexpected, hack]
  constructor
  · rintro ⟨rest, h⟩
    have hfields : decimal op.order.toNat ++ [32] ++ (Device.flag true ++ [32] ++
        (op.hash sha ++ rest)) =
        decimal order.toNat ++ [32] ++ (Device.flag valid ++ [32] ++ hashToHex digest) := by
      simpa only [List.append_assoc, List.append_cancel_left_eq] using h
    obtain ⟨horder, hfields⟩ := delimited_number hfields
    obtain ⟨hvalid, hhash⟩ := delimited_flag hfields
    have hlength : (op.hash sha).length = (hashToHex digest).length := by
      rw [length_hash, length_hashToHex]
    refine ⟨horder.symm, hvalid.symm, ?_⟩
    exact (List.append_inj (hhash.trans (List.append_nil _).symm) hlength).1.symm
  · rintro ⟨rfl, rfl, hhash⟩
    rw [hhash]

/-! ## Characters -/

/-- The byte is printed, and is ASCII. -/
def IsPrinted (b : UInt8) : Prop := 32 < b.toNat ∧ b.toNat < 0x80

theorem isPrinted_decimal {n : ℕ} : ∀ b ∈ decimal n, IsPrinted b := by
  intro b hb
  have hdigit := isDigit_of_mem_decimal hb
  rw [isDigit, Bool.and_eq_true, decide_eq_true_iff, decide_eq_true_iff] at hdigit
  exact ⟨by omega, by omega⟩

theorem isPrinted_hash {digest : Digest} : ∀ b ∈ hashToHex digest, IsPrinted b := by
  have hall : ∀ b ∈ hexDigits, 32 < b.toNat ∧ b.toNat < 0x80 :=
    List.forall_iff_forall_mem.mp (by decide)
  exact fun b hb ↦ hall b (mem_hexDigits_of_mem hb)

theorem toNat_ofNat_toNat (b : UInt8) : (Char.ofNat b.toNat).toNat = b.toNat := by
  have hvalid : b.toNat.isValidChar := .inl (b.toNat_lt.trans (by norm_num))
  rw [Char.ofNat, dif_pos hvalid]
  rfl

theorem isSpace_ofNat {b : UInt8} (h : IsPrinted b) : Str.isSpace (Char.ofNat b.toNat) = false := by
  obtain ⟨hlow, hhigh⟩ := h
  simp only [Str.isSpace, toNat_ofNat_toNat, Bool.or_eq_false_iff, Bool.and_eq_false_iff,
    decide_eq_false_iff_not]
  omega

theorem chars_injective : Function.Injective fun b : UInt8 ↦ Char.ofNat b.toNat := by
  intro a b h
  have htoNat := congrArg Char.toNat h
  simp only [toNat_ofNat_toNat] at htoNat
  exact UInt8.toNat_inj.mp htoNat

theorem chars_append (text rest : Bytes) : Controller.chars (text ++ 32 :: rest) =
    Controller.chars text ++ ' ' :: Controller.chars rest := by
  rw [Controller.chars, List.map_append]
  rfl

/-- The first word of a text. -/
theorem split_chars {word : Bytes} (hne : word ≠ []) (h : ∀ b ∈ word, IsPrinted b) (rest : Bytes) :
    Str.split (Controller.chars (word ++ 32 :: rest)) =
      Controller.chars word :: Str.split (Controller.chars rest) := by
  have hspace : ∀ c ∈ Controller.chars word, Str.isSpace c = false := by
    intro c hc
    obtain ⟨b, hb, rfl⟩ := List.mem_map.mp hc
    exact isSpace_ofNat (h b hb)
  have hword : Controller.chars word ≠ [] := fun hnil ↦ hne (List.map_eq_nil_iff.mp hnil)
  rw [Str.split, chars_append, List.splitOnP_append_cons_of_forall_mem hspace _ rfl,
    List.filter_cons_of_pos]
  · rfl
  · exact decide_eq_true hword

/-- The last word of a text. -/
theorem split_chars_last {word : Bytes} (hne : word ≠ []) (h : ∀ b ∈ word, IsPrinted b) :
    Str.split (Controller.chars word) = [Controller.chars word] := by
  have hspace : ∀ c ∈ Controller.chars word, Str.isSpace c = false := by
    intro c hc
    obtain ⟨b, hb, rfl⟩ := List.mem_map.mp hc
    exact isSpace_ofNat (h b hb)
  have hword : Controller.chars word ≠ [] := fun hnil ↦ hne (List.map_eq_nil_iff.mp hnil)
  rw [Str.split, List.splitOnP_eq_singleton hspace, List.filter_cons_of_pos]
  · rfl
  · exact decide_eq_true hword

/-! ## Reports, as the controller reads them -/

section Reports

variable (sha : Bytes → Digest) (op : TransferOperation) (order : UInt32) (valid : Bool)
  (digest : Digest)

theorem decode_ackDown : Utf8.decode (Device.ackDown order valid (hashToHex digest)) =
    Controller.chars (Device.ackDown order valid (hashToHex digest)) := by
  refine Utf8.decode_of_lt fun b hb ↦ ?_
  rw [ackDown_eq] at hb
  simp only [List.mem_append, List.mem_cons] at hb
  have htag : ∀ b ∈ ascii "ACK_DOWN ", b.toNat < 0x80 := List.forall_iff_forall_mem.mp (by decide)
  rcases hb with hb | hb | rfl | hb | rfl | hb
  · exact htag b hb
  · exact (isPrinted_decimal b hb).2
  · decide
  · rw [hb]
    cases valid <;> decide
  · decide
  · exact (isPrinted_hash b hb).2

theorem acceptsAck_iff :
    Controller.acceptsAck sha op (Device.ackDown order valid (hashToHex digest)) = true ↔
      order = op.order ∧ valid = true ∧ hashToHex digest = op.hash sha := by
  rw [Controller.acceptsAck, decode_ackDown, List.isPrefixOf_iff_prefix, Controller.chars,
    Controller.chars, List.prefix_map_iff_of_injective chars_injective, expectedAck_prefix_iff]

theorem actualHash_ackDown :
    Controller.actualHash (Device.ackDown order valid (hashToHex digest)) =
      Controller.chars (hashToHex digest) := by
  have hack : Device.ackDown order valid (hashToHex digest) = ascii "ACK_DOWN" ++ 32 ::
      (decimal order.toNat ++ 32 :: (Device.flag valid ++ 32 :: hashToHex digest)) := by
    rw [ackDown_eq]
    cases valid <;> rfl
  have htag : ∀ b ∈ ascii "ACK_DOWN", 32 < b.toNat ∧ b.toNat < 0x80 :=
    List.forall_iff_forall_mem.mp (by decide)
  have hflag : Device.flag valid = decimal valid.toNat := rfl
  have hwords : Str.split (Utf8.decode (Device.ackDown order valid (hashToHex digest))) =
      [Controller.chars (ascii "ACK_DOWN"), Controller.chars (decimal order.toNat),
        Controller.chars (Device.flag valid), Controller.chars (hashToHex digest)] := by
    rw [decode_ackDown, hack, hflag, split_chars (by decide) htag,
      split_chars (decimal_ne_nil _) isPrinted_decimal,
      split_chars (decimal_ne_nil _) isPrinted_decimal,
      split_chars_last (hash_ne_nil digest) isPrinted_hash]
  simp only [Controller.actualHash, hwords]
  rfl

theorem expectedAck_controller : Controller.expectedAck sha op = Server.expectedAck sha op := by
  rw [expectedAck_eq, Controller.expectedAck]
  simp only [List.append_assoc]
  rfl

/-- The same report, as the wolfSSL server compares it. -/
theorem strEq_expectedAck_iff :
    strEq (Device.ackDown order valid (hashToHex digest)) (Server.expectedAck sha op) = true ↔
      order = op.order ∧ valid = true ∧ hashToHex digest = op.hash sha := by
  rw [strEq_iff (zero_notMem_ackDown _ _ _) (zero_notMem_expectedAck sha op)]
  constructor
  · intro h
    refine (expectedAck_prefix_iff sha op order valid digest).mp ?_
    rw [h, expectedAck_controller]
  · rintro ⟨rfl, rfl, hhash⟩
    rw [hhash, ackDown_eq_expectedAck]

end Reports

/-! ## Both servers and the board -/

/-- What opens a round: both servers print it, it fits the buffers of both sides, and the board
reads the number of operations and goes on. -/
structure BeginAgrees (operationCount : ℕ) : Prop where
  controller : Controller.beginText operationCount = ascii "BEGIN " ++ decimal operationCount
  server : Server.beginText operationCount = ascii "BEGIN " ++ decimal operationCount
  length_lt : (ascii "BEGIN " ++ decimal operationCount).length < 64
  scanned : ∀ buffer, ∃ count : UInt32,
    Device.scanBegin.run (received buffer (ascii "BEGIN " ++ decimal operationCount)) = some count ∧
      count.toNat = operationCount ∧ count.toNat ≠ 0 ∧ count.toNat ≤ Device.maxOperations

/-- The command for an operation: both servers print it whole, and the board reads its fields. -/
structure CommandAgrees (sha : Bytes → Digest) (op : TransferOperation) : Prop where
  server : Server.command sha op = Controller.command sha op
  length_lt : (Controller.command sha op).length < 192
  scanned : ∀ buffer, Device.scanCommand.run (received buffer (Controller.command sha op)) =
    some ⟨Controller.commandWord op, op.order, op.payloadBytes, op.payloadSeed, op.hash sha⟩
  direction : Controller.commandWord op = ascii "DOWN" ∨ Controller.commandWord op = ascii "UP"

/-- The verdict on an upload: the wolfSSL server prints the positive one, the controller any, and
the board reads its fields. -/
structure AckUpAgrees (sha : Bytes → Digest) (op : TransferOperation) : Prop where
  server : Server.ackUp sha op = Controller.ackUp op true (op.hash sha)
  length_lt : ∀ valid digest, (Controller.ackUp op valid (hashToHex digest)).length < 192
  scanned : ∀ valid digest buffer,
    Device.scanAckUp.run (received buffer (Controller.ackUp op valid (hashToHex digest))) =
      some (op.order, UInt32.ofNat valid.toNat, hashToHex digest)

/-- The report on a download, for whatever the board has to report: it is not cut off, it fits the
buffer of the server, and it is what either of the servers expects if and only if its fields are. -/
structure AckDownAgrees (sha : Bytes → Digest) (op : TransferOperation) : Prop where
  printed : ∀ order valid digest, Device.ackDown order valid (hashToHex digest) =
    ascii "ACK_DOWN " ++ decimal order.toNat ++ ascii " " ++ Device.flag valid ++ ascii " " ++
      hashToHex digest
  length_lt : ∀ order valid digest, (Device.ackDown order valid (hashToHex digest)).length < 128
  expected : Server.expectedAck sha op = Controller.expectedAck sha op
  server : ∀ order valid digest,
    strEq (Device.ackDown order valid (hashToHex digest)) (Server.expectedAck sha op) = true ↔
      order = op.order ∧ valid = true ∧ hashToHex digest = op.hash sha
  controller : ∀ order valid digest,
    Controller.acceptsAck sha op (Device.ackDown order valid (hashToHex digest)) = true ↔
      order = op.order ∧ valid = true ∧ hashToHex digest = op.hash sha
  actual : ∀ order valid digest,
    Controller.actualHash (Device.ackDown order valid (hashToHex digest)) =
      Controller.chars (hashToHex digest)

section Agreement

variable (sha : Bytes → Digest) {op : TransferOperation}

/-- An operation whose numbers have 32 bits. -/
structure Operation32 where
  order : UInt32
  direction : Direction
  payloadBytes : UInt32
  payloadSeed : UInt32

namespace Operation32

/-- What is written into the plan. -/
def planned (op : Operation32) : PlanOperation where
  order := op.order.toNat
  direction := op.direction
  payloadBytes := op.payloadBytes.toNat
  payloadSeed := op.payloadSeed.toNat

/-- The operation, as the server has it. -/
def operation (op : Operation32) : TransferOperation where
  order := op.order
  direction := op.direction.text
  payloadBytes := op.payloadBytes
  payloadSeed := op.payloadSeed

theorem loaded_planned (op : Operation32) : Server.loaded op.planned = op.operation := by
  rw [Server.loaded, planned, operation, Server.cut_toNat, Server.cut_toNat, Server.cut_toNat]

end Operation32

theorem beginAgrees {operationCount : ℕ} (hne : operationCount ≠ 0)
    (hle : operationCount ≤ Device.maxOperations) : BeginAgrees operationCount := by
  have hlt : operationCount < 2 ^ 32 := hle.trans_lt (by decide)
  have hlength : (decimal operationCount).length ≤ 10 :=
    length_decimal_le (by norm_num) (hlt.trans (by norm_num))
  have htag : (ascii "BEGIN ").length = 6 := rfl
  have hserver : Server.beginText operationCount = ascii "BEGIN " ++ decimal operationCount :=
    beginText_eq hlt
  have hcount : (UInt32.ofNat operationCount).toNat = operationCount :=
    UInt32.toNat_ofNat_of_lt' hlt
  refine ⟨rfl, hserver, ?_, fun buffer ↦ ⟨_, ?_, hcount, hcount.symm ▸ hne, hcount.symm ▸ hle⟩⟩
  · rw [List.length_append, htag]
    omega
  · rw [← hserver]
    exact scanBegin_beginText hlt (cstr_received buffer (zero_notMem_beginText hlt))

theorem commandWord_eq (op : Operation32) :
    Controller.commandWord op.operation = Server.commandWord op.operation := by
  have hdown : op.direction.text = ascii "server_to_device" ↔ op.operation.IsDown := by
    change _ ↔ strEq op.direction.text _ = true
    cases op.direction <;> decide
  exact if_congr hdown rfl rfl

theorem commandAgrees (op : Operation32) : CommandAgrees sha op.operation := by
  have hword := commandWord_eq op
  generalize op.operation = op at hword ⊢
  have hserver : Server.command sha op = Controller.command sha op := by
    rw [command_eq, Controller.command, hword]
    simp only [List.append_assoc]
    rfl
  refine ⟨hserver, hserver ▸ length_command sha op, fun buffer ↦ ?_, ?_⟩
  · rw [← hserver, hword]
    exact scanCommand_command sha op (cstr_received buffer (zero_notMem_command sha op))
  · rw [Controller.commandWord]
    split
    · exact .inl rfl
    · exact .inr rfl

theorem ackUp_pieces (op : TransferOperation) (valid : Bool) (digest : Digest) :
    Controller.ackUp op valid (hashToHex digest) =
    ascii "ACK_UP" ++ 32 :: (decimal op.order.toNat ++
      32 :: (decimal valid.toNat ++ 32 :: hashToHex digest)) := by
  simp only [Controller.ackUp, List.append_assoc]
  rfl

/-- The verdict is read back. -/
theorem scanAckUp_controller (op : TransferOperation) (valid : Bool) (digest : Digest)
    {buffer : Bytes} (h : cstr buffer = Controller.ackUp op valid (hashToHex digest)) :
    Device.scanAckUp.run buffer = some (op.order, UInt32.ofNat valid.toNat, hashToHex digest) := by
  have hflag : decimal valid.toNat = decimal (UInt32.ofNat valid.toNat).toNat := by
    cases valid <;> rfl
  rw [ackUp_pieces, hflag] at h
  refine Scan.run_eq h (?_ : _ = some (_, []))
  rw [Device.scanAckUp, Scan.bind_of_eq (Scan.literal_append _ _),
    Scan.bind_of_eq (scan_space_number op.order _), Scan.bind_of_eq (scan_number op.order _),
    Scan.bind_of_eq (scan_space_number (UInt32.ofNat valid.toNat) _),
    Scan.bind_of_eq (scan_number (UInt32.ofNat valid.toNat) _), Scan.bind_of_eq (scan_space_hash _),
    Scan.bind_of_eq (scan_hash _)]
  rfl

theorem zero_notMem_controllerAckUp (op : TransferOperation) (valid : Bool) (digest : Digest) :
    0 ∉ Controller.ackUp op valid (hashToHex digest) := by
  rw [ackUp_pieces]
  simp only [List.mem_append, List.mem_cons, not_or]
  exact ⟨by decide, by decide, zero_notMem_decimal _, by decide, zero_notMem_decimal _, by decide,
    zero_notMem_hashToHex _⟩

theorem ackUpAgrees : AckUpAgrees sha op := by
  refine ⟨?_, fun valid digest ↦ ?_, fun valid digest buffer ↦ ?_⟩
  · rw [ackUp_eq, TransferOperation.hash, ackUp_pieces]
    rfl
  · have horder := length_decimal_toNat op.order
    have htag : (ascii "ACK_UP").length = 6 := rfl
    have hflag := length_flag valid
    rw [Device.flag] at hflag
    rw [ackUp_pieces]
    simp only [List.length_append, List.length_cons, htag, length_hashToHex]
    omega
  · exact scanAckUp_controller op valid digest
      (cstr_received buffer (zero_notMem_controllerAckUp op valid digest))

theorem ackDownAgrees : AckDownAgrees sha op := by
  refine ⟨fun order valid digest ↦ ?_, fun order valid digest ↦ ?_, ?_,
    strEq_expectedAck_iff sha op, acceptsAck_iff sha op, actualHash_ackDown⟩
  · rw [ackDown_eq]
    simp only [List.append_assoc]
    cases valid <;> rfl
  · have horder := length_decimal_toNat order
    have htag : (ascii "ACK_DOWN ").length = 9 := rfl
    rw [ackDown_eq]
    simp only [List.length_append, List.length_cons, htag, length_hashToHex]
    omega
  · exact (expectedAck_controller sha op).symm

/-- The plan is loaded as it has been written, and all texts of the round agree. -/
theorem codecs_agree (operations : List Operation32) (hne : operations ≠ [])
    (hle : operations.length ≤ Device.maxOperations) :
    Server.loadTransferPlan (csvText (operations.map Operation32.planned)) =
        some (operations.map Operation32.operation) ∧
      BeginAgrees operations.length ∧
      ∀ op ∈ operations, CommandAgrees sha op.operation ∧ AckUpAgrees sha op.operation ∧
        AckDownAgrees sha op.operation := by
  refine ⟨?_, beginAgrees (List.length_pos_of_ne_nil hne).ne' hle, fun op _ ↦
    ⟨commandAgrees sha op, ackUpAgrees sha, ackDownAgrees sha⟩⟩
  have hloaded : Server.loaded ∘ Operation32.planned = Operation32.operation :=
    funext Operation32.loaded_planned
  rw [Server.loadTransferPlan_csvText, if_neg (List.map_eq_nil_iff.not.mpr hne),
    List.map_map, hloaded]

/-- A download, and an upload with the greatest numbers. -/
theorem codecs_agree_two :
    let operations : List Operation32 := [⟨1, .serverToDevice, 16384, 123⟩,
      ⟨4294967295, .deviceToServer, 4294967295, 4294967295⟩]
    Server.loadTransferPlan (csvText (operations.map Operation32.planned)) =
        some (operations.map Operation32.operation) ∧
      BeginAgrees 2 ∧
      ∀ op ∈ operations, CommandAgrees (fun _ _ ↦ 0) op.operation ∧
        AckUpAgrees (fun _ _ ↦ 0) op.operation ∧ AckDownAgrees (fun _ _ ↦ 0) op.operation := by
  intro operations
  exact codecs_agree _ operations (List.cons_ne_nil _ _) (by decide)

end Agreement

end PeripheralBench.Transfer

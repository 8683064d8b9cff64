import PeripheralBench.Transfer.Device
import PeripheralBench.Transfer.Server

/-!
# The texts the two sides exchange

What the server prints the device scans, and the other way round: a command is read back with the
order number, the size, the seed and the digest it was printed from, for all values of these fields
(`scanCommand_command`), and so are the opening text and the verdict on an upload.  A report on a
download is the one the server expects exactly if it says that the payload was valid
(`ackDown_eq_expectedAck`, `ackDown_ne_expectedAck`).
-/

open PeripheralBench.Text PeripheralBench.Mqtt

namespace PeripheralBench.Transfer

variable (sha : Bytes → Digest)

/-! ## Scanning a buffer -/

/-- A buffer into which a text has been read, and which has been terminated, holds that text. -/
theorem cstr_terminate (buffer : Bytes) {payload : Bytes} (hzero : 0 ∉ payload) :
    cstr (Device.terminate (memcpy buffer 0 payload) payload.length) = payload := by
  have hbuffer : memcpy buffer 0 payload = payload ++ buffer.drop payload.length := by
    simp [memcpy]
  have hterm : Device.terminate (memcpy buffer 0 payload) payload.length =
      payload ++ 0 :: buffer.drop (payload.length + 1) := by
    rw [hbuffer, Device.terminate, memcpy, List.take_left, ← List.drop_drop (i := 1),
      List.length_singleton, List.drop_drop]
    simp [List.drop_append]
  rw [hterm, cstr_append_zero hzero]

theorem toNat_lt_pow_ten (n : UInt32) : n.toNat < 10 ^ 10 :=
  n.toNat_lt.trans (by norm_num)

theorem length_decimal_toNat (n : UInt32) : (decimal n.toNat).length ≤ 10 :=
  length_decimal_le (by norm_num) (toNat_lt_pow_ten n)

/-- A number that is followed by a space is scanned whole. -/
theorem scan_number (n : UInt32) (rest : Bytes) :
    Scan.unsigned (decimal n.toNat ++ 32 :: rest) = some (n, 32 :: rest) := by
  rw [Scan.unsigned_decimal n.toNat_lt (by rintro b ⟨⟩; rfl), UInt32.ofNat_toNat]

theorem zero_notMem_decimal (n : ℕ) : 0 ∉ decimal n := by
  intro h
  exact ne_zero_of_isDigit (isDigit_of_mem_decimal h) rfl

theorem exists_decimal_eq (n : ℕ) : ∃ b bs, decimal n = b :: bs ∧ isSpace b = false := by
  obtain ⟨b, bs, hb⟩ := List.exists_cons_of_ne_nil (decimal_ne_nil n)
  exact ⟨b, bs, hb, isSpace_of_isDigit (isDigit_of_mem_decimal (n := n) (by rw [hb]; simp))⟩

/-- The space before a number. -/
theorem scan_space_number (n : UInt32) (rest : Bytes) :
    Scan.space (32 :: (decimal n.toNat ++ rest)) = some ((), decimal n.toNat ++ rest) := by
  obtain ⟨b, bs, hb, hspace⟩ := exists_decimal_eq n.toNat
  rw [hb]
  exact Scan.space_cons hspace

theorem hash_ne_nil (digest : Digest) : hashToHex digest ≠ [] := by
  intro h
  have := length_hashToHex digest
  rw [h] at this
  cases this

/-- The space before a digest. -/
theorem scan_space_hash (digest : Digest) :
    Scan.space (32 :: hashToHex digest) = some ((), hashToHex digest) := by
  obtain ⟨b, bs, hb⟩ := List.exists_cons_of_ne_nil (hash_ne_nil digest)
  have hmem : b ∈ hashToHex digest := by rw [hb]; exact List.mem_cons_self ..
  have hspace : isSpace b = false := isSpace_hashToHex hmem
  rw [hb]
  exact Scan.space_cons hspace

theorem scan_hash (digest : Digest) :
    Scan.word 64 (hashToHex digest) = some (hashToHex digest, []) := by
  have h : Scan.word 64 (hashToHex digest ++ []) = some (hashToHex digest, []) :=
    Scan.word_append (hash_ne_nil digest) (length_hashToHex digest).le
      (fun b hb ↦ isSpace_hashToHex hb) (by rintro b ⟨⟩)
  rwa [List.append_nil] at h

/-! ## Commands -/

theorem length_hash (op : TransferOperation) : (op.hash sha).length = 64 := length_hashToHex _

theorem command_eq (op : TransferOperation) :
    Server.command sha op = Server.commandWord op ++ 32 :: (decimal op.order.toNat ++
      32 :: (decimal op.payloadBytes.toNat ++ 32 :: (decimal op.payloadSeed.toNat ++
        32 :: op.hash sha))) := by
  have hword : (Server.commandWord op).length ≤ 4 := by rw [Server.commandWord]; split <;> decide
  have hspace : ascii " " = [32] := rfl
  have horder := length_decimal_toNat op.order
  have hsize := length_decimal_toNat op.payloadBytes
  have hseed := length_decimal_toNat op.payloadSeed
  rw [Server.command, snprintf_of_lt]
  · simp only [hspace, List.append_assoc, List.cons_append, List.nil_append]
  · simp only [hspace, List.length_append, List.length_singleton, length_hash]
    omega

theorem zero_notMem_command (op : TransferOperation) : 0 ∉ Server.command sha op := by
  have hword : 0 ∉ Server.commandWord op := by rw [Server.commandWord]; split <;> decide
  rw [command_eq]
  simp only [List.mem_append, List.mem_cons, not_or]
  exact ⟨hword, by decide, zero_notMem_decimal _, by decide, zero_notMem_decimal _, by decide,
    zero_notMem_decimal _, by decide, zero_notMem_hashToHex _⟩

theorem length_command (op : TransferOperation) : (Server.command sha op).length < 192 := by
  have hword : (Server.commandWord op).length ≤ 4 := by rw [Server.commandWord]; split <;> decide
  have horder := length_decimal_toNat op.order
  have hsize := length_decimal_toNat op.payloadBytes
  have hseed := length_decimal_toNat op.payloadSeed
  rw [command_eq]
  simp only [List.length_append, List.length_cons, length_hash]
  omega

/-- What the device makes of a command. -/
def commandOf (op : TransferOperation) : Device.Command where
  direction := Server.commandWord op
  sequence := op.order
  payloadSize := op.payloadBytes
  payloadSeed := op.payloadSeed
  hash := op.hash sha

theorem scan_word_command (op : TransferOperation) (rest : Bytes) :
    Scan.word 7 (Server.commandWord op ++ 32 :: rest) =
      some (Server.commandWord op, 32 :: rest) := by
  apply Scan.word_append
  · rw [Server.commandWord]; split <;> decide
  · rw [Server.commandWord]; split <;> decide
  · intro b hb
    have hword : (Server.commandWord op).all (fun b ↦ !isSpace b) = true := by
      rw [Server.commandWord]; split <;> rfl
    simpa using List.all_eq_true.mp hword b hb
  · rintro b ⟨⟩; rfl

/-- **Commands are read back.** -/
theorem scanCommand_command (op : TransferOperation) {buffer : Bytes}
    (h : cstr buffer = Server.command sha op) :
    Device.scanCommand.run buffer = some (commandOf sha op) := by
  have hscan : Device.scanCommand (Server.command sha op) = some (commandOf sha op, []) := by
    rw [command_eq, TransferOperation.hash, Device.scanCommand,
      Scan.bind_of_eq (scan_word_command op _), Scan.bind_of_eq (scan_space_number op.order _),
      Scan.bind_of_eq (scan_number op.order _),
      Scan.bind_of_eq (scan_space_number op.payloadBytes _),
      Scan.bind_of_eq (scan_number op.payloadBytes _),
      Scan.bind_of_eq (scan_space_number op.payloadSeed _),
      Scan.bind_of_eq (scan_number op.payloadSeed _),
      Scan.bind_of_eq (scan_space_hash _), Scan.bind_of_eq (scan_hash _)]
    rfl
  exact Scan.run_eq h hscan

theorem strEq_commandWord_down (op : TransferOperation) :
    strEq (Server.commandWord op) (ascii "DOWN") = decide op.IsDown := by
  rw [Server.commandWord]
  by_cases h : op.IsDown
  · rw [if_pos h, decide_eq_true h]; rfl
  · rw [if_neg h, decide_eq_false h]; rfl

theorem strEq_commandWord_up {op : TransferOperation} (h : ¬ op.IsDown) :
    strEq (Server.commandWord op) (ascii "UP") = true := by
  rw [Server.commandWord, if_neg h, strEq_self]

/-! ## The opening text -/

theorem beginText_eq {n : ℕ} (h : n < 2 ^ 32) :
    Server.beginText n = ascii "BEGIN" ++ 32 :: decimal n := by
  have hlen : (decimal n).length ≤ 10 :=
    length_decimal_le (by norm_num) (h.trans (by norm_num))
  rw [Server.beginText, snprintf_of_lt]
  · rfl
  · rw [List.length_append]
    have : (ascii "BEGIN ").length = 6 := rfl
    omega

theorem zero_notMem_beginText {n : ℕ} (h : n < 2 ^ 32) : 0 ∉ Server.beginText n := by
  rw [beginText_eq h]
  simp only [List.mem_append, List.mem_cons, not_or]
  exact ⟨by decide, by decide, zero_notMem_decimal _⟩

/-- The number of operations is read back. -/
theorem scanBegin_beginText {n : ℕ} (h : n < 2 ^ 32) {buffer : Bytes}
    (hbuffer : cstr buffer = Server.beginText n) :
    Device.scanBegin.run buffer = some (UInt32.ofNat n) := by
  have hspace := scan_space_number (UInt32.ofNat n) []
  have hnumber : Scan.unsigned (decimal n ++ []) = some (UInt32.ofNat n, []) :=
    Scan.unsigned_decimal h (by rintro b ⟨⟩)
  rw [UInt32.toNat_ofNat_of_lt' h] at hspace
  rw [List.append_nil] at hspace hnumber
  have hscan : Device.scanBegin (Server.beginText n) = some (UInt32.ofNat n, []) := by
    rw [beginText_eq h, Device.scanBegin, Scan.bind_of_eq (Scan.literal_append _ _),
      Scan.bind_of_eq hspace, hnumber]
  exact Scan.run_eq hbuffer hscan

/-! ## Verdicts -/

theorem ackUp_eq (op : TransferOperation) :
    Server.ackUp sha op =
      ascii "ACK_UP" ++ 32 :: (decimal op.order.toNat ++ 32 :: 49 :: 32 :: op.hash sha) := by
  have horder := length_decimal_toNat op.order
  have hprefix : (ascii "ACK_UP ").length = 7 := rfl
  have hone : (ascii " 1 ").length = 3 := rfl
  rw [Server.ackUp, snprintf_of_lt]
  · simp only [List.append_assoc]
    rfl
  · simp only [List.length_append, hprefix, hone, length_hash]
    omega

theorem zero_notMem_ackUp (op : TransferOperation) : 0 ∉ Server.ackUp sha op := by
  rw [ackUp_eq]
  simp only [List.mem_append, List.mem_cons, not_or]
  exact ⟨by decide, by decide, zero_notMem_decimal _, by decide, by decide, by decide,
    zero_notMem_hashToHex _⟩

theorem length_ackUp (op : TransferOperation) : (Server.ackUp sha op).length < 192 := by
  have horder := length_decimal_toNat op.order
  have hprefix : (ascii "ACK_UP").length = 6 := rfl
  rw [ackUp_eq]
  simp only [List.length_append, List.length_cons, hprefix, length_hash]
  omega

/-- The verdict on an upload is read back. -/
theorem scanAckUp_ackUp (op : TransferOperation) {buffer : Bytes}
    (h : cstr buffer = Server.ackUp sha op) :
    Device.scanAckUp.run buffer = some (op.order, 1, op.hash sha) := by
  have hone : Scan.unsigned (49 :: 32 :: op.hash sha) = some (1, 32 :: op.hash sha) :=
    scan_number 1 (op.hash sha)
  have hspace : Scan.space (32 :: 49 :: 32 :: op.hash sha) = some ((), 49 :: 32 :: op.hash sha) :=
    scan_space_number 1 (32 :: op.hash sha)
  rw [TransferOperation.hash] at hone hspace
  have hscan : Device.scanAckUp (Server.ackUp sha op) = some ((op.order, 1, op.hash sha), []) := by
    rw [ackUp_eq, TransferOperation.hash, Device.scanAckUp,
      Scan.bind_of_eq (Scan.literal_append _ _), Scan.bind_of_eq (scan_space_number op.order _),
      Scan.bind_of_eq (scan_number op.order _),
      Scan.bind_of_eq hspace, Scan.bind_of_eq hone, Scan.bind_of_eq (scan_space_hash _),
      Scan.bind_of_eq (scan_hash _)]
    rfl
  exact Scan.run_eq h hscan

/-! ## Reports -/

theorem ackDown_eq (order : UInt32) (valid : Bool) (digest : Digest) :
    Device.ackDown order valid (hashToHex digest) = ascii "ACK_DOWN " ++ (decimal order.toNat ++
      32 :: (if valid then 49 else 48) :: 32 :: hashToHex digest) := by
  have horder := length_decimal_toNat order
  have hprefix : (ascii "ACK_DOWN ").length = 9 := rfl
  have hspace : ascii " " = [32] := rfl
  have hflag : Device.flag valid = [if valid then 49 else 48] := by cases valid <;> rfl
  rw [Device.ackDown, hflag, cstr_of_notMem (zero_notMem_hashToHex digest), snprintf_of_lt]
  · simp only [hspace, List.append_assoc, List.cons_append, List.nil_append]
  · simp only [hspace, List.length_append, List.length_singleton, hprefix, length_hashToHex]
    omega

theorem zero_notMem_ackDown (order : UInt32) (valid : Bool) (digest : Digest) :
    0 ∉ Device.ackDown order valid (hashToHex digest) := by
  rw [ackDown_eq]
  simp only [List.mem_append, List.mem_cons, not_or]
  exact ⟨by decide, zero_notMem_decimal _, by decide, by cases valid <;> decide, by decide,
    zero_notMem_hashToHex _⟩

theorem length_ackDown (order : UInt32) (valid : Bool) (digest : Digest) :
    (Device.ackDown order valid (hashToHex digest)).length < 192 := by
  have horder := length_decimal_toNat order
  have hprefix : (ascii "ACK_DOWN ").length = 9 := rfl
  rw [ackDown_eq]
  simp only [List.length_append, List.length_cons, hprefix, length_hashToHex]
  omega

theorem expectedAck_eq (op : TransferOperation) :
    Server.expectedAck sha op = ascii "ACK_DOWN " ++ (decimal op.order.toNat ++
      32 :: 49 :: 32 :: op.hash sha) := by
  have horder := length_decimal_toNat op.order
  have hprefix : (ascii "ACK_DOWN ").length = 9 := rfl
  have hone : ascii " 1 " = [32, 49, 32] := rfl
  rw [Server.expectedAck, snprintf_of_lt]
  · simp only [hone, List.append_assoc, List.cons_append, List.nil_append]
  · simp only [hone, List.length_append, List.length_cons, List.length_nil, hprefix, length_hash]
    omega

/-- A report on a valid payload is the expected one. -/
theorem ackDown_eq_expectedAck (op : TransferOperation) :
    Device.ackDown op.order true (op.hash sha) = Server.expectedAck sha op := by
  rw [expectedAck_eq, TransferOperation.hash, ackDown_eq]
  rfl

theorem zero_notMem_expectedAck (op : TransferOperation) : 0 ∉ Server.expectedAck sha op := by
  rw [← ackDown_eq_expectedAck]
  exact zero_notMem_ackDown _ _ _

/-- A report on an invalid payload is never the expected one. -/
theorem ackDown_ne_expectedAck (op : TransferOperation) (digest : Digest) :
    Device.ackDown op.order false (hashToHex digest) ≠ Server.expectedAck sha op := by
  rw [expectedAck_eq, ackDown_eq]
  intro h
  have h' := List.append_cancel_left (List.append_cancel_left h)
  simp at h'

/-! ## Metrics -/

theorem length_ascii (text : String) : (ascii text).length = text.length := by
  rw [ascii, List.length_map, String.length_toList]

/-- A text is as long as its labels and its values. -/
theorem length_print_le {fields : Device.Fields} {bounds : List ℕ}
    (h : List.Forall₂ (fun f n ↦ f.2.length ≤ n) fields bounds) :
    fields.print.length ≤ (fields.map fun f ↦ f.1.length).sum + bounds.sum := by
  induction h with
  | nil => simp [Device.Fields.print]
  | @cons f n fields bounds hf _ ih =>
      rw [Device.Fields.print] at ih ⊢
      rw [List.flatMap_cons, List.length_append, List.length_append, length_ascii, List.map_cons,
        List.sum_cons, List.sum_cons]
      omega

theorem length_flag (b : Bool) : (Device.flag b).length ≤ 1 := by cases b <;> decide

theorem length_decimal_uint64 (n : UInt64) : (decimal n.toNat).length ≤ 20 :=
  length_decimal_le (by norm_num) (n.toNat_lt.trans (by norm_num))

theorem length_decimal_uint8 (n : UInt8) : (decimal n.toNat).length ≤ 3 :=
  length_decimal_le (by norm_num) (n.toNat_lt.trans (by norm_num))

theorem length_signedDecimal_int64 (z : Int64) : (signedDecimal z.toInt).length ≤ 20 := by
  refine length_signedDecimal_le (k := 19) (by norm_num) ?_
  have hle := z.toInt_lt
  have hge := z.le_toInt
  omega

/-- The metrics of an operation that succeeded fit their buffer, whatever was measured. -/
theorem length_metrics (sequence : UInt32) {direction : Bytes} (hdirection : direction.length ≤ 16)
    (payloadSize : UInt32) {packetId : ℕ} (hpacketId : packetId < 2 ^ 16) (digest : Digest)
    (r : Device.Readings) :
    (Device.metricsFields sequence direction payloadSize true 0 packetId (hashToHex digest)
      r).print.length < 1024 := by
  have hid : (decimal packetId).length ≤ 5 :=
    length_decimal_le (by norm_num) (hpacketId.trans (by norm_num))
  have hhash : (cstr (hashToHex digest)).length ≤ 64 := by
    rw [cstr_of_notMem (zero_notMem_hashToHex digest), length_hashToHex]
  have hbounds : List.Forall₂ (fun f n ↦ f.2.length ≤ n)
      (Device.metricsFields sequence direction payloadSize true 0 packetId
        (hashToHex digest) r)
      ([10, 16, 10, 7, 1, 1, 64, 20, 20, 20, 5] ++ [20, 10, 10, 10, 10, 10, 10]
        ++ [10, 10, 10, 10, 10, 20, 10] ++ [1, 1, 10, 3, 3, 3, 3, 3, 0]) := by
    simp only [Device.metricsFields, Device.resultFields, Device.resourceFields,
      Device.transportFields, Device.dwtFields, List.cons_append, List.nil_append,
      List.forall₂_cons, List.forall₂_nil_left_iff]
    simp only [length_decimal_toNat, length_decimal_uint64, length_decimal_uint8,
      length_signedDecimal_int64, length_flag, hid, hhash, hdirection, true_and, and_true]
    decide
  refine (length_print_le hbounds).trans_lt ?_
  have hlabels : ((Device.metricsFields sequence direction payloadSize true 0 packetId
      (hashToHex digest) r).map fun f ↦ f.1.length).sum = 620 := by
    simp only [Device.metricsFields, Device.resultFields, Device.resourceFields,
      Device.transportFields, Device.dwtFields, List.cons_append, List.nil_append, List.map_cons,
      List.map_nil, List.sum_cons, List.sum_nil]
    decide +kernel
  rw [hlabels]
  decide

end PeripheralBench.Transfer

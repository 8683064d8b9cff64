import PeripheralBench.Transfer.Texts

/-!
# The file with the plan

`start_session` writes the operations of a round into a file with comma-separated values, from which
the server loads them.  For every list of operations the server gets what has been written
(`loadTransferPlan_csvText`); a plan without operations it refuses.
-/

open PeripheralBench.Text

namespace PeripheralBench.Transfer

/-! ## Writing -/

/-- `operation['direction']`. -/
inductive Direction where
  | serverToDevice
  | deviceToServer
deriving DecidableEq

/-- The text in the plan. -/
def Direction.text : Direction → Bytes
  | serverToDevice => ascii "server_to_device"
  | deviceToServer => ascii "device_to_server"

/-- An element of `transfer_plan["operations"]`: the fields that are written. -/
structure PlanOperation where
  order : ℕ
  direction : Direction
  payloadBytes : ℕ
  payloadSeed : ℕ
deriving DecidableEq

/-- A line of `csv_text`. -/
def csvLine (op : PlanOperation) : Bytes :=
  decimal op.order ++ 44 :: (op.direction.text ++ 44 :: (decimal op.payloadBytes ++
    44 :: (decimal op.payloadSeed ++ [10])))

/-- The first line. -/
def csvHeader : Bytes := ascii "order,direction,size,seed\n"

/-- `csv_text`. -/
def csvText (operations : List PlanOperation) : Bytes := csvHeader ++ operations.flatMap csvLine

namespace Server

/-! ## Loading -/

/-- `fgets` into a buffer of `capacity` bytes: the line, or what fits of it, and the rest. -/
def fgets (capacity : ℕ) (file : Bytes) : Option (Bytes × Bytes) :=
  if file = [] then none
  else
    let line := file.takeWhile (· ≠ 10)
    let size := min (if line.length < file.length then line.length + 1 else line.length)
      (capacity - 1)
    some (file.take size, file.drop size)

/-- `%u` where a `long` has 64 bits: the value of `strtoul` is cut to an `unsigned int`. -/
def scanUnsigned : Scan UInt32 := fun bs ↦
  let bs := bs.dropWhile isSpace
  let negative := bs.head? = some 45
  let bs := if negative ∨ bs.head? = some 43 then bs.drop 1 else bs
  let digits := bs.takeWhile isDigit
  if digits = [] then none
  else
    let value := digitsValue digits
    some (if 2 ^ 64 ≤ value then UInt32.ofNat (2 ^ 64 - 1)
      else if negative then 0 - UInt32.ofNat value else UInt32.ofNat value, bs.drop digits.length)

/-- `%N[^,]`: at most `max` characters other than a comma. -/
def scanField (max : ℕ) : Scan Bytes := fun bs ↦
  let text := (bs.takeWhile (· ≠ 44)).take max
  if text = [] then none else some (text, bs.drop text.length)

/-- `"%u,%23[^,],%u,%u\n"`. -/
def scanOperation : Scan TransferOperation := do
  let order ← scanUnsigned
  Scan.literal [44]
  let direction ← scanField 23
  Scan.literal [44]
  let payloadBytes ← scanUnsigned
  Scan.literal [44]
  let payloadSeed ← scanUnsigned
  Scan.space
  pure ⟨order, direction, payloadBytes, payloadSeed⟩

/-- The loop of `load_transfer_plan`.  `fscanf` returns `EOF` when nothing but white space is left.
Each round reads something, so that there are no more rounds than bytes. -/
def loadOperations : ℕ → Bytes → Option (List TransferOperation)
  | 0, _ => some []
  | rounds + 1, file =>
      if file.dropWhile isSpace = [] then some []
      else
        match scanOperation file with
        | some (op, rest) => (loadOperations rounds rest).map (op :: ·)
        | none => none

/-- `load_transfer_plan`, of a file with these bytes. -/
def loadTransferPlan (file : Bytes) : Option (List TransferOperation) := do
  let (_, rest) ← fgets 128 file
  let operations ← loadOperations rest.length rest
  if operations = [] then none else some operations

/-! ## Reading back -/

/-- What an `unsigned int` is set to for a number. -/
def cut (n : ℕ) : UInt32 := if 2 ^ 64 ≤ n then UInt32.ofNat (2 ^ 64 - 1) else UInt32.ofNat n

theorem cut_toNat (n : UInt32) : cut n.toNat = n := by
  rw [cut, if_neg (Nat.not_le.mpr (n.toNat_lt.trans (by norm_num))), UInt32.ofNat_toNat]

/-- The operation that the server gets. -/
def loaded (op : PlanOperation) : TransferOperation where
  order := cut op.order
  direction := op.direction.text
  payloadBytes := cut op.payloadBytes
  payloadSeed := cut op.payloadSeed

theorem scanUnsigned_decimal (n : ℕ) {b : UInt8} (hb : isDigit b = false) (rest : Bytes) :
    scanUnsigned (decimal n ++ b :: rest) = some (cut n, b :: rest) := by
  obtain ⟨d, ds, hd⟩ := List.exists_cons_of_ne_nil (decimal_ne_nil n)
  have hdigit : isDigit d = true := isDigit_of_mem_decimal (n := n) (hd ▸ List.mem_cons_self)
  have hdrop : (decimal n ++ b :: rest).dropWhile isSpace = decimal n ++ b :: rest := by
    rw [hd, List.cons_append, List.dropWhile_cons_of_neg (by simp [isSpace_of_isDigit hdigit])]
  have hhead : (decimal n ++ b :: rest).head? = some d := by
    rw [hd]
    rfl
  have hsign : ∀ c : UInt8, isDigit c = false → some d ≠ some c := by
    rintro c hc ⟨⟩
    rw [hdigit] at hc
    exact Bool.noConfusion hc
  have hminus : some d ≠ some (45 : UInt8) := hsign _ rfl
  have hplus : some d ≠ some (43 : UInt8) := hsign _ rfl
  have htake : (decimal n ++ b :: rest).takeWhile isDigit = decimal n :=
    Scan.takeWhile_append_of_stop (fun c hc ↦ isDigit_of_mem_decimal hc) (by rintro c ⟨⟩; exact hb)
  simp only [scanUnsigned, hdrop, hhead, hminus, hplus, or_self, if_false, htake, decimal_ne_nil,
    digitsValue_decimal, List.drop_left, cut]

theorem scanField_append {text : Bytes} {max : ℕ} (hne : text ≠ []) (hlen : text.length ≤ max)
    (htext : 44 ∉ text) (rest : Bytes) :
    scanField max (text ++ 44 :: rest) = some (text, 44 :: rest) := by
  have htake : (text ++ 44 :: rest).takeWhile (· ≠ 44) = text :=
    Scan.takeWhile_append_of_stop (fun c hc ↦ decide_eq_true fun heq ↦ htext (heq ▸ hc))
      (by rintro c ⟨⟩; rfl)
  simp only [scanField, htake, List.take_of_length_le hlen, hne, if_false, List.drop_left]

theorem text_fits (direction : Direction) :
    direction.text ≠ [] ∧ direction.text.length ≤ 23 ∧ 44 ∉ direction.text := by
  cases direction <;> decide

/-- The rest of the lines begins with a digit, if there is any. -/
theorem dropWhile_csvLines (operations : List PlanOperation) :
    (operations.flatMap csvLine).dropWhile isSpace = operations.flatMap csvLine := by
  cases operations with
  | nil => rfl
  | cons op operations =>
      obtain ⟨b, bs, hb, hspace⟩ := exists_decimal_eq op.order
      rw [List.flatMap_cons, csvLine, hb]
      exact List.dropWhile_cons_of_neg (by simp [hspace])

theorem csvLine_ne_nil (op : PlanOperation) : csvLine op ≠ [] :=
  List.append_ne_nil_of_left_ne_nil (decimal_ne_nil _) _

/-- A line is read back. -/
theorem scanOperation_csvLine (op : PlanOperation) (operations : List PlanOperation) :
    scanOperation (csvLine op ++ operations.flatMap csvLine) =
      some (loaded op, operations.flatMap csvLine) := by
  obtain ⟨hne, hlen, hcomma⟩ := text_fits op.direction
  have hseed : ∀ rest, scanUnsigned (decimal op.payloadSeed ++ 10 :: rest) =
      some (cut op.payloadSeed, 10 :: rest) := scanUnsigned_decimal op.payloadSeed rfl
  have hliteral : ∀ rest, Scan.literal [44] (44 :: rest) = some ((), rest) :=
    Scan.literal_append [44]
  have hend : Scan.space (10 :: operations.flatMap csvLine) =
      some ((), operations.flatMap csvLine) := by
    rw [Scan.space, List.dropWhile_cons_of_pos rfl, dropWhile_csvLines]
  simp only [csvLine, List.append_assoc, List.cons_append, List.nil_append]
  rw [scanOperation, Scan.bind_of_eq (scanUnsigned_decimal op.order rfl _),
    Scan.bind_of_eq (hliteral _), Scan.bind_of_eq (scanField_append hne hlen hcomma _),
    Scan.bind_of_eq (hliteral _), Scan.bind_of_eq (scanUnsigned_decimal op.payloadBytes rfl _),
    Scan.bind_of_eq (hliteral _), Scan.bind_of_eq (hseed _), Scan.bind_of_eq hend]
  rfl

theorem loadOperations_csvLines (operations : List PlanOperation) {rounds : ℕ}
    (hrounds : operations.length ≤ rounds) :
    loadOperations rounds (operations.flatMap csvLine) = some (operations.map loaded) := by
  induction operations generalizing rounds with
  | nil => cases rounds <;> rfl
  | cons op operations ih =>
      obtain ⟨rounds, rfl⟩ := Nat.exists_eq_add_one_of_ne_zero
        (Nat.ne_of_gt ((Nat.succ_pos _).trans_le hrounds))
      have hne : (op :: operations).flatMap csvLine ≠ [] :=
        List.append_ne_nil_of_left_ne_nil (csvLine_ne_nil op) _
      rw [loadOperations, dropWhile_csvLines, if_neg hne, List.flatMap_cons,
        scanOperation_csvLine op operations]
      change (loadOperations rounds _).map _ = _
      rw [ih (Nat.le_of_succ_le_succ hrounds)]
      rfl

theorem length_le_csvLines (operations : List PlanOperation) :
    operations.length ≤ (operations.flatMap csvLine).length := by
  induction operations with
  | nil => exact le_rfl
  | cons op operations ih =>
      have hline := List.length_pos_of_ne_nil (csvLine_ne_nil op)
      rw [List.length_cons, List.flatMap_cons, List.length_append]
      omega

/-- The first line is skipped. -/
theorem fgets_csvText (operations : List PlanOperation) :
    fgets 128 (csvText operations) = some (csvHeader, operations.flatMap csvLine) := by
  have hheader : csvHeader = ascii "order,direction,size,seed" ++ [10] := by decide
  have hsplit : csvText operations =
      ascii "order,direction,size,seed" ++ 10 :: operations.flatMap csvLine := by
    rw [csvText, hheader, List.append_assoc]
    rfl
  have hplain : ∀ c ∈ ascii "order,direction,size,seed", decide (c ≠ 10) = true :=
    List.forall_iff_forall_mem.mp (by decide)
  have hstop : ∀ c ∈ (10 :: operations.flatMap csvLine).head?, decide (c ≠ 10) = false := by
    rintro c ⟨⟩
    rfl
  have hline : (csvText operations).takeWhile (· ≠ 10) = ascii "order,direction,size,seed" := by
    rw [hsplit]
    exact Scan.takeWhile_append_of_stop hplain hstop
  have hlength : (ascii "order,direction,size,seed").length < (csvText operations).length := by
    rw [hsplit, List.length_append]
    exact Nat.lt_add_of_pos_right (Nat.succ_pos _)
  have hsize : min ((ascii "order,direction,size,seed").length + 1) (128 - 1) =
      csvHeader.length := by
    decide
  have hne : csvText operations ≠ [] := List.ne_nil_of_length_pos (Nat.zero_lt_of_lt hlength)
  simp only [fgets, if_neg hne, hline, if_pos hlength, hsize]
  rw [csvText, List.take_left, List.drop_left]

/-- What has been written is loaded, unless it is nothing. -/
theorem loadTransferPlan_csvText (operations : List PlanOperation) :
    loadTransferPlan (csvText operations) =
      if operations = [] then none else some (operations.map loaded) := by
  rw [loadTransferPlan, fgets_csvText]
  change (loadOperations _ (operations.flatMap csvLine)).bind _ = _
  rw [loadOperations_csvLines operations (length_le_csvLines operations), Option.bind_some]
  exact if_congr List.map_eq_nil_iff rfl rfl

end Server

end PeripheralBench.Transfer

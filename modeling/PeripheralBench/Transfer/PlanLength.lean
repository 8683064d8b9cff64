import PeripheralBench.Runner.CaseFile
import PeripheralBench.Transfer.Codecs

/-!
# The length of a plan

The round of a case has a download and an upload of each size for each iteration, so twelve
operations for each.  The server loads as many as there are.  The board takes no more than
`BENCH_TRANSFER_MAX_OPERATIONS`, and returns an error if there are more; nobody has told the runner.

So a case is refused if and only if it has more than 341 iterations (`plans_accepted`), and
`read_cases` accepts such a case (`not_all_accepted`).
-/

open PeripheralBench.Text PeripheralBench.Runner

namespace PeripheralBench.Transfer

/-! ## The plan of a round -/

/-- `transfer_plan_for_job`: the operations of the plan. -/
def planOf (round : TransferRound) : List PlanOperation :=
  round.operations.map fun operation ↦
    { order := operation.order
      direction :=
        if operation.direction = "server_to_device" then .serverToDevice else .deviceToServer
      payloadBytes := operation.payloadBytes
      payloadSeed := operation.payloadSeed }

section

variable (random : ℕ → Random) (derivedSeed : ℕ → String → ℕ → ℕ)

/-- Twelve operations for an iteration. -/
theorem length_operationsForCase (seed : ℕ) (caseId : String) (iterations : ℕ) :
    (operationsForCase random derivedSeed seed caseId iterations).length = 12 * iterations := by
  have hround : ∀ iteration : ℕ, ((payloadSizes.flatMap fun size ↦ directions.map fun direction ↦
      ({ order := 0
         iteration := iteration
         direction := direction
         payloadBytes := size
         payloadSeed := derivedSeed (derivedSeed seed caseId iteration) direction size } :
        Runner.TransferOperation))).length = 12 := fun _ ↦ rfl
  rw [operationsForCase, List.length_map, List.length_zipIdx,
    ((random _).shuffle_perm 0 _).length_eq, List.length_flatMap]
  simp only [hround, List.map_const', List.sum_replicate, List.length_range', smul_eq_mul]
  exact Nat.mul_comm _ _

end

/-! ## Who accepts it -/

/-- The server loads the plan of a round. -/
def ServerAccepts (round : TransferRound) : Prop :=
  (Server.loadTransferPlan (csvText (planOf round))).isSome = true

/-- The board accepts this opening text. -/
def DeviceAcceptsText (text : Bytes) : Prop :=
  ∃ count, Device.scanBegin.run (received (Device.zeros 64) text) = some count ∧
    count.toNat ≠ 0 ∧ count.toNat ≤ Device.maxOperations

/-- The board accepts what the server, having loaded the plan of a round, opens it with. -/
def DeviceAccepts (round : TransferRound) : Prop :=
  ∃ operations, Server.loadTransferPlan (csvText (planOf round)) = some operations ∧
    DeviceAcceptsText (Server.beginText operations.length)

theorem digitsValue_append (a b : Bytes) :
    digitsValue (a ++ b) = digitsValue a * 10 ^ b.length + digitsValue b := by
  induction b using List.reverseRecOn with
  | nil => rw [List.append_nil, List.length_nil, pow_zero, mul_one]; rfl
  | append_singleton b c ih =>
      have hstep : ∀ bs, digitsValue (bs ++ [c]) = 10 * digitsValue bs + (c.toNat - 48) :=
        fun bs ↦ by
        rw [digitsValue, List.foldl_append]
        rfl
      rw [← List.append_assoc, hstep, hstep, ih, List.length_append,
        List.length_singleton, pow_succ]
      ring

theorem digitsValue_lt {bs : Bytes} (h : ∀ b ∈ bs, isDigit b = true) :
    digitsValue bs < 10 ^ bs.length := by
  induction bs using List.reverseRecOn with
  | nil => exact Nat.one_pos
  | append_singleton bs b ih =>
      have hb := h b (List.mem_append_right _ (List.mem_singleton_self b))
      have hlt := ih fun c hc ↦ h c (List.mem_append_left _ hc)
      have hlast : digitsValue [b] ≤ 9 := by
        rw [isDigit, Bool.and_eq_true, decide_eq_true_iff, decide_eq_true_iff] at hb
        change 10 * 0 + (b.toNat - 48) ≤ 9
        omega
      rw [digitsValue_append, List.length_append, List.length_singleton, pow_one, pow_succ]
      omega

/-- The digits of a great number that fit a buffer are still a great number. -/
theorem le_digitsValue_take {n : ℕ} (h : 2 ^ 32 ≤ n) :
    2 ^ 32 ≤ digitsValue ((decimal n).take 57) := by
  by_cases hlength : (decimal n).length ≤ 57
  · rwa [List.take_of_length_le hlength, digitsValue_decimal]
  · by_contra hlt
    have hvalue := digitsValue_append ((decimal n).take 57) ((decimal n).drop 57)
    have hrest : digitsValue ((decimal n).drop 57) < 10 ^ ((decimal n).drop 57).length :=
      digitsValue_lt fun b hb ↦ isDigit_of_mem_decimal (List.mem_of_mem_drop hb)
    rw [List.take_append_drop, digitsValue_decimal] at hvalue
    rw [List.length_drop] at hvalue hrest
    have hsmall : digitsValue ((decimal n).take 57) + 1 ≤ 10 ^ 56 :=
      (Nat.succ_le_of_lt (Nat.not_le.mp hlt)).trans (by norm_num)
    have hn : n < 10 ^ ((decimal n).length - 1) := by
      have hpow : (10 : ℕ) ^ ((decimal n).length - 1) =
          10 ^ 56 * 10 ^ ((decimal n).length - 57) := by
        rw [← pow_add]
        congr 1
        omega
      rw [hpow]
      calc n < (digitsValue ((decimal n).take 57) + 1) * 10 ^ ((decimal n).length - 57) := by
            rw [Nat.add_mul, one_mul]
            omega
        _ ≤ 10 ^ 56 * 10 ^ ((decimal n).length - 57) := Nat.mul_le_mul_right _ hsmall
    have hshort := length_decimal_le (by omega) hn
    omega

/-- The board reads the number, or the greatest one that it has. -/
theorem scanBegin_digits {digits : Bytes} (hne : digits ≠ []) (h : ∀ b ∈ digits, isDigit b = true)
    {buffer : Bytes} (hbuffer : cstr buffer = ascii "BEGIN" ++ 32 :: digits) :
    Device.scanBegin.run buffer =
      some (if 2 ^ 32 ≤ digitsValue digits then UInt32.ofNat (2 ^ 32 - 1)
      else UInt32.ofNat (digitsValue digits)) := by
  obtain ⟨d, ds, hd⟩ := List.exists_cons_of_ne_nil hne
  have hdigit : isDigit d = true := h d (hd ▸ List.mem_cons_self)
  have hspace : Scan.space (32 :: digits) = some ((), digits) := by
    rw [hd]
    exact Scan.space_cons (isSpace_of_isDigit hdigit)
  have hdrop : digits.dropWhile isSpace = digits := by
    rw [hd, List.dropWhile_cons_of_neg (by simp [isSpace_of_isDigit hdigit])]
  have hhead : digits.head? = some d := by rw [hd]; rfl
  have hsign : ∀ c : UInt8, isDigit c = false → some d ≠ some c := by
    rintro c hc ⟨⟩
    rw [hdigit] at hc
    exact Bool.noConfusion hc
  have hminus : some d ≠ some (45 : UInt8) := hsign _ rfl
  have hplus : some d ≠ some (43 : UInt8) := hsign _ rfl
  have htake : digits.takeWhile isDigit = digits := List.takeWhile_eq_self_iff.mpr h
  refine Scan.run_eq hbuffer (?_ : _ = some (_, []))
  rw [Device.scanBegin, Scan.bind_of_eq (Scan.literal_append _ _), Scan.bind_of_eq hspace]
  simp only [Scan.unsigned, hdrop, hhead, hminus, hplus, or_self, if_false, htake, hne,
    List.drop_length]

/-- The board accepts from one to `BENCH_TRANSFER_MAX_OPERATIONS` operations. -/
theorem deviceAcceptsText_iff (n : ℕ) :
    DeviceAcceptsText (Server.beginText n) ↔ n ≠ 0 ∧ n ≤ Device.maxOperations := by
  by_cases hlt : n < 2 ^ 32
  · have hscan :=
      scanBegin_beginText hlt (cstr_received (Device.zeros 64) (zero_notMem_beginText hlt))
    have htoNat : (UInt32.ofNat n).toNat = n := UInt32.toNat_ofNat_of_lt' hlt
    constructor
    · rintro ⟨count, hcount, haccepts⟩
      rw [hscan] at hcount
      cases hcount
      rwa [htoNat] at haccepts
    · intro haccepts
      exact ⟨_, hscan, htoNat.symm ▸ haccepts⟩
  · have hgreat : 2 ^ 32 ≤ n := Nat.not_lt.mp hlt
    have htext : Server.beginText n = ascii "BEGIN" ++ 32 :: (decimal n).take 57 := by
      rw [Server.beginText, snprintf]
      exact @List.take_length_add_append _ (ascii "BEGIN ") (decimal n) 57
    have hdigits : ∀ b ∈ (decimal n).take 57, isDigit b = true := fun b hb ↦
      isDigit_of_mem_decimal (List.mem_of_mem_take hb)
    have hne : (decimal n).take 57 ≠ [] := by
      rw [Ne, List.take_eq_nil_iff, not_or]
      exact ⟨by norm_num, decimal_ne_nil n⟩
    have hzero : 0 ∉ Server.beginText n := by
      rw [htext]
      simp only [List.mem_append, List.mem_cons, not_or]
      exact ⟨by decide, by decide, fun h ↦ zero_notMem_decimal n (List.mem_of_mem_take h)⟩
    have hscan := scanBegin_digits hne hdigits
      ((cstr_received (Device.zeros 64) hzero).trans htext)
    rw [if_pos (le_digitsValue_take hgreat)] at hscan
    constructor
    · rintro ⟨count, hcount, -, haccepts⟩
      rw [hscan] at hcount
      cases hcount
      exact absurd haccepts (by decide)
    · rintro ⟨-, haccepts⟩
      exact absurd (hgreat.trans haccepts) (by decide)

/-- The server accepts a plan unless it is empty. -/
theorem serverAccepts_iff (round : TransferRound) :
    ServerAccepts round ↔ round.operations.length ≠ 0 := by
  rw [ServerAccepts, Server.loadTransferPlan_csvText]
  by_cases h : planOf round = []
  · rw [if_pos h]
    simp [List.map_eq_nil_iff.mp h]
  · rw [if_neg h]
    have hne : round.operations ≠ [] := fun hnil ↦ h (List.map_eq_nil_iff.mpr hnil)
    simpa using hne

/-- The board accepts a plan unless it is empty or too long. -/
theorem deviceAccepts_iff (round : TransferRound) :
    DeviceAccepts round ↔
      round.operations.length ≠ 0 ∧ round.operations.length ≤ Device.maxOperations := by
  rw [DeviceAccepts, Server.loadTransferPlan_csvText]
  have hlength : ((planOf round).map Server.loaded).length = round.operations.length := by
    rw [List.length_map, planOf, List.length_map]
  by_cases h : planOf round = []
  · have hnil : round.operations = [] := List.map_eq_nil_iff.mp h
    simp [h, hnil]
  · rw [if_neg h, ← hlength]
    constructor
    · rintro ⟨operations, hload, haccepts⟩
      cases hload
      exact (deviceAcceptsText_iff _).mp haccepts
    · intro haccepts
      exact ⟨_, rfl, (deviceAcceptsText_iff _).mpr haccepts⟩

/-! ## The rounds of a case file -/

section

variable (random : ℕ → Random) (derivedSeed : ℕ → String → ℕ → ℕ) (int : String → Option ℤ)

/-- The rounds of these cases. -/
def roundsOf (seed : ℕ) (cases : List CaseRow) : List Job :=
  (buildTransferRounds random derivedSeed seed (cases.map (CaseRow.case int))).jobs

theorem mem_roundsOf {seed : ℕ} {cases : List CaseRow} {round : TransferRound} :
    Job.round round ∈ roundsOf random derivedSeed int seed cases ↔
      round ∈ transferRounds random derivedSeed seed (cases.map (CaseRow.case int)) := by
  rw [roundsOf, buildTransferRounds, List.mem_map_of_injective fun _ _ h ↦ Job.round.inj h]
  exact ((random seed).shuffle_perm 0 _).mem_iff

variable {random derivedSeed int} {seed : ℕ} {cases : List CaseRow} {round : TransferRound}

/-- Every round is that of a case. -/
theorem exists_row (h : Job.round round ∈ roundsOf random derivedSeed int seed cases) :
    ∃ row ∈ cases, round.caseId = row.caseId ∧
      round.operations.length = 12 * (row.case int).iterations := by
  obtain ⟨⟨case, sequence⟩, hmem, rfl⟩ := List.mem_map.mp ((mem_roundsOf _ _ _).mp h)
  obtain ⟨row, hrow, rfl⟩ := List.mem_map.mp (List.fst_mem_of_mem_zipIdx hmem)
  exact ⟨row, hrow, rfl, length_operationsForCase _ _ _ _ _⟩

/-- Every case has a round. -/
theorem exists_round {row : CaseRow} (h : row ∈ cases) :
    ∃ round, Job.round round ∈ roundsOf random derivedSeed int seed cases ∧
      round.operations.length = 12 * (row.case int).iterations := by
  obtain ⟨i, hi, rfl⟩ := List.mem_iff_getElem.mp h
  have hi' : i < (cases.map (CaseRow.case int)).length := by rwa [List.length_map]
  have hmem : ((cases.map (CaseRow.case int))[i], 1 + i) ∈
      (cases.map (CaseRow.case int)).zipIdx 1 := by
    rw [List.mk_add_mem_zipIdx_iff_getElem?]
    exact List.getElem?_eq_getElem _
  refine ⟨_, (mem_roundsOf _ _ _).mpr (List.mem_map_of_mem hmem), ?_⟩
  rw [length_operationsForCase, List.getElem_map]

theorem case_iterations {row : CaseRow} {n : ℕ} (h : int row.iterations = some (n : ℤ)) :
    (row.case int).iterations = n := by
  rw [CaseRow.case, h]
  rfl

/-- The server accepts the plan of every round; the board accepts it if and only if the case has at
most 341 iterations. -/
theorem plans_accepted {fieldnames : List String} {rows : List CaseRow}
    (h : readCases int fieldnames rows = some cases) :
    (∀ round, Job.round round ∈ roundsOf random derivedSeed int seed cases →
      ServerAccepts round ∧ ∃ row ∈ cases, ∃ n : ℕ, int row.iterations = some (n : ℤ) ∧
        round.caseId = row.caseId ∧ round.operations.length = 12 * n ∧
        (DeviceAccepts round ↔ n ≤ 341)) ∧
    ((∀ round, Job.round round ∈ roundsOf random derivedSeed int seed cases → DeviceAccepts round) ↔
      ∀ row ∈ cases, ∀ n : ℕ, int row.iterations = some (n : ℤ) → n ≤ 341) := by
  have hiterations := iterations_of_readCases h
  have haccepts : ∀ {round : TransferRound} {n : ℕ}, round.operations.length = 12 * n → 1 ≤ n →
      (DeviceAccepts round ↔ n ≤ 341) := by
    intro round n hlength hn
    rw [deviceAccepts_iff, hlength, Device.maxOperations]
    omega
  constructor
  · intro round hround
    obtain ⟨row, hrow, hcase, hlength⟩ := exists_row hround
    obtain ⟨n, hint, hn⟩ := hiterations row hrow
    rw [case_iterations hint] at hlength
    refine ⟨(serverAccepts_iff round).mpr ?_, row, hrow, n, hint, hcase, hlength,
      haccepts hlength hn⟩
    omega
  · constructor
    · intro hall row hrow n hint
      obtain ⟨round, hround, hlength⟩ := exists_round hrow
      rw [case_iterations hint] at hlength
      obtain ⟨m, hm, hpos⟩ := hiterations row hrow
      obtain rfl : m = n := Int.ofNat.inj (Option.some.inj (hm.symm.trans hint))
      exact (haccepts hlength hpos).mp (hall round hround)
    · intro hall round hround
      obtain ⟨row, hrow, -, hlength⟩ := exists_row hround
      obtain ⟨n, hint, hn⟩ := hiterations row hrow
      rw [case_iterations hint] at hlength
      exact (haccepts hlength hn).mpr (hall row hrow n hint)

end

/-! ## A case with too many iterations -/

/-- `int` of a number in decimal digits. -/
def intOfDigits (text : String) : Option ℤ :=
  if text ≠ "" ∧ (text.toList.all fun c ↦ '0' ≤ c ∧ c ≤ '9') then
    some (text.toList.foldl (fun n c ↦ 10 * n + (c.toNat - 48 : ℕ)) 0)
  else none

/-- A generator that leaves lists as they are. -/
def sampleRandom : Random := ⟨fun _ l ↦ l, fun _ l ↦ .refl l⟩

/-- A row with this many iterations. -/
def sampleRow (iterations : String) : CaseRow where
  caseId := "case"
  enabled := "1"
  pkiChainId := "homogeneous_ml_dsa_44"
  pkiKind := "homogeneous"
  rootSigAlg := "ML-DSA-44"
  intermediateSigAlg := "ML-DSA-44"
  leafSigAlg := "ML-DSA-44"
  kexGroup := "MLKEM512"
  certSigAlg := "ML-DSA-44"
  iterations := iterations
  warmupIterations := "0"
  expectedSupport := ""

theorem readCases_sampleRow (iterations : String) (h : iterations = "341" ∨ iterations = "342") :
    readCases intOfDigits requiredFields [sampleRow iterations] = some [sampleRow iterations] := by
  rcases h with rfl | rfl <;> decide +kernel

/-- The only round of the row. -/
def sampleRound (iterations : ℕ) : TransferRound where
  sequence := 1
  caseId := "case"
  roundIndex := 1
  operations := operationsForCase (fun _ ↦ sampleRandom) (fun _ _ _ ↦ 0) 1 "case" iterations

theorem sampleRound_mem {text : String} {iterations : ℕ} (h : intOfDigits text = some iterations) :
    Job.round (sampleRound iterations) ∈
      roundsOf (fun _ ↦ sampleRandom) (fun _ _ _ ↦ 0) intOfDigits 1 [sampleRow text] := by
  have hcase : ((sampleRow text).case intOfDigits).iterations = iterations := case_iterations h
  rw [mem_roundsOf, ← hcase]
  exact List.mem_singleton_self _

theorem plans_accepted_sampleRow : DeviceAccepts (sampleRound 341) := by
  have hint : intOfDigits "341" = some 341 := by decide +kernel
  refine (plans_accepted (readCases_sampleRow "341" (.inl rfl))).2.mpr ?_ _ (sampleRound_mem hint)
  intro row hrow n hn
  obtain rfl := List.mem_singleton.mp hrow
  exact (Int.ofNat.inj (Option.some.inj (hint.symm.trans hn))).ge

/-- The board refuses the round of a case that `read_cases` accepts. -/
theorem not_all_accepted : ¬ ∀ (fieldnames : List String) (rows cases : List CaseRow) (seed : ℕ),
    readCases intOfDigits fieldnames rows = some cases →
    ∀ round, Job.round round ∈
        roundsOf (fun _ ↦ sampleRandom) (fun _ _ _ ↦ 0) intOfDigits seed cases →
      ServerAccepts round ∧ DeviceAccepts round := by
  intro hall
  have hint : intOfDigits "342" = some 342 := by decide +kernel
  have haccepts := (hall _ _ _ 1 (readCases_sampleRow "342" (.inr rfl)) _ (sampleRound_mem hint)).2
  rw [deviceAccepts_iff, sampleRound, length_operationsForCase] at haccepts
  exact absurd haccepts.2 (by decide)

end PeripheralBench.Transfer

import PeripheralBench.Runner.Schedule

/-!
# The case file

`read_cases` takes the enabled rows of the case file, completes what they say about certificates,
and refuses the file if a row does not make sense.  It bounds the numbers of iterations from below
only.
-/

namespace PeripheralBench.Runner

/-- The keys of `KEMS_BY_NAME`. -/
def kemNames : List String :=
  ["ECDHE-P-256", "ECDHE-P-384", "ECDHE-P-521", "MLKEM512", "MLKEM768", "MLKEM1024",
    "SecP256r1MLKEM768", "X25519MLKEM768", "SecP384r1MLKEM1024"]

/-- The keys of `SIGNATURES_BY_NAME`. -/
def signatureNames : List String :=
  ["ECDSA-P-256", "ECDSA-P-384", "ECDSA-P-521", "RSA-PSS-3072", "RSA-PSS-7680", "RSA-PSS-15360",
    "ML-DSA-44", "ML-DSA-65", "ML-DSA-87", "SLH-DSA-SHAKE-128s", "SLH-DSA-SHAKE-128f",
    "SLH-DSA-SHAKE-192s", "SLH-DSA-SHAKE-192f", "SLH-DSA-SHAKE-256s", "SLH-DSA-SHAKE-256f",
    "LMS-HSS-L2-H10-W4", "XMSS-SHA2_20_256"]

/-- `slug`: the words of a name, in lower case and joined by underscores. -/
def slug (value : String) : String :=
  let words := value.toLower.toList.splitOnP fun c ↦
    !(('a' ≤ c && c ≤ 'z') || ('0' ≤ c && c ≤ '9'))
  "_".intercalate ((words.filter (· ≠ [])).map String.ofList)

/-- A row: the fields that are looked at.  A field that is missing is empty. -/
structure CaseRow where
  caseId : String
  enabled : String
  pkiChainId : String := ""
  pkiKind : String := ""
  rootSigAlg : String := ""
  intermediateSigAlg : String := ""
  leafSigAlg : String := ""
  kexGroup : String
  certSigAlg : String
  iterations : String
  warmupIterations : String
  expectedSupport : String
deriving DecidableEq

/-- `INPUT_FIELDS`, without `pki_fields`. -/
def requiredFields : List String :=
  ["case_id", "enabled", "kex_group", "kex_family", "kex_nist_level", "kex_public_key_bytes",
    "kex_ciphertext_bytes", "kex_shared_secret_bytes", "cert_sig_alg", "sig_family",
    "sig_nist_level", "sig_public_key_bytes", "sig_private_key_bytes", "sig_signature_bytes",
    "certificate_verify_alg", "iterations", "warmup_iterations", "expected_support", "notes"]

/-- `a or b`. -/
def orElse (a b : String) : String := if a = "" then b else a

/-- `normalize_case_pki`. -/
def normalizeCasePki (row : CaseRow) : Option CaseRow :=
  let leaf := orElse row.leafSigAlg row.certSigAlg
  let root := orElse row.rootSigAlg leaf
  let intermediate := orElse row.intermediateSigAlg leaf
  if root ∉ signatureNames ∨ leaf ∉ signatureNames then none
  else if intermediate ≠ leaf then none
  else if row.certSigAlg ≠ leaf then none
  else some { row with
    rootSigAlg := root
    intermediateSigAlg := intermediate
    leafSigAlg := leaf
    pkiKind := orElse row.pkiKind (if root = leaf then "homogeneous" else "heavy_root")
    pkiChainId := orElse row.pkiChainId
      (if root = leaf then "homogeneous_" ++ slug leaf
        else "root_" ++ slug root ++ "__leaf_" ++ slug leaf) }

section

-- `int(text)`, if it does not raise
variable (int : String → Option ℤ)

/-- The body of the loop in `read_cases`. -/
def checkRow (seen : List String) (row : CaseRow) : Option CaseRow :=
  if row.caseId = "" ∨ row.caseId ∈ seen then none
  else if row.kexGroup ∉ kemNames then none
  else if row.certSigAlg ∉ signatureNames then none
  else do
    let row ← normalizeCasePki row
    let iterations ← int row.iterations
    let warmups ← int row.warmupIterations
    if iterations < 1 ∨ warmups < 0 then none else some row

/-- The loop. -/
def checkRows : List String → List CaseRow → Option (List CaseRow)
  | _, [] => some []
  | seen, row :: rows => do
      let checked ← checkRow int seen row
      let rest ← checkRows (row.caseId :: seen) rows
      pure (checked :: rest)

/-- `row.get("enabled", "").lower() in {"1", "true", "yes"}`. -/
def CaseRow.isEnabled (row : CaseRow) : Bool := ["1", "true", "yes"].contains row.enabled.toLower

/-- `read_cases`, of a file with these columns and rows. -/
def readCases (fieldnames : List String) (rows : List CaseRow) : Option (List CaseRow) :=
  if ∃ field ∈ requiredFields, field ∉ fieldnames then none
  else do
    let cases ← checkRows int [] (rows.filter CaseRow.isEnabled)
    if cases = [] then none else some cases

/-- What the schedule depends on. -/
def CaseRow.case (row : CaseRow) : Case where
  caseId := row.caseId
  warmupIterations := ((int row.warmupIterations).getD 0).toNat
  iterations := ((int row.iterations).getD 0).toNat
  expectedSupport := row.expectedSupport

variable {int} {seen : List String} {row checked : CaseRow} {rows cases : List CaseRow}

/-- A row that is accepted has at least one iteration. -/
theorem iterations_of_checkRow (h : checkRow int seen row = some checked) :
    ∃ n : ℕ, int checked.iterations = some (n : ℤ) ∧ 1 ≤ n := by
  rw [checkRow] at h
  split at h
  · exact nomatch h
  split at h
  · exact nomatch h
  split at h
  · exact nomatch h
  obtain ⟨normalized, -, h⟩ := Option.bind_eq_some_iff.mp h
  obtain ⟨iterations, hiterations, h⟩ := Option.bind_eq_some_iff.mp h
  obtain ⟨warmups, -, h⟩ := Option.bind_eq_some_iff.mp h
  split at h
  · exact nomatch h
  case isFalse hvalid =>
    cases h
    obtain ⟨n, rfl⟩ := Int.eq_ofNat_of_zero_le (show 0 ≤ iterations by omega)
    exact ⟨n, hiterations, by omega⟩

theorem iterations_of_checkRows (h : checkRows int seen rows = some cases) :
    ∀ row ∈ cases, ∃ n : ℕ, int row.iterations = some (n : ℤ) ∧ 1 ≤ n := by
  induction rows generalizing seen cases with
  | nil =>
      cases h
      exact nofun
  | cons row rows ih =>
      obtain ⟨checked, hchecked, h⟩ := Option.bind_eq_some_iff.mp h
      obtain ⟨rest, hrest, h⟩ := Option.bind_eq_some_iff.mp h
      cases h
      intro row hrow
      rcases List.mem_cons.mp hrow with rfl | hrow
      · exact iterations_of_checkRow hchecked
      · exact ih hrest row hrow

theorem iterations_of_readCases {fieldnames : List String}
    (h : readCases int fieldnames rows = some cases) :
    ∀ row ∈ cases, ∃ n : ℕ, int row.iterations = some (n : ℤ) ∧ 1 ≤ n := by
  rw [readCases] at h
  split at h
  · exact nomatch h
  obtain ⟨checked, hchecked, h⟩ := Option.bind_eq_some_iff.mp h
  split at h
  · exact nomatch h
  · cases h
    exact iterations_of_checkRows hchecked

theorem caseId_normalizeCasePki (h : normalizeCasePki row = some checked) :
    checked.caseId = row.caseId := by
  rw [normalizeCasePki] at h
  split at h
  · exact nomatch h
  split at h
  · exact nomatch h
  split at h
  · exact nomatch h
  · cases h
    rfl

/-- A row that is accepted has an id that is not empty and that no row before it has. -/
theorem caseId_of_checkRow (h : checkRow int seen row = some checked) :
    checked.caseId = row.caseId ∧ row.caseId ≠ "" ∧ row.caseId ∉ seen := by
  rw [checkRow] at h
  split at h
  · exact nomatch h
  case isFalse hid =>
    split at h
    · exact nomatch h
    split at h
    · exact nomatch h
    obtain ⟨normalized, hnormalized, h⟩ := Option.bind_eq_some_iff.mp h
    obtain ⟨iterations, -, h⟩ := Option.bind_eq_some_iff.mp h
    obtain ⟨warmups, -, h⟩ := Option.bind_eq_some_iff.mp h
    split at h
    · exact nomatch h
    · cases h
      exact ⟨caseId_normalizeCasePki hnormalized, not_or.mp hid⟩

/-- The cases can be told apart by their ids. -/
theorem caseIds_of_checkRows (h : checkRows int seen rows = some cases) :
    (cases.map CaseRow.caseId).Nodup ∧
      ∀ id ∈ cases.map CaseRow.caseId, id ≠ "" ∧ id ∉ seen := by
  induction rows generalizing seen cases with
  | nil =>
      cases h
      exact ⟨.nil, nofun⟩
  | cons row rows ih =>
      obtain ⟨checked, hchecked, h⟩ := Option.bind_eq_some_iff.mp h
      obtain ⟨rest, hrest, h⟩ := Option.bind_eq_some_iff.mp h
      cases h
      obtain ⟨hid, hne, hseen⟩ := caseId_of_checkRow hchecked
      obtain ⟨hnodup, hids⟩ := ih hrest
      rw [List.map_cons, List.nodup_cons, List.forall_mem_cons, hid]
      refine ⟨⟨fun hmem ↦ (hids _ hmem).2 (.head _), hnodup⟩, ⟨hne, hseen⟩, fun id hmem ↦ ?_⟩
      exact ⟨(hids id hmem).1, fun h ↦ (hids id hmem).2 (.tail _ h)⟩

theorem caseIds_of_readCases {fieldnames : List String}
    (h : readCases int fieldnames rows = some cases) :
    (cases.map CaseRow.caseId).Nodup ∧ "" ∉ cases.map CaseRow.caseId := by
  rw [readCases] at h
  split at h
  · exact nomatch h
  obtain ⟨checked, hchecked, h⟩ := Option.bind_eq_some_iff.mp h
  split at h
  · exact nomatch h
  · cases h
    obtain ⟨hnodup, hids⟩ := caseIds_of_checkRows hchecked
    exact ⟨hnodup, fun hmem ↦ (hids _ hmem).1 rfl⟩

end

end PeripheralBench.Runner

import Mathlib.Data.Prod.Lex
import Mathlib.Data.String.Basic
import PeripheralBench.Fold.Sieve
import PeripheralBench.Text

/-!
# The attempts that are analysed

`load_attempt_data` of `analyze_time_energy.py`.  It reads the `attempts.csv` of all cases of all
runs, puts them together, and rejects what cannot be used, one filter after the other; the table
`quality` tells how many rows of which case have been rejected for which reason, and how many are
left.  Where it ends, each row is accounted for; but it does not end normally if pandas cannot read
one of the files, if one of three columns is in no file, or if the number of a session is infinite
(`accounted_iff`).

The columns that are computed from the accepted rows are left out.
-/

open PeripheralBench.Fold

namespace PeripheralBench.Analysis

/-! ## What is read -/

/-- What `pd.read_csv` makes of a file: the header, and the cells of each row by their column. -/
structure Frame where
  columns : List String
  rows : List (String → Option String)

/-- What `pd.read_csv` raises. -/
inductive CsvError where
  /-- `EmptyDataError`: there is not even a header. -/
  | emptyData
  /-- `ParserError`: a row has more cells than there are columns. -/
  | parser
  /-- `UnicodeDecodeError`. -/
  | unicodeDecode
deriving DecidableEq

/-- An `attempts.csv` in a directory of `cases`. -/
structure AttemptsFile where
  directory : String
  content : Bytes

/-- A run, with its attempts files in the order of their paths. -/
structure RunDir where
  name : String
  attempts : List AttemptsFile

/-- A value of `pd.to_numeric`. -/
inductive Numeric where
  | nan
  | infinite (positive : Bool)
  | finite (value : ℚ)
deriving DecidableEq

namespace Numeric

def isna : Numeric → Bool
  | nan => true
  | _ => false

/-- `values.fillna(value)`. -/
def fillna (value : ℚ) : Numeric → Numeric
  | nan => finite value
  | v => v

/-- `values > 0`. -/
def positive : Numeric → Bool
  | nan => false
  | infinite positive => positive
  | finite value => decide (0 < value)

/-- `values <= 0`. -/
def nonpositive : Numeric → Bool
  | nan => false
  | infinite positive => !positive
  | finite value => decide (value ≤ 0)

/-- `np.isfinite(values)`. -/
def isfinite : Numeric → Bool
  | finite _ => true
  | _ => false

end Numeric

/-- What is used of pandas and of the regular expressions. -/
structure Platform where
  /-- `\d`. -/
  isDecimal : Char → Bool
  /-- A cell under `pd.to_numeric(series, errors="coerce")`. -/
  toNumeric : String → Numeric
  /-- `pd.read_csv(path, dtype=str, keep_default_na=False)`. -/
  readCsv : Bytes → Except CsvError Frame

variable (P : Platform)

/-- `re.sub(r"^\d+_", "", path.parent.name)`. -/
def caseIdFromDirectory (directory : String) : String :=
  if directory.toList.takeWhile P.isDecimal = [] then directory
  else
    match directory.toList.dropWhile P.isDecimal with
    | '_' :: rest => String.ofList rest
    | _ => directory

/-- A row with the columns that `_read_attempts` sets; `none` is a missing value. -/
structure Row where
  runId : String
  caseId : String
  cell : String → Option String

/-- A table of rows. -/
structure Data where
  columns : List String
  rows : List Row

/-- What is raised. -/
inductive LoadError where
  | readCsv (error : CsvError)
  /-- `'bool' object has no attribute 'fillna'`. -/
  | noFillna
  /-- `'str' object has no attribute 'astype'`. -/
  | noAstype
  /-- `Cannot convert non-finite values (NA or inf) to integer`. -/
  | nonFinite
deriving DecidableEq

/-- The columns that `_read_attempts` sets, with those of the file. -/
def withColumns (runId directory : String) (frame : Frame) : Data where
  columns := frame.columns
  rows := frame.rows.map fun cells ↦
    { runId := runId
      caseId := caseIdFromDirectory P directory
      cell := fun column ↦ if column ∈ frame.columns then cells column else none }

/-- `_read_attempts`. -/
def readAttempts (runId : String) (file : AttemptsFile) : Except LoadError Data := do
  let frame ← (P.readCsv file.content).mapError .readCsv
  return withColumns P runId file.directory frame

/-- `pd.concat(frames)`. -/
def concat (frames : List Data) : Data where
  columns := frames.flatMap Data.columns
  rows := frames.flatMap Data.rows

/-- `data.get(column)`. -/
def Data.get (data : Data) (column : String) : Option (Row → Option String) :=
  if column ∈ data.columns then some fun row ↦ row.cell column else none

/-- `numeric`. -/
def numeric (cell : Option String) : Numeric := cell.elim .nan P.toNumeric

/-! ## The counts -/

/-- What is counted in `status_counts` and in `rejection_counts`, and a row of `quality` with its
count. -/
structure Key where
  runId : String
  caseId : String
  reason : String
deriving DecidableEq

/-- The order of the tuples. -/
def Key.le (a b : Key × ℕ) : Bool :=
  decide (toLex (a.1.runId, toLex (a.1.caseId, a.1.reason)) ≤
    toLex (b.1.runId, toLex (b.1.caseId, b.1.reason)))

def Row.key (reason : String) (row : Row) : Key := ⟨row.runId, row.caseId, reason⟩

/-- `frame.get("status", pd.Series("", index=frame.index)).value_counts()`, in some order. -/
def statusValueCounts (data : Data) : Counter String :=
  tally (if "status" ∈ data.columns then data.rows.filterMap fun row ↦ row.cell "status"
    else data.rows.map fun _ ↦ "")

/-- The variables of the first loop. -/
structure Loaded where
  frames : List Data := []
  statusCounts : Counter Key := []
  rejectionCounts : Counter Key := []

/-- A round of the inner loop, after the file has been read. -/
def Loaded.addFrame (l : Loaded) (runId directory : String) (frame : Data) : Loaded :=
  { l with
    frames := l.frames ++ [frame]
    statusCounts := l.statusCounts.update ((statusValueCounts frame).map fun i ↦
      (⟨runId, caseIdFromDirectory P directory,
        "status_" ++ if i.1 = "" then "missing" else i.1⟩, i.2)) }

/-- A round of the inner loop. -/
def loadFile (runId : String) (l : Loaded) (file : AttemptsFile) : Except LoadError Loaded := do
  let frame ← readAttempts P runId file
  return l.addFrame P runId file.directory frame

/-- A round of the outer loop. -/
def loadRun (l : Loaded) (run : RunDir) : Except LoadError Loaded :=
  if run.attempts.isEmpty then
    .ok { l with
      rejectionCounts := l.rejectionCounts.add ⟨run.name, "", "missing_attempts_csv"⟩ 1 }
  else run.attempts.foldlM (loadFile P run.name) l

/-! ## The filters -/

/-- `BASE_REQUIRED`. -/
def baseRequired : List String :=
  ["raw_handshake_ms", "handshake_duration_ms", "handshake_energy_uj"]

/-- `reject`; `keep` is the sieve, and without a Series the mask is a `bool`. -/
def reject (s : Sieve Row Key) (mask : Option (Row → Bool)) (reason : String) :
    Except LoadError (Sieve Row Key) :=
  match mask with
  | some rejects => .ok (s.reject Row.key ⟨rejects, reason⟩)
  | none => .error .noFillna

/-- `data.get(column, "") != "success"`. -/
def notSuccess (data : Data) (column : String) : Option (Row → Bool) :=
  (data.get column).map fun cell row ↦ decide (cell row ≠ some "success")

/-- `data.get("warmup", "0").astype(str) == "1"`. -/
def isWarmup (data : Data) : Except LoadError (Row → Bool) :=
  match data.get "warmup" with
  | some cell => .ok fun row ↦ (cell row).getD "nan" == "1"
  | none => .error .noAstype

/-- `reconnects`. -/
def reconnects (data : Data) (row : Row) : Numeric :=
  ((data.get "reconnect_count").elim (.finite 0) fun cell ↦ numeric P (cell row)).fillna 0

/-- A round of the loop over `BASE_REQUIRED`. -/
def fieldFilters (data : Data) (field : String) : List (Filter Row String) :=
  match data.get field with
  | none => [⟨fun _ ↦ true, "missing_" ++ field⟩]
  | some cell =>
      [⟨fun row ↦ (numeric P (cell row)).isna, "missing_" ++ field⟩,
        ⟨fun row ↦ (numeric P (cell row)).nonpositive, "nonpositive_" ++ field⟩]

/-- The filters, in their order. -/
def filterAttempts (includeReconnects : Bool) (data : Data) (s : Sieve Row Key) :
    Except LoadError (Sieve Row Key) := do
  let s ← reject s (notSuccess data "status") "not_success"
  let warmup ← isWarmup data
  let s ← reject s (some warmup) "warmup"
  let s ← reject s (notSuccess data "power_status") "power_incomplete"
  let s := if includeReconnects then s
    else s.reject Row.key ⟨fun row ↦ (reconnects P data row).positive, "reconnected"⟩
  return s.run Row.key (baseRequired.flatMap (fieldFilters P data))

/-! ## The function -/

/-- `values.astype(int)`; the numbers are left out. -/
def astypeInt (values : List Numeric) : Except LoadError Unit :=
  if values.all Numeric.isfinite then .ok () else .error .nonFinite

/-- `{**status_counts, **rejection_counts}`. -/
def mergeCounts (statusCounts rejectionCounts : Counter Key) : Counter Key :=
  (statusCounts.filter fun i ↦ decide (i.1 ∉ rejectionCounts.map Prod.fst)) ++ rejectionCounts

/-- `quality`. -/
def qualityRows (statusCounts rejectionCounts : Counter Key) (data : List Row) : Counter Key :=
  (mergeCounts statusCounts rejectionCounts).mergeSort Key.le ++
    (tally (data.map (Row.key "accepted_attempts"))).mergeSort Key.le ++
    [(⟨"ALL", "ALL", "accepted_attempts"⟩, data.length)]

/-- `load_attempt_data`: the accepted rows, and `quality`. -/
def loadAttemptData (includeReconnects : Bool) (runs : List RunDir) :
    Except LoadError (List Row × Counter Key) := do
  let l ← runs.foldlM (loadRun P) {}
  if l.frames.isEmpty then return ([], l.rejectionCounts)
  let data := concat l.frames
  let s ← filterAttempts P includeReconnects data ⟨data.rows, l.rejectionCounts⟩
  astypeInt (s.kept.map fun row ↦ (numeric P (row.cell "session")).fillna (-1))
  return (s.kept, qualityRows l.statusCounts s.counts s.kept)

/-! ## What it should do -/

/-- The tables of a run, of the files that pandas can read. -/
def RunDir.frames (run : RunDir) : List Data :=
  run.attempts.filterMap fun file ↦ (readAttempts P run.name file).toOption

/-- The tables that are read. -/
def readFrames (runs : List RunDir) : List Data := runs.flatMap (RunDir.frames P)

/-- All rows that are read. -/
def readRows (runs : List RunDir) : List Row := (readFrames P runs).flatMap Data.rows

/-- A row that all filters let through. -/
structure Passes (includeReconnects : Bool) (row : Row) : Prop where
  status : row.cell "status" = some "success"
  warmup : row.cell "warmup" ≠ some "1"
  power : row.cell "power_status" = some "success"
  reconnects : includeReconnects = true ∨
    ((numeric P (row.cell "reconnect_count")).fillna 0).positive = false
  required : ∀ field ∈ baseRequired, (numeric P (row.cell field)).positive = true

/-- The reasons for which rows are rejected. -/
def rejectionReasons : List String :=
  ["not_success", "warmup", "power_incomplete", "reconnected"] ++
    baseRequired.flatMap fun field ↦ ["missing_" ++ field, "nonpositive_" ++ field]

/-- The keys of a case with one of some reasons. -/
def ofReasons (runId caseId : String) (reasons : List String) (k : Key) : Bool :=
  decide (k.runId = runId ∧ k.caseId = caseId ∧ k.reason ∈ reasons)

/-- What is counted for a case under some reasons. -/
def countOf (runId caseId : String) (reasons : List String) (quality : Counter Key) : ℕ :=
  Counter.total (ofReasons runId caseId reasons) quality

def Row.ofCase (runId caseId : String) (row : Row) : Bool :=
  decide (row.runId = runId ∧ row.caseId = caseId)

/-- Each row is accepted or counted once under its case and its reason, and what is accepted passes
all filters. -/
structure Accounting (includeReconnects : Bool) (runs : List RunDir) (data : List Row)
    (quality : Counter Key) : Prop where
  outcome : ∃ reasonOf : Row → Option String,
    (∀ row reason, reasonOf row = some reason → reason ∈ rejectionReasons) ∧
    data = (readRows P runs).filter (fun row ↦ (reasonOf row).isNone) ∧
    ∀ runId caseId, ∀ reason ∈ rejectionReasons, countOf runId caseId [reason] quality =
      (readRows P runs).countP fun row ↦
        row.ofCase runId caseId && decide (reasonOf row = some reason)
  balance : ∀ runId caseId, data.countP (Row.ofCase runId caseId) +
    countOf runId caseId rejectionReasons quality =
      (readRows P runs).countP (Row.ofCase runId caseId)
  passes : ∀ row ∈ data, Passes P includeReconnects row

/-- The function ends normally, with the books balanced. -/
def Accounted (includeReconnects : Bool) (runs : List RunDir) : Prop :=
  ∃ data quality, loadAttemptData P includeReconnects runs = .ok (data, quality) ∧
    Accounting P includeReconnects runs data quality

/-! ## Loading -/

section Loading

variable {P} {runs : List RunDir}

/-- A property of keys that only holds of keys under which rejected rows are counted. -/
def OnRejections (p : Key → Bool) : Prop := ∀ k, p k = true → k.reason ∈ rejectionReasons

theorem status_notMem (text : String) : "status_" ++ text ∉ rejectionReasons := by
  intro h
  have hhead : ∀ reason ∈ rejectionReasons, reason.toList.head? ≠ some 's' := by decide
  apply hhead _ h
  rw [String.toList_append]
  rfl

theorem OnRejections.eq_false {p : Key → Bool} (hp : OnRejections p) {k : Key}
    (hk : k.reason ∉ rejectionReasons) :
    p k = false :=
  Bool.eq_false_iff.mpr fun h ↦ hk (hp k h)

/-- Tables have been put behind those of `l`, and what is counted of rejected rows is the same. -/
structure Loaded.Extends (l : Loaded) (frames : List Data) (l' : Loaded) : Prop where
  frames_eq : l'.frames = l.frames ++ frames
  rejections : ∀ p, OnRejections p →
    Counter.total p l'.rejectionCounts = Counter.total p l.rejectionCounts
  statuses : ∀ p, OnRejections p →
    Counter.total p l'.statusCounts = Counter.total p l.statusCounts

namespace Loaded.Extends

variable {α : Type} {l l' l'' : Loaded} {frames frames' : List Data}

theorem refl (l : Loaded) : l.Extends [] l :=
  ⟨(List.append_nil _).symm, fun _ _ ↦ rfl, fun _ _ ↦ rfl⟩

theorem trans (h : l.Extends frames l') (h' : l'.Extends frames' l'') :
    l.Extends (frames ++ frames') l'' where
  frames_eq := by rw [h'.frames_eq, h.frames_eq, List.append_assoc]
  rejections p hp := (h'.rejections p hp).trans (h.rejections p hp)
  statuses p hp := (h'.statuses p hp).trans (h.statuses p hp)

/-- A loop whose rounds do. -/
theorem foldlM {f : Loaded → α → Except LoadError Loaded} {g : α → List Data} {xs : List α}
    (hstep : ∀ x ∈ xs, ∀ l, ∃ l', f l x = .ok l' ∧ l.Extends (g x) l') (l : Loaded) :
    ∃ l', xs.foldlM f l = .ok l' ∧ l.Extends (xs.flatMap g) l' := by
  induction xs generalizing l with
  | nil => exact ⟨l, rfl, refl l⟩
  | cons x xs ih =>
      obtain ⟨l₁, hl₁, h₁⟩ := hstep x (.head _) l
      obtain ⟨l₂, hl₂, h₂⟩ := ih (fun y hy ↦ hstep y (.tail _ hy)) l₁
      refine ⟨l₂, ?_, h₁.trans h₂⟩
      rw [List.foldlM_cons, hl₁]
      exact hl₂

end Loaded.Extends

/-- A loop one of whose rounds raises an error. -/
theorem exists_error_foldlM {α : Type} {f : Loaded → α → Except LoadError Loaded} {xs : List α}
    {x : α} (hx : x ∈ xs) (herror : ∀ l, ∃ e, f l x = .error e) (l : Loaded) :
    ∃ e, xs.foldlM f l = .error e := by
  induction xs generalizing l with
  | nil => cases hx
  | cons y xs ih =>
      rw [List.foldlM_cons]
      cases hy : f l y with
      | error e => exact ⟨e, rfl⟩
      | ok l' =>
          rcases List.mem_cons.mp hx with rfl | hx
          · obtain ⟨e, he⟩ := herror l
            rw [he] at hy
            cases hy
          · exact ih hx l'

/-- Pandas can read the file. -/
def AttemptsFile.Readable (P : Platform) (file : AttemptsFile) : Prop :=
  ∃ frame, P.readCsv file.content = .ok frame

theorem readAttempts_of_ok (runId : String) {file : AttemptsFile} {frame : Frame}
    (h : P.readCsv file.content = .ok frame) :
    readAttempts P runId file = .ok (withColumns P runId file.directory frame) := by
  rw [readAttempts, h]
  rfl

theorem readAttempts_of_error (runId : String) {file : AttemptsFile} {e : CsvError}
    (h : P.readCsv file.content = .error e) :
    readAttempts P runId file = .error (.readCsv e) := by
  rw [readAttempts, h]
  rfl

theorem extends_addFrame (l : Loaded) (runId directory : String) (frame : Data) :
    l.Extends [frame] (l.addFrame P runId directory frame) where
  frames_eq := rfl
  rejections _ _ := rfl
  statuses p hp := by
    have hcounted : Counter.total p ((statusValueCounts frame).map fun i ↦
        ((⟨runId, caseIdFromDirectory P directory,
          "status_" ++ if i.1 = "" then "missing" else i.1⟩ : Key), i.2)) = 0 := by
      refine Counter.total_eq_zero fun i hi ↦ ?_
      obtain ⟨j, -, rfl⟩ := List.mem_map.mp hi
      exact hp.eq_false (status_notMem _)
    rw [Loaded.addFrame, Counter.total_update, hcounted, Nat.add_zero]

theorem loadFile_of_readable (runId : String) {file : AttemptsFile} (h : file.Readable P)
    (l : Loaded) : ∃ l', loadFile P runId l file = .ok l' ∧
      l.Extends (readAttempts P runId file).toOption.toList l' := by
  obtain ⟨frame, hframe⟩ := h
  rw [loadFile, readAttempts_of_ok runId hframe]
  exact ⟨_, rfl, extends_addFrame _ _ _ _⟩

theorem loadRun_of_readable {run : RunDir} (h : ∀ file ∈ run.attempts, file.Readable P)
    (l : Loaded) : ∃ l', loadRun P l run = .ok l' ∧ l.Extends (run.frames P) l' := by
  rw [loadRun]
  split
  case isTrue hempty =>
    have hmissing : "missing_attempts_csv" ∉ rejectionReasons := by decide
    refine ⟨_, rfl, ⟨?_, fun p hp ↦ ?_, fun _ _ ↦ rfl⟩⟩
    · rw [RunDir.frames, List.isEmpty_iff.mp hempty, List.filterMap_nil, List.append_nil]
    · rw [Counter.total_add, hp.eq_false hmissing, if_neg Bool.false_ne_true, Nat.add_zero]
  case isFalse =>
    rw [RunDir.frames, List.filterMap_eq_flatMap_toList]
    exact Loaded.Extends.foldlM (fun file hfile ↦ loadFile_of_readable run.name (h file hfile)) l

/-- What the first loop leaves: the tables, and no rejected rows. -/
theorem exists_loaded (h : ∀ run ∈ runs, ∀ file ∈ run.attempts, file.Readable P) :
    ∃ l, runs.foldlM (loadRun P) {} = .ok l ∧ Loaded.Extends {} (readFrames P runs) l :=
  Loaded.Extends.foldlM (fun run hrun ↦ loadRun_of_readable (h run hrun)) {}

/-- A file that pandas cannot read. -/
theorem exists_error_loading {run : RunDir} {file : AttemptsFile} (hrun : run ∈ runs)
    (hfile : file ∈ run.attempts) (h : ¬ file.Readable P) :
    ∃ e, runs.foldlM (loadRun P) {} = .error e := by
  have hread : ∀ l, ∃ e, loadFile P run.name l file = .error e := by
    intro l
    cases hcsv : P.readCsv file.content with
    | ok frame => exact absurd ⟨frame, hcsv⟩ h
    | error e =>
        rw [loadFile, readAttempts_of_error _ hcsv]
        exact ⟨_, rfl⟩
  refine exists_error_foldlM hrun (fun l ↦ ?_) {}
  rw [loadRun, if_neg]
  · exact exists_error_foldlM hfile hread l
  · rw [List.isEmpty_iff]
    exact List.ne_nil_of_mem hfile

end Loading

/-! ## Filtering -/

section Filtering

variable {P} {includeReconnects : Bool} {data : Data} {row : Row} {s : Sieve Row Key}

/-- The filters, if there are a status, a warm-up and a power status. -/
def filters (P : Platform) (includeReconnects : Bool) (data : Data) : List (Filter Row String) :=
  [⟨fun row ↦ decide (row.cell "status" ≠ some "success"), "not_success"⟩,
    ⟨fun row ↦ (row.cell "warmup").getD "nan" == "1", "warmup"⟩,
    ⟨fun row ↦ decide (row.cell "power_status" ≠ some "success"), "power_incomplete"⟩] ++
  (if includeReconnects then []
    else [⟨fun row ↦ (reconnects P data row).positive, "reconnected"⟩]) ++
  baseRequired.flatMap (fieldFilters P data)

theorem filterAttempts_eq (hstatus : "status" ∈ data.columns) (hwarmup : "warmup" ∈ data.columns)
    (hpower : "power_status" ∈ data.columns) :
    filterAttempts P includeReconnects data s =
      .ok (s.run Row.key (filters P includeReconnects data)) := by
  rw [filterAttempts, notSuccess, notSuccess, isWarmup, Data.get, Data.get, Data.get,
    if_pos hstatus, if_pos hwarmup, if_pos hpower]
  cases includeReconnects with
  | true => rfl
  | false => rfl

/-- Without one of the three columns an error is raised. -/
theorem exists_error (P : Platform) (includeReconnects : Bool) (s : Sieve Row Key)
    (h : "status" ∉ data.columns ∨ "warmup" ∉ data.columns ∨ "power_status" ∉ data.columns) :
    ∃ e, filterAttempts P includeReconnects data s = .error e := by
  by_cases hstatus : "status" ∈ data.columns
  case neg =>
    refine ⟨.noFillna, ?_⟩
    rw [filterAttempts, notSuccess, Data.get, if_neg hstatus]
    rfl
  by_cases hwarmup : "warmup" ∈ data.columns
  case neg =>
    refine ⟨.noAstype, ?_⟩
    rw [filterAttempts, notSuccess, isWarmup, Data.get, Data.get, if_pos hstatus, if_neg hwarmup]
    rfl
  have hpower : "power_status" ∉ data.columns :=
    (h.resolve_left (not_not.mpr hstatus)).resolve_left (not_not.mpr hwarmup)
  refine ⟨.noFillna, ?_⟩
  rw [filterAttempts, notSuccess, notSuccess, isWarmup, Data.get, Data.get, Data.get,
    if_pos hstatus, if_pos hwarmup, if_neg hpower]
  rfl

/-- A row has nothing in a column that the table does not have. -/
def Data.Fits (data : Data) (row : Row) : Prop := ∀ column ∉ data.columns, row.cell column = none

theorem Numeric.positive_iff (v : Numeric) :
    v.positive = true ↔ v.isna = false ∧ v.nonpositive = false := by
  cases v with
  | nan => decide
  | infinite positive => cases positive <;> decide
  | finite value =>
      rw [positive, nonpositive, decide_eq_true_iff, decide_eq_false_iff_not, not_le]
      exact (and_iff_right rfl).symm

theorem reconnects_eq (hrow : data.Fits row) :
    reconnects P data row = (numeric P (row.cell "reconnect_count")).fillna 0 := by
  rw [reconnects, Data.get]
  by_cases h : "reconnect_count" ∈ data.columns
  · rw [if_pos h]
    rfl
  · rw [if_neg h, hrow _ h]
    rfl

theorem fieldFilters_pass (hrow : data.Fits row) (field : String) :
    (∀ f ∈ fieldFilters P data field, f.rejects row = false) ↔
      (numeric P (row.cell field)).positive = true := by
  rw [fieldFilters, Data.get]
  by_cases h : field ∈ data.columns
  · rw [if_pos h, Numeric.positive_iff]
    exact List.forall_mem_cons.trans (and_congr_right' List.forall_mem_singleton)
  · rw [if_neg h, hrow _ h]
    exact iff_of_false (fun h ↦ Bool.false_ne_true (h _ (List.mem_singleton_self _)).symm)
      Bool.false_ne_true

theorem fieldFilters_reason (field : String) : ∀ f ∈ fieldFilters P data field,
    f.reason ∈ ["missing_" ++ field, "nonpositive_" ++ field] := by
  rw [fieldFilters]
  split
  · exact List.forall_mem_singleton.mpr (.head _)
  · rw [List.forall_mem_cons, List.forall_mem_singleton]
    exact ⟨.head _, .tail _ (.head _)⟩

/-- The filters let through what they are for. -/
theorem filters_pass (hrow : data.Fits row) :
    (∀ f ∈ filters P includeReconnects data, f.rejects row = false) ↔
      Passes P includeReconnects row := by
  have hbase : (∀ f ∈ baseRequired.flatMap (fieldFilters P data), f.rejects row = false) ↔
      ∀ field ∈ baseRequired, (numeric P (row.cell field)).positive = true := by
    rw [List.forall_mem_flatMap]
    exact forall₂_congr fun field _ ↦ fieldFilters_pass hrow field
  have hwarmup : ((row.cell "warmup").getD "nan" == "1") = false ↔
      row.cell "warmup" ≠ some "1" := by
    cases row.cell "warmup" with
    | none => decide
    | some text => rw [Option.getD_some, beq_eq_false_iff_ne, Ne, Ne, Option.some_inj]
  have hreconnects : (∀ f ∈ (if includeReconnects then [] else
        [⟨fun row ↦ (reconnects P data row).positive, "reconnected"⟩] : List (Filter Row String)),
      f.rejects row = false) ↔ includeReconnects = true ∨
        ((numeric P (row.cell "reconnect_count")).fillna 0).positive = false := by
    rw [← reconnects_eq hrow]
    cases includeReconnects with
    | true => exact iff_of_true (fun f hf ↦ absurd hf List.not_mem_nil) (.inl rfl)
    | false => exact List.forall_mem_singleton.trans (or_iff_right Bool.false_ne_true).symm
  rw [filters, List.forall_mem_append, List.forall_mem_append, hbase, hreconnects,
    List.forall_mem_cons, List.forall_mem_cons, List.forall_mem_singleton, hwarmup,
    decide_eq_false_iff_not, decide_eq_false_iff_not, not_not, not_not]
  constructor
  · rintro ⟨⟨⟨hstatus, hwarmup, hpower⟩, hreconnects⟩, hrequired⟩
    exact ⟨hstatus, hwarmup, hpower, hreconnects, hrequired⟩
  · rintro ⟨hstatus, hwarmup, hpower, hreconnects, hrequired⟩
    exact ⟨⟨⟨hstatus, hwarmup, hpower⟩, hreconnects⟩, hrequired⟩

theorem reason_mem {f : Filter Row String} (hf : f ∈ filters P includeReconnects data) :
    f.reason ∈ rejectionReasons := by
  rw [filters, List.mem_append, List.mem_append] at hf
  rw [rejectionReasons, List.mem_append]
  rcases hf with (hf | hf) | hf
  · refine .inl ?_
    revert f
    rw [List.forall_mem_cons, List.forall_mem_cons, List.forall_mem_singleton]
    exact ⟨by decide, by decide, by decide⟩
  · refine .inl ?_
    split at hf
    · cases hf
    · rw [List.mem_singleton.mp hf]
      exact List.mem_of_getElem? (i := 3) rfl
  · obtain ⟨field, hfield, hf⟩ := List.mem_flatMap.mp hf
    exact .inr (List.mem_flatMap.mpr ⟨field, hfield, fieldFilters_reason field f hf⟩)

end Filtering

/-! ## When the function does it -/

/-- One of the files has the column. -/
def Supplied (runs : List RunDir) (column : String) : Prop :=
  ∃ run ∈ runs, ∃ file ∈ run.attempts, ∃ frame,
    P.readCsv file.content = .ok frame ∧ column ∈ frame.columns

/-- Pandas can read every attempts file; and there is none, or the three columns that are taken for
granted are in a file and no row that passes has an infinite session. -/
def Regular (includeReconnects : Bool) (runs : List RunDir) : Prop :=
  (∀ run ∈ runs, ∀ file ∈ run.attempts, file.Readable P) ∧
    ((∀ run ∈ runs, run.attempts = []) ∨
      (Supplied P runs "status" ∧ Supplied P runs "warmup" ∧ Supplied P runs "power_status") ∧
      ∀ row ∈ readRows P runs, Passes P includeReconnects row →
        ∀ positive, numeric P (row.cell "session") ≠ .infinite positive)

section Running

variable {P} {includeReconnects : Bool} {runs : List RunDir}

theorem mem_readFrames {data : Data} : data ∈ readFrames P runs ↔
    ∃ run ∈ runs, ∃ file ∈ run.attempts, ∃ frame, P.readCsv file.content = .ok frame ∧
      data = withColumns P run.name file.directory frame := by
  rw [readFrames, List.mem_flatMap]
  refine exists_congr fun run ↦ and_congr_right fun _ ↦ ?_
  rw [RunDir.frames, List.mem_filterMap]
  refine exists_congr fun file ↦ and_congr_right fun _ ↦ ?_
  cases hcsv : P.readCsv file.content with
  | error e =>
      rw [readAttempts_of_error _ hcsv]
      exact iff_of_false (Option.some_ne_none _).symm (by rintro ⟨_, ⟨⟩, _⟩)
  | ok frame =>
      rw [readAttempts_of_ok _ hcsv]
      constructor
      · rintro ⟨⟩
        exact ⟨frame, rfl, rfl⟩
      · rintro ⟨_, ⟨⟩, rfl⟩
        rfl

theorem mem_concat_columns {column : String} :
    column ∈ (concat (readFrames P runs)).columns ↔ Supplied P runs column := by
  rw [concat, List.mem_flatMap]
  constructor
  · rintro ⟨data, hdata, hcolumn⟩
    obtain ⟨run, hrun, file, hfile, frame, hframe, rfl⟩ := mem_readFrames.mp hdata
    exact ⟨run, hrun, file, hfile, frame, hframe, hcolumn⟩
  · rintro ⟨run, hrun, file, hfile, frame, hframe, hcolumn⟩
    exact ⟨_, mem_readFrames.mpr ⟨run, hrun, file, hfile, frame, hframe, rfl⟩, hcolumn⟩

theorem concat_fits {row : Row} (hrow : row ∈ readRows P runs) :
    (concat (readFrames P runs)).Fits row := by
  intro column hcolumn
  obtain ⟨data, hdata, hrow⟩ := List.mem_flatMap.mp hrow
  obtain ⟨run, hrun, file, hfile, frame, hframe, rfl⟩ := mem_readFrames.mp hdata
  obtain ⟨cells, -, rfl⟩ := List.mem_map.mp hrow
  exact if_neg fun h ↦
    hcolumn (mem_concat_columns.mpr ⟨run, hrun, file, hfile, frame, hframe, h⟩)

theorem readFrames_eq_nil_iff (hreadable : ∀ run ∈ runs, ∀ file ∈ run.attempts, file.Readable P) :
    readFrames P runs = [] ↔ ∀ run ∈ runs, run.attempts = [] := by
  rw [List.eq_nil_iff_forall_not_mem]
  constructor
  · intro h run hrun
    refine List.eq_nil_iff_forall_not_mem.mpr fun file hfile ↦ ?_
    obtain ⟨frame, hframe⟩ := hreadable run hrun file hfile
    exact h _ (mem_readFrames.mpr ⟨run, hrun, file, hfile, frame, hframe, rfl⟩)
  · intro h data hdata
    obtain ⟨run, hrun, file, hfile, -⟩ := mem_readFrames.mp hdata
    rw [h run hrun] at hfile
    exact absurd hfile List.not_mem_nil

theorem isfinite_fillna_iff (v : Numeric) :
    (v.fillna (-1)).isfinite = true ↔ ∀ positive, v ≠ .infinite positive := by
  cases v with
  | nan => exact iff_of_true rfl fun positive h ↦ Numeric.noConfusion h
  | infinite positive => exact iff_of_false Bool.false_ne_true fun h ↦ h positive rfl
  | finite value => exact iff_of_true rfl fun positive h ↦ Numeric.noConfusion h

theorem total_qualityRows {p : Key → Bool} (hp : OnRejections p) {statusCounts : Counter Key}
    (hstatuses : Counter.total p statusCounts = 0) (rejectionCounts : Counter Key)
    (data : List Row) : Counter.total p (qualityRows statusCounts rejectionCounts data) =
      Counter.total p rejectionCounts := by
  have haccepted : "accepted_attempts" ∉ rejectionReasons := by decide
  have htally : Counter.total p (tally (data.map (Row.key "accepted_attempts"))) = 0 := by
    refine Counter.total_eq_zero fun i hi ↦ ?_
    obtain ⟨row, -, hrow⟩ := List.mem_map.mp (mem_of_mem_tally hi)
    rw [← hrow]
    exact hp.eq_false haccepted
  rw [qualityRows, Counter.total_append, Counter.total_append,
    Counter.total_perm (List.mergeSort_perm _ _), Counter.total_perm (List.mergeSort_perm _ _),
    htally, mergeCounts, Counter.total_append, Counter.total_filter_eq_zero _ hstatuses,
    Counter.total_cons, hp.eq_false haccepted, if_neg Bool.false_ne_true, Counter.total_nil,
    Nat.zero_add, Nat.add_zero]

theorem onRejections_ofReasons {runId caseId : String} {reasons : List String}
    (h : ∀ reason ∈ reasons, reason ∈ rejectionReasons) :
    OnRejections (ofReasons runId caseId reasons) := by
  intro k hk
  exact h _ (of_decide_eq_true hk).2.2

theorem any_ofReasons (runId caseId : String) (reasons : List String) (row : Row)
    (reasonOf : Option String) :
    (reasonOf.any fun reason ↦ ofReasons runId caseId reasons (row.key reason)) =
      (row.ofCase runId caseId && reasonOf.any fun reason ↦ decide (reason ∈ reasons)) := by
  cases reasonOf with
  | none => exact (Bool.and_false _).symm
  | some reason =>
      rw [Option.any_some, Option.any_some, Row.ofCase, ← Bool.decide_and]
      exact decide_eq_decide.mpr and_assoc.symm

theorem firstFailure_mem {data : Data} {row : Row} {reason : String}
    (h : firstFailure (filters P includeReconnects data) row = some reason) :
    reason ∈ rejectionReasons := by
  obtain ⟨f, hf, rfl⟩ := exists_of_firstFailure h
  exact reason_mem hf

section Accounting

variable {data : Data} {statusCounts rejectionCounts : Counter Key} {s : Sieve Row Key}

/-- The table has, for a case and some reasons, the rows that have been rejected for them. -/
theorem countOf_qualityRows (hstatuses : ∀ p, OnRejections p → Counter.total p statusCounts = 0)
    (hrejections : ∀ p, OnRejections p → Counter.total p rejectionCounts = 0)
    (hs : s = Sieve.run Row.key (filters P includeReconnects data)
      ⟨readRows P runs, rejectionCounts⟩) {reasons : List String}
    (hreasons : ∀ reason ∈ reasons, reason ∈ rejectionReasons) (runId caseId : String) :
    countOf runId caseId reasons (qualityRows statusCounts s.counts s.kept) =
      (readRows P runs).countP fun row ↦ row.ofCase runId caseId &&
        (firstFailure (filters P includeReconnects data) row).any fun reason ↦
          decide (reason ∈ reasons) := by
  have hp : OnRejections (ofReasons runId caseId reasons) := onRejections_ofReasons hreasons
  rw [countOf, total_qualityRows hp (hstatuses _ hp), hs, Sieve.run_total, hrejections _ hp,
    Nat.zero_add]
  exact List.countP_congr fun row _ ↦ by rw [any_ofReasons]

/-- The accounts of the filters. -/
theorem accounting (hfits : ∀ row ∈ readRows P runs, data.Fits row)
    (hstatuses : ∀ p, OnRejections p → Counter.total p statusCounts = 0)
    (hrejections : ∀ p, OnRejections p → Counter.total p rejectionCounts = 0)
    (hs : s = Sieve.run Row.key (filters P includeReconnects data)
      ⟨readRows P runs, rejectionCounts⟩) :
    Accounting P includeReconnects runs s.kept (qualityRows statusCounts s.counts s.kept) := by
  have hkept : s.kept = (readRows P runs).filter fun row ↦
      (firstFailure (filters P includeReconnects data) row).isNone := by
    rw [hs, Sieve.run_kept]
  refine ⟨⟨firstFailure (filters P includeReconnects data), fun _ _ ↦ firstFailure_mem, hkept, ?_⟩,
    ?_, ?_⟩
  case refine_1 =>
    intro runId caseId reason hmem
    rw [countOf_qualityRows hstatuses hrejections hs (List.forall_mem_singleton.mpr hmem)]
    refine List.countP_congr fun row _ ↦ ?_
    rw [Bool.and_eq_true, Bool.and_eq_true]
    refine and_congr_right' ?_
    cases firstFailure (filters P includeReconnects data) row with
    | none =>
        exact iff_of_false Bool.false_ne_true fun h ↦
          (Option.some_ne_none _).symm (of_decide_eq_true h)
    | some reason' =>
        rw [Option.any_some, decide_eq_true_iff, decide_eq_true_iff, List.mem_singleton,
          Option.some_inj]
  case refine_2 =>
    intro runId caseId
    have hrejected : countOf runId caseId rejectionReasons
        (qualityRows statusCounts s.counts s.kept) = ((readRows P runs).filter fun row ↦
          !(firstFailure (filters P includeReconnects data) row).isNone).countP
            (Row.ofCase runId caseId) := by
      rw [countOf_qualityRows hstatuses hrejections hs fun _ h ↦ h, List.countP_filter]
      refine List.countP_congr fun row _ ↦ ?_
      rw [Bool.and_eq_true, Bool.and_eq_true]
      refine and_congr_right' ?_
      cases h : firstFailure (filters P includeReconnects data) row with
      | none => exact Iff.rfl
      | some reason => exact iff_of_true (decide_eq_true (firstFailure_mem h)) rfl
    rw [hrejected, hkept]
    exact (List.countP_eq_countP_filter_add _ _ _).symm
  case refine_3 =>
    intro row hrow
    rw [hkept, List.mem_filter, isNone_firstFailure] at hrow
    exact (filters_pass (hfits row hrow.1)).mp hrow.2

end Accounting

/-- The sieve at the end. -/
def sieved (P : Platform) (includeReconnects : Bool) (runs : List RunDir) (l : Loaded) :
    Sieve Row Key :=
  Sieve.run Row.key (filters P includeReconnects (concat (readFrames P runs)))
    ⟨readRows P runs, l.rejectionCounts⟩

theorem mem_sieved_kept {l : Loaded} {row : Row} :
    row ∈ (sieved P includeReconnects runs l).kept ↔
      row ∈ readRows P runs ∧ Passes P includeReconnects row := by
  rw [sieved, Sieve.run_kept, List.mem_filter, isNone_firstFailure]
  exact and_congr_right fun hrow ↦ filters_pass (concat_fits hrow)

section Loaded

variable {l : Loaded} (hl : runs.foldlM (loadRun P) {} = .ok l)
  (hextends : Loaded.Extends {} (readFrames P runs) l)

include hl hextends

/-- What is done if there are files. -/
theorem loadAttemptData_of_ne_nil (hframes : readFrames P runs ≠ []) :
    loadAttemptData P includeReconnects runs = (do
      let s ← filterAttempts P includeReconnects (concat (readFrames P runs))
        ⟨readRows P runs, l.rejectionCounts⟩
      astypeInt (s.kept.map fun row ↦ (numeric P (row.cell "session")).fillna (-1))
      return (s.kept, qualityRows l.statusCounts s.counts s.kept)) := by
  have heq : l.frames = readFrames P runs := hextends.frames_eq
  have hempty : ¬ l.frames.isEmpty = true := by
    rw [heq, List.isEmpty_iff]
    exact hframes
  rw [loadAttemptData, hl]
  change (if l.frames.isEmpty then _ else _) = _
  rw [if_neg hempty, heq]
  rfl

/-- Without one of the three columns the function does not return. -/
theorem ne_ok_of_not_supplied (hframes : readFrames P runs ≠ [])
    (h : ¬ (Supplied P runs "status" ∧ Supplied P runs "warmup" ∧
      Supplied P runs "power_status")) (result : List Row × Counter Key) :
    loadAttemptData P includeReconnects runs ≠ .ok result := by
  rw [← mem_concat_columns, ← mem_concat_columns, ← mem_concat_columns, not_and_or,
    not_and_or] at h
  obtain ⟨e, he⟩ := exists_error P includeReconnects ⟨readRows P runs, l.rejectionCounts⟩ h
  rw [loadAttemptData_of_ne_nil hl hextends hframes, he]
  rintro ⟨⟩

/-- With the three columns, only the sessions can raise an error. -/
theorem loadAttemptData_eq (includeReconnects : Bool) (hframes : readFrames P runs ≠ [])
    (hstatus : Supplied P runs "status") (hwarmup : Supplied P runs "warmup")
    (hpower : Supplied P runs "power_status") :
    loadAttemptData P includeReconnects runs = (do
      astypeInt ((sieved P includeReconnects runs l).kept.map fun row ↦
        (numeric P (row.cell "session")).fillna (-1))
      return ((sieved P includeReconnects runs l).kept,
        qualityRows l.statusCounts (sieved P includeReconnects runs l).counts
          (sieved P includeReconnects runs l).kept)) := by
  rw [loadAttemptData_of_ne_nil hl hextends hframes,
    filterAttempts_eq (mem_concat_columns.mpr hstatus) (mem_concat_columns.mpr hwarmup)
      (mem_concat_columns.mpr hpower)]
  rfl

end Loaded

theorem astypeInt_eq_ok_iff {values : List Numeric} :
    astypeInt values = .ok () ↔ ∀ v ∈ values, v.isfinite = true := by
  rw [astypeInt, ← List.all_eq_true]
  split
  case isTrue h => exact iff_of_true rfl h
  case isFalse h => exact iff_of_false (by rintro ⟨⟩) h

section Loaded

variable {l : Loaded} (hl : runs.foldlM (loadRun P) {} = .ok l)
  (hextends : Loaded.Extends {} (readFrames P runs) l)

include hl hextends

/-- Where nothing is read, nothing is counted. -/
theorem accounted_of_nil (hframes : readFrames P runs = []) :
    Accounted P includeReconnects runs := by
  have hrows : readRows P runs = [] := by
    rw [readRows, hframes]
    rfl
  have hempty : l.frames.isEmpty = true := by
    rw [hextends.frames_eq, hframes]
    rfl
  have hcount : ∀ runId caseId reasons, (∀ reason ∈ reasons, reason ∈ rejectionReasons) →
      countOf runId caseId reasons l.rejectionCounts = 0 :=
    fun _ _ _ h ↦ hextends.rejections _ (onRejections_ofReasons h)
  have hreturns : loadAttemptData P includeReconnects runs = .ok ([], l.rejectionCounts) := by
    rw [loadAttemptData, hl]
    change (if l.frames.isEmpty then _ else _) = _
    rw [if_pos hempty]
    rfl
  refine ⟨[], _, hreturns, ?_⟩
  refine ⟨⟨fun _ ↦ none, fun _ _ h ↦ absurd h (Option.some_ne_none _).symm, ?_, ?_⟩, ?_, ?_⟩
  · rw [hrows]
    rfl
  · intro runId caseId reason hmem
    rw [hrows, hcount _ _ _ (List.forall_mem_singleton.mpr hmem)]
    rfl
  · intro runId caseId
    rw [hrows, hcount _ _ _ fun _ h ↦ h]
    rfl
  · exact fun row h ↦ absurd h List.not_mem_nil

/-- With the three columns, the sessions decide. -/
theorem accounted_iff_of_supplied (hframes : readFrames P runs ≠ [])
    (hstatus : Supplied P runs "status") (hwarmup : Supplied P runs "warmup")
    (hpower : Supplied P runs "power_status") :
    Accounted P includeReconnects runs ↔
      ∀ row ∈ readRows P runs, Passes P includeReconnects row →
        ∀ positive, numeric P (row.cell "session") ≠ .infinite positive := by
  have heq := loadAttemptData_eq hl hextends includeReconnects hframes hstatus hwarmup hpower
  have hint : astypeInt ((sieved P includeReconnects runs l).kept.map fun row ↦
      (numeric P (row.cell "session")).fillna (-1)) = .ok () ↔
        ∀ row ∈ readRows P runs, Passes P includeReconnects row →
          ∀ positive, numeric P (row.cell "session") ≠ .infinite positive := by
    rw [astypeInt_eq_ok_iff, List.forall_mem_map]
    refine forall_congr' fun row ↦ ?_
    rw [mem_sieved_kept, and_imp]
    exact forall₂_congr fun _ _ ↦ isfinite_fillna_iff _
  rw [← hint]
  constructor
  · rintro ⟨data, quality, h, -⟩
    rw [heq] at h
    cases hcast : astypeInt ((sieved P includeReconnects runs l).kept.map fun row ↦
        (numeric P (row.cell "session")).fillna (-1)) with
    | ok u => rfl
    | error e =>
        rw [hcast] at h
        cases h
  · intro hok
    rw [hok] at heq
    exact ⟨_, _, heq, accounting (fun row ↦ concat_fits) hextends.statuses hextends.rejections rfl⟩

end Loaded

/-- A file that pandas cannot read ends the function. -/
theorem not_accounted_of_not_readable
    (h : ¬ ∀ run ∈ runs, ∀ file ∈ run.attempts, file.Readable P) :
    ¬ Accounted P includeReconnects runs := by
  push Not at h
  obtain ⟨run, hrun, file, hfile, hunreadable⟩ := h
  obtain ⟨e, he⟩ := exists_error_loading hrun hfile hunreadable
  rintro ⟨data, quality, hreturns, -⟩
  rw [loadAttemptData, he] at hreturns
  cases hreturns

end Running

/-- The function ends normally with the books balanced if and only if pandas can read every file
and, unless there is none, a status, a warm-up and a power status are each in one of the files and
the accepted rows have no infinite session. -/
theorem accounted_iff (includeReconnects : Bool) (runs : List RunDir) :
    Accounted P includeReconnects runs ↔ Regular P includeReconnects runs := by
  by_cases hreadable : ∀ run ∈ runs, ∀ file ∈ run.attempts, file.Readable P
  case neg =>
    exact iff_of_false (not_accounted_of_not_readable hreadable) fun h ↦ hreadable h.1
  obtain ⟨l, hl, hextends⟩ := exists_loaded hreadable
  rw [Regular, and_iff_right hreadable]
  by_cases hframes : readFrames P runs = []
  · exact iff_of_true (accounted_of_nil hl hextends hframes)
      (.inl ((readFrames_eq_nil_iff hreadable).mp hframes))
  · rw [or_iff_right (mt (readFrames_eq_nil_iff hreadable).mpr hframes)]
    by_cases hcolumns :
        Supplied P runs "status" ∧ Supplied P runs "warmup" ∧ Supplied P runs "power_status"
    · rw [and_iff_right hcolumns]
      exact accounted_iff_of_supplied hl hextends hframes hcolumns.1 hcolumns.2.1 hcolumns.2.2
    · refine iff_of_false ?_ fun h ↦ hcolumns h.1
      rintro ⟨data, quality, h, -⟩
      exact ne_ok_of_not_supplied hl hextends hframes hcolumns _ h

/-- A reader that does as pandas does with files without quotes in which every row has a cell for
each column. -/
def readPlainCsv (content : Bytes) : Except CsvError Frame :=
  let lines := (content.splitOn 10).filter (· ≠ [])
  let cells := fun line ↦ (line.splitOn 44).map fun cell ↦
    String.ofList (cell.map fun b ↦ Char.ofNat b.toNat)
  match lines.map cells with
  | [] => .error .emptyData
  | header :: rows =>
      if rows.all (fun row ↦ row.length = header.length) then
        .ok ⟨header, rows.map fun row column ↦ (header.zip row).lookup column⟩
      else .error .parser

/-- Attempts that have been recorded without the power profiler. -/
theorem not_accounted :
    ¬ Accounted
      ⟨Char.isDigit, fun text ↦ text.toNat?.elim .nan fun n ↦ .finite n, readPlainCsv⟩ false
      [⟨"run_a", [⟨"001_case_a", Text.ascii
        "session,status,warmup,reconnect_count,raw_handshake_ms\n1,success,0,0,10\n"⟩]⟩] := by
  rintro ⟨data, quality, h, -⟩
  have herror : Except.error LoadError.noFillna = Except.ok (data, quality) := h
  cases herror

end PeripheralBench.Analysis

import PeripheralBench.Text

/-!
# The answer to CONNECT

The part of `start_secure_mqtt_session` behind the TLS handshake.  The device sends CONNECT and
reads until the bytes it has begin with those of a CONNACK, however they are cut, the connection
closes, or the deadline passes.  It does not look at the return code: what it reports is right
exactly if the server has not refused the connection (`truthful_iff`).

The metrics in the lines are left out.
-/

open PeripheralBench.Text

namespace PeripheralBench.Mqtt.Connack

/-! ## The session -/

/-- What is settled when the handshake is done. -/
structure Session where
  /-- `BENCH_TRANSFER_MODE` is defined. -/
  transferMode : Bool
  /-- `server_certificate_verify_scheme`, if it has been seen. -/
  verifyScheme : Option ℕ
  /-- `selected_signature->signature_scheme_id`. -/
  selectedScheme : ℕ
deriving DecidableEq

/-- A line that the device prints: the fields about the outcome. -/
structure Line where
  tag : String
  status : String
  stage : String := ""
  error : String := ""
  /-- `mqtt_rx_len` and `mqtt_rx_prefix`. -/
  received : Option (ℕ × Bytes) := none
deriving DecidableEq

/-- `BENCH_HANDSHAKE_TAG`. -/
def Session.handshakeTag (s : Session) : String :=
  if s.transferMode then "[BENCH_HANDSHAKE]" else "[BENCH_RESULT]"

/-- A round of the read loop. -/
inductive Round where
  /-- `wolfSSL_read` has at most this many bytes. -/
  | read (count : ℕ)
  /-- It returns zero, or would block. -/
  | want
  /-- It fails with another error. -/
  | error (error : ℤ)
deriving DecidableEq

/-- `sizeof(rx_buf)`. -/
def rxCapacity : ℕ := 128

/-- What `wolfSSL_read` puts behind the bytes in `rx_buf`. -/
def Round.chunk (rx unread : Bytes) : Round → Bytes
  | read count => unread.take (min count (rxCapacity - rx.length))
  | want => []
  | error _ => []

/-- `mqtt_rx_len >= 4 && rx_buf[0] == 0x20 && rx_buf[1] == 0x02`. -/
def isConnack (rx : Bytes) : Bool :=
  decide (4 ≤ rx.length) && rx[0]? == some 0x20 && rx[1]? == some 0x02

/-- What is printed when the CONNACK has come; `ret` is what `benchmark_mqtt_transfer_run`
returns. -/
def finish (s : Session) (ret : ℤ) : List Line :=
  if s.verifyScheme ≠ some s.selectedScheme then
    [{ tag := "[BENCH_RESULT]", status := "fail", stage := "certificate_verify_mismatch" }]
  else
    { tag := s.handshakeTag, status := "success" } ::
      if s.transferMode then
        [{ tag := "[BENCH_RESULT]"
           status := if ret = 0 then "success" else "fail"
           stage := if ret = 0 then "transfer_complete" else "transfer_failed"
           error := toString ret }]
      else []

/-- The line when the loop has ended without one. -/
def timeoutLine (rx : Bytes) : Line where
  tag := "[BENCH_RESULT]"
  status := "timeout"
  stage := "mqtt_connack"
  error := "timeout"
  received := some (rx.length, (List.range 4).map fun i ↦ rx.getD i 0)

/-- The line when `wolfSSL_write` or `wolfSSL_read` has failed. -/
def errorLine (stage : String) (error : ℤ) : Line where
  tag := "[BENCH_RESULT]"
  status := "fail"
  stage := stage
  error := toString error

/-- The read loop.  Behind the last round the connection is closed or the deadline has
passed. -/
def readLoop (s : Session) (ret : ℤ) (rx unread : Bytes) : List Round → List Line
  | [] => [timeoutLine rx]
  | round :: rounds =>
      let chunk := round.chunk rx unread
      if isConnack (rx ++ chunk) then finish s ret
      else
        match round with
        | .read _ | .want => readLoop s ret (rx ++ chunk) (unread.drop chunk.length) rounds
        | .error error => [errorLine "mqtt_read" error]

/-- The lines of a session.  `writeError` is the error of `wolfSSL_write`, if CONNECT has not been
written; the server sends `stream`. -/
def startSecureMqttSession (s : Session) (ret : ℤ) (writeError : Option ℤ) (stream : Bytes)
    (rounds : List Round) : List Line :=
  match writeError with
  | some error => [errorLine "mqtt_write" error]
  | none => readLoop s ret [] stream rounds

/-! ## What it should mean -/

/-- A CONNACK with return code zero, from a server that has signed with the selected scheme. -/
def Accepted (s : Session) (stream : Bytes) : Prop :=
  (∃ flags rest, stream = 0x20 :: 0x02 :: flags :: 0x00 :: rest) ∧
    s.verifyScheme = some s.selectedScheme

/-- A CONNACK with another return code, from such a server. -/
def Refused (s : Session) (stream : Bytes) : Prop :=
  (∃ flags code rest, code ≠ 0x00 ∧ stream = 0x20 :: 0x02 :: flags :: code :: rest) ∧
    s.verifyScheme = some s.selectedScheme

/-- However the bytes come, a success means that the connection has been accepted, and if it has not
been accepted a failure or a timeout is reported. -/
structure Truthful (s : Session) (stream : Bytes) : Prop where
  success : ∀ ret writeError rounds, ∀ line ∈ startSecureMqttSession s ret writeError stream rounds,
    line.status = "success" → Accepted s stream
  failure : ¬ Accepted s stream → ∀ ret writeError rounds,
    ∃ line ∈ startSecureMqttSession s ret writeError stream rounds,
      line.status = "fail" ∨ line.status = "timeout"

/-! ## The read loop -/

theorem isConnack_iff {rx : Bytes} :
    isConnack rx = true ↔ ∃ flags code rest, rx = 0x20 :: 0x02 :: flags :: code :: rest := by
  constructor
  · intro h
    rw [isConnack, Bool.and_eq_true, Bool.and_eq_true, decide_eq_true_iff, beq_iff_eq,
      beq_iff_eq] at h
    obtain ⟨⟨hlength, hfirst⟩, hsecond⟩ := h
    rcases rx with _ | ⟨a, _ | ⟨b, _ | ⟨flags, _ | ⟨code, rest⟩⟩⟩⟩
    case cons.cons.cons.cons =>
      cases hfirst
      cases hsecond
      exact ⟨flags, code, rest, rfl⟩
    all_goals exact absurd hlength (by simp)
  · rintro ⟨flags, code, rest, rfl⟩
    rfl

/-- The bytes that are read and those that are not are the stream. -/
theorem chunk_append_drop (round : Round) (rx unread : Bytes) :
    round.chunk rx unread ++ unread.drop (round.chunk rx unread).length = unread := by
  refine List.prefix_iff_eq_append.mp ?_
  cases round with
  | read count => exact List.take_prefix _ _
  | want => exact List.nil_prefix
  | error _ => exact List.nil_prefix

variable {s : Session} {ret : ℤ}

theorem readLoop_connack {rx unread : Bytes} {round : Round} {rounds : List Round}
    (h : isConnack (rx ++ round.chunk rx unread) = true) :
    readLoop s ret rx unread (round :: rounds) = finish s ret :=
  if_pos h

/-- Without a CONNACK the loop ends with an error, or reads on. -/
theorem readLoop_next (s : Session) (ret : ℤ) {rx unread : Bytes} {round : Round}
    {rounds : List Round}
    (h : ¬ isConnack (rx ++ round.chunk rx unread) = true) :
    (∃ error, readLoop s ret rx unread (round :: rounds) = [errorLine "mqtt_read" error]) ∨
      readLoop s ret rx unread (round :: rounds) =
        readLoop s ret (rx ++ round.chunk rx unread)
          (unread.drop (round.chunk rx unread).length) rounds := by
  cases round with
  | read count => exact .inr (if_neg h)
  | want => exact .inr (if_neg h)
  | error error => exact .inl ⟨error, if_neg h⟩

theorem verifyScheme_of_finish {line : Line} (hline : line ∈ finish s ret)
    (hstatus : line.status = "success") : s.verifyScheme = some s.selectedScheme := by
  rw [finish] at hline
  split at hline
  case isTrue =>
    rw [List.mem_singleton] at hline
    subst hline
    exact absurd hstatus (by decide)
  case isFalse h => exact not_not.mp h

/-- A success is reported for bytes that begin with a CONNACK. -/
theorem connack_of_success {rx unread : Bytes} {rounds : List Round} {line : Line}
    (hline : line ∈ readLoop s ret rx unread rounds) (hstatus : line.status = "success") :
    (∃ flags code rest, rx ++ unread = 0x20 :: 0x02 :: flags :: code :: rest) ∧
      s.verifyScheme = some s.selectedScheme := by
  induction rounds generalizing rx unread with
  | nil =>
      rw [readLoop, List.mem_singleton] at hline
      subst hline
      exact absurd hstatus (show "timeout" ≠ "success" by decide)
  | cons round rounds ih =>
      have hstream : (rx ++ round.chunk rx unread) ++ unread.drop (round.chunk rx unread).length =
          rx ++ unread := by rw [List.append_assoc, chunk_append_drop]
      by_cases hconnack : isConnack (rx ++ round.chunk rx unread) = true
      · rw [readLoop_connack hconnack] at hline
        obtain ⟨flags, code, rest, hrx⟩ := isConnack_iff.mp hconnack
        refine ⟨⟨flags, code, rest ++ unread.drop (round.chunk rx unread).length, ?_⟩,
          verifyScheme_of_finish hline hstatus⟩
        rw [← hstream, hrx]
        rfl
      · obtain ⟨error, hnext⟩ | hnext := readLoop_next s ret hconnack
        · rw [hnext, List.mem_singleton] at hline
          subst hline
          exact absurd hstatus (show "fail" ≠ "success" by decide)
        · rw [hnext] at hline
          rw [← hstream]
          exact ih hline

/-- Something is always reported. -/
theorem exists_line (s : Session) (ret : ℤ) (writeError : Option ℤ) (stream : Bytes)
    (rounds : List Round) : ∃ line ∈ startSecureMqttSession s ret writeError stream rounds,
      line.status = "success" ∨ line.status = "fail" ∨ line.status = "timeout" := by
  have hfinish : ∃ line ∈ finish s ret,
      line.status = "success" ∨ line.status = "fail" ∨ line.status = "timeout" := by
    rw [finish]
    split
    · exact ⟨_, List.mem_singleton_self _, .inr (.inl rfl)⟩
    · exact ⟨_, List.mem_cons_self, .inl rfl⟩
  have hloop : ∀ rx unread, ∃ line ∈ readLoop s ret rx unread rounds,
      line.status = "success" ∨ line.status = "fail" ∨ line.status = "timeout" := by
    induction rounds with
    | nil => exact fun rx unread ↦ ⟨_, List.mem_singleton_self _, .inr (.inr rfl)⟩
    | cons round rounds ih =>
        intro rx unread
        by_cases hconnack : isConnack (rx ++ round.chunk rx unread) = true
        · rw [readLoop_connack hconnack]
          exact hfinish
        · obtain ⟨error, hnext⟩ | hnext := readLoop_next s ret hconnack
          · exact ⟨errorLine _ error, hnext ▸ List.mem_singleton_self _, .inr (.inl rfl)⟩
          · exact hnext ▸ ih _ _
  cases writeError with
  | some error => exact ⟨_, List.mem_singleton_self _, .inr (.inl rfl)⟩
  | none => exact hloop [] stream

/-! ## When the reports are right -/

/-- The reports are right for every cutting of the stream if and only if the server has not refused
the connection with a CONNACK. -/
theorem truthful_iff (s : Session) (stream : Bytes) : Truthful s stream ↔ ¬ Refused s stream := by
  constructor
  · rintro h ⟨⟨flags, code, rest, hcode, rfl⟩, hscheme⟩
    -- all four bytes in one read
    have hline : (⟨s.handshakeTag, "success", "", "", none⟩ : Line) ∈
        startSecureMqttSession s 0 none (0x20 :: 0x02 :: flags :: code :: rest) [.read 4] := by
      change _ ∈ finish s 0
      rw [finish, if_neg (not_not.mpr hscheme)]
      exact List.mem_cons_self
    obtain ⟨⟨flags', rest', heq⟩, -⟩ := h.success 0 none _ _ hline rfl
    simp only [List.cons.injEq] at heq
    exact hcode heq.2.2.2.1
  · intro hrefused
    have hsuccess : ∀ ret writeError rounds,
        ∀ line ∈ startSecureMqttSession s ret writeError stream rounds,
          line.status = "success" → Accepted s stream := by
      intro ret writeError rounds line hline hstatus
      cases writeError with
      | some error =>
          rw [startSecureMqttSession, List.mem_singleton] at hline
          subst hline
          exact absurd hstatus (show "fail" ≠ "success" by decide)
      | none =>
          obtain ⟨⟨flags, code, rest, hstream⟩, hscheme⟩ := connack_of_success hline hstatus
          rw [List.nil_append] at hstream
          by_cases hcode : code = 0x00
          · exact ⟨⟨flags, rest, hcode ▸ hstream⟩, hscheme⟩
          · exact absurd ⟨⟨flags, code, rest, hcode, hstream⟩, hscheme⟩ hrefused
    refine ⟨hsuccess, fun hnot ret writeError rounds ↦ ?_⟩
    obtain ⟨line, hline, hstatus⟩ := exists_line s ret writeError stream rounds
    exact ⟨line, hline, hstatus.resolve_left fun h ↦ hnot (hsuccess _ _ _ line hline h)⟩

/-- Not authorized: the return code is five. -/
theorem not_truthful : ¬ Truthful ⟨false, some 0x0403, 0x0403⟩ [0x20, 0x02, 0x00, 0x05] := by
  intro h
  obtain ⟨⟨flags, rest, heq⟩, -⟩ := h.success 0 none [.read 1, .want, .read 3]
    ⟨"[BENCH_RESULT]", "success", "", "", none⟩ (by decide) rfl
  simp at heq

end PeripheralBench.Mqtt.Connack

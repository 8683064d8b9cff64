import PeripheralBench.Runner.SerialSession
import PeripheralBench.Text.Utf8

/-!
# Lines in pieces

`wait_for_result` takes whatever `readline` returns for a line.  When the timeout of the port
expires in the middle of a line that is a piece of the line, and the next call returns the rest.

A piece is parsed like a line.  A result that comes in two pieces is recorded without what is in the
second one (`not_fragmentation_independent`), and any line that is parsed at all can be cut so that
it is not.  The outcome does not depend on the pieces exactly if nothing that could be returned is
of any interest (`fragmentation_independent_iff`).
-/

open PeripheralBench.Text.Utf8

namespace PeripheralBench.Runner

namespace SerialReads

/-! ## The reads -/

/-- The calls of `readline` return these bytes of the stream, in this order.  A line feed ends what
a call returns; nothing is returned by a call during which no byte comes. -/
structure Reads (stream : List UInt8) (reads : List (List UInt8)) : Prop where
  flatten : reads.flatten = stream
  one_line : ∀ raw ∈ reads, 10 ∉ raw.dropLast

/-- What `wait_for_result` returns, and the observations. -/
structure Outcome where
  final : Values
  observations : List (Str × Values)
deriving DecidableEq

/-- What `wait_for_result` does with a line: it returns, or goes on with these observations. -/
def takeLine (observations : List (Str × Values)) (line : Str) :
    Outcome ⊕ List (Str × Values) :=
  if line = [] then .inr observations
  else if SerialSession.IsBoardFatal line then
    .inl ⟨SerialSession.fatal "board_fatal" "zephyr_fatal_error", observations⟩
  else
    match parseBenchLine line with
    | some (kind, values) =>
        if kind = "RESULT".toList then .inl ⟨values, observations ++ [(kind, values)]⟩
        else .inr (observations ++ [(kind, values)])
    | none =>
        if SerialSession.IsBooting line ∧ observations.any SerialSession.isTransfer = true then
          .inl ⟨SerialSession.failure "board_reboot" "reboot_before_result", observations⟩
        else .inr observations

/-- `wait_for_result`, when the calls of `readline` until the deadline return this and the server
log has no fatal line. -/
def waitForResult (observations : List (Str × Values)) : List (List UInt8) → Outcome
  | [] => ⟨SerialSession.timeout "serial_wait", observations⟩
  | raw :: reads =>
      match takeLine observations (Str.strip (decode raw)) with
      | .inl outcome => outcome
      | .inr observations => waitForResult observations reads

/-! ## Lines of no interest -/

/-- The line is not looked at any further. -/
structure Silent (observations : List (Str × Values)) (line : Str) : Prop where
  not_fatal : ¬ SerialSession.IsBoardFatal line
  not_bench : parseBenchLine line = none
  not_booting : ¬ (SerialSession.IsBooting line ∧ observations.any SerialSession.isTransfer = true)

/-- What a call of `readline` may return: consecutive bytes of the stream, within a line. -/
def IsPiece (stream raw : List UInt8) : Prop := raw <:+: stream ∧ 10 ∉ raw.dropLast

/-- Nothing that may be returned is of any interest. -/
def Quiet (observations : List (Str × Values)) (stream : List UInt8) : Prop :=
  ∀ raw, IsPiece stream raw → Silent observations (Str.strip (decode raw))

variable {observations : List (Str × Values)} {stream raw : List UInt8} {reads : List (List UInt8)}

theorem length_strip_le (s : Str) : (Str.strip s).length ≤ s.length :=
  (List.rdropWhile_prefix _ _).length_le.trans (List.length_dropWhile_le _ _)

/-- A line with one character is too short for anything. -/
theorem silent_of_length_le (observations : List (Str × Values)) {line : Str}
    (h : line.length ≤ 1) : Silent observations line := by
  have hshort : ∀ text : Str, 2 ≤ text.length → ∀ l : Str, l.length ≤ 1 → ¬ text <:+: l :=
    fun text htext l hl hinfix ↦ absurd (htext.trans hinfix.length_le) (by omega)
  constructor
  · rintro (hfatal | hfatal)
    · exact hshort _ (by decide) line h hfatal
    · exact hshort _ (by decide) line h hfatal
  · have hstrip := (length_strip_le line).trans h
    exact if_neg fun htag ↦ hshort _ (by decide) _ hstrip htag.isInfix
  · exact fun hbooting ↦ hshort _ (by decide) line h hbooting.1.isInfix

theorem silent_singleton (observations : List (Str × Values)) (b : UInt8) :
    Silent observations (Str.strip (decode [b])) := by
  obtain ⟨c, hc⟩ := decode_singleton b
  refine silent_of_length_le observations ((length_strip_le _).trans ?_)
  rw [hc, List.length_singleton]

theorem Silent.takeLine {line : Str} (h : Silent observations line) :
    takeLine observations line = .inr observations := by
  rw [SerialReads.takeLine, if_neg h.not_fatal, h.not_bench, if_neg h.not_booting, ite_self]

/-- Silent reads are passed over. -/
theorem waitForResult_append (h : ∀ raw ∈ reads, Silent observations (Str.strip (decode raw)))
    (reads' : List (List UInt8)) :
    waitForResult observations (reads ++ reads') = waitForResult observations reads' := by
  induction reads with
  | nil => rfl
  | cons raw reads ih =>
      rw [List.cons_append, waitForResult, (h raw (.head _)).takeLine]
      exact ih fun raw hraw ↦ h raw (.tail _ hraw)

/-- What can become of a line: it is silent, it ends the wait, or it is an observation, which may
end the wait, too. -/
theorem takeLine_cases (observations : List (Str × Values)) (line : Str) :
    Silent observations line ∨
    (∃ final, takeLine observations line = .inl ⟨final, observations⟩ ∧
      final ≠ SerialSession.timeout "serial_wait") ∨
    ∃ observation,
      (∃ final, takeLine observations line = .inl ⟨final, observations ++ [observation]⟩) ∨
        takeLine observations line = .inr (observations ++ [observation]) := by
  by_cases hempty : line = []
  · exact .inl (silent_of_length_le observations (hempty ▸ Nat.zero_le 1))
  by_cases hfatal : SerialSession.IsBoardFatal line
  · refine .inr (.inl ⟨SerialSession.fatal "board_fatal" "zephyr_fatal_error", ?_, by decide⟩)
    rw [takeLine, if_neg hempty, if_pos hfatal]
  rw [takeLine, if_neg hempty, if_neg hfatal]
  cases hparse : parseBenchLine line with
  | some parsed =>
      obtain ⟨kind, values⟩ := parsed
      refine .inr (.inr ⟨(kind, values), ?_⟩)
      by_cases hresult : kind = "RESULT".toList
      · exact .inl ⟨values, if_pos hresult⟩
      · exact .inr (if_neg hresult)
  | none =>
      by_cases hbooting : SerialSession.IsBooting line ∧
          observations.any SerialSession.isTransfer = true
      · refine .inr (.inl ⟨SerialSession.failure "board_reboot" "reboot_before_result",
          if_pos hbooting, by decide⟩)
      · exact .inl ⟨hfatal, hparse, hbooting⟩

/-- The observations only become more. -/
theorem prefix_waitForResult (observations : List (Str × Values)) (reads : List (List UInt8)) :
    observations <+: (waitForResult observations reads).observations := by
  induction reads generalizing observations with
  | nil => exact List.prefix_rfl
  | cons raw reads ih =>
      rw [waitForResult]
      rcases takeLine_cases observations (Str.strip (decode raw)) with
        hsilent | ⟨final, htake, -⟩ | ⟨observation, ⟨final, htake⟩ | htake⟩
      · rw [hsilent.takeLine]
        exact ih observations
      · rw [htake]
      · rw [htake]
        exact List.prefix_append _ _
      · rw [htake]
        exact (List.prefix_append _ _).trans (ih _)

/-- A read that is not silent shows in the outcome. -/
theorem waitForResult_ne (h : ¬ Silent observations (Str.strip (decode raw)))
    (reads : List (List UInt8)) :
    waitForResult observations (raw :: reads) ≠ waitForResult observations [] := by
  intro heq
  rw [waitForResult, waitForResult] at heq
  rcases takeLine_cases observations (Str.strip (decode raw)) with
    hsilent | ⟨final, htake, hfinal⟩ | ⟨observation, ⟨final, htake⟩ | htake⟩
  · exact h hsilent
  · rw [htake] at heq
    exact hfinal (congrArg Outcome.final heq)
  · rw [htake] at heq
    have hlength := congrArg (fun outcome ↦ outcome.observations.length) heq
    rw [List.length_append] at hlength
    exact Nat.succ_ne_self _ hlength
  · rw [htake] at heq
    have hprefix := (prefix_waitForResult (observations ++ [observation]) reads).length_le
    rw [show (waitForResult _ reads).observations = observations from
      congrArg Outcome.observations heq, List.length_append] at hprefix
    exact Nat.not_succ_le_self _ hprefix

/-- The runner among the other parties does the same with a line. -/
theorem takeLine_system (s : SerialSession.System) {line : Str} (h : line ≠ [])
    (emitter : Option ℕ) :
    match takeLine s.observations line with
    | .inl outcome => (s.takeLine line emitter).place = .stopSession ∧
        (s.takeLine line emitter).final = outcome.final ∧
        (s.takeLine line emitter).observations = outcome.observations
    | .inr observations => (s.takeLine line emitter).place = s.place ∧
        (s.takeLine line emitter).final = s.final ∧
        (s.takeLine line emitter).observations = observations := by
  rw [takeLine, if_neg h, SerialSession.System.takeLine]
  by_cases hfatal : SerialSession.IsBoardFatal line
  · rw [if_pos hfatal, if_pos hfatal]
    exact ⟨rfl, rfl, rfl⟩
  rw [if_neg hfatal, if_neg hfatal]
  cases parseBenchLine line with
  | some parsed =>
      by_cases hresult : parsed.1 = "RESULT".toList
      · simp only [if_pos hresult]
        exact ⟨rfl, rfl, rfl⟩
      · simp only [if_neg hresult]
        exact ⟨rfl, rfl, rfl⟩
  | none =>
      by_cases hbooting : SerialSession.IsBooting line ∧
          s.observations.any SerialSession.isTransfer = true
      · simp only [if_pos hbooting]
        exact ⟨rfl, rfl, rfl⟩
      · simp only [if_neg hbooting, and_self]

/-! ## Whole lines -/

/-- The lines of a stream. -/
def lines : List UInt8 → List (List UInt8)
  | [] => []
  | b :: stream =>
      if b = 10 then [10] :: lines stream
      else
        match lines stream with
        | [] => [[b]]
        | line :: rest => (b :: line) :: rest

theorem lines_append {line : List UInt8} (h : 10 ∉ line) (stream : List UInt8) :
    lines (line ++ 10 :: stream) = (line ++ [10]) :: lines stream := by
  induction line with
  | nil => exact if_pos rfl
  | cons b line ih =>
      obtain ⟨hne, hline⟩ := not_or.mp (List.mem_cons.not.mp h)
      rw [List.cons_append, lines, if_neg (Ne.symm hne), ih hline]
      rfl

/-- As long as no call times out in the middle of a line the outcome is that of the lines. -/
theorem waitForResult_of_whole (h : Reads stream reads)
    (hwhole : ∀ raw ∈ reads, raw ≠ [] → raw.getLast? = some 10) :
    waitForResult observations reads = waitForResult observations (lines stream) := by
  induction reads generalizing stream observations with
  | nil =>
      rw [← h.flatten]
      rfl
  | cons raw reads ih =>
      have hrest : Reads reads.flatten reads := ⟨rfl, fun raw hraw ↦ h.one_line raw (.tail _ hraw)⟩
      have hrestWhole : ∀ raw ∈ reads, raw ≠ [] → raw.getLast? = some 10 := fun raw hraw ↦
        hwhole raw (.tail _ hraw)
      rw [← h.flatten, List.flatten_cons]
      by_cases hempty : raw = []
      · have hsilent : Silent observations (Str.strip (decode raw)) :=
          silent_of_length_le observations (hempty ▸ Nat.zero_le 1)
        rw [waitForResult, hsilent.takeLine, hempty]
        exact ih hrest hrestWhole
      · have hend := List.dropLast_append_getLast? 10 (hwhole raw (.head _) hempty)
        have hlines := lines_append (h.one_line raw (.head _)) reads.flatten
        rw [← List.singleton_append, ← List.append_assoc, hend] at hlines
        rw [hlines, waitForResult, waitForResult]
        cases takeLine observations (Str.strip (decode raw)) with
        | inl outcome => rfl
        | inr next => exact ih hrest hrestWhole

/-! ## Every stream in all pieces -/

/-- The bytes one by one, as when each of them comes late. -/
def single (stream : List UInt8) : List (List UInt8) := stream.map fun b ↦ [b]

theorem reads_single (stream : List UInt8) : Reads stream (single stream) where
  flatten := by
    induction stream with
    | nil => rfl
    | cons b stream ih => exact congrArg (List.cons b) ih
  one_line raw hraw := by
    obtain ⟨b, -, rfl⟩ := List.mem_map.mp hraw
    exact List.not_mem_nil

theorem silent_single (observations : List (Str × Values)) (stream : List UInt8) :
    ∀ raw ∈ single stream, Silent observations (Str.strip (decode raw)) := by
  intro raw hraw
  obtain ⟨b, -, rfl⟩ := List.mem_map.mp hraw
  exact silent_singleton observations b

theorem Reads.append {a b : List UInt8} {reads' : List (List UInt8)} (h : Reads a reads)
    (h' : Reads b reads') : Reads (a ++ b) (reads ++ reads') where
  flatten := by rw [List.flatten_append, h.flatten, h'.flatten]
  one_line raw hraw := (List.mem_append.mp hraw).elim (h.one_line raw) (h'.one_line raw)

/-- What is returned is a piece. -/
theorem Reads.isPiece (h : Reads stream reads) (hraw : raw ∈ reads) : IsPiece stream raw := by
  refine ⟨?_, h.one_line raw hraw⟩
  obtain ⟨before, after, rfl⟩ := List.append_of_mem hraw
  refine ⟨before.flatten, after.flatten, ?_⟩
  rw [← h.flatten, List.flatten_append, List.flatten_cons, List.append_assoc]

/-- The outcome is the same for all pieces the stream may come in exactly if none of them is of any
interest. -/
theorem fragmentation_independent_iff (observations : List (Str × Values)) (stream : List UInt8) :
    (∀ reads reads', Reads stream reads → Reads stream reads' →
      waitForResult observations reads = waitForResult observations reads') ↔
        Quiet observations stream := by
  constructor
  · intro hsame raw ⟨⟨before, after, hstream⟩, hline⟩
    by_contra hloud
    -- the piece comes as a whole, the rest byte by byte
    have hpiece : Reads raw [raw] :=
      ⟨List.append_nil raw, fun raw' hraw ↦ by rwa [List.mem_singleton.mp hraw]⟩
    have hreads := ((reads_single before).append hpiece).append (reads_single after)
    rw [hstream] at hreads
    have hbytes := hsame _ _ hreads (reads_single stream)
    rw [List.append_assoc, waitForResult_append (silent_single observations before)] at hbytes
    rw [← List.append_nil (single stream),
      waitForResult_append (silent_single observations stream)] at hbytes
    exact waitForResult_ne hloud _ hbytes
  · intro hquiet reads reads' h h'
    rw [← List.append_nil reads, ← List.append_nil reads',
      waitForResult_append fun raw hraw ↦ hquiet raw (h.isPiece hraw),
      waitForResult_append fun raw hraw ↦ hquiet raw (h'.isPiece hraw)]

/-- A result in one piece and in two. -/
theorem not_fragmentation_independent :
    ¬ ∀ stream reads reads', Reads stream reads → Reads stream reads' →
      waitForResult [] reads = waitForResult [] reads' := by
  intro hsame
  let bytes (text : String) : List UInt8 := text.toList.map fun c ↦ UInt8.ofNat c.toNat
  let first := bytes "[BENCH_RESULT] status=success raw_handshake_ms=1"
  let second := bytes "2.5\n"
  have hwhole : Reads (first ++ second) [first ++ second] := ⟨by decide, by decide⟩
  have hcut : Reads (first ++ second) [first, second] := ⟨by decide, by decide⟩
  have hfinal := congrArg Outcome.final (hsame _ _ _ hwhole hcut)
  have hms := congrArg (fun final ↦ final.get? "raw_handshake_ms".toList) hfinal
  revert hms
  decide

end SerialReads

end PeripheralBench.Runner

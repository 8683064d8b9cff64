import PeripheralBench.Mqtt.ServerMemorySpec
import PeripheralBench.Transfer.ServerMemory
import PeripheralBench.Transfer.ServerSpec
import PeripheralBench.Transfer.Texts

/-!
# A transfer session and its memory

What `run_transfers` does with its memory.  Whatever the plan is, whatever the device sends and
whichever allocations are refused: no access is a fault, and in the end every block has been freed.
As long as no allocation is refused the session is that of `Transfer.Server`.
-/

open PeripheralBench.Stream PeripheralBench.Text PeripheralBench.Memory PeripheralBench.Mqtt
  PeripheralBench.Mqtt.Server

namespace PeripheralBench.Transfer.Server

variable {grants : ℕ → Bool} {r : Prop} {b b' : ℕ → Option (Cells UInt8)}
  {o o' : ℕ → Option (Cells TransferOperation)}

/-! ## The plan -/

theorem length_fgets_lt {capacity : ℕ} (hcapacity : 0 < capacity) {file header rest : Bytes}
    (h : fgets capacity file = some (header, rest)) : header.length < capacity := by
  rw [fgets] at h
  by_cases hfile : file = []
  · rw [if_pos hfile] at h
    cases h
  · rw [if_neg hfile] at h
    cases h
    rw [List.length_take]
    omega

/-- What is known of the pieces of a format. -/
theorem exists_of_bind {α γ : Type} {x : Scan α} {f : α → Scan γ} {bs rest : Bytes} {c : γ}
    (h : (x >>= f) bs = some (c, rest)) :
    ∃ a bs', x bs = some (a, bs') ∧ f a bs' = some (c, rest) := by
  obtain ⟨⟨a, bs'⟩, hx, hf⟩ := Option.bind_eq_some_iff.mp h
  exact ⟨a, bs', hx, hf⟩

theorem length_scanField_le {max : ℕ} {bs text rest : Bytes}
    (h : scanField max bs = some (text, rest)) : text.length ≤ max := by
  rw [scanField] at h
  by_cases htext : (bs.takeWhile (· ≠ 44)).take max = []
  · rw [if_pos htext] at h
    cases h
  · rw [if_neg htext] at h
    cases h
    exact List.length_take_le _ _

theorem length_direction_le {file rest : Bytes} {op : TransferOperation}
    (h : scanOperation file = some (op, rest)) : op.direction.length ≤ 23 := by
  obtain ⟨order, _, -, h⟩ := exists_of_bind h
  obtain ⟨_, _, -, h⟩ := exists_of_bind h
  obtain ⟨direction, _, hdirection, h⟩ := exists_of_bind h
  obtain ⟨_, _, -, h⟩ := exists_of_bind h
  obtain ⟨size, _, -, h⟩ := exists_of_bind h
  obtain ⟨_, _, -, h⟩ := exists_of_bind h
  obtain ⟨seed, _, -, h⟩ := exists_of_bind h
  obtain ⟨_, _, -, h⟩ := exists_of_bind h
  cases h
  exact length_scanField_le hdirection

/-- The array with these operations in it, and perhaps room for more. -/
structure Grown (o : ℕ → Option (Cells TransferOperation)) (a : OperationArray)
    (operations : List TransferOperation) (o' : ℕ → Option (Cells TransferOperation))
    (cells : Cells TransferOperation) : Prop where
  owned : Owned o a.operations cells o'
  count : a.count = operations.length
  capacity : a.capacity = cells.length
  filled : Cells.ofList operations <+: cells

/-- Another operation is assigned. -/
theorem Grown.push {a : OperationArray} {operations : List TransferOperation}
    {cells : Cells TransferOperation} (h : Grown o a operations o' cells)
    (hroom : operations.length < cells.length) {op : TransferOperation}
    {o'' : ℕ → Option (Cells TransferOperation)}
    (howned : Owned o a.operations (cells.overwrite a.count [op]) o'') :
    Grown o { a with count := a.count + 1 } (operations ++ [op]) o''
      (cells.overwrite a.count [op]) := by
  have hfit : [op].length + operations.length ≤ cells.length := by
    rw [List.length_singleton, Nat.add_comm]
    exact hroom
  refine ⟨howned, ?_, ?_, ?_⟩
  · rw [List.length_append, h.count, List.length_singleton]
  · rw [h.count, Cells.length_overwrite hfit]
    exact h.capacity
  · rw [h.count]
    exact Cells.prefix_overwrite h.filled [op]

/-- What `grow` leaves. -/
inductive Resized (o : ℕ → Option (Cells TransferOperation)) (operations : List TransferOperation)
    (old : ℕ → Option (Cells TransferOperation)) :
    Option OperationArray → (ℕ → Option (Cells TransferOperation)) → Prop → Prop
  | room {a : OperationArray} {o' : ℕ → Option (Cells TransferOperation)}
      {cells : Cells TransferOperation} (hgrown : Grown o a operations o' cells)
      (hroom : operations.length < cells.length) : Resized o operations old (some a) o' False
  | refused : Resized o operations old none old True

variable {a : OperationArray} {operations : List TransferOperation}
  {cells : Cells TransferOperation}

theorem local_grow (hgrown : Grown o a operations o' cells) :
    Local (Heap.At grants False b o') (grow grants a) fun x h ↦
      ∃ s : (ℕ → Option (Cells TransferOperation)) × Prop,
        Resized o operations o' x s.1 s.2 ∧ h.At grants s.2 b s.1 := by
  have hle := Cells.length_le_of_begins hgrown.filled
  rw [grow]
  by_cases hfull : a.count = a.capacity
  · have hlen : operations.length = cells.length := by
      rw [← hgrown.count, hfull, hgrown.capacity]
    have hcells : Cells.ofList operations = cells :=
      hgrown.filled.eq_of_length ((Cells.length_ofList operations).trans hlen)
    rw [if_pos hfull]
    extract_lets nextCapacity
    have hmore : cells.length < nextCapacity := by
      change cells.length < if a.capacity = 0 then 16 else a.capacity * 2
      rw [hgrown.capacity]
      split <;> omega
    refine .bind (local_realloc hgrown.owned nextCapacity) fun p ↦ .exists_pre fun s hs ↦ ?_
    obtain ⟨o'', refused⟩ := s
    cases hs with
    | @granted p hp =>
        have hsize : ((cells ++ Cells.blank nextCapacity).take nextCapacity).length =
            nextCapacity := by
          rw [List.length_take, List.length_append, Cells.length_blank]
          omega
        have hfilled : Cells.ofList operations <+:
            (cells ++ Cells.blank nextCapacity).take nextCapacity := by
          rw [List.prefix_take_iff, hcells]
          exact ⟨List.prefix_append _ _, hmore.le⟩
        have hroom : operations.length <
            ((cells ++ Cells.blank nextCapacity).take nextCapacity).length := by
          rw [hsize, hlen]
          exact hmore
        have hgrown' : Grown o ⟨some p, a.count, nextCapacity⟩ operations _ _ :=
          ⟨.block _ hp, hgrown.count, hsize.symm, hfilled⟩
        exact .pure fun h hh ↦ ⟨(_, False), .room hgrown' hroom, hh⟩
    | refused => exact .pure fun h hh ↦ ⟨(_, True), .refused, hh⟩
  · rw [if_neg hfull]
    refine .pure fun h hh ↦ ⟨(o', False), .room hgrown ?_, hh⟩
    rw [hgrown.count, hgrown.capacity] at hfull
    omega

/-- What the loop of `load_transfer_plan` leaves. -/
inductive ArrayLoaded (o : ℕ → Option (Cells TransferOperation)) (done : List TransferOperation) :
    Bool × OperationArray → Option (List TransferOperation) →
    (ℕ → Option (Cells TransferOperation)) → Prop → Prop
  | ok {a : OperationArray} {operations : List TransferOperation}
      {o' : ℕ → Option (Cells TransferOperation)} {cells : Cells TransferOperation}
      (hgrown : Grown o a (done ++ operations) o' cells) :
      ArrayLoaded o done (true, a) (some operations) o' False
  | failed {a : OperationArray} {o' : ℕ → Option (Cells TransferOperation)}
      {cells : Cells TransferOperation} (howned : Owned o a.operations cells o') :
      ArrayLoaded o done (false, a) none o' False
  | refused {a : OperationArray} {o' : ℕ → Option (Cells TransferOperation)}
      {cells : Cells TransferOperation} (howned : Owned o a.operations cells o')
      (c : Option (List TransferOperation)) : ArrayLoaded o done (false, a) c o' True

/-- The first operation of the rest. -/
theorem ArrayLoaded.cons {done : List TransferOperation} {op : TransferOperation}
    {x : Bool × OperationArray} {c : Option (List TransferOperation)} {refused : Prop}
    (h : ArrayLoaded o (done ++ [op]) x c o' refused) :
    ArrayLoaded o done x (c.map (op :: ·)) o' refused := by
  cases h with
  | @ok a operations _ cells hgrown =>
      rw [List.append_assoc, List.singleton_append] at hgrown
      exact .ok hgrown
  | failed howned => exact .failed howned
  | refused howned c => exact .refused howned _

theorem local_loadOperations (rounds : ℕ) (file : Bytes)
    (hgrown : Grown o a operations o' cells) :
    Local (Heap.At grants False b o') (Mem.loadOperations grants rounds file a) fun x h ↦
      ∃ s : (ℕ → Option (Cells TransferOperation)) × Prop,
        ArrayLoaded o operations x (loadOperations rounds file) s.1 s.2 ∧
          h.At grants s.2 b s.1 := by
  induction rounds generalizing file a operations o' cells with
  | zero =>
      rw [← List.append_nil operations] at hgrown
      exact .pure fun h hh ↦ ⟨(o', False), .ok hgrown, hh⟩
  | succ rounds ih =>
      rw [Mem.loadOperations, loadOperations]
      by_cases hfile : file.dropWhile isSpace = []
      · rw [if_pos hfile, if_pos hfile]
        rw [← List.append_nil operations] at hgrown
        exact .pure fun h hh ↦ ⟨(o', False), .ok hgrown, hh⟩
      rw [if_neg hfile, if_neg hfile]
      cases hscan : scanOperation file with
      | none => exact .pure fun h hh ↦ ⟨(o', False), .failed hgrown.owned, hh⟩
      | some parsed =>
          obtain ⟨op, rest⟩ := parsed
          have hfit : (op.direction ++ [0]).length ≤ (Cells.blank 24 : Cells UInt8).length := by
            have hdirection := length_direction_le hscan
            rw [List.length_append, List.length_singleton, Cells.length_blank]
            omega
          refine .bindOf (local_begin hfit) fun direction _ ↦ ?_
          refine .bind (local_grow hgrown) fun x ↦ .exists_pre fun s hs ↦ ?_
          obtain ⟨o₁, refused⟩ := s
          cases hs with
          | @room a _ cells hgrown hroom =>
              have hcount : a.count < cells.length := hgrown.count ▸ hroom
              refine .bind (local_storeRecord hgrown.owned hcount op) fun _ ↦ ?_
              refine .exists_pre fun o₂ howned ↦ (ih rest (hgrown.push hroom howned)).post ?_
              rintro x h ⟨s, hloaded, hh⟩
              exact ⟨s, hloaded.cons, hh⟩
          | refused => exact .pure fun h hh ↦ ⟨(o₁, True), .refused hgrown.owned _, hh⟩

/-- What `load_transfer_plan` leaves. -/
inductive PlanLoaded (o : ℕ → Option (Cells TransferOperation)) :
    Option (Option ℕ × ℕ) → Option (List TransferOperation) →
    (ℕ → Option (Cells TransferOperation)) → Prop → Prop
  | ok {p : Option ℕ} {operations : List TransferOperation}
      {o' : ℕ → Option (Cells TransferOperation)} {cells : Cells TransferOperation}
      (howned : Owned o p cells o') (hfilled : Cells.ofList operations <+: cells) :
      PlanLoaded o (some (p, operations.length)) (some operations) o' False
  | failed : PlanLoaded o none none o False
  | refused (c : Option (List TransferOperation)) : PlanLoaded o none c o True

theorem local_loadFile (file : Bytes) :
    Local (Heap.At grants False b o) (Mem.loadFile grants file) fun x h ↦
      ∃ s : (ℕ → Option (Cells TransferOperation)) × Prop,
        PlanLoaded o x (loadTransferPlan file) s.1 s.2 ∧ h.At grants s.2 b s.1 := by
  rw [Mem.loadFile]
  cases hline : fgets 128 file with
  | none =>
      have hplan : loadTransferPlan file = none := by
        rw [loadTransferPlan, hline]
        rfl
      rw [hplan]
      exact .pure fun h hh ↦ ⟨(o, False), .failed, hh⟩
  | some line =>
      obtain ⟨header, rest⟩ := line
      have hplan : loadTransferPlan file = (loadOperations rest.length rest).bind fun operations ↦
          if operations = [] then none else some operations := by
        rw [loadTransferPlan, hline]
        rfl
      have hfit : (header ++ [0]).length ≤ (Cells.blank 128 : Cells UInt8).length := by
        have hheader := length_fgets_lt (by norm_num) hline
        rw [List.length_append, List.length_singleton, Cells.length_blank]
        omega
      have hempty : Grown o {} [] o [] := ⟨.null, rfl, rfl, List.prefix_rfl⟩
      rw [hplan]
      refine .bindOf (local_begin hfit) fun header _ ↦ ?_
      refine .bind (local_loadOperations rest.length rest hempty) fun x ↦ .exists_pre fun s hs ↦ ?_
      obtain ⟨o', refused⟩ := s
      generalize loadOperations rest.length rest = c at hs ⊢
      cases hs with
      | @ok a operations _ cells hgrown =>
          have hfilled : Cells.ofList operations <+: cells := hgrown.filled
          have hcount : a.count = operations.length := hgrown.count
          change Local _ (if true = true ∧ a.count ≠ 0 then _ else _ :
            Session (Option (Option ℕ × ℕ))) _
          rw [Option.bind_some]
          by_cases hnil : operations = []
          · rw [if_neg (by rw [hcount, hnil]; simp), if_pos hnil]
            refine .bind (local_freeRecords hgrown.owned) fun _ ↦ .pure fun h hh ↦ ?_
            exact ⟨(o, False), .failed, hh⟩
          · rw [if_pos ⟨rfl, hcount ▸ (List.length_pos_of_ne_nil hnil).ne'⟩, if_neg hnil, hcount]
            exact .pure fun h hh ↦ ⟨(o', False), .ok hgrown.owned hfilled, hh⟩
      | failed howned =>
          refine .bind (local_freeRecords howned) fun _ ↦ .pure fun h hh ↦ ?_
          exact ⟨(o, False), .failed, hh⟩
      | refused howned =>
          refine .bind (local_freeRecords howned) fun _ ↦ .pure fun h hh ↦ ?_
          exact ⟨(o, True), .refused _, hh⟩

theorem local_loadTransferPlan (plan : Option Bytes) :
    Local (Heap.At grants False b o) (Mem.loadTransferPlan grants plan) fun x h ↦
      ∃ s : (ℕ → Option (Cells TransferOperation)) × Prop,
        PlanLoaded o x (plan.bind loadTransferPlan) s.1 s.2 ∧ h.At grants s.2 b s.1 := by
  cases plan with
  | none => exact .pure fun h hh ↦ ⟨(o, False), .failed, hh⟩
  | some file => exact local_loadFile file

/-! ## The opening -/

theorem cstr_cstr (a : Bytes) : cstr (cstr a) = cstr a := List.takeWhile_idem ..

theorem strEq_cstr (a c : Bytes) : strEq (cstr a) c = strEq a c := by
  rw [strEq, strEq, cstr_cstr]

theorem strEq_cstr_cstr (a c : Bytes) : strEq (cstr a) (cstr c) = strEq a c := by
  rw [strEq, strEq, cstr_cstr, cstr_cstr]

/-- What a function leaves that reads a packet and returns its body too.  `view` is how its result
is to be understood. -/
structure Answered {α γ : Type} (view : α → Option γ) (b : ℕ → Option (Cells UInt8))
    (a : α × Option ℕ) (c : Except Unit γ) (b' : ℕ → Option (Cells UInt8)) : Prop where
  result : view a.1 = c.toOption
  body : ∃ cells, Owned b a.2 cells b'

/-- What such a function leaves when an allocation has been refused. -/
def Stuck {α γ : Type} (grants : ℕ → Bool) (o : ℕ → Option (Cells TransferOperation))
    (view : α → Option γ) (b : ℕ → Option (Cells UInt8)) (a : α × Option ℕ)
    (h : Heap TransferOperation) : Prop :=
  view a.1 = none ∧ ∃ b', (∃ cells, Owned b a.2 cells b') ∧ h.At grants True b' o

section

variable {α γ : Type} {view : α → Option γ} {x : α} {body : Option ℕ} {data : Bytes}
  {parsed : Parsed}

theorem local_free_answered (a : α × Option ℕ) (c : Except Unit γ) :
    Local (fun h ↦ ∃ b', Answered view b a c b' ∧ h.At grants False b' o) (free a.2) fun _ h ↦
      view a.1 = c.toOption ∧ h.At grants False b o := by
  refine .exists_pre fun b' hanswer ↦ ?_
  obtain ⟨cells, howned⟩ := hanswer.body
  exact (local_free howned).post fun _ h hh ↦ ⟨hanswer.result, hh⟩

theorem local_free_stuck (a : α × Option ℕ) :
    Local (Stuck grants o view b a) (free a.2) fun _ h ↦
      view a.1 = none ∧ h.At grants True b o := by
  rintro h ⟨hview, b', ⟨cells, howned⟩, hh⟩
  obtain ⟨_, t, hfree, ht⟩ := local_free howned h hh
  exact ⟨(), t, hfree, hview, ht⟩

/-- The packet is not the expected one, or it cannot be answered. -/
theorem local_failed (hview : view x = none) {cells : Cells UInt8}
    (howned : Owned b body cells b') :
    Local (Heap.At grants False b' o) (pure (x, body) : Session (α × Option ℕ))
      fun a h ↦ ∃ b'', Answered view b a (.error ()) b'' ∧ h.At grants False b'' o :=
  .pure fun _ hh ↦ ⟨b', ⟨hview, cells, howned⟩, hh⟩

/-- What is done with a PUBLISH, if nothing is done without one. -/
theorem implements_readPublish_bind (hview : view x = none) {expect : Bytes}
    {f : Option Parsed × Option ℕ → Session (α × Option ℕ)} {g : Bytes × Bytes × ℕ → Tls γ}
    (hnone : ∀ body, f (none, body) = pure (x, body))
    (hsome : ∀ body data b' parsed, Publication b body parsed data b' →
      Implements (Heap.At grants False b' o) (f (some parsed, body))
        (g (parsed.name, data.drop parsed.payload, parsed.packetId)).proc
        (fun a c h ↦ ∃ b'', Answered view b a c b'' ∧ h.At grants False b'' o)
        (Stuck grants o view b)) :
    Implements (Heap.At grants False b o) (Mem.readPublish grants expect (Cells.blank 64) >>= f)
      (readPublish expect 64 >>= g).proc
      (fun a c h ↦ ∃ b'', Answered view b a c b'' ∧ h.At grants False b'' o)
      (Stuck grants o view b) := by
  have hread : Implements (Heap.At grants False b o)
      (Mem.readPublish grants expect (Cells.blank 64)) (readPublish expect 64).proc
      (fun a c h ↦ ∃ b', PublishRead b a c b' ∧ h.At grants False b' o)
      (Heap.NotRead grants b o) := implements_readPublish expect (Cells.blank 64)
  refine .bindIo hread (fun a c ↦ .exists_pre fun b' hpublish ↦ ?_)
    (fun a e ↦ .exists_pre fun b' hpublish ↦ ?_) fun a ↦ ?_
  · cases hpublish with
    | ok h => exact hsome _ _ _ _ h
  · cases hpublish with
    | failed howned =>
        rw [hnone]
        exact local_failed hview howned
  · rintro h ⟨rfl, hh⟩
    rw [hnone]
    exact ⟨(x, none), h, rfl, hview, b, ⟨_, .null⟩, hh⟩

end

/-- A flag that stands for a success. -/
def flag (ok : Bool) : Option Unit := if ok then some () else none

theorem flag_isOk (c : Except Unit Unit) : flag c.isOk = c.toOption := by
  cases c <;> rfl

/-- A PUBACK is the last thing both do. -/
theorem implements_sendPuback_flag {cells : Cells UInt8} {body : Option ℕ}
    (howned : Owned b body cells b') (packetId : ℕ) :
    Implements (Heap.At grants False b' o)
      (do let ok ← Mem.sendPuback packetId; pure (ok, body) : Session (Bool × Option ℕ))
      (sendPuback packetId).proc
      (fun a c h ↦ ∃ b'', Answered flag b a c b'' ∧ h.At grants False b'' o)
      (Stuck grants o flag b) := by
  refine .andThen (E := fun _ _ ↦ False) (implements_tlsWriteAll _) (fun ok c ↦ ?_)
    fun ok h ↦ False.elim
  refine .of_pure (fun h hh ↦ hh.1) fun hok ↦ .pure fun h hh ↦ ?_
  exact ⟨b', ⟨hok ▸ flag_isOk c, cells, howned⟩, hh.2⟩

theorem implements_readReady :
    Implements (Heap.At grants False b o) (readReady grants)
      (do
        let (topic, payload, packetId) ← readPublish topicUp 64
        Io.require (strEq topic topicUp ∧ payload = ascii "READY") ()
        sendPuback packetId : Tls Unit).proc
      (fun a c h ↦ ∃ b', Answered flag b a c b' ∧ h.At grants False b' o)
      (Stuck grants o flag b) := by
  refine implements_readPublish_bind rfl (fun _ ↦ rfl) fun body data b' parsed h ↦ ?_
  refine .stepEq h.local_topic ?_
  rw [strEq_cstr]
  have hload (hsize : parsed.payloadSize = 5) :
      Local (Heap.At grants False b' o) (load body parsed.payload 5) fun d s ↦
        d = data.drop parsed.payload ∧ s.At grants False b' o := hsize ▸ h.local_payload
  refine .require (fun hc ↦ ?_) fun hc ↦ ?_
  · have hsize : parsed.payloadSize = 5 := by
      rw [← h.length_payload, hc.2]
      rfl
    rw [if_pos ⟨hc.1, hsize⟩]
    refine .stepEq (hload hsize) ?_
    rw [if_pos hc.2]
    exact implements_sendPuback_flag h.owned parsed.packetId
  · by_cases htopic : strEq parsed.name topicUp = true ∧ parsed.payloadSize = 5
    · rw [if_pos htopic]
      refine .stepEq (hload htopic.2) ?_
      rw [if_neg fun hpayload ↦ hc ⟨htopic.1, hpayload⟩]
      exact .returned (local_failed rfl h.owned)
    · rw [if_neg htopic]
      exact .returned (local_failed rfl h.owned)

theorem flag_eq_toOption {ok : Bool} {c : Except Unit Unit} (h : flag ok = c.toOption) :
    ok = c.isOk := by
  cases ok <;> cases c <;> first | rfl | cases h

theorem flag_eq_none {ok : Bool} (h : flag ok = none) : ok = false := by
  cases ok <;> first | rfl | cases h

/-- The opening leaves no blocks. -/
theorem implements_handleSubscribeAndReady :
    Implements (Heap.At grants False b o) (Mem.handleSubscribeAndReady grants)
      handleSubscribeAndReady.proc (fun ok c h ↦ ok = c.isOk ∧ h.At grants False b o)
      (Heap.Refused grants b o) := by
  refine implements_readPacket_bind (fun type body data b' hbody ↦ ?_) ?_ ?_
  · refine .record (.require (fun hc ↦ ?_) fun hc ↦ ?_)
    · rw [if_pos hc]
      have hne : data ≠ [] := List.ne_nil_of_length_pos (Nat.zero_lt_two.trans_le hc.2)
      refine .stepEq (local_loadBody hbody hne hc.2) (.step (local_free hbody) fun _ ↦ ?_)
      rw [word16_window, Nat.zero_add]
      refine implements_tlsWriteAll_bind ?_ (.pure fun h hh ↦ ⟨rfl, hh⟩)
      refine .andThen implements_readReady (fun a c ↦ ?_) fun a ↦ ?_
      · refine .bind (local_free_answered a c) fun _ ↦ .pure fun h hh ↦ ?_
        exact ⟨flag_eq_toOption hh.1, hh.2⟩
      · refine .bind (local_free_stuck a) fun _ ↦ .pure fun h hh ↦ ?_
        exact ⟨flag_eq_none hh.1, hh.2⟩
    · rw [if_neg hc]
      exact .returned (.bind (local_free hbody) fun _ ↦ .pure fun h hh ↦ ⟨rfl, hh⟩)
  · rintro ⟨type, body, bodySize⟩ rfl
    exact .pure fun h hh ↦ ⟨rfl, hh⟩
  · rintro ⟨type, body, bodySize⟩ rfl
    exact .pure fun h hh ↦ ⟨rfl, hh⟩

/-! ## One operation -/

variable {sha : Bytes → Digest} {op : TransferOperation} {p : ℕ} {array : Cells UInt8}
  {expectedHash command : Cells UInt8}

theorem local_makePayload (seed size : UInt32) :
    Local (Heap.At grants False b o) (makePayload grants seed size) fun p h ↦
      ∃ s : (ℕ → Option (Cells UInt8)) × Prop,
        Allocated (Cells.ofList (pattern seed size.toNat)) b b p s.1 s.2 ∧
          h.At grants s.2 s.1 o := by
  refine .bind (local_malloc size.toNat) fun p ↦ .exists_pre fun s hs ↦ ?_
  obtain ⟨b', refused⟩ := s
  cases hs with
  | @granted p hp =>
      have hlen : (pattern seed size.toNat).length =
          (Cells.blank size.toNat : Cells UInt8).length := by
        rw [length_pattern, Cells.length_blank]
      refine .bind (local_fill hlen) fun _ ↦ .pure fun h hh ↦ ?_
      exact ⟨(_, False), .granted hp, hh⟩
  | refused => exact .pure fun h hh ↦ ⟨(_, True), .refused, hh⟩

/-- The expected payload is read. -/
theorem local_loadExpected (hp : b p = some (Cells.ofList op.payload)) {n : ℕ}
    (hn : n = op.payloadBytes.toNat) :
    Local (Heap.At grants r b o) (load (some p) 0 n) fun d h ↦
      d = op.payload ∧ h.At grants r b o := by
  have hsize : n = op.payload.length := hn.trans (length_pattern _ _).symm
  refine (local_load hp List.prefix_rfl hsize.le).post fun d h hd ↦ ⟨hd.1.trans ?_, hd.2⟩
  rw [List.drop_zero, hsize, List.take_length]

theorem local_hashHex (hp : b p = some (Cells.ofList op.payload)) :
    Local (Heap.At grants r b o) (hashHex sha (some p) op.payloadBytes.toNat) fun c h ↦
      Cells.ofList (op.hash sha ++ [0]) <+: c ∧ h.At grants r b o := by
  refine .bindEq (local_loadExpected hp rfl) ((local_begin ?_).post fun c h hc ↦ ⟨hc.1.1, hc.2⟩)
  rw [List.length_append, length_hashToHex, Cells.length_blank]
  rfl

theorem local_getHash {P : Heap TransferOperation → Prop}
    (hhash : Cells.ofList (op.hash sha ++ [0]) <+: expectedHash) :
    Local P (getString expectedHash) fun d h ↦ d = op.hash sha ∧ P h := by
  refine (local_getString hhash).post fun d h hd ↦ ⟨hd.1.trans ?_, hd.2⟩
  exact cstr_of_notMem (zero_notMem_hashToHex _)

theorem implements_publishArray {text : Bytes} (harray : Cells.ofList (text ++ [0]) <+: array)
    (packetIdState : UInt32) :
    Implements (Heap.At grants False b o) (publishArray grants array packetIdState)
      (publishControl text packetIdState).proc (fun a c h ↦ Outcome a c ∧ h.At grants False b o)
      (fun a ↦ Heap.Refused grants b o a.1) :=
  .stepEq (local_getString harray) (implements_publish none (by decide) _ packetIdState)

theorem snprintf_expectedAckText :
    snprintf 192 (expectedAckText op (op.hash sha)) = expectedAck sha op := rfl

theorem snprintf_ackUpText : snprintf 192 (ackUpText op (op.hash sha)) = ackUp sha op := rfl

theorem implements_transferDown (hp : b p = some (Cells.ofList op.payload))
    (hhash : Cells.ofList (op.hash sha ++ [0]) <+: expectedHash) (hcommand : command.length = 192)
    (index : ℕ) (packetIdState : UInt32) :
    Implements (Heap.At grants False b o)
      (Mem.transferDown grants index op (some p) expectedHash command packetIdState)
      (transferDown sha index op packetIdState).proc
      (fun a c h ↦ ∃ b', Answered id b a c b' ∧ h.At grants False b' o) (Stuck grants o id b) := by
  refine .stepEq (local_loadExpected hp rfl) ?_
  refine .bindResult (implements_publish (some index) (by decide) op.payload packetIdState)
    (fun a c houtcome ↦ ?_) (fun a e houtcome ↦ ?_) fun a ↦ ?_
  · cases houtcome
    refine implements_readPublish_bind rfl (fun _ ↦ rfl) fun body data b' parsed h ↦ ?_
    refine .stepEq h.local_topic ?_
    rw [strEq_cstr, hcommand]
    have hfailed : Local (Heap.At grants False b' o)
        (pure (none, body) : Session (Option UInt32 × Option ℕ))
        fun a h ↦ ∃ b'', Answered id b a (.error ()) b'' ∧ h.At grants False b'' o :=
      local_failed rfl h.owned
    refine .require (fun hc ↦ ?_) fun hc ↦ ?_
    · rw [h.length_payload] at hc
      rw [if_pos hc]
      refine implements_tlsWriteAll_bind ?_ hfailed
      have hblank : (Cells.blank 192 : Cells UInt8).length = 192 := Cells.length_blank 192
      refine .stepEq h.local_payload ?_
      refine .stepOf (local_begin (by rw [h.length_payload, hcommand]; exact hc.2.le)) fun _ h₁ ↦ ?_
      refine .stepOf (local_append h₁.1 h.length_payload ?_) fun _ h₂ ↦ ?_
      · rw [h₁.2, hcommand, List.length_singleton, Nat.add_comm]
        exact hc.2
      refine .stepEq (local_getHash hhash) ?_
      refine .stepOf (local_printArray _ (hblank ▸ by norm_num)) fun _ h₃ ↦ ?_
      rw [hblank] at h₃
      refine .stepEq (local_getString h₂.1) (.stepEq (local_getString h₃.1) ?_)
      rw [strEq_cstr_cstr, snprintf_expectedAckText]
      refine .require (fun hack ↦ ?_) fun hack ↦ ?_
      · rw [if_pos hack]
        exact .pure fun t ht ↦ ⟨b', ⟨rfl, _, h.owned⟩, ht⟩
      · rw [if_neg hack]
        exact .returned hfailed
    · rw [h.length_payload] at hc
      rw [if_neg hc]
      exact .returned hfailed
  · cases houtcome
    exact local_failed rfl .null
  · obtain ⟨ok, s⟩ := a
    rintro h ⟨rfl, hh⟩
    exact ⟨(none, none), h, rfl, rfl, b, ⟨_, .null⟩, hh⟩

theorem implements_transferUp (hp : b p = some (Cells.ofList op.payload))
    (hhash : Cells.ofList (op.hash sha ++ [0]) <+: expectedHash) (hcommand : command.length = 192)
    (packetIdState : UInt32) :
    Implements (Heap.At grants False b o)
      (Mem.transferUp grants op (some p) expectedHash command packetIdState)
      (transferUp sha op packetIdState).proc
      (fun a c h ↦ ∃ b', Answered id b a c b' ∧ h.At grants False b' o) (Stuck grants o id b) := by
  refine implements_readPublish_bind rfl (fun _ ↦ rfl) fun body data b' parsed h ↦ ?_
  have hp' : b' p = some (Cells.ofList op.payload) := h.owned.kept hp
  have hfailed : Local (Heap.At grants False b' o)
      (pure (none, body) : Session (Option UInt32 × Option ℕ))
      fun a h ↦ ∃ b'', Answered id b a (.error ()) b'' ∧ h.At grants False b'' o :=
    local_failed rfl h.owned
  refine .stepEq h.local_topic ?_
  rw [strEq_cstr]
  refine .require (fun hc ↦ ?_) fun hc ↦ ?_
  · rw [h.length_payload] at hc
    rw [if_pos ⟨hc.1, hc.2.1⟩]
    refine .stepEq h.local_payload (.stepEq (local_loadExpected hp' hc.2.1) ?_)
    rw [if_pos hc.2.2]
    refine implements_tlsWriteAll_bind ?_ hfailed
    refine .stepEq (local_getHash hhash) ?_
    refine .stepOf (local_printArray _ (hcommand ▸ by norm_num)) fun command' h' ↦ ?_
    rw [hcommand, snprintf_ackUpText] at h'
    refine .andThen (implements_publishArray h'.1 packetIdState) (fun a c ↦ ?_) fun a ↦ ?_
    · refine .of_pure (fun t ht ↦ ht.1) fun houtcome ↦ .pure fun t ht ↦ ⟨b', ⟨?_, _, h.owned⟩, ht.2⟩
      cases houtcome <;> rfl
    · obtain ⟨ok, s⟩ := a
      rintro t ⟨rfl, ht⟩
      exact ⟨(none, body), t, rfl, rfl, b', ⟨_, h.owned⟩, ht⟩
  · rw [h.length_payload] at hc
    by_cases hsize : strEq parsed.name topicUp = true ∧ parsed.payloadSize = op.payloadBytes.toNat
    · rw [if_pos hsize]
      refine .stepEq h.local_payload (.stepEq (local_loadExpected hp' hsize.2) ?_)
      rw [if_neg fun hpayload ↦ hc ⟨hsize.1, hsize.2, hpayload⟩]
      exact .returned hfailed
    · rw [if_neg hsize]
      exact .returned hfailed

theorem implements_transfer (hp : b p = some (Cells.ofList op.payload))
    (hhash : Cells.ofList (op.hash sha ++ [0]) <+: expectedHash) (hcommand : command.length = 192)
    (index : ℕ) (packetIdState : UInt32) :
    Implements (Heap.At grants False b o)
      (Mem.transfer grants index op (some p) expectedHash command packetIdState)
      (transfer sha index op packetIdState).proc
      (fun a c h ↦ ∃ b', Answered id b a c b' ∧ h.At grants False b' o) (Stuck grants o id b) := by
  rw [Mem.transfer, transfer]
  by_cases hdown : op.IsDown
  · rw [if_pos hdown, if_pos hdown]
    exact implements_transferDown hp hhash hcommand index packetIdState
  · rw [if_neg hdown, if_neg hdown]
    exact implements_transferUp hp hhash hcommand packetIdState

/-- A flag that stands for a value. -/
def flagged {γ : Type} (c : γ) (ok : Bool) : Option γ := if ok then some c else none

theorem implements_readMetrics
    (hhash : Cells.ofList (op.hash sha ++ [0]) <+: expectedHash) (elapsed : Int64) (index : ℕ)
    (packetIdState : UInt32) :
    Implements (Heap.At grants False b o) (readMetrics grants elapsed index op expectedHash)
      (do
        let (topic, payload, packetId) ← readPublish topicMetrics 64
        Io.require (strEq topic topicMetrics) ()
        sendPuback packetId
        Io.emit (.print (ascii "[BENCH_TRANSFER_DEVICE] " ++ cstr payload ++ ascii "\n"))
        Io.emit (.record index true (resultLine sha op elapsed))
        pure packetIdState : Tls UInt32).proc
      (fun a c h ↦ ∃ b', Answered (flagged packetIdState) b a c b' ∧ h.At grants False b' o)
      (Stuck grants o (flagged packetIdState) b) := by
  refine implements_readPublish_bind rfl (fun _ ↦ rfl) fun body data b' parsed h ↦ ?_
  refine .stepEq h.local_topic ?_
  rw [strEq_cstr]
  refine .require (fun hc ↦ ?_) fun hc ↦ ?_
  · rw [if_pos hc]
    refine implements_tlsWriteAll_bind ?_ (local_failed rfl h.owned)
    refine .stepEq h.local_payload (.record (.stepEq (local_getHash hhash) (.record ?_)))
    exact .pure fun t ht ↦ ⟨b', ⟨rfl, _, h.owned⟩, ht⟩
  · rw [if_neg hc]
    exact .returned (local_failed rfl h.owned)

theorem snprintf_commandText :
    snprintf 192 (commandText op (op.hash sha)) = Server.command sha op := rfl

theorem implements_exchange (hp : b p = some (Cells.ofList op.payload)) (elapsed : Int64)
    (index : ℕ) (packetIdState : UInt32) :
    Implements (Heap.At grants False b o)
      (exchange grants sha elapsed index op (some p) packetIdState)
      (do
        let packetIdState ← publishControl (Server.command sha op) packetIdState
        let packetIdState ← transfer sha index op packetIdState
        let (topic, payload, packetId) ← readPublish topicMetrics 64
        Io.require (strEq topic topicMetrics) ()
        sendPuback packetId
        Io.emit (.print (ascii "[BENCH_TRANSFER_DEVICE] " ++ cstr payload ++ ascii "\n"))
        Io.emit (.record index true (resultLine sha op elapsed))
        pure packetIdState : Tls UInt32).proc
      (fun a c h ↦ a = c.toOption ∧ h.At grants False b o)
      (fun a h ↦ a = none ∧ h.At grants True b o) := by
  have hblank : (Cells.blank 192 : Cells UInt8).length = 192 := Cells.length_blank 192
  refine .stepOf (local_hashHex hp) fun expectedHash hhash ↦ .stepEq (local_getHash hhash) ?_
  refine .stepOf (local_printArray _ (hblank ▸ by norm_num)) fun command hcommand ↦ ?_
  rw [hblank, snprintf_commandText] at hcommand
  refine .bindResult (implements_publishArray hcommand.1 packetIdState) (fun a c houtcome ↦ ?_)
    (fun a e houtcome ↦ ?_) fun a ↦ ?_
  · cases houtcome
    refine .bindIo (implements_transfer hp hhash hcommand.2 index c) (fun a c ↦ ?_) (fun a e ↦ ?_)
      fun a ↦ ?_
    · obtain ⟨next, body⟩ := a
      refine .step (local_free_answered (next, body) _) fun _ ↦ ?_
      refine .of_pure (fun h hh ↦ hh.1) fun hnext ↦ .pre ?_ fun h hh ↦ hh.2
      cases hnext
      refine .andThen (implements_readMetrics hhash elapsed index c) (fun a c ↦ ?_) fun a ↦ ?_
      · exact .bind (local_free_answered a c) fun _ ↦ .pure fun h hh ↦ hh
      · exact .bind (local_free_stuck a) fun _ ↦ .pure fun h hh ↦ hh
    · obtain ⟨next, body⟩ := a
      refine .bind (local_free_answered (next, body) _) fun _ ↦ ?_
      refine .of_pure (fun h hh ↦ hh.1) fun hnext ↦ ?_
      cases hnext
      exact .pure fun h hh ↦ ⟨rfl, hh.2⟩
    · obtain ⟨next, body⟩ := a
      refine .bind (local_free_stuck (next, body)) fun _ ↦ ?_
      refine .of_pure (fun h hh ↦ hh.1) fun hnext ↦ ?_
      cases hnext
      exact .pure fun h hh ↦ ⟨rfl, hh.2⟩
  · cases houtcome
    exact .pure fun h hh ↦ ⟨rfl, hh⟩
  · obtain ⟨ok, s⟩ := a
    rintro h ⟨rfl, hh⟩
    exact ⟨none, h, rfl, rfl, hh⟩

/-- One round of the loop leaves no blocks. -/
theorem implements_runOperation (elapsed : Int64) (index : ℕ) (op : TransferOperation)
    (packetIdState : UInt32) :
    Implements (Heap.At grants False b o)
      (Mem.runOperation grants sha elapsed index op packetIdState)
      (runOperation sha elapsed index op packetIdState).proc
      (fun a c h ↦ a = c.toOption ∧ h.At grants False b o)
      (fun a h ↦ a = none ∧ h.At grants True b o) := by
  refine .record (.step (local_makePayload op.payloadSeed op.payloadBytes) fun p ↦ ?_)
  refine .exists_pre fun s hs ↦ ?_
  obtain ⟨b', refused⟩ := s
  cases hs with
  | @granted p hp =>
      refine .andThen (implements_exchange (Function.update_self ..) elapsed index packetIdState)
        (fun a c ↦ ?_) fun a ↦ ?_
      · exact .andPure (local_freeBlock hp) fun h ha hh ↦ ⟨ha, hh⟩
      · exact .andPure (local_freeBlock hp) fun h ha hh ↦ ⟨ha, hh⟩
  | refused => exact .gaveUp (.pure fun h hh ↦ ⟨rfl, hh⟩)

/-! ## The session -/

theorem implements_runOperations (elapsed : ℕ → Int64) {operations : Option ℕ}
    (howned : Owned o operations cells o') {all : List TransferOperation}
    (hfilled : Cells.ofList all <+: cells) {rest : List TransferOperation} {index : ℕ}
    (hrest : all.drop index = rest) (packetIdState : UInt32) :
    Implements (Heap.At grants False b o')
      (Mem.runOperations grants sha elapsed operations rest.length index packetIdState)
      (runOperations sha elapsed rest index packetIdState).proc
      (fun ok c h ↦ ok = c.isOk ∧ h.At grants False b o') (Heap.Refused grants b o') := by
  induction rest generalizing index packetIdState with
  | nil => exact .pure fun h hh ↦ ⟨rfl, hh⟩
  | cons op rest ih =>
      have hindex : 1 + index ≤ all.length := by
        have hlength := congrArg List.length hrest
        rw [List.length_drop, List.length_cons] at hlength
        omega
      have hrecord : Local (Heap.At grants False b o') (loadRecord operations index) fun d h ↦
          d = (all.drop index).take 1 ∧ h.At grants False b o' :=
        local_loadRecord howned hfilled hindex
      rw [hrest] at hrecord
      refine .stepEq hrecord ?_
      refine .bindResult (implements_runOperation (elapsed index) index op packetIdState)
        (fun a c ha ↦ ?_) (fun a e ha ↦ ?_) fun a ↦ ?_
      · cases ha
        refine ih ?_ c
        rw [← List.drop_drop, hrest]
        rfl
      · cases ha
        exact .pure fun h hh ↦ ⟨rfl, hh⟩
      · rintro h ⟨rfl, hh⟩
        exact ⟨false, h, rfl, rfl, hh⟩

theorem implements_session (elapsed : ℕ → Int64) {operations : Option ℕ}
    (howned : Owned o operations cells o') {all : List TransferOperation}
    (hfilled : Cells.ofList all <+: cells) :
    Implements (Heap.At grants False b o') (session grants sha elapsed operations all.length)
      (runTransfers sha elapsed all).proc (fun ok c h ↦ ok = c.isOk ∧ h.At grants False b o')
      (Heap.Refused grants b o') := by
  refine .bindResult implements_handleSubscribeAndReady (fun ok c hok ↦ ?_) (fun ok e hok ↦ ?_)
    fun ok ↦ ?_
  · cases hok
    have hblank : (Cells.blank 64 : Cells UInt8).length = 64 := Cells.length_blank 64
    refine .record (.stepOf (local_printArray _ (hblank ▸ by norm_num)) fun array harray ↦ ?_)
    rw [hblank] at harray
    refine .bindResult (implements_publishArray harray.1 100) (fun a c houtcome ↦ ?_)
      (fun a e houtcome ↦ ?_) fun a ↦ ?_
    · cases houtcome
      refine .bindResult (implements_runOperations elapsed howned hfilled List.drop_zero c)
        (fun ok c hok ↦ ?_) (fun ok e hok ↦ ?_) fun ok ↦ ?_
      · cases hok
        exact .recordLast (.pure fun h hh ↦ ⟨rfl, hh⟩)
      · cases hok
        exact .pure fun h hh ↦ ⟨rfl, hh⟩
      · rintro h ⟨rfl, hh⟩
        exact ⟨false, h, rfl, rfl, hh⟩
    · cases houtcome
      exact .pure fun h hh ↦ ⟨rfl, hh⟩
    · obtain ⟨ok, s⟩ := a
      rintro h ⟨rfl, hh⟩
      exact ⟨false, h, rfl, rfl, hh⟩
  · cases hok
    exact .pure fun h hh ↦ ⟨rfl, hh⟩
  · rintro h ⟨rfl, hh⟩
    exact ⟨false, h, rfl, rfl, hh⟩

variable (sha) in
/-- `run_transfers` leaves no blocks, and does what it would do with enough memory. -/
theorem implements_runTransfers (elapsed : ℕ → Int64) (plan : Option Bytes) :
    Implements (Heap.At grants False b o) (Mem.runTransfers grants sha elapsed plan)
      (runPlan sha elapsed plan).proc (fun ok c h ↦ ok = c.isOk ∧ h.At grants False b o)
      (Heap.Refused grants b o) := by
  rw [runPlan]
  refine .step (local_loadTransferPlan plan) fun x ↦ .exists_pre fun s hs ↦ ?_
  obtain ⟨o', refused⟩ := s
  generalize plan.bind loadTransferPlan = c at hs ⊢
  cases hs with
  | ok howned hfilled =>
      refine .andThen (implements_session elapsed howned hfilled) (fun ok c ↦ ?_) fun ok ↦ ?_
      · exact .andPure (local_freeRecords howned) fun h hok hh ↦ ⟨hok, hh⟩
      · exact .andPure (local_freeRecords howned) fun h hok hh ↦ ⟨hok, hh⟩
  | failed => exact .pure fun h hh ↦ ⟨rfl, hh⟩
  | refused => exact .gaveUp (.pure fun h hh ↦ ⟨rfl, hh⟩)

/-- Nothing has gone wrong, and no block is left. -/
structure Clean (h : Heap TransferOperation) : Prop where
  bytes_fault : h.bytes.fault = false
  records_fault : h.records.fault = false
  bytes_freed : ∀ p, h.bytes.cells p = none
  records_freed : ∀ p, h.records.cells p = none

theorem clean_of_at {h : Heap TransferOperation}
    (hh : h.At grants r (fun _ ↦ none) fun _ ↦ none) : Clean h where
  bytes_fault := hh.bytes.sound.fault
  records_fault := hh.records.sound.fault
  bytes_freed p := congrFun hh.bytes.cells_eq p
  records_freed p := congrFun hh.records.cells_eq p

/-- There is nothing at the beginning. -/
theorem at_empty : Heap.At grants False (fun _ ↦ none) (fun _ ↦ none)
    ({} : Heap TransferOperation) where
  bytes := ⟨⟨rfl, fun _ h ↦ absurd h List.not_mem_nil, fun _ _ ↦ rfl⟩, rfl⟩
  records := ⟨⟨rfl, fun _ h ↦ absurd h List.not_mem_nil, fun _ _ ↦ rfl⟩, rfl⟩
  refused := False.elim

variable (grants sha) in
/-- **A transfer session tidies up.**  Whatever the plan and the device are: no access is a fault,
and all that has been allocated has been freed in the end.  The session is one of the server that
has all the memory it wants, or the beginning of one that fails when an allocation is refused.  If
none is refused then all sessions of that server are possible. -/
theorem transfers_tidy (elapsed : ℕ → Int64) (plan : Option Bytes) :
    (∀ signs ok h, (Mem.runTransfers grants sha elapsed plan {}).Returns signs (ok, h) →
      Clean h ∧
        ((∃ c, (runPlan sha elapsed plan).proc.Returns signs c ∧ ok = c.isOk) ∨
          (ok = false ∧ (∃ n < h.asked, grants n = false) ∧
            ∃ q, (runPlan sha elapsed plan).proc.Reaches signs q))) ∧
      ((∀ n, grants n = true) → ∀ signs c, (runPlan sha elapsed plan).proc.Returns signs c →
        ∃ h, (Mem.runTransfers grants sha elapsed plan {}).Returns signs (c.isOk, h)) := by
  have hempty : Heap.At grants False (fun _ ↦ none) (fun _ ↦ none) ({} : Heap TransferOperation) :=
    at_empty
  have hrefines := implements_runTransfers sha elapsed plan {} hempty
  constructor
  · intro signs ok h hrun
    obtain ⟨q, hq, ⟨hok, hh⟩ | ⟨c, ⟨hok, hh⟩, rfl⟩⟩ := hrefines.returns hrun
    · exact ⟨clean_of_at hh, .inr ⟨hok, hh.refused trivial, q, hq⟩⟩
    · exact ⟨clean_of_at hh, .inl ⟨c, hq, hok⟩⟩
  · intro hgrants signs c hrun
    have hnever : ∀ a : Bool × Heap TransferOperation,
        ¬ Heap.Refused grants (fun _ ↦ none) (fun _ ↦ none) a.1 a.2 := by
      rintro a ⟨-, hh⟩
      obtain ⟨n, -, hn⟩ := hh.refused trivial
      rw [hgrants n] at hn
      cases hn
    obtain ⟨⟨ok, h⟩, ⟨rfl, -⟩, hp⟩ := hrefines.returns_of_not hnever hrun
    exact ⟨h, hp⟩

/-- An operation of a plan. -/
def planOperation : PlanOperation where
  order := 1
  direction := .serverToDevice
  payloadBytes := 4
  payloadSeed := 7

/-- A device that receives one payload and confirms it. -/
theorem transfers_tidy_one :
    ∃ signs h, (Mem.runTransfers (fun _ ↦ true) (fun _ _ ↦ 0) (fun _ ↦ 0)
      (some (csvText [planOperation])) {}).Returns signs (true, h) ∧ Clean h := by
  have hfits : ∀ op ∈ [loaded planOperation], op.Fits := by
    intro op hop
    obtain rfl := List.mem_singleton.mp hop
    exact ⟨by decide, by decide⟩
  have readings : Device.Readings := ⟨⟨0, 0, 0, false⟩, ⟨0, 0, 0, false⟩,
    ⟨0, fun _ ↦ 0, false, false⟩, 64000000, fun _ ↦ 0, fun _ ↦ 0, 0, 0, 1000, 500, 1500⟩
  have hopening := talk_opening (fun _ _ ↦ 0) (fun _ ↦ 0) [loaded planOperation] (by decide) 1
  obtain ⟨last, -, hoperations⟩ := talk_runOperations (fun _ _ ↦ 0) (fun _ ↦ 0)
    (fun _ ↦ readings) [loaded planOperation] [] 0 hfits
    (show (101 : UInt32).toNat = 101 from rfl) (by decide) 3
  have hrun : ∃ signs, (runPlan (fun _ _ ↦ 0) (fun _ ↦ 0)
      (some (csvText [planOperation]))).proc.Returns signs (.ok ()) := by
    rw [runPlan, Option.bind_some, loadTransferPlan_csvText, if_neg (List.cons_ne_nil _ _)]
    have hend : ((runOperations (fun _ _ ↦ 0) (fun _ ↦ 0) [] (0 + 1) last).proc.bind
        (Io.andThen fun _ ↦
          Io.emit (.print (ascii "[BENCH_TRANSFER_SERVER] status=complete\n")))).Returns
          [.recorded (.print (ascii "[BENCH_TRANSFER_SERVER] status=complete\n"))] (.ok ()) :=
      .emit (.refl _)
    obtain ⟨_, hlater⟩ := (hoperations.bind (Io.andThen fun _ ↦ _)).reaches hend
    rw [← Io.proc_bind] at hlater
    exact hopening.reaches hlater
  obtain ⟨signs, hrun⟩ := hrun
  obtain ⟨h, hmem⟩ := (transfers_tidy (fun _ ↦ true) (fun _ _ ↦ 0) (fun _ ↦ 0)
    (some (csvText [planOperation]))).2 (fun _ ↦ rfl) _ _ hrun
  exact ⟨_, h, hmem, ((transfers_tidy _ _ _ _).1 _ _ _ hmem).1⟩

end PeripheralBench.Transfer.Server

import PeripheralBench.Mqtt.ServerMemory

/-!
# The server's packet functions and their memory

What the functions of `Mqtt.ServerMemory` leave in the memory.  `Heap.At` says what blocks there
are: each function is stated with those before and those after, so that a body is one more block
until it is freed.  As to the rest, each implements the function of `Mqtt.Server` with its name,
unless an allocation is refused; then it fails with nothing left behind.
-/

open PeripheralBench.Stream PeripheralBench.Text PeripheralBench.Memory

namespace PeripheralBench.Mqtt.Server

variable {ρ : Type} {grants : ℕ → Bool} {r : Prop} {b : ℕ → Option (Cells UInt8)}
  {o : ℕ → Option (Cells ρ)} {p off n : ℕ} {cells : Cells UInt8} {data : Bytes}
  {P : Heap ρ → Prop}

/-- Nothing has gone wrong and these are the blocks.  If `r` holds, an allocation has been refused.
-/
structure Heap.At (grants : ℕ → Bool) (r : Prop) (b : ℕ → Option (Cells UInt8))
    (o : ℕ → Option (Cells ρ)) (h : Heap ρ) : Prop where
  bytes : h.bytes.Consists (fun _ ↦ True) b
  records : h.records.Consists (fun _ ↦ True) o
  refused : r → ∃ n < h.asked, grants n = false

theorem Heap.At.store {h : Heap ρ} (hh : h.At grants r (Function.update b p (some cells)) o)
    (hfit : data.length + off ≤ cells.length) :
    (h.mapBytes (Blocks.store p off data)).At grants r
      (Function.update b p (some (cells.overwrite off data))) o :=
  ⟨hh.bytes.store hfit, hh.records, hh.refused⟩

/-! ## Memory -/

theorem local_access {α : Type} [Inhabited α] {x : Option α} {a : α} (hx : x = some a) :
    Local P (access x) fun a' s ↦ a' = a ∧ P s := by
  subst hx
  exact .pure fun s hs ↦ ⟨rfl, hs⟩

theorem local_setArray (hfit : data.length + off ≤ cells.length) :
    Local P (setArray off data cells) fun c s ↦ c = cells.overwrite off data ∧ P s :=
  local_access (if_pos hfit)

/-- An array is filled from its beginning. -/
theorem local_begin (hfit : data.length ≤ cells.length) :
    Local P (setArray 0 data cells) fun c s ↦
      (Cells.ofList data <+: c ∧ c.length = cells.length) ∧ P s := by
  refine (local_setArray hfit).post ?_
  rintro _ s ⟨rfl, hs⟩
  exact ⟨⟨Cells.prefix_overwrite_zero cells, Cells.length_overwrite hfit⟩, hs⟩

/-- An array is filled further. -/
theorem local_append {done : Bytes} (hdone : Cells.ofList done <+: cells) (hoff : done.length = off)
    (hfit : data.length + off ≤ cells.length) :
    Local P (setArray off data cells) fun c s ↦
      (Cells.ofList (done ++ data) <+: c ∧ c.length = cells.length) ∧ P s := by
  refine (local_setArray hfit).post ?_
  rintro _ s ⟨rfl, hs⟩
  subst hoff
  exact ⟨⟨Cells.prefix_overwrite hdone data, Cells.length_overwrite hfit⟩, hs⟩

/-- An array has room for the beginning of a text. -/
theorem local_printArray (text : Bytes) (hroom : 0 < cells.length) :
    Local P (printArray text cells) fun c s ↦
      (Cells.ofList (snprintf cells.length text ++ [0]) <+: c ∧ c.length = cells.length) ∧ P s := by
  refine local_begin ?_
  rw [List.length_append, List.length_singleton, snprintf, List.length_take]
  omega

theorem local_getArray (hbegins : Cells.ofList data <+: cells) (hn : n ≤ data.length) :
    Local P (getArray n cells) fun d s ↦ d = data.take n ∧ P s :=
  local_access ((Cells.slice_of_begins hbegins hn).trans (by rw [List.drop_zero]))

theorem local_getString (hbegins : Cells.ofList (data ++ [0]) <+: cells) :
    Local P (getString cells) fun d s ↦ d = cstr data ∧ P s :=
  local_access (Cells.text_of_begins hbegins)

theorem local_load (hp : b p = some cells) (hbegins : Cells.ofList data <+: cells)
    (hn : n + off ≤ data.length) :
    Local (Heap.At grants r b o) (load (some p) off n) fun d h ↦
      d = (data.drop off).take n ∧ h.At grants r b o := by
  refine .read fun h hh ↦ ?_
  have hload : h.bytes.load p off n = some ((data.drop off).take n) := by
    rw [Blocks.load, look, hh.bytes.cells_eq, hp, Option.bind_some,
      Cells.slice_of_begins hbegins hn]
  refine (local_access hload).post ?_
  rintro d _ ⟨hd, rfl⟩
  exact ⟨hd, hh⟩

/-- An allocation is asked for. -/
theorem local_request :
    Local (Heap.At grants False b o) (request grants) fun ok h ↦ h.At grants (ok = false) b o := by
  intro h hh
  refine ⟨grants h.asked, { h with asked := h.asked + 1 }, rfl, hh.bytes, hh.records, fun hno ↦ ?_⟩
  exact ⟨h.asked, Nat.lt_succ_self _, hno⟩

/-- What an allocation leaves: a block besides those in `b`, or what was there before. -/
inductive Allocated {β : Type} (new : Cells β) (b old : ℕ → Option (Cells β)) :
    Option ℕ → (ℕ → Option (Cells β)) → Prop → Prop
  | granted {p : ℕ} (hp : b p = none) :
      Allocated new b old (some p) (Function.update b p (some new)) False
  | refused : Allocated new b old none old True

theorem local_malloc (n : ℕ) :
    Local (Heap.At grants False b o) (malloc grants n) fun p h ↦
      ∃ s : (ℕ → Option (Cells UInt8)) × Prop,
        Allocated (Cells.blank n) b b p s.1 s.2 ∧ h.At grants s.2 s.1 o := by
  refine .bind local_request fun ok ↦ ?_
  cases ok with
  | true =>
      rintro h ⟨hbytes, hrecords, -⟩
      exact ⟨some h.bytes.next, h.mapBytes (Blocks.alloc n), rfl, (_, False),
        .granted hbytes.next_eq_none, hbytes.alloc n, hrecords, False.elim⟩
  | false =>
      rintro h ⟨hbytes, hrecords, hrefused⟩
      exact ⟨none, h, rfl, (b, True), .refused, hbytes, hrecords, fun _ ↦ hrefused rfl⟩

/-- All of a block is assigned. -/
theorem local_fill (hlen : data.length = cells.length) :
    Local (Heap.At grants r (Function.update b p (some cells)) o) (fill (some p) data) fun _ ↦
      Heap.At grants r (Function.update b p (some (Cells.ofList data))) o := by
  rw [← Cells.overwrite_of_length hlen]
  exact .modify fun h hh ↦ hh.store hlen.le

theorem local_realloc {p : Option ℕ} {cells : Cells ρ} {o' : ℕ → Option (Cells ρ)}
    (howned : Owned o p cells o') (n : ℕ) :
    Local (Heap.At grants False b o') (realloc grants p n) fun q h ↦
      ∃ s : (ℕ → Option (Cells ρ)) × Prop,
        Allocated ((cells ++ Cells.blank n).take n) o o' q s.1 s.2 ∧ h.At grants s.2 b s.1 := by
  refine .bind local_request fun ok ↦ ?_
  cases ok with
  | true =>
      rintro h ⟨hbytes, hrecords, -⟩
      obtain ⟨hnone, hrealloc⟩ := hrecords.realloc howned trivial n
      exact ⟨some h.records.next, h.mapRecords (Blocks.realloc p n), rfl, (_, False),
        .granted hnone, hbytes, hrealloc, False.elim⟩
  | false =>
      rintro h ⟨hbytes, hrecords, hrefused⟩
      exact ⟨none, h, rfl, (o', True), .refused, hbytes, hrecords, fun _ ↦ hrefused rfl⟩

theorem local_freeRecords {p : Option ℕ} {cells : Cells ρ} {o' : ℕ → Option (Cells ρ)}
    (howned : Owned o p cells o') :
    Local (Heap.At grants r b o') (freeRecords p) fun _ ↦ Heap.At grants r b o := by
  cases howned with
  | null => exact .pure fun _ hh ↦ hh
  | block cells hp =>
      exact .modify fun _ hh ↦ ⟨hh.bytes, hh.records.free hp trivial, hh.refused⟩

/-- A structure that has been assigned. -/
theorem local_loadRecord {p : Option ℕ} {cells : Cells ρ} {o' : ℕ → Option (Cells ρ)}
    (howned : Owned o p cells o') {records : List ρ} (hbegins : Cells.ofList records <+: cells)
    {i : ℕ} (hi : 1 + i ≤ records.length) :
    Local (Heap.At grants r b o') (loadRecord p i) fun d h ↦
      d = (records.drop i).take 1 ∧ h.At grants r b o' := by
  cases howned with
  | null =>
      have hnil := (Cells.length_le_of_begins hbegins).trans_eq List.length_nil
      omega
  | @block p _ hp =>
      refine .read fun h hh ↦ ?_
      have hload : h.records.load p i 1 = some ((records.drop i).take 1) := by
        rw [Blocks.load, look, hh.records.self, Option.bind_some,
          Cells.slice_of_begins hbegins hi]
      refine (local_access hload).post ?_
      rintro d _ ⟨hd, rfl⟩
      exact ⟨hd, hh⟩

/-- Another structure is assigned. -/
theorem local_storeRecord {p : Option ℕ} {cells : Cells ρ} {o' : ℕ → Option (Cells ρ)}
    (howned : Owned o p cells o') {i : ℕ} (hi : i < cells.length) (record : ρ) :
    Local (Heap.At grants r b o') (storeRecord p i record) fun _ h ↦
      ∃ o'', Owned o p (cells.overwrite i [record]) o'' ∧ h.At grants r b o'' := by
  cases howned with
  | null => exact absurd hi (Nat.not_lt_zero i)
  | block cells hp =>
      refine .modify fun h hh ↦ ⟨_, .block _ hp, hh.bytes, ?_, hh.refused⟩
      exact hh.records.store (by rw [List.length_singleton, Nat.add_comm]; exact hi)

/-! ## Reading packets -/

variable {body : Option ℕ} {b' : ℕ → Option (Cells UInt8)}

/-- There is no body without bytes. -/
theorem owned_nil (b : ℕ → Option (Cells UInt8)) : Owned b none (Cells.ofList []) b := .null

theorem local_freeBlock (hp : b p = none) :
    Local (Heap.At grants r (Function.update b p (some cells)) o) (free (some p))
      fun _ ↦ Heap.At grants r b o :=
  .modify fun _ hh ↦ ⟨hh.bytes.free hp trivial, hh.records, hh.refused⟩

theorem local_free (hbody : Owned b body cells b') :
    Local (Heap.At grants r b' o) (free body) fun _ ↦ Heap.At grants r b o := by
  cases hbody with
  | null => exact .pure fun _ hh ↦ hh
  | block cells hp => exact local_freeBlock hp

theorem local_loadBody (hbody : Owned b body (Cells.ofList data) b') (hne : data ≠ [])
    (hn : n + off ≤ data.length) :
    Local (Heap.At grants r b' o) (load body off n) fun d h ↦
      d = (data.drop off).take n ∧ h.At grants r b' o := by
  generalize hcells : Cells.ofList data = cells at hbody
  cases hbody with
  | null => exact absurd (List.map_eq_nil_iff.mp hcells) hne
  | block _ hp => exact local_load (Function.update_self ..) (hcells ▸ List.prefix_rfl) hn

/-- What is left of a block that is filled from what is read. -/
inductive Filled (p n : ℕ) (b : ℕ → Option (Cells UInt8)) :
    Bool → Except Unit Bytes → (ℕ → Option (Cells UInt8)) → Prop
  | ok {data : Bytes} (hdata : data.length = n) :
      Filled p n b true (.ok data) (Function.update b p (some (Cells.ofList data)))
  | failed (cells : Cells UInt8) :
      Filled p n b false (.error ()) (Function.update b p (some cells))

theorem implements_tlsReadExact {done : Bytes} (hdone : Cells.ofList done <+: cells)
    (hlen : cells.length = done.length + n) {E : Bool → Heap ρ → Prop} :
    Implements (Heap.At grants False (Function.update b p (some cells)) o)
      (tlsReadExact p done.length n) (Proc.readLoop n done)
      (fun ok read h ↦ ∃ b', Filled p (done.length + n) b ok (read.elim (.error ()) .ok) b' ∧
        h.At grants False b' o) E := by
  induction n using Nat.strong_induction_on generalizing done cells with
  | _ n ih =>
      intro h hh
      by_cases hn : n = 0
      · subst hn
        have hcells : Cells.ofList done = cells :=
          hdone.eq_of_length (by rw [Cells.length_ofList, hlen, Nat.add_zero])
        rw [tlsReadExact, if_pos rfl, Proc.readLoop_zero]
        exact .ret ⟨_, .ok rfl, hcells ▸ hh⟩
      · rw [tlsReadExact, if_neg hn, Proc.readLoop_pos hn]
        refine .read fun bs hle ↦ ?_
        by_cases hbs : bs = []
        · rw [dif_pos hbs, if_pos hbs]
          exact .ret ⟨_, .failed cells, hh⟩
        · rw [dif_neg hbs, if_neg hbs]
          have hpos := List.length_pos_of_ne_nil hbs
          have hfit : bs.length + done.length ≤ cells.length := by omega
          have hnext : (cells.overwrite done.length bs).length =
              (done ++ bs).length + (n - bs.length) := by
            rw [Cells.length_overwrite hfit, List.length_append]
            omega
          have hrest := ih (n - bs.length) (by omega) (Cells.prefix_overwrite hdone bs) hnext _
            (hh.store hfit)
          rw [List.length_append] at hrest
          have hsum : done.length + bs.length + (n - bs.length) = done.length + n := by omega
          rwa [hsum] at hrest

/-- `tls_read_exact` into a new block. -/
theorem implements_fill (n : ℕ) {E : Bool → Heap ρ → Prop} :
    Implements (Heap.At grants False (Function.update b p (some (Cells.blank n))) o)
      (tlsReadExact p 0 n) (Io.readExact n () : Tls Bytes).proc
      (fun ok read h ↦ ∃ b', Filled p n b ok read b' ∧ h.At grants False b' o) E := by
  have hnil : Cells.ofList [] <+: (Cells.blank n : Cells UInt8) := List.nil_prefix
  have hlen : (Cells.blank n : Cells UInt8).length = ([] : Bytes).length + n := by
    rw [Cells.length_blank, List.length_nil, Nat.zero_add]
  have hproc : (Io.readExact n () : Tls Bytes).proc =
      (Proc.readLoop n []).bind fun read ↦ .ret (read.elim (.error ()) .ok) := by
    refine congrArg (Proc.readLoop n []).bind (funext fun read ↦ ?_)
    cases read <;> rfl
  intro h hh
  rw [hproc]
  refine (implements_tlsReadExact hnil hlen h hh).map fun a read hread ↦ ?_
  rwa [List.length_nil, Nat.zero_add] at hread

/-- What `read_packet` leaves. -/
inductive PacketRead (b : ℕ → Option (Cells UInt8)) :
    Bool × Packet → Except Unit (UInt8 × Bytes) → (ℕ → Option (Cells UInt8)) → Prop
  | ok {type : UInt8} {body : Option ℕ} {data : Bytes} {b' : ℕ → Option (Cells UInt8)}
      (hbody : Owned b body (Cells.ofList data) b') :
      PacketRead b (true, ⟨type, body, data.length⟩) (.ok (type, data)) b'
  | failed {packet : Packet} (hbody : packet.body = none) :
      PacketRead b (false, packet) (.error ()) b

/-- An allocation has been refused, and nothing is left. -/
def Heap.Refused (grants : ℕ → Bool) (b : ℕ → Option (Cells UInt8)) (o : ℕ → Option (Cells ρ))
    (ok : Bool) (h : Heap ρ) : Prop := ok = false ∧ h.At grants True b o

theorem implements_allocateBody (type : UInt8) (n : ℕ) :
    Implements (Heap.At grants False b o) (allocateBody grants type n)
      (do let body ← Io.readExact n (); pure (type, body) : Tls (UInt8 × Bytes)).proc
      (fun a c h ↦ ∃ b', PacketRead b a c b' ∧ h.At grants False b' o)
      (fun a h ↦ a.2.body = none ∧ h.Refused grants b o a.1) := by
  rw [allocateBody]
  by_cases hn : n = 0
  · subst hn
    rw [if_pos rfl]
    have hread : (do let body ← Io.readExact 0 (); pure (type, body) : Tls (UInt8 × Bytes)).proc =
        .ret (.ok (type, [])) := by
      rw [Io.proc_bind]
      change ((Proc.readLoop 0 []).bind _).bind _ = _
      rw [Proc.readLoop_zero]
      rfl
    rw [hread]
    exact .pure fun h hh ↦ ⟨b, .ok (owned_nil b), hh⟩
  · rw [if_neg hn]
    refine .step (local_malloc n) fun body ↦ .exists_pre fun s hbody ↦ ?_
    obtain ⟨b', refused⟩ := s
    cases hbody with
    | @granted p hp =>
        refine .bindIo (E := fun _ _ ↦ False) (implements_fill n) (fun ok data ↦ ?_) (fun ok e ↦ ?_)
          fun ok s hs ↦ hs.elim
        · refine .exists_pre fun b' hfilled ↦ ?_
          cases hfilled with
          | ok hdata => exact .pure fun h hh ↦ ⟨_, hdata ▸ .ok (.block _ hp), hh⟩
        · refine .exists_pre fun b' hfilled ↦ ?_
          cases hfilled with
          | failed cells =>
              exact .bind (local_freeBlock hp) fun _ ↦ .pure fun h hh ↦ ⟨b, .failed rfl, hh⟩
    | refused => exact .gaveUp (.pure fun h hh ↦ ⟨rfl, rfl, hh⟩)

theorem implements_readPacket :
    Implements (Heap.At grants False b o) (Mem.readPacket grants) readPacket.proc
      (fun a c h ↦ ∃ b', PacketRead b a c b' ∧ h.At grants False b' o)
      (fun a h ↦ a.2.body = none ∧ h.Refused grants b o a.1) := by
  refine .both (fun type ↦ .both (implements_allocateBody type) fun e ↦ ?_) fun e ↦ ?_
  · exact .pure fun h hh ↦ ⟨b, .failed rfl, hh⟩
  · exact .pure fun h hh ↦ ⟨b, .failed rfl, hh⟩

/-- What is done with a packet. -/
theorem implements_readPacket_bind {α γ : Type} {f : Bool × Packet → Mem ρ α}
    {g : UInt8 × Bytes → Tls γ} {R : α → Except Unit γ → Heap ρ → Prop} {E : α → Heap ρ → Prop}
    (hok : ∀ type body data b', Owned b body (Cells.ofList data) b' →
      Implements (Heap.At grants False b' o) (f (true, ⟨type, body, data.length⟩))
        (g (type, data)).proc R E)
    (hfailed : ∀ packet : Packet, packet.body = none →
      Local (Heap.At grants False b o) (f (false, packet)) fun a ↦ R a (.error ()))
    (hrefused : ∀ packet : Packet, packet.body = none →
      Local (Heap.At grants True b o) (f (false, packet)) E) :
    Implements (Heap.At grants False b o) (Mem.readPacket grants >>= f) (readPacket >>= g).proc
      R E := by
  refine .bindIo implements_readPacket (fun a c ↦ .exists_pre fun b' hread ↦ ?_)
    (fun a e ↦ .exists_pre fun b' hread ↦ ?_) fun a ↦ ?_
  · cases hread with
    | ok hbody => exact hok _ _ _ _ hbody
  · cases hread with
    | failed hbody => exact hfailed _ hbody
  · obtain ⟨ok, packet⟩ := a
    rintro h ⟨hbody, rfl, hh⟩
    exact hrefused packet hbody h hh

/-! ## Acknowledgements -/

theorem implements_isPuback (hbody : Owned b body (Cells.ofList data) b') (packetId : UInt32)
    (type : UInt8) {E : Bool → Heap ρ → Prop} :
    Implements (Heap.At grants False b' o) (isPuback packetId ⟨type, body, data.length⟩)
      (do
        Io.emit (.packet type 0x40)
        Io.require (type = 0x40 ∧ data.length = 2) ()
        let got := word16 (data.getD 0 0) (data.getD 1 0)
        Io.emit (.puback got packetId.toNat)
        Io.require (got = packetId.toNat) () : Tls Unit).proc
      (fun ok c h ↦ ok = c.isOk ∧ h.At grants False b' o) E := by
  refine .record (.require (fun hc ↦ ?_) fun hc ↦ ?_)
  · rw [if_pos hc]
    have hne : data ≠ [] := List.ne_nil_of_length_pos (hc.2.symm ▸ Nat.zero_lt_two)
    have hload : Local (Heap.At grants False b' o) (load body 0 2) fun d h ↦
        d = data ∧ h.At grants False b' o := by
      refine (local_loadBody hbody hne hc.2.ge).post fun d h hd ↦ ⟨hd.1.trans ?_, hd.2⟩
      rw [List.drop_zero, List.take_of_length_le hc.2.le]
    exact .stepEq hload (.record .decide)
  · rw [if_neg hc]
    exact .pure fun h hh ↦ ⟨rfl, hh⟩

theorem implements_waitPuback (packetId : UInt32) :
    Implements (Heap.At grants False b o) (Mem.waitPuback grants packetId)
      (waitPuback packetId).proc (fun ok c h ↦ ok = c.isOk ∧ h.At grants False b o)
      (Heap.Refused grants b o) := by
  refine implements_readPacket_bind (fun type body data b' hbody ↦ ?_) ?_ ?_
  · refine .andThen (E := fun _ _ ↦ False) (implements_isPuback hbody packetId type)
      (fun ok c ↦ ?_) fun ok h hh ↦ hh.elim
    exact .andPure (local_free hbody) fun h hok hh ↦ ⟨hok, hh⟩
  · rintro ⟨type, body, bodySize⟩ rfl
    exact .pure fun h hh ↦ ⟨rfl, hh⟩
  · rintro ⟨type, body, bodySize⟩ rfl
    exact .pure fun h hh ↦ ⟨rfl, hh⟩

theorem implements_tlsWriteAll (xs : List Item) {E : Bool → Heap ρ → Prop} :
    Implements P (tlsWriteAll xs) (Io.writeAll xs () : Tls Unit).proc
      (fun ok c h ↦ ok = c.isOk ∧ P h) E := by
  have hproc : (Io.writeAll xs () : Tls Unit).proc =
      (Proc.writeLoop xs).bind fun ok ↦ .ret (if ok then .ok () else .error ()) := by
    refine congrArg (Proc.writeLoop xs).bind (funext fun ok ↦ ?_)
    cases ok <;> rfl
  intro h hh
  rw [hproc]
  refine (Implements.lift (P := P) (E := E) (Proc.writeLoop xs) h hh).map ?_
  rintro ⟨ok, t⟩ _ ⟨rfl, ht⟩
  refine ⟨?_, ht⟩
  cases ok <;> rfl

/-- What is done after writing. -/
theorem implements_tlsWriteAll_bind {γ : Type} {α : Type} {xs : List Item} {f : Bool → Mem ρ α}
    {g : Unit → Tls γ} {R : α → Except Unit γ → Heap ρ → Prop} {E : α → Heap ρ → Prop}
    (hok : Implements P (f true) (g ()).proc R E)
    (hfailed : Local P (f false) fun a ↦ R a (.error ())) :
    Implements P (tlsWriteAll xs >>= f) (Io.writeAll xs () >>= g).proc R E := by
  refine .bindResult (E := fun _ _ ↦ False) (implements_tlsWriteAll xs) ?_ ?_ fun ok h hh ↦ hh.elim
  · rintro _ _ rfl
    exact hok
  · rintro _ _ rfl
    exact hfailed

/-! ## Publishing -/

theorem length_encodeRemaining_le (groups : ℕ) (value : UInt32) :
    (Mqtt.encodeRemaining groups value).length ≤ groups := by
  induction groups generalizing value with
  | zero => exact Nat.le_refl 0
  | succ groups ih =>
      rw [Mqtt.encodeRemaining]
      by_cases hvalue : value / 128 ≠ 0
      · simp only [if_pos hvalue, List.length_cons]
        exact Nat.succ_le_succ (ih _)
      · simp only [if_neg hvalue, List.length_singleton]
        exact Nat.succ_le_succ (Nat.zero_le _)

theorem local_buildHeader {topic encoded : Bytes} (htopic : topic.length ≤ 119)
    (hencoded : encoded.length ≤ 4) (packetId : UInt32) :
    Local P (buildHeader topic encoded packetId) fun header s ↦
      header = 0x32 :: (encoded ++ be16 topic.length ++ topic ++ be16 packetId.toNat) ∧ P s := by
  have hbe (n : ℕ) : (be16 n).length = 2 := rfl
  have hblank (n : ℕ) : (Cells.blank n : Cells UInt8).length = n := Cells.length_blank n
  refine .bindOf (local_begin (by rw [hblank]; exact hencoded)) fun remaining h₀ ↦ ?_
  refine .bindOf (local_begin (by rw [hblank]; decide)) fun header h₁ ↦ ?_
  rw [hblank] at h₁
  refine .bindEq (local_getArray h₀.1 le_rfl) ?_
  rw [List.take_length]
  refine .bindOf (local_append h₁.1 rfl (by rw [h₁.2]; omega)) fun header h₂ ↦ ?_
  rw [h₁.2] at h₂
  refine .bindOf (local_append h₂.1 ?_ (by rw [h₂.2, hbe]; omega)) fun header h₃ ↦ ?_
  · exact List.length_append
  rw [h₂.2] at h₃
  refine .bindOf (local_append h₃.1 ?_ (by rw [h₃.2]; omega)) fun header h₄ ↦ ?_
  · simp only [List.length_append, List.length_singleton, hbe]
    omega
  rw [h₃.2] at h₄
  refine .bindOf (local_append h₄.1 ?_ (by rw [h₄.2, hbe]; omega)) fun header h₅ ↦ ?_
  · simp only [List.length_append, List.length_singleton, hbe]
    omega
  have htotal : ([0x32] ++ encoded ++ be16 topic.length ++ topic ++ be16 packetId.toNat).length =
      5 + encoded.length + topic.length := by
    simp only [List.length_append, List.length_singleton, hbe]
    omega
  refine (local_getArray h₅.1 htotal.ge).post fun d s hd ↦ ⟨hd.1.trans ?_, hd.2⟩
  rw [List.take_of_length_le htotal.le]
  simp only [List.nil_append, List.cons_append, List.append_assoc]

/-- The header fits into the array. -/
theorem local_publishHeader {topic : Bytes} (htopic : (cstr topic).length ≤ 119) (packetId : UInt32)
    (payloadSize : ℕ) :
    Local P (buildHeader (cstr topic)
      (encodeRemaining (UInt32.ofNat (2 + (cstr topic).length + 2 + payloadSize))) packetId)
      fun header s ↦ header = publishHeader topic packetId payloadSize ∧ P s :=
  local_buildHeader htopic (length_encodeRemaining_le 4 _) packetId

/-- A success with a value, or a failure. -/
inductive Outcome {α : Type} : Bool × α → Except Unit α → Prop
  | ok (a : α) : Outcome (true, a) (.ok a)
  | failed (a : α) : Outcome (false, a) (.error ())

/-- `publish` leaves no blocks. -/
theorem implements_publish (operation : Option ℕ) {topic : Bytes}
    (htopic : (cstr topic).length ≤ 119) (payload : Bytes) (packetIdState : UInt32) :
    Implements (Heap.At grants False b o) (Mem.publish grants operation topic payload packetIdState)
      (publish operation topic payload packetIdState).proc
      (fun a c h ↦ Outcome a c ∧ h.At grants False b o)
      (fun a ↦ Heap.Refused grants b o a.1) := by
  refine .stepEq (local_publishHeader htopic packetIdState payload.length) ?_
  have hfailed : Local (Heap.At grants False b o)
      (pure (false, packetIdState + 1) : Mem ρ (Bool × UInt32))
      fun a h ↦ Outcome a (.error ()) ∧ h.At grants False b o := .pure fun h hh ↦ ⟨.failed _, hh⟩
  refine implements_tlsWriteAll_bind (implements_tlsWriteAll_bind ?_ hfailed) hfailed
  refine .bindResult (implements_waitPuback packetIdState) (fun ok c hc ↦ ?_) (fun ok e hc ↦ ?_)
    fun ok ↦ ?_
  · cases hc
    exact .pure fun h hh ↦ ⟨.ok _, hh⟩
  · cases hc
    exact hfailed
  · rintro h ⟨rfl, hh⟩
    exact ⟨_, h, rfl, rfl, hh⟩

/-! ## Reading PUBLISH packets -/

/-- What `parse_publish` has found in a body. -/
inductive ParsedAs (data : Bytes) : Option Parsed → Option (Bytes × Bytes × ℕ) → Prop
  | none : ParsedAs data none none
  | some {parsed : Parsed} (hne : data ≠ [])
      (htopic : Cells.ofList (parsed.name ++ [0]) <+: parsed.topic)
      (hpayload : parsed.payloadSize + parsed.payload = data.length) :
      ParsedAs data (some parsed)
        (some (parsed.name, data.drop parsed.payload, parsed.packetId))

/-- A word that has been loaded. -/
theorem word16_window (data : Bytes) (off : ℕ) :
    word16 (((data.drop off).take 2).getD 0 0) (((data.drop off).take 2).getD 1 0) =
      word16 (data.getD off 0) (data.getD (off + 1) 0) := by
  have hget (i : ℕ) (hi : i < 2) :
      ((data.drop off).take 2).getD i 0 = data.getD (off + i) 0 := by
    rw [List.getD_eq_getElem?_getD, List.getElem?_take_of_lt hi, List.getElem?_drop,
      ← List.getD_eq_getElem?_getD]
  rw [hget 0 Nat.zero_lt_two, hget 1 Nat.one_lt_two, Nat.add_zero]

theorem local_parsePublish (hbody : Owned b body (Cells.ofList data) b') (type : UInt8)
    (topic : Cells UInt8) :
    Local (Heap.At grants r b' o) (Mem.parsePublish ⟨type, body, data.length⟩ topic) fun x h ↦
      ParsedAs data x (parsePublish type data topic.length) ∧ h.At grants r b' o := by
  have hfailed : Local (Heap.At grants r b' o) (pure none : Mem ρ (Option Parsed)) fun x h ↦
      ParsedAs data x none ∧ h.At grants r b' o := .pure fun h hh ↦ ⟨.none, hh⟩
  rw [Mem.parsePublish, parsePublish]
  by_cases htype : type >>> 4 ≠ 3 ∨ data.length < 2
  · rw [if_pos htype, if_pos htype]
    exact hfailed
  rw [if_neg htype, if_neg htype]
  have hlen : 2 + 0 ≤ data.length := Nat.le_of_not_lt (not_or.mp htype).2
  have hne : data ≠ [] := List.ne_nil_of_length_pos (Nat.zero_lt_two.trans_le hlen)
  refine .bindEq (local_loadBody hbody hne hlen) ?_
  rw [word16_window, Nat.zero_add]
  generalize word16 (data.getD 0 0) (data.getD 1 0) = topicSize
  by_cases hsize : topic.length < topicSize + 1 ∨ data.length < 2 + topicSize
  · rw [if_pos hsize, if_pos hsize]
    exact hfailed
  rw [if_neg hsize, if_neg hsize]
  obtain ⟨hroom, hrest⟩ := not_or.mp hsize
  refine .bindEq (local_loadBody hbody hne (by omega)) ?_
  have hname : ((data.drop 2).take topicSize).length = topicSize := by
    rw [List.length_take, List.length_drop]
    omega
  generalize (data.drop 2).take topicSize = name at hname
  refine .bindOf (local_begin (by omega)) fun cells hcells ↦ ?_
  refine .bindOf (local_append hcells.1 hname ?_) fun cells' hcells' ↦ ?_
  · rw [hcells.2, List.length_singleton]
    omega
  by_cases hqos : (type >>> 1) &&& 3 ≠ 0
  · rw [if_pos hqos, if_pos hqos]
    by_cases hid : data.length < 2 + topicSize + 2
    · rw [if_pos hid, if_pos hid]
      exact hfailed
    · rw [if_neg hid, if_neg hid]
      refine .bindEq (local_loadBody hbody hne (by omega)) ?_
      rw [word16_window]
      have hpayload := Nat.sub_add_cancel (Nat.le_of_not_lt hid)
      exact .pure fun h hh ↦ ⟨.some hne hcells'.1 hpayload, hh⟩
  · rw [if_neg hqos, if_neg hqos]
    have hpayload := Nat.sub_add_cancel (Nat.le_of_not_lt hrest)
    exact .pure fun h hh ↦ ⟨.some hne hcells'.1 hpayload, hh⟩

/-- A PUBLISH that has been read and taken apart. -/
structure Publication (b : ℕ → Option (Cells UInt8)) (body : Option ℕ) (parsed : Parsed)
    (data : Bytes) (b' : ℕ → Option (Cells UInt8)) : Prop where
  owned : Owned b body (Cells.ofList data) b'
  ne_nil : data ≠ []
  topic : Cells.ofList (parsed.name ++ [0]) <+: parsed.topic
  payload : parsed.payloadSize + parsed.payload = data.length

namespace Publication

variable {parsed : Parsed}

theorem length_payload (h : Publication b body parsed data b') :
    (data.drop parsed.payload).length = parsed.payloadSize := by
  rw [List.length_drop, ← h.payload, Nat.add_sub_cancel]

theorem local_topic (h : Publication b body parsed data b') :
    Local P (getString parsed.topic) fun d s ↦ d = cstr parsed.name ∧ P s :=
  local_getString h.topic

theorem local_payload (h : Publication b body parsed data b') :
    Local (Heap.At grants r b' o) (load body parsed.payload parsed.payloadSize) fun d s ↦
      d = data.drop parsed.payload ∧ s.At grants r b' o := by
  refine (local_loadBody h.owned h.ne_nil h.payload.le).post fun d s hd ↦ ⟨hd.1.trans ?_, hd.2⟩
  exact List.take_of_length_le h.length_payload.le

end Publication

/-- What reading a PUBLISH leaves: the body, also if it is not the expected one. -/
inductive PublishRead (b : ℕ → Option (Cells UInt8)) : Option Parsed × Option ℕ →
    Except Unit (Bytes × Bytes × ℕ) → (ℕ → Option (Cells UInt8)) → Prop
  | ok {body : Option ℕ} {data : Bytes} {b' : ℕ → Option (Cells UInt8)} {parsed : Parsed}
      (h : Publication b body parsed data b') :
      PublishRead b (some parsed, body)
        (.ok (parsed.name, data.drop parsed.payload, parsed.packetId)) b'
  | failed {body : Option ℕ} {data : Bytes} {b' : ℕ → Option (Cells UInt8)}
      (hbody : Owned b body (Cells.ofList data) b') : PublishRead b (none, body) (.error ()) b'

/-- Nothing has been read since an allocation was refused. -/
def Heap.NotRead (grants : ℕ → Bool) (b : ℕ → Option (Cells UInt8)) (o : ℕ → Option (Cells ρ))
    (a : Option Parsed × Option ℕ) (h : Heap ρ) : Prop := a = (none, none) ∧ h.At grants True b o

theorem implements_readPublish (expect : Bytes) (topic : Cells UInt8) :
    Implements (Heap.At grants False b o) (Mem.readPublish grants expect topic)
      (readPublish expect topic.length).proc
      (fun a c h ↦ ∃ b', PublishRead b a c b' ∧ h.At grants False b' o)
      (Heap.NotRead grants b o) := by
  refine implements_readPacket_bind (fun type body data b' hbody ↦ ?_) ?_ ?_
  · refine .record (.step (local_parsePublish hbody type topic) fun x ↦ ?_)
    refine .of_pure (fun h hh ↦ hh.1) fun hparsed ↦ .pre ?_ fun h hh ↦ hh.2
    generalize parsePublish type data topic.length = c at hparsed ⊢
    cases hparsed with
    | none => exact .pure fun h hh ↦ ⟨b', .failed hbody, hh⟩
    | some hne htopic hpayload =>
        exact .record (.pure fun h hh ↦ ⟨b', .ok ⟨hbody, hne, htopic, hpayload⟩, hh⟩)
  · rintro ⟨type, body, bodySize⟩ rfl
    exact .pure fun h hh ↦ ⟨b, .failed (owned_nil b), hh⟩
  · rintro ⟨type, body, bodySize⟩ rfl
    exact .pure fun h hh ↦ ⟨rfl, hh⟩

end PeripheralBench.Mqtt.Server

import PeripheralBench.Mqtt.Inbox

/-!
# The messages that the transfer controller gets to see

A `History` is what has become of a client: the packets that it has read, the calls that have
returned, and the call that has not.  A message is not lost if the calls that wait for its topic
hand back the messages on it one after the other, and none of them stops while there is one left
(`Delivers`).

`wait_pattern_publish` does not look into the inbox, so a message that came while the client waited
for something else is lost on it (`not_delivers`).  The client loses nothing as long as no such call
is made while the inbox has a message on its topic, or while the next packet is something else than
a message on it (`run_delivers`).
-/

open PeripheralBench.Stream PeripheralBench.Text

namespace PeripheralBench.Mqtt.Controller

/-! ## Handing things out in order -/

section HandedOut

variable {α β : Type} {R : α → β → Prop} {takers : List α} {arrived left : List β}

/-- Each of the takers has got the next one of what has arrived, and this is left. -/
def HandedOut (R : α → β → Prop) (takers : List α) (arrived left : List β) : Prop :=
  ∃ taken, arrived = taken ++ left ∧ List.Forall₂ R takers taken

theorem handedOut_nil (R : α → β → Prop) : HandedOut R [] [] [] := ⟨[], rfl, .nil⟩

theorem HandedOut.arrive (h : HandedOut R takers arrived left) (new : List β) :
    HandedOut R takers (arrived ++ new) (left ++ new) := by
  obtain ⟨taken, harrived, htaken⟩ := h
  exact ⟨taken, by rw [harrived, List.append_assoc], htaken⟩

theorem HandedOut.take {taker : α} {b : β} (h : HandedOut R takers arrived (b :: left))
    (hb : R taker b) : HandedOut R (takers ++ [taker]) arrived left := by
  obtain ⟨taken, harrived, htaken⟩ := h
  refine ⟨taken ++ [b], by rw [harrived, List.append_assoc, List.singleton_append], ?_⟩
  exact List.rel_append htaken (.cons hb .nil)

end HandedOut

section EraseP

variable {α : Type} {p q : α → Bool}

theorem filter_eraseP_self (l : List α) : (l.eraseP p).filter p = (l.filter p).tail := by
  induction l with
  | nil => rfl
  | cons a l ih =>
      by_cases ha : p a = true
      · rw [List.eraseP_cons_of_pos ha, List.filter_cons_of_pos ha, List.tail_cons]
      · rw [List.eraseP_cons_of_neg ha, List.filter_cons_of_neg ha, List.filter_cons_of_neg ha, ih]

theorem filter_eraseP_of_disjoint (h : ∀ a, p a = true → q a = false) (l : List α) :
    (l.eraseP p).filter q = l.filter q := by
  induction l with
  | nil => rfl
  | cons a l ih =>
      by_cases ha : p a = true
      · rw [List.eraseP_cons_of_pos ha, List.filter_cons_of_neg (by simp [h a ha])]
      · rw [List.eraseP_cons_of_neg ha, List.filter_cons, List.filter_cons, ih]

end EraseP

/-! ## Runs of the client -/

/-- A call of the client. -/
inductive Call where
  /-- `subscribe`. -/
  | subscribe (topics : List String)
  /-- `publish`. -/
  | publish (topic : String) (payload : Bytes)
  /-- `publish_pattern`. -/
  | publishPattern (topic : String) (seed size : ℕ)
  /-- `wait_pattern_publish`. -/
  | waitPatternPublish (topic : String) (seed size : ℕ)
  /-- `wait_publish`. -/
  | waitPublish (topic : String)

namespace Call

variable (sha : Bytes → Digest)

/-- What the call does with the packets that are on their way. -/
def turn : Call → MqttClient → List Packet → Turn
  | .subscribe topics => Controller.subscribe topics
  | .publish topic payload => Controller.publish topic payload
  | .publishPattern topic seed size => Controller.publishPattern topic seed size
  | .waitPatternPublish topic seed size => Controller.waitPatternPublish sha topic seed size
  | .waitPublish topic => Controller.waitPublish topic

/-- The topic that the call waits for a message on. -/
def topic? : Call → Option String
  | .waitPatternPublish topic _ _ => some topic
  | .waitPublish topic => some topic
  | _ => none

/-- What the call hands back if it gets this message. -/
def report : Call → Message → Result
  | .waitPatternPublish topic seed size, m => patternVerdict sha topic seed size m.topic m.payload
  | .waitPublish _, m => .payload m.payload
  | _, _ => .done

end Call

/-- What has become of a client. -/
structure History where
  /-- The client. -/
  client : MqttClient
  /-- The packets on their way. -/
  unread : List Packet
  /-- The packets that the client has read. -/
  read : List Packet
  /-- The acknowledgements that it has sent. -/
  answers : Bytes
  /-- The calls that have returned, and what they have handed back. -/
  returned : List (Call × Result)
  /-- The call that has not, and how it ended. -/
  stopped : Option (Call × Outcome)

namespace History

variable (sha : Bytes → Digest)

/-- A client at its beginning. -/
def init (packets : List Packet) : History := ⟨.init, packets, [], [], [], none⟩

/-- The next call, unless one has not returned. -/
def perform (h : History) (call : Call) : History :=
  match h.stopped with
  | some _ => h
  | none =>
      let turn := call.turn sha h.client h.unread
      { client := turn.client
        unread := turn.unread
        read := h.read ++ turn.read
        answers := h.answers ++ turn.answers
        returned := match turn.outcome with
          | .returned result => h.returned ++ [(call, result)]
          | _ => h.returned
        stopped := match turn.outcome with
          | .returned _ => none
          | outcome => some (call, outcome) }

/-- A sequence of calls. -/
def run (h : History) (calls : List Call) : History := calls.foldl (perform sha) h

/-- The messages on a topic that the client has read. -/
def arrived (h : History) (topic : String) : List Message :=
  (messages h.read).filter fun m ↦ m.topic = topic

/-- The calls for a topic that have returned. -/
def waits (h : History) (topic : String) : List (Call × Result) :=
  h.returned.filter fun r ↦ r.1.topic? = some topic

/-- The calls for a topic have handed back its messages in order, up to these. -/
def Left (h : History) (topic : String) (left : List Message) : Prop :=
  HandedOut (fun r m ↦ r.2 = r.1.report sha m) (h.waits topic) (h.arrived topic) left

/-- No message has been lost. -/
structure Delivers (h : History) : Prop where
  /-- The calls for a topic have handed back its messages, one after the other. -/
  returned : ∀ topic, ∃ left, h.Left sha topic left
  /-- A call for a topic only waits, and only when all messages on the topic have been handed
  back. -/
  stopped : ∀ call outcome topic, h.stopped = some (call, outcome) → call.topic? = some topic →
    outcome = .waiting ∧ h.Left sha topic []
  /-- Every message of QoS 1 has been acknowledged once, in order. -/
  answers : h.answers = acks h.read

/-- `wait_pattern_publish` finds the next message on its topic, if there is one, on the socket and
not in the inbox. -/
def Ready (h : History) : Call → Prop
  | .waitPatternPublish topic _ _ => (∀ item ∈ h.client.inbox, item.1 ≠ topic) ∧
      ∀ packet ∈ h.unread.head?, ∃ m, packet = .publish m ∧ m.topic = topic
  | _ => True

/-- Every call is made when it is ready. -/
def AllReady (h : History) : List Call → Prop
  | [] => True
  | call :: calls => (h.stopped = none → h.Ready call) ∧ (h.perform sha call).AllReady calls

/-! ## What one call does -/

/-- What a run keeps up: the inbox has exactly the messages that have not been handed back. -/
structure Consistent (h : History) : Prop where
  inbox : ∀ topic, ∃ left, h.Left sha topic left ∧
    (h.client.inbox.filter (isOn topic)).map (·.2.1) = left.map Message.payload
  stopped : ∀ call outcome topic, h.stopped = some (call, outcome) → call.topic? = some topic →
    outcome = .waiting ∧ h.Left sha topic []
  answers : h.answers = acks h.read

variable {sha} {h : History} {call : Call} {topic : String}

theorem Consistent.delivers (hc : h.Consistent sha) : h.Delivers sha where
  returned topic := (hc.inbox topic).imp fun _ h ↦ h.1
  stopped := hc.stopped
  answers := hc.answers

theorem consistent_init (packets : List Packet) : (init packets).Consistent sha where
  inbox _ := ⟨[], handedOut_nil _, rfl⟩
  stopped _ _ _ h := nomatch h
  answers := rfl

theorem perform_of_stopped (hs : h.stopped ≠ none) : h.perform sha call = h := by
  rw [perform]
  split
  · rfl
  · exact absurd ‹_› hs

section Perform

variable (hs : h.stopped = none)

include hs

theorem client_perform :
    (h.perform sha call).client = (call.turn sha h.client h.unread).client := by
  rw [perform, hs]

theorem arrived_perform : (h.perform sha call).arrived topic =
    h.arrived topic ++ (messages (call.turn sha h.client h.unread).read).filter
      fun m ↦ m.topic = topic := by
  simp only [arrived, perform, hs, messages_append, List.filter_append]

theorem waits_perform_of_ne (htopic : call.topic? ≠ some topic) :
    (h.perform sha call).waits topic = h.waits topic := by
  simp only [waits, perform, hs]
  split
  · rw [List.filter_append, List.filter_singleton, decide_eq_false htopic]
    exact List.append_nil _
  · rfl

theorem waits_perform {result : Result} (htopic : call.topic? = some topic)
    (houtcome : (call.turn sha h.client h.unread).outcome = .returned result) :
    (h.perform sha call).waits topic = h.waits topic ++ [(call, result)] := by
  simp only [waits, perform, hs, houtcome, List.filter_append, List.filter_singleton, htopic]
  rfl

theorem waits_perform_waiting
    (houtcome : (call.turn sha h.client h.unread).outcome = .waiting) :
    (h.perform sha call).waits topic = h.waits topic := by
  simp only [waits, perform, hs, houtcome]

theorem stopped_perform {call' : Call} {outcome : Outcome}
    (h' : (h.perform sha call).stopped = some (call', outcome)) :
    call' = call ∧ (call.turn sha h.client h.unread).outcome = outcome ∧
      ∀ result, outcome ≠ .returned result := by
  simp only [perform, hs] at h'
  split at h'
  · cases h'
  · cases h'
    exact ⟨rfl, rfl, ‹_›⟩

theorem answers_perform (hc : h.Consistent sha)
    (hturn : (call.turn sha h.client h.unread).Reads h.unread) :
    (h.perform sha call).answers = acks (h.perform sha call).read := by
  simp only [perform, hs, hc.answers, hturn.answers, acks_append]

end Perform

theorem filter_items (packets : List Packet) (topic : String) :
    ((items packets).filter (isOn topic)).map (·.2.1) =
      ((messages packets).filter fun m ↦ m.topic = topic).map Message.payload := by
  rw [items, List.filter_map, List.map_map]
  rfl

/-- What is left, and what is in the inbox or has been read: the two stay the same. -/
theorem Consistent.read (hc : h.Consistent sha) (packets : List Packet) (topic : String) :
    ∃ left, HandedOut (fun r m ↦ r.2 = r.1.report sha m) (h.waits topic)
        (h.arrived topic ++ (messages packets).filter fun m ↦ m.topic = topic) left ∧
      ((h.client.inbox ++ items packets).filter (isOn topic)).map (·.2.1) =
        left.map Message.payload := by
  obtain ⟨left, hleft, hinbox⟩ := hc.inbox topic
  refine ⟨_, hleft.arrive _, ?_⟩
  rw [List.filter_append, List.map_append, List.map_append, hinbox, filter_items]

/-- A call that hands back nothing on a topic leaves what was left on it. -/
theorem Consistent.inbox_perform (hc : h.Consistent sha) (hs : h.stopped = none)
    (hwaits : (h.perform sha call).waits topic = h.waits topic)
    (hinbox : (call.turn sha h.client h.unread).client.inbox.filter (isOn topic) =
      (h.client.inbox ++ items (call.turn sha h.client h.unread).read).filter (isOn topic)) :
    ∃ left, (h.perform sha call).Left sha topic left ∧
      ((h.perform sha call).client.inbox.filter (isOn topic)).map (·.2.1) =
        left.map Message.payload := by
  simp only [Left, hwaits, arrived_perform hs, client_perform hs, hinbox]
  exact hc.read _ topic

/-- A call that waits for an acknowledgement. -/
theorem Consistent.perform_stores (hc : h.Consistent sha) (hs : h.stopped = none)
    (htopic : call.topic? = none)
    (hturn : (call.turn sha h.client h.unread).Stores h.client h.unread) :
    (h.perform sha call).Consistent sha where
  inbox topic := by
    have hne : call.topic? ≠ some topic := by rw [htopic]; rintro ⟨⟩
    exact hc.inbox_perform hs (waits_perform_of_ne hs hne) (by rw [hturn.inbox])
  stopped call' outcome topic hstop htopic' := by
    rw [(stopped_perform hs hstop).1, htopic] at htopic'
    cases htopic'
  answers := answers_perform hs hc hturn.toReads

/-- A call that has handed back the next message on its topic, which is `m`. -/
theorem Consistent.perform_returned {result : Result} (hc : h.Consistent sha)
    (hs : h.stopped = none)
    (htopic : call.topic? = some topic)
    (hreads : (call.turn sha h.client h.unread).Reads h.unread)
    (houtcome : (call.turn sha h.client h.unread).outcome = .returned result)
    (hinbox : ∀ topic' ≠ topic, (call.turn sha h.client h.unread).client.inbox.filter
      (isOn topic') =
      (h.client.inbox ++ items (call.turn sha h.client h.unread).read).filter (isOn topic'))
    (hnext : ∃ m left, HandedOut (fun r m ↦ r.2 = r.1.report sha m) (h.waits topic)
        (h.arrived topic ++ (messages (call.turn sha h.client h.unread).read).filter
          fun m ↦ m.topic = topic) (m :: left) ∧ result = call.report sha m ∧
        ((call.turn sha h.client h.unread).client.inbox.filter (isOn topic)).map (·.2.1) =
          left.map Message.payload) :
    (h.perform sha call).Consistent sha where
  inbox topic' := by
    by_cases heq : topic' = topic
    · subst heq
      obtain ⟨m, left, hleft, hresult, hrest⟩ := hnext
      simp only [Left, arrived_perform hs, client_perform hs, waits_perform hs htopic houtcome]
      exact ⟨left, hleft.take hresult, hrest⟩
    · have hne : call.topic? ≠ some topic' := by
        rw [htopic]
        exact fun h ↦ heq (Option.some.inj h).symm
      exact hc.inbox_perform hs (waits_perform_of_ne hs hne) (hinbox topic' heq)
  stopped call' outcome topic' hstop := by
    obtain ⟨-, hsame, hne⟩ := stopped_perform hs hstop
    exact absurd (hsame.symm.trans houtcome) (hne _)
  answers := answers_perform hs hc hreads

/-- A call that waits for a topic on which nothing is left. -/
theorem Consistent.perform_waiting (hc : h.Consistent sha) (hs : h.stopped = none)
    (htopic : call.topic? = some topic)
    (hreads : (call.turn sha h.client h.unread).Reads h.unread)
    (houtcome : (call.turn sha h.client h.unread).outcome = .waiting)
    (hinbox : (call.turn sha h.client h.unread).client.inbox =
      h.client.inbox ++ items (call.turn sha h.client h.unread).read)
    (hnone : (call.turn sha h.client h.unread).client.inbox.filter (isOn topic) = []) :
    (h.perform sha call).Consistent sha := by
  have hleft : ∀ topic', ∃ left, (h.perform sha call).Left sha topic' left ∧
      ((h.perform sha call).client.inbox.filter (isOn topic')).map (·.2.1) =
        left.map Message.payload :=
    fun _ ↦ hc.inbox_perform hs (waits_perform_waiting hs houtcome) (by rw [hinbox])
  refine ⟨hleft, ?_, answers_perform hs hc hreads⟩
  intro call' outcome topic' hstop htopic'
  obtain ⟨rfl, hsame, -⟩ := stopped_perform hs hstop
  rw [htopic] at htopic'
  cases htopic'
  obtain ⟨left, hleft, hrest⟩ := hleft topic
  rw [client_perform hs, hnone] at hrest
  cases List.map_eq_nil_iff.mp hrest.symm
  exact ⟨hsame.symm.trans houtcome, hleft⟩

theorem isOn_disjoint {topic topic' : String} (hne : topic' ≠ topic)
    (item : String × Bytes × ℕ) (h : isOn topic item = true) : isOn topic' item = false := by
  have htopic : item.1 = topic := of_decide_eq_true h
  exact decide_eq_false fun h' ↦ hne (h'.symm.trans htopic)

theorem Consistent.perform_waitPublish (hc : h.Consistent sha) (hs : h.stopped = none) :
    (h.perform sha (.waitPublish topic)).Consistent sha := by
  have hturn : ((Call.waitPublish topic).turn sha h.client h.unread).Takes topic
      h.client h.unread :=
    waitPublish_takes topic h.client h.unread
  have htaken := hturn.taken
  split at htaken
  case h_1 item hfind =>
    obtain ⟨houtcome, hclient⟩ := htaken
    refine hc.perform_returned hs rfl hturn.toReads houtcome ?_ ?_
    · intro topic' hne
      rw [hclient, filter_eraseP_of_disjoint (isOn_disjoint hne)]
    · -- The first message in the inbox is the first one that is left.
      obtain ⟨left, hleft, hinbox⟩ := hc.read _ topic
      rw [← List.head?_filter] at hfind
      obtain ⟨rest, hrest⟩ := List.head?_eq_some_iff.mp hfind
      rw [hrest] at hinbox
      cases left with
      | nil => cases hinbox
      | cons m left =>
          obtain ⟨hpayload, hinbox⟩ := List.cons.inj hinbox
          refine ⟨m, left, hleft, congrArg Result.payload hpayload, ?_⟩
          rw [hclient, filter_eraseP_self, hrest]
          exact hinbox
  case h_2 hfind =>
    obtain ⟨houtcome, hclient⟩ := htaken
    refine hc.perform_waiting hs rfl hturn.toReads houtcome hclient ?_
    rwa [hclient, ← List.head?_eq_none_iff, List.head?_filter]

theorem Consistent.perform_waitPatternPublish (hc : h.Consistent sha) (hs : h.stopped = none)
    {seed size : ℕ} (hready : h.Ready (.waitPatternPublish topic seed size)) :
    (h.perform sha (.waitPatternPublish topic seed size)).Consistent sha := by
  obtain ⟨hnone, hnext⟩ := hready
  have hfilter : h.client.inbox.filter (isOn topic) = [] := by
    rw [List.filter_eq_nil_iff]
    exact fun item hitem hon ↦ hnone item hitem (of_decide_eq_true hon)
  have hcall : (Call.waitPatternPublish topic seed size).turn sha h.client h.unread =
      waitPatternPublish sha topic seed size h.client h.unread := rfl
  cases hunread : h.unread with
  | nil =>
      have hturn : (Call.waitPatternPublish topic seed size).turn sha h.client h.unread =
          ⟨.waiting, h.client, [], [], []⟩ := by rw [hcall, hunread]; rfl
      refine hc.perform_waiting hs rfl ?_ ?_ ?_ ?_ <;> rw [hturn]
      · rw [hunread]
        exact ⟨rfl, rfl⟩
      · exact (List.append_nil _).symm
      · exact hfilter
  | cons packet unread =>
      obtain ⟨m, rfl, hm⟩ := hnext packet (by rw [hunread]; rfl)
      have hturn : (Call.waitPatternPublish topic seed size).turn sha h.client h.unread =
          ⟨.returned (patternVerdict sha topic seed size m.topic m.payload), h.client, [.publish m],
            unread, m.ack⟩ := by rw [hcall, hunread]; rfl
      have hitem : items [.publish m] = [m.item] := rfl
      have hmessages : messages [.publish m] = [m] := rfl
      refine hc.perform_returned hs rfl ?_ (by rw [hturn]) ?_ ?_ <;> rw [hturn]
      · rw [hunread]
        exact ⟨rfl, (List.append_nil _).symm⟩
      · intro topic' hne
        have hoff : isOn topic' m.item = false := isOn_disjoint hne m.item (decide_eq_true hm)
        rw [hitem, List.filter_append, List.filter_singleton, hoff]
        exact (List.append_nil _).symm
      · obtain ⟨left, hleft, hinbox⟩ := hc.inbox topic
        rw [hfilter] at hinbox
        cases List.map_eq_nil_iff.mp hinbox.symm
        refine ⟨m, [], ?_, rfl, congrArg (List.map _) hfilter⟩
        rw [hmessages, List.filter_singleton, decide_eq_true hm]
        exact hleft.arrive [m]

theorem Consistent.perform (hc : h.Consistent sha) (hready : h.stopped = none → h.Ready call) :
    (h.perform sha call).Consistent sha := by
  by_cases hs : h.stopped = none
  · cases call with
    | subscribe topics => exact hc.perform_stores hs rfl (subscribe_stores topics _ _)
    | publish topic payload => exact hc.perform_stores hs rfl (publish_stores topic payload _ _)
    | publishPattern topic seed size =>
        exact hc.perform_stores hs rfl (publishPattern_stores topic seed size _ _)
    | waitPatternPublish topic seed size => exact hc.perform_waitPatternPublish hs (hready hs)
    | waitPublish topic => exact hc.perform_waitPublish hs
  · rwa [perform_of_stopped hs]

/-- **No message is lost** in a run that finds every message of `wait_pattern_publish` on the
socket: the calls that wait for a topic hand back its messages in the order of their arrival, a call
does not stop while there is one left, and every message of QoS 1 is acknowledged once. -/
theorem run_delivers (sha : Bytes → Digest) (packets : List Packet) (calls : List Call)
    (hready : (init packets).AllReady sha calls) : ((init packets).run sha calls).Delivers sha := by
  have key : ∀ (h : History) (calls : List Call), h.Consistent sha → h.AllReady sha calls →
      (h.run sha calls).Consistent sha := by
    intro h calls
    induction calls generalizing h with
    | nil => intro hc _; exact hc
    | cons call calls ih =>
        rintro hc ⟨hcall, hcalls⟩
        exact ih _ (hc.perform hcall) hcalls
  exact (key _ calls (consistent_init packets) hready).delivers

/-! ## A message that is lost -/

/-- An uploaded payload of one byte. -/
def upload : Message :=
  ⟨false, false, "bench/up", some 7, [0], by decide, by rw [encode_eq]; decide,
    by rw [encode_eq]; decide⟩

/-- A session in which the payload arrives when the client waits for it. -/
theorem run_delivers_upload :
    (init [.publish upload, .publish upload]).AllReady (fun _ ↦ readyDigest)
        [.waitPatternPublish "bench/up" 0 1, .waitPublish "bench/up"] ∧
      ((init [.publish upload, .publish upload]).run (fun _ ↦ readyDigest)
        [.waitPatternPublish "bench/up" 0 1, .waitPublish "bench/up"]).Delivers
          (fun _ ↦ readyDigest) := by
  have hready : (init [.publish upload, .publish upload]).AllReady (fun _ ↦ readyDigest)
      [.waitPatternPublish "bench/up" 0 1, .waitPublish "bench/up"] := by
    refine ⟨fun _ ↦ ⟨fun item hitem ↦ (nomatch hitem), ?_⟩, fun _ ↦ trivial, trivial⟩
    rintro packet ⟨⟩
    exact ⟨upload, rfl, rfl⟩
  exact ⟨hready, run_delivers _ _ _ hready⟩

theorem waitPuback_publish (packetId : ℕ) (client : MqttClient) (m : Message)
    (packets : List Packet) :
    waitPuback packetId client (.publish m :: packets) =
      (waitPuback packetId { client with inbox := client.inbox ++ [m.item] } packets).after
        (.publish m) m.ack := by
  have hne : (Packet.publish m).first ≠ 0x40 := by
    intro h
    have hshift : (Packet.publish m).first >>> 4 = 3 := m.first_shift
    rw [h] at hshift
    exact absurd hshift (by decide)
  rw [waitPuback, storeUntil, if_neg (by simp [hne]), storePublish_packet]
  simp [acks, items, messages, Packet.message?]

theorem waitPuback_puback (id : UInt16) (client : MqttClient) (packets : List Packet) :
    waitPuback id.toNat client (.puback id :: packets) =
      ⟨.returned .done, client, [.puback id], packets, []⟩ :=
  if_pos (decide_eq_true ⟨rfl, rfl⟩)

/-- The client asks for a payload, and the payload arrives before the PUBACK of the request. -/
theorem not_delivers :
    ¬ ((init [.publish upload, .puback 1]).run (fun _ ↦ readyDigest)
      [.publish "bench/control" (ascii "UP 1 1 0"), .waitPatternPublish "bench/up" 0 1]).Delivers
        (fun _ ↦ readyDigest) := by
  let request : Publish := ⟨encode "bench/control", 1, ascii "UP 1 1 0",
    by rw [encode_eq]; decide, by rw [encode_eq]; decide⟩
  have hpacket : publishPacket .init "bench/control" (ascii "UP 1 1 0") =
      .ok (request.encode, 1, ⟨2, []⟩) := publishPacket_eq request rfl rfl
  have hturn : publish "bench/control" (ascii "UP 1 1 0") .init [.publish upload, .puback 1] =
      ⟨.returned .done, ⟨2, [upload.item]⟩, [.publish upload, .puback 1], [], upload.ack⟩ := by
    rw [publish, hpacket]
    change waitPuback 1 ⟨2, []⟩ [.publish upload, .puback 1] = _
    rw [waitPuback_publish]
    exact congrArg _ (waitPuback_puback 1 _ _)
  have hafter : (init [.publish upload, .puback 1]).run (fun _ ↦ readyDigest)
      [.publish "bench/control" (ascii "UP 1 1 0"), .waitPatternPublish "bench/up" 0 1] =
        ⟨⟨2, [upload.item]⟩, [], [.publish upload, .puback 1], upload.ack,
          [(.publish "bench/control" (ascii "UP 1 1 0"), .done)],
          some (.waitPatternPublish "bench/up" 0 1, .waiting)⟩ := by
    simp only [run, List.foldl_cons, List.foldl_nil, perform, init, Call.turn, hturn]
    rfl
  intro h
  rw [hafter] at h
  obtain ⟨-, taken, harrived, htaken⟩ := h.stopped _ _ "bench/up" rfl rfl
  cases htaken
  cases harrived

end History

end PeripheralBench.Mqtt.Controller

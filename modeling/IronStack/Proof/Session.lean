import IronStack.Proof.Handshake

/-!
# A session loses nothing and answers every echo

The answers to echo requests are put in line as the requests are processed. What goes
out are the three messages of `hal::init` and then the transactions in line. With what
was read this accounts for both directions of a session, in every run of its threads.
-/

namespace IronStack.Proof

open IronStack Lib OfMessage OwnedAutobuf NetUtils

/-! ## What was answered -/

theorem owed_less {ms : List OfMessage} (h : ∀ m ∈ ms, m.msgType ≠ Ofpt.echoRequest → owed m = []) :
    (lessHandshake ms).flatMap owed = ms.flatMap owed := by
  have herase : ∀ ms : List OfMessage, (∀ m ∈ ms, m.msgType ≠ Ofpt.echoRequest → owed m = []) →
      (ms.eraseP fun m => m.msgType == Ofpt.echoReply).flatMap owed = ms.flatMap owed := by
    intro ms h
    induction ms with
    | nil => rfl
    | cons m ms ih =>
        obtain ⟨hm, hms⟩ := List.forall_mem_cons.mp h
        by_cases hreply : m.msgType = Ofpt.echoReply
        · have hnone := hm (by rw [hreply]; decide)
          rw [List.eraseP_cons_of_pos (by simp [hreply]), List.flatMap_cons, hnone, List.nil_append]
        · rw [List.eraseP_cons_of_neg (by simp [hreply]), List.flatMap_cons, List.flatMap_cons, ih hms]
  induction ms with
  | nil => rfl
  | cons m ms ih =>
      obtain ⟨hm, hms⟩ := List.forall_mem_cons.mp h
      rw [lessHandshake]
      split
      · rename_i hhello
        have hnone := hm (by rw [hhello]; decide)
        rw [herase ms hms, List.flatMap_cons, hnone, List.nil_append]
      · rw [List.flatMap_cons, List.flatMap_cons, ih hms]

theorem echoReplyMessage_spec {xid : UInt32} {data : Bytes} {reply : SerializedMessage}
    (h : echoReplyMessage? xid data = some reply) :
    reply.message.isEchoReply = true ∧
      reply.bytes = messageHeader 1 Ofpt.echoReply (8 + data.length) xid ++ data := by
  unfold echoReplyMessage? at h
  split at h
  · cases h
  · rename_i bytes hbytes
    split at h
    · rename_i hdata
      cases h
      exact ⟨rfl, (serializeEcho_eq_ok hdata hbytes).1⟩
    · cases h

theorem exists_echoReplyMessage {data : Bytes} (h : 8 + data.length < 2 ^ 16) (xid : UInt32) :
    ∃ reply, echoReplyMessage? xid data = some reply := by
  have hbytes : ∃ bytes, serializeEcho 1 Ofpt.echoReply xid data = .ok bytes := by
    have hmod : (8 + data.length) % 2 ^ 32 = 8 + data.length := Nat.mod_eq_of_lt (by omega)
    unfold serializeEcho
    dsimp only
    rw [hmod, if_neg (by omega)]
    split
    · rw [ptrOffsetMutable_of_lt (by omega) (by omega)]
      exact ⟨_, rfl⟩
    · exact ⟨_, rfl⟩
  obtain ⟨bytes, hbytes⟩ := hbytes
  unfold echoReplyMessage?
  split
  · rename_i heq
    rw [hbytes] at heq
    cases heq
  · rw [dif_pos (by omega)]
    exact ⟨_, rfl⟩

theorem mem_of_mem_lessHandshake {ms : List OfMessage} {m : OfMessage} (h : m ∈ lessHandshake ms) :
    m ∈ ms := by
  induction ms with
  | nil => exact h
  | cons first ms ih =>
      rw [lessHandshake] at h
      split at h
      · exact List.mem_cons_of_mem _ (List.mem_of_mem_eraseP h)
      · rcases List.mem_cons.mp h with rfl | h
        · exact List.mem_cons_self
        · exact List.mem_cons_of_mem _ (ih h)

/-- The replies that were put in line. -/
def repliesIn (s : HalSession) : List Bytes :=
  (s.enqueued.filter fun m => m.message.isEchoReply).map SerializedMessage.bytes

/-! ### What a step leaves as it is -/

/-- Nothing is put in line, and nothing of it is sent or processed. -/
structure Reading (s s' : HalSession) : Prop where
  enqueued : s'.enqueued = s.enqueued
  processed : s'.processed = s.processed
  pending : s'.pendingTransactions = s.pendingTransactions
  sending : s'.sending = s.sending
  sent : s'.sent = s.sent
  output : s'.output = s.output
  sendLoopEnded : s'.sendLoopEnded = s.sendLoopEnded

theorem reading_take (s : HalSession) (m : OfMessage) : Reading s (s.take m) := by
  unfold HalSession.take
  split
  · split
    · exact ⟨rfl, rfl, rfl, rfl, rfl, rfl, rfl⟩
    · exact ⟨rfl, rfl, rfl, rfl, rfl, rfl, rfl⟩
  · split
    · exact ⟨rfl, rfl, rfl, rfl, rfl, rfl, rfl⟩
    · exact ⟨rfl, rfl, rfl, rfl, rfl, rfl, rfl⟩
  · exact ⟨rfl, rfl, rfl, rfl, rfl, rfl, rfl⟩

theorem reading_receiveNone (s : HalSession) : Reading s s.receiveNone := by
  unfold HalSession.receiveNone
  split
  · exact ⟨rfl, rfl, rfl, rfl, rfl, rfl, rfl⟩
  · exact ⟨rfl, rfl, rfl, rfl, rfl, rfl, rfl⟩

theorem reading_receive {s s' : HalSession} {junk : Nat → UInt8} (h : s.receive junk = some s') :
    Reading s s' := by
  unfold HalSession.receive at h
  split at h
  · dsimp only at h
    split at h
    · cases h
    · cases h
      exact { reading_receiveNone _ with }
    · cases h
      exact { reading_take _ _ with }
  · cases h

/-- Nothing is put in line, or processed. -/
structure Sending (s s' : HalSession) : Prop where
  enqueued : s'.enqueued = s.enqueued
  processed : s'.processed = s.processed
  pending : s'.pendingTransactions = s.pendingTransactions

theorem sending_sendOr (s : HalSession) (outcomes : List SendOutcome) (m : SerializedMessage)
    (next : SessionPhase) : Sending s (s.sendOr outcomes m next) := by
  unfold HalSession.sendOr
  dsimp only
  split
  · exact ⟨rfl, rfl, rfl⟩
  · exact ⟨rfl, rfl, rfl⟩

theorem sending_sendNext {s s' : HalSession} {xid : UInt32} {outcomes : List SendOutcome}
    (h : s.sendNext xid outcomes = some s') : Sending s s' := by
  unfold HalSession.sendNext at h
  split at h
  · cases h
    exact sending_sendOr ..
  · cases h
    exact sending_sendOr ..
  · cases h
    exact sending_sendOr ..
  · cases h

theorem sending_send {s s' : HalSession} {outcomes : List SendOutcome} (h : s.send outcomes = some s') :
    Sending s s' := by
  unfold HalSession.send at h
  split at h
  · cases h
  · obtain ⟨m, _, rfl⟩ := Option.map_eq_some_iff.mp h
    dsimp only
    split
    · exact ⟨rfl, rfl, rfl⟩
    · exact ⟨rfl, rfl, rfl⟩

/-- **A reply is put in line as its request is processed, and at no other time.** -/
theorem repliesIn_step {s s' : HalSession} {i : SessionInput} (h : repliesIn s = s.processed.flatMap owed)
    (hstep : s.step i = some s') : repliesIn s' = s'.processed.flatMap owed := by
  cases i with
  | sendNext xid outcomes =>
      have hsending := sending_sendNext hstep
      rw [repliesIn, hsending.enqueued, hsending.processed]
      exact h
  | receive junk =>
      have hreading := reading_receive hstep
      rw [repliesIn, hreading.enqueued, hreading.processed]
      exact h
  | enqueue m =>
      simp only [HalSession.step] at hstep
      split at hstep
      · cases hstep
      · rename_i hm
        cases hstep
        have hone : [m].filter (fun m : SerializedMessage => m.message.isEchoReply) = [] := by simp [hm]
        rw [repliesIn, HalSession.enqueue]
        dsimp only
        rw [List.filter_append, hone, List.append_nil]
        exact h
  | dequeue =>
      simp only [HalSession.step, HalSession.dequeue] at hstep
      split at hstep
      · cases hstep
        exact h
      · cases hstep
  | send outcomes =>
      have hsending := sending_send hstep
      rw [repliesIn, hsending.enqueued, hsending.processed]
      exact h
  | process =>
      simp only [HalSession.step, HalSession.process] at hstep
      split at hstep
      · rename_i m later _ _
        split at hstep
        · rename_i header data
          obtain ⟨reply, hreply, rfl⟩ := Option.map_eq_some_iff.mp hstep
          obtain ⟨hkind, hbytes⟩ := echoReplyMessage_spec hreply
          have hone : [reply].filter (fun m : SerializedMessage => m.message.isEchoReply) = [reply] := by
            simp [hkind]
          rw [repliesIn, HalSession.enqueue]
          dsimp only
          rw [List.filter_append, hone, List.map_append, List.map_singleton, hbytes, List.flatMap_append, ← h]
          rfl
        · rename_i hother
          cases hstep
          have hnone : owed m = [] := by
            cases m with
            | echoRequest header data => exact absurd rfl (hother header data)
            | _ => rfl
          rw [List.flatMap_append, List.flatMap_singleton, hnone, List.append_nil]
          exact h
      · cases hstep

theorem repliesIn_run {connection : Tcp} {ts : List (Transition HalSession SessionInput)} {s : HalSession}
    (hrun : Run HalSession.step (accepted connection) ts s) :
    repliesIn s = s.processed.flatMap owed := by
  induction hrun with
  | nil => rfl
  | snoc _ hstep ih => exact repliesIn_step ih hstep

/-! ## What was sent -/

/-- The messages of `hal::init`, with the numbers that were reserved for them. -/
def handshakeMessages (x y z : UInt32) : List SerializedMessage :=
  [helloMessage x, setConfigMessage y, echoRequestMessage z]

/-- How many of them were sent when `hal::init` is at some place. -/
def sentBy : SessionPhase → Nat
  | .sayHello => 0
  | .awaitHello | .configure => 1
  | .requestEcho => 2
  | .awaitEcho | .running | .failed => 3

/-- What went out is made of the messages that were sent, and the beginning of one that was not. -/
inductive Output (s : HalSession) : Prop where
  | whole (h : s.output = (s.sent.map SerializedMessage.bytes).flatten)
  | broken {m : SerializedMessage} {tail rest : Bytes}
      (h : s.output = (s.sent.map SerializedMessage.bytes).flatten ++ tail)
      (hm : m.bytes = tail ++ rest) (hrest : rest ≠ []) (hover : s.phase = .failed ∨ s.sendLoopEnded = true)

/-- What a session has sent, and what it has in line. -/
structure InLine (x y z : UInt32) (s : HalSession) (n : Nat) : Prop where
  handshake : n ≤ sentBy s.phase
  count : s.phase ≠ .failed → n = sentBy s.phase
  line : s.sent ++ s.sending.toList ++ s.pendingTransactions =
    (handshakeMessages x y z).take n ++ s.enqueued
  /-- Before the threads are started only the handshake is sent. -/
  before : s.phase ≠ .running →
    s.sent = (handshakeMessages x y z).take n ∧ s.sending = none ∧ s.sendLoopEnded = false
  output : Output s

/-- Where a turn of a receiving loop may lead. -/
structure PhaseStep (s s' : HalSession) : Prop where
  running : s.phase = .running → s'.phase = .running
  sentBy_eq : s'.phase ≠ .failed → sentBy s'.phase = sentBy s.phase
  sentBy_le : sentBy s.phase ≤ sentBy s'.phase
  receiving : s.phase ≠ .failed

theorem phase_take {s : HalSession} (hreceiving : s.receiving = true) (m : OfMessage) :
    PhaseStep s (s.take m) := by
  have hfailed := (receiving_ne hreceiving).1
  cases hphase : s.phase with
  | awaitHello =>
      rw [hphase] at hfailed
      simp only [HalSession.take, hphase]
      split
      · exact ⟨by simp [hphase], by simp [hphase, sentBy], by simp [hphase, sentBy], by rwa [hphase]⟩
      · exact ⟨by simp [hphase], by simp [HalSession.keep, hphase], by simp [HalSession.keep, hphase],
          by rwa [hphase]⟩
  | awaitEcho =>
      rw [hphase] at hfailed
      simp only [HalSession.take, hphase]
      split
      · exact ⟨by simp, by simp [hphase, sentBy], by simp [hphase, sentBy], by rwa [hphase]⟩
      · exact ⟨by simp [hphase], by simp [HalSession.keep, hphase], by simp [HalSession.keep, hphase],
          by rwa [hphase]⟩
  | running =>
      simp only [HalSession.take, hphase]
      exact ⟨fun _ => hphase, fun _ => rfl, Nat.le_refl _, hfailed⟩
  | _ => simp [HalSession.receiving, hphase] at hreceiving

theorem phase_receiveNone {s : HalSession} (hreceiving : s.receiving = true) :
    PhaseStep s s.receiveNone := by
  have hfailed := (receiving_ne hreceiving).1
  have hle : sentBy s.phase ≤ 3 := by
    cases s.phase <;> simp [sentBy]
  unfold HalSession.receiveNone
  split
  · exact ⟨fun h => h, fun _ => rfl, Nat.le_refl _, hfailed⟩
  · rename_i hrunning
    exact ⟨fun h => absurd h hrunning, fun h => absurd rfl h, hle, hfailed⟩

theorem phase_receive {s s' : HalSession} {junk : Nat → UInt8} (h : s.receive junk = some s') :
    PhaseStep s s' := by
  unfold HalSession.receive at h
  split at h
  · rename_i hreceiving
    dsimp only at h
    generalize getNextOpenflowMessage junk s.connection s.socketBuf = call at h
    have hnone := phase_receiveNone
      (s := { s with connection := call.connection, socketBuf := call.buf }) hreceiving
    have htake := phase_take
      (s := { s with connection := call.connection, socketBuf := call.buf }) hreceiving
    split at h
    · cases h
    · cases h
      exact { hnone with }
    · rename_i m _
      cases h
      exact { htake m with }
  · cases h

/-- Reading changes nothing of what was sent. -/
theorem Output.reading {s s' : HalSession} (h : Output s) (hsent : s'.sent = s.sent)
    (houtput : s'.output = s.output) (hended : s'.sendLoopEnded = s.sendLoopEnded)
    (hfailed : s.phase = .failed → s'.phase = .failed) : Output s' := by
  cases h with
  | whole h => exact .whole (by rw [houtput, hsent, h])
  | broken h hm hrest hover =>
      refine .broken (by rw [houtput, hsent, h]) hm hrest ?_
      rcases hover with hover | hover
      · exact .inl (hfailed hover)
      · exact .inr (hended.trans hover)

theorem InLine.receive {x y z : UInt32} {s s' : HalSession} {n : Nat} (h : InLine x y z s n)
    {junk : Nat → UInt8} (hstep : s.receive junk = some s') : InLine x y z s' n := by
  have hreading := reading_receive hstep
  have hphase := phase_receive hstep
  exact {
    handshake := Nat.le_trans h.handshake hphase.sentBy_le
    count := fun hf => (h.count hphase.receiving).trans (hphase.sentBy_eq hf).symm
    line := by
      rw [hreading.sent, hreading.sending, hreading.pending, hreading.enqueued]
      exact h.line
    before := fun hr => by
      rw [hreading.sent, hreading.sending, hreading.sendLoopEnded]
      exact h.before fun hrunning => hr (hphase.running hrunning)
    output := h.output.reading hreading.sent hreading.output hreading.sendLoopEnded
      fun hf => absurd hf hphase.receiving }

/-- As long as nothing has failed, only whole messages went out. -/
theorem Output.whole_of {s : HalSession} (h : Output s) (hfailed : s.phase ≠ .failed)
    (hended : s.sendLoopEnded = false) : s.output = (s.sent.map SerializedMessage.bytes).flatten := by
  cases h with
  | whole h => exact h
  | broken _ _ _ hover =>
      rcases hover with hover | hover
      · exact absurd hover hfailed
      · rw [hended] at hover
        cases hover

/-- The next message of `hal::init` goes out, or it gives up. -/
theorem InLine.sendOr {x y z : UInt32} {s : HalSession} {n : Nat} (h : InLine x y z s n)
    (x' y' z' : UInt32) {outcomes : List SendOutcome} {m : SerializedMessage} {next : SessionPhase}
    (hrunning : s.phase ≠ .running) (hfailed : s.phase ≠ .failed)
    (hnext : sentBy next = sentBy s.phase + 1)
    (hline : (handshakeMessages x' y' z').take (n + 1) = (handshakeMessages x y z).take n ++ [m]) :
    ∃ x y z n, InLine x y z (s.sendOr outcomes m next) n := by
  obtain ⟨hsent, hsending, hended⟩ := h.before hrunning
  have houtput := h.output.whole_of hfailed hended
  have hpending : s.pendingTransactions = s.enqueued := by
    have hl := h.line
    rw [hsending, hsent, Option.toList_none, List.append_nil] at hl
    exact List.append_cancel_left hl
  have hcount := h.count hfailed
  rcases session_sendRaw_spec s outcomes m with ⟨hraw, _⟩ | ⟨tail, rest, connection, hraw, hm, hrest, _⟩
  · refine ⟨x', y', z', n + 1, ?_⟩
    rw [HalSession.sendOr, hraw]
    exact {
      handshake := by
        change n + 1 ≤ sentBy next
        omega
      count := fun _ => by
        change n + 1 = sentBy next
        omega
      line := by
        change s.sent ++ [m] ++ s.sending.toList ++ s.pendingTransactions = _
        rw [hsending, hline, hsent, hpending, Option.toList_none, List.append_nil]
        rfl
      before := fun _ => ⟨by rw [hline, ← hsent]; rfl, hsending, hended⟩
      output := .whole (by
        change s.output ++ m.bytes = ((s.sent ++ [m]).map SerializedMessage.bytes).flatten
        rw [houtput, List.map_append, List.flatten_append]
        simp) }
  · refine ⟨x, y, z, n, ?_⟩
    rw [HalSession.sendOr, hraw]
    have hle : n ≤ 3 := by
      have hle := h.handshake
      have hbound : sentBy s.phase ≤ 3 := by cases s.phase <;> simp [sentBy]
      omega
    exact {
      handshake := hle
      count := fun hf => absurd rfl hf
      line := h.line
      before := fun _ => ⟨hsent, hsending, hended⟩
      output := .broken (by
        change s.output ++ tail = _
        rw [houtput]
        rfl) hm hrest (.inl rfl) }

/-- The send loop sends what it dequeued, or ends. -/
theorem InLine.send {x y z : UInt32} {s s' : HalSession} {n : Nat} (h : InLine x y z s n)
    {outcomes : List SendOutcome} (hstep : s.send outcomes = some s') : InLine x y z s' n := by
  unfold HalSession.send at hstep
  split at hstep
  · cases hstep
  · rename_i hopen
    have hended : s.sendLoopEnded = false := by simpa using hopen
    obtain ⟨m, hsending, heq⟩ := Option.map_eq_some_iff.mp hstep
    have hrunning : s.phase = .running := by
      by_contra hne
      have hidle := (h.before hne).2.1
      rw [hsending] at hidle
      cases hidle
    have houtput := h.output.whole_of (by rw [hrunning]; simp) hended
    have hline := h.line
    rw [hsending] at hline
    dsimp only at heq
    rcases session_sendRaw_spec s outcomes m with ⟨hraw, _⟩ | ⟨tail, rest, later, hraw, hm, hrest, _⟩
    · rw [hraw] at heq
      subst heq
      exact {
        handshake := h.handshake
        count := h.count
        line := by
          change s.sent ++ [m] ++ [] ++ s.pendingTransactions = _
          rw [List.append_nil]
          exact hline
        before := fun hr => absurd hrunning hr
        output := .whole (by
          change s.output ++ m.bytes = ((s.sent ++ [m]).map SerializedMessage.bytes).flatten
          rw [houtput, List.map_append, List.flatten_append]
          simp) }
    · rw [hraw] at heq
      subst heq
      exact {
        handshake := h.handshake
        count := h.count
        line := h.line
        before := fun hr => absurd hrunning hr
        output := .broken (by
          change s.output ++ tail = _
          rw [houtput]
          rfl) hm hrest (.inr rfl) }

/-- What is put in line stands behind all that was there. -/
theorem InLine.enqueue {x y z : UInt32} {s : HalSession} {n : Nat} (h : InLine x y z s n)
    (m : SerializedMessage) : InLine x y z (s.enqueue m) n where
  handshake := h.handshake
  count := h.count
  line := by
    change s.sent ++ s.sending.toList ++ (s.pendingTransactions ++ [m]) = _ ++ (s.enqueued ++ [m])
    rw [← List.append_assoc, h.line, List.append_assoc]
  before := h.before
  output := h.output.reading rfl rfl rfl fun hf => hf

theorem InLine.step {x y z : UInt32} {s s' : HalSession} {n : Nat} (h : InLine x y z s n)
    {i : SessionInput} (hstep : s.step i = some s') : ∃ x y z n, InLine x y z s' n := by
  cases i with
  | sendNext xid outcomes =>
      change s.sendNext xid outcomes = some s' at hstep
      have hcount := h.count
      unfold HalSession.sendNext at hstep
      split at hstep
      · rename_i hphase
        rw [hphase] at hcount
        obtain rfl : n = 0 := hcount (by simp)
        cases hstep
        exact h.sendOr xid y z (by rw [hphase]; simp) (by rw [hphase]; simp)
          (by rw [hphase]; rfl) rfl
      · rename_i hphase
        rw [hphase] at hcount
        obtain rfl : n = 1 := hcount (by simp)
        cases hstep
        exact h.sendOr x xid z (by rw [hphase]; simp) (by rw [hphase]; simp)
          (by rw [hphase]; rfl) rfl
      · rename_i hphase
        rw [hphase] at hcount
        obtain rfl : n = 2 := hcount (by simp)
        cases hstep
        exact h.sendOr x y xid (by rw [hphase]; simp) (by rw [hphase]; simp)
          (by rw [hphase]; rfl) rfl
      · cases hstep
  | receive junk => exact ⟨x, y, z, n, h.receive hstep⟩
  | enqueue m =>
      simp only [HalSession.step] at hstep
      split at hstep
      · cases hstep
      · cases hstep
        exact ⟨x, y, z, n, h.enqueue m⟩
  | dequeue =>
      simp only [HalSession.step, HalSession.dequeue] at hstep
      split at hstep
      · rename_i m later hphase hsending hpending
        cases hstep
        refine ⟨x, y, z, n, h.handshake, h.count, ?_, fun hr => absurd hphase hr,
          h.output.reading rfl rfl rfl fun hf => hf⟩
        rw [← h.line, hsending, hpending]
        simp
      · cases hstep
  | send outcomes => exact ⟨x, y, z, n, h.send hstep⟩
  | process =>
      refine ⟨x, y, z, n, ?_⟩
      simp only [HalSession.step, HalSession.process] at hstep
      split at hstep
      · rename_i m later hphase hqueue
        have hnext : InLine x y z
            { s with asynchronousMessages := later, processed := s.processed ++ [m] } n :=
          ⟨h.handshake, h.count, h.line, h.before, h.output.reading rfl rfl rfl fun hf => hf⟩
        split at hstep
        · obtain ⟨reply, _, rfl⟩ := Option.map_eq_some_iff.mp hstep
          exact hnext.enqueue reply
        · cases hstep
          exact hnext
      · cases hstep

theorem sends_run {connection : Tcp} {ts : List (Transition HalSession SessionInput)} {s : HalSession}
    (hrun : Run HalSession.step (accepted connection) ts s) : ∃ x y z n, InLine x y z s n := by
  induction hrun with
  | nil => exact ⟨0, 0, 0, 0, Nat.le_refl _, fun _ => rfl, rfl, fun _ => ⟨rfl, rfl, rfl⟩, .whole rfl⟩
  | snoc _ hstep ih =>
      obtain ⟨_, _, _, _, h⟩ := ih
      exact h.step hstep

/-! ## Sessions -/

theorem Reads.whole {stream₀ : Bytes} {s : HalSession} {raw : List Bytes} {ms : List OfMessage} {rest : Bytes}
    (h : Reads stream₀ s raw ms rest) : ∀ input ∈ raw, openflow.Whole input :=
  (Framing.cuts_iff.mp h.cuts).2

/-! ### When nothing ends the program -/

/-- The next message can be read, or there is none. -/
def Readable (s : Bytes) : Prop :=
  ¬ openflow.Short s ∧ ∀ input rest, openflow.cut s = some (input, rest) → Decoded input

theorem readable_nil : Readable [] := by
  refine ⟨not_short_nil, fun input rest hcut => ?_⟩
  exact absurd (Framing.length_lt_of_cut hcut) (Nat.not_lt_zero _)

theorem cut_flatten_cons {input : Bytes} {left : List Bytes} (hwhole : openflow.Whole input) :
    openflow.cut (input :: left).flatten = some (input, left.flatten) :=
  Framing.cut_eq_some_iff.mpr ⟨rfl, hwhole⟩

theorem readable_flatten {left : List Bytes} {later : List OfMessage}
    (hwhole : ∀ input ∈ left, openflow.Whole input) (hdecodes : Decodes left later) :
    Readable left.flatten := by
  cases left with
  | nil => exact readable_nil
  | cons input left =>
      have hcut := @cut_flatten_cons input left (hwhole input List.mem_cons_self)
      refine ⟨fun hshort => ?_, fun input' rest hcut' => ?_⟩
      · rw [hshort.cut] at hcut
        cases hcut
      · rw [hcut] at hcut'
        cases hcut'
        cases later with
        | nil => simp [Decodes] at hdecodes
        | cons m later => exact ⟨_, (List.cons_eq_cons.mp hdecodes).1⟩

theorem eq_nil_of_unreadable {left : List Bytes} {later : List OfMessage}
    (hwhole : ∀ input ∈ left, openflow.Whole input) (hdecodes : Decodes left later)
    (h : Unreadable left.flatten) : left = [] := by
  cases left with
  | nil => rfl
  | cons input left =>
      have hcut := @cut_flatten_cons input left (hwhole input List.mem_cons_self)
      rcases h with hnone | ⟨m, rest, hsome, hdecode⟩
      · rw [hnone] at hcut
        cases hcut
      · rw [hsome] at hcut
        cases hcut
        cases later with
        | nil => simp [Decodes] at hdecodes
        | cons m later =>
            rw [(List.cons_eq_cons.mp hdecodes).1] at hdecode
            cases hdecode

theorem exists_read {s : HalSession} (hvalid : Valid s.socketBuf) (hreceiving : s.receiving = true)
    (h : Readable (stream s.connection)) (junk : Nat → UInt8) : ∃ s', s.step (.receive junk) = some s' := by
  have hspec := getNext_spec junk s.connection hvalid
  simp only [HalSession.step, HalSession.receive]
  rw [if_pos hreceiving]
  generalize getNextOpenflowMessage junk s.connection s.socketBuf = call at hspec
  have hreturned : ∃ m, call.returned = .ok m := by
    cases hspec with
    | message hcut hreturned _ _ =>
        obtain ⟨m, hm⟩ := h.2 _ _ hcut
        exact ⟨m, hreturned.trans hm⟩
    | ended _ hreturned _ _ => exact ⟨none, hreturned⟩
    | aborted hshort _ => exact absurd hshort h.1
  obtain ⟨m, hm⟩ := hreturned
  rw [hm]
  cases m with
  | none => exact ⟨_, rfl⟩
  | some m => exact ⟨_, rfl⟩

/-- An echo request that was read is small enough to be answered. -/
theorem exists_process {stream₀ : Bytes} {s : HalSession} {raw : List Bytes} {ms : List OfMessage}
    {rest : Bytes} (h : Reads stream₀ s raw ms rest) (hrunning : s.phase = .running)
    (hqueue : s.asynchronousMessages ≠ []) : ∃ s', s.step .process = some s' := by
  have hkept := h.kept
  simp only [HalSession.step, HalSession.process]
  cases hq : s.asynchronousMessages with
  | nil => exact absurd hq hqueue
  | cons m later =>
      rw [hrunning]
      dsimp only
      split
      · rename_i header data
        have hmem : OfMessage.echoRequest header data ∈ ms := by
          refine mem_of_mem_lessHandshake ?_
          rw [← hkept, hq]
          exact List.mem_append_right _ List.mem_cons_self
        obtain ⟨input, hinput, hdecode⟩ := h.decodes.exists_input hmem
        obtain ⟨_, hsize⟩ := data_of_whole (h.whole input hinput) hdecode
        have hlt := UInt16.toNat_lt header.msgSize
        obtain ⟨reply, hreply⟩ := @exists_echoReplyMessage data (by omega) header.xid
        rw [hreply]
        exact ⟨_, rfl⟩
      · exact ⟨_, rfl⟩

/-! ### A switch that asks for an echo before it says hello -/

def echoFirst : Tcp where
  connected := true
  arrivals := [.data 1 [2, 0, 10, 0, 0, 0, 5, 7], .interrupted, .data 7 [1, 0, 0, 8, 0, 0, 0, 0]]

def echoFirstMessages : List Bytes := [[1, 2, 0, 10, 0, 0, 0, 5, 7, 7], [1, 0, 0, 8, 0, 0, 0, 0]]

def echoFirstDecoded : List OfMessage :=
  [.echoRequest ⟨1, 2, 10, 5⟩ [7, 7], .hello ⟨1, 0, 8, 0⟩]

theorem echoFirst_whole : ∀ input ∈ echoFirstMessages, openflow.Whole input := by
  intro input hinput
  rcases List.mem_cons.mp hinput with rfl | hinput
  · exact ⟨by decide, by decide⟩
  · obtain rfl := List.mem_singleton.mp hinput
    exact ⟨by decide, by decide⟩

theorem echoFirst_decodes : Decodes echoFirstMessages echoFirstDecoded := rfl

theorem stream_echoFirst : stream echoFirst = echoFirstMessages.flatten := rfl

/-- It is greeted, and its echo request is read. -/
theorem echoFirst_run : ∃ ts s, Run HalSession.step (accepted echoFirst) ts s ∧ ts.length = 2 := by
  have hgreet : ∃ s, (accepted echoFirst).step (.sendNext 1 [.bytes 3, .bytes 8]) = some s ∧
      s.receiving = true ∧ s.connection = echoFirst ∧ s.socketBuf = {} := ⟨_, rfl, rfl, rfl, rfl⟩
  obtain ⟨s, hs, hreceiving, hconn, hbuf⟩ := hgreet
  have hreadable : Readable (stream s.connection) := by
    rw [hconn, stream_echoFirst]
    exact readable_flatten echoFirst_whole echoFirst_decodes
  obtain ⟨s', hs'⟩ := exists_read (hbuf ▸ valid_fresh) hreceiving hreadable fun _ => 0
  exact ⟨_, s', .snoc (.snoc .nil hs) hs', rfl⟩

/--
**Every echo request is answered once, in order and byte for byte.** The echo replies
that were put in line, and behind them those that are owed for messages that wait, are
the echo requests that were read, each as version 1 and as a reply.
-/
theorem echoes_answered {connection : Tcp} {ts : List (Transition HalSession SessionInput)}
    {s : HalSession} (hrun : Run HalSession.step (accepted connection) ts s) :
    ∃ raw rest, openflow.Cuts (stream connection) raw rest ∧
      repliesIn s ++ s.asynchronousMessages.flatMap owed = (raw.filter isEchoRequest).map answerTo := by
  obtain ⟨raw, ms, rest, h⟩ := reads_run hrun
  refine ⟨raw, rest, h.cuts, ?_⟩
  have hother : ∀ m ∈ ms, m.msgType ≠ Ofpt.echoRequest → owed m = [] := by
    intro m hm htype
    obtain ⟨input, hinput, hdecode⟩ := h.decodes.exists_input hm
    rw [owed_decoded (h.whole input hinput) hdecode, if_neg htype]
  rw [repliesIn_run hrun, ← List.flatMap_append, h.kept, owed_less hother,
    owed_of_decodes h.decodes h.whole]

theorem echoFirst_answered : ∃ ts s, Run HalSession.step (accepted echoFirst) ts s ∧ ts.length = 2 ∧
    ∃ raw rest, openflow.Cuts (stream echoFirst) raw rest ∧
      repliesIn s ++ s.asynchronousMessages.flatMap owed = (raw.filter isEchoRequest).map answerTo := by
  obtain ⟨ts, s, hrun, hlen⟩ := echoFirst_run
  exact ⟨ts, s, hrun, hlen, echoes_answered hrun⟩

/--
**What goes out is what was put in line, and can be told apart below 64 KiB.** In every
run the messages that went out, the one that is being sent and those in line are the
messages of the handshake and then all that was put in line, in order. The bytes that
went out are these messages and perhaps the beginning of the next. Cut by the headers
they give back the messages exactly if each is smaller than 64 KiB.
-/
theorem sent_in_line {connection : Tcp} {ts : List (Transition HalSession SessionInput)}
    {s : HalSession} (hrun : Run HalSession.step (accepted connection) ts s) :
    ∃ x y z n tail, (s.phase = .running → n = 3) ∧
      s.sent ++ s.sending.toList ++ s.pendingTransactions =
        (handshakeMessages x y z).take n ++ s.enqueued ∧
      s.output = (s.sent.map SerializedMessage.bytes).flatten ++ tail ∧
      (tail ≠ [] → ∃ (m : SerializedMessage) (rest : Bytes), m.bytes = tail ++ rest ∧ rest ≠ []) ∧
      (openflow.Cuts s.output (s.sent.map SerializedMessage.bytes) tail ↔
        ∀ m ∈ s.sent, m.bytes.length < 2 ^ 16) := by
  obtain ⟨x, y, z, n, h⟩ := sends_run hrun
  have hcuts : ∀ tail, s.output = (s.sent.map SerializedMessage.bytes).flatten ++ tail →
      (openflow.Cuts s.output (s.sent.map SerializedMessage.bytes) tail ↔
        ∀ m ∈ s.sent, m.bytes.length < 2 ^ 16) := by
    intro tail htail
    rw [htail]
    exact cuts_sent_iff s.sent tail
  have hcount : s.phase = .running → n = 3 := fun hp => by
    rw [h.count (by rw [hp]; simp), hp]
    rfl
  cases h.output with
  | whole houtput =>
      have htail : s.output = (s.sent.map SerializedMessage.bytes).flatten ++ [] := by
        rw [houtput, List.append_nil]
      exact ⟨x, y, z, n, [], hcount, h.line, htail, fun hne => absurd rfl hne, hcuts [] htail⟩
  | @broken m tail rest houtput hm hrest _ =>
      exact ⟨x, y, z, n, tail, hcount, h.line, houtput, fun _ => ⟨m, rest, hm, hrest⟩, hcuts tail houtput⟩

theorem echoFirst_sent_in_line : ∃ ts s, Run HalSession.step (accepted echoFirst) ts s ∧ ts.length = 2 ∧
    ∃ x y z n tail, (s.phase = .running → n = 3) ∧
      s.sent ++ s.sending.toList ++ s.pendingTransactions =
        (handshakeMessages x y z).take n ++ s.enqueued ∧
      s.output = (s.sent.map SerializedMessage.bytes).flatten ++ tail ∧
      (tail ≠ [] → ∃ (m : SerializedMessage) (rest : Bytes), m.bytes = tail ++ rest ∧ rest ≠ []) ∧
      (openflow.Cuts s.output (s.sent.map SerializedMessage.bytes) tail ↔
        ∀ m ∈ s.sent, m.bytes.length < 2 ^ 16) := by
  obtain ⟨ts, s, hrun, hlen⟩ := echoFirst_run
  exact ⟨ts, s, hrun, hlen, sent_in_line hrun⟩

/--
**A stream of messages that are recognised is delivered.** If the switch sends whole
messages, each of which the factory recognises, then no message ends the program when
it is read, or when it is answered, and when the receive loop ends, all of them have been
kept, less the handshake, unless a send has failed before.
-/
theorem all_messages_kept {connection : Tcp} {raw : List Bytes} {ms : List OfMessage}
    (hstream : stream connection = raw.flatten) (hwhole : ∀ input ∈ raw, openflow.Whole input)
    (hdecodes : Decodes raw ms) {ts : List (Transition HalSession SessionInput)} {s : HalSession}
    (hrun : Run HalSession.step (accepted connection) ts s) :
    (s.receiving = true → ∀ junk, ∃ s', s.step (.receive junk) = some s') ∧
      (s.phase = .running → s.asynchronousMessages ≠ [] → ∃ s', s.step .process = some s') ∧
      (s.recvLoopEnded = true → s.sendLoopEnded = false →
        s.processed ++ s.asynchronousMessages = lessHandshake ms) := by
  obtain ⟨raw', ms', rest, h⟩ := reads_run hrun
  obtain ⟨left, rfl, hrest⟩ := h.cuts.rest_of_flatten hstream hwhole
  obtain ⟨later, rfl, hlater⟩ := hdecodes.of_append h.decodes
  have hleft : ∀ input ∈ left, openflow.Whole input :=
    fun input hinput => hwhole input (List.mem_append_right _ hinput)
  refine ⟨fun hreceiving junk => ?_, fun hrunning hqueue => ?_, fun hr hs => ?_⟩
  · obtain ⟨hfailed, hopen⟩ := receiving_ne hreceiving
    have hended : s.recvLoopEnded = false := by
      by_cases hphase : s.phase = .running
      · exact hopen hphase
      · exact (h.idle hphase).1
    have hreadable : Readable (stream s.connection) := by
      rcases h.unread hended hfailed with hunread | ⟨_, hunread⟩
      · rw [hunread, hrest]
        exact readable_flatten hleft hlater
      · rw [hunread]
        exact readable_nil
    exact exists_read h.valid hreceiving hreadable junk
  · exact exists_process h hrunning hqueue
  · have hunreadable : Unreadable rest := by
      rcases h.ended hr with hended | hended
      · exact hended
      · rw [hs] at hended
        cases hended
    obtain rfl := eq_nil_of_unreadable hleft hlater (hrest ▸ hunreadable)
    obtain rfl : later = [] := by simpa [Decodes] using hlater.symm
    rw [List.append_nil]
    exact h.kept

theorem echoFirst_all_kept : ∃ ts s, Run HalSession.step (accepted echoFirst) ts s ∧ ts.length = 2 ∧
    (s.receiving = true → ∀ junk, ∃ s', s.step (.receive junk) = some s') ∧
      (s.phase = .running → s.asynchronousMessages ≠ [] → ∃ s', s.step .process = some s') ∧
      (s.recvLoopEnded = true → s.sendLoopEnded = false →
        s.processed ++ s.asynchronousMessages = lessHandshake echoFirstDecoded) := by
  obtain ⟨ts, s, hrun, hlen⟩ := echoFirst_run
  exact ⟨ts, s, hrun, hlen, all_messages_kept stream_echoFirst echoFirst_whole echoFirst_decodes hrun⟩

end IronStack.Proof

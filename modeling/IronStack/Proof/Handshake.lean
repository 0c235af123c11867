import IronStack.Lib.Machine
import IronStack.Proof.MessageClasses

/-!
# What a session reads

Whatever pieces the streams between the HAL and its switch come in, and in whatever
order its threads get on: the messages that are processed or wait for it are those of
the switch, in order, less the hello and the echo reply that `hal::init` waits for.
A turn of a receiving loop takes the next message of the stream, or none; nothing else
that the HAL does changes what was read.
-/

namespace IronStack.Proof

open IronStack Lib OfMessage OwnedAutobuf NetUtils

/-! ## `tcp::send_raw` -/

/-- What went out is the beginning of what was to go out, all of it exactly if the loop succeeds. -/
theorem sendLoop_spec (outcomes : List SendOutcome) (payload : Bytes) :
    ∃ rest, payload = (Tcp.sendLoop outcomes payload).2 ++ rest ∧
      ((Tcp.sendLoop outcomes payload).1 = true ↔ rest = []) := by
  induction outcomes generalizing payload with
  | nil => exact ⟨payload, rfl, List.isEmpty_iff⟩
  | cons outcome outcomes ih =>
      by_cases hempty : payload.isEmpty = true
      · have hnil := List.isEmpty_iff.mp hempty
        rw [Tcp.sendLoop.eq_def]
        dsimp only
        rw [if_pos hempty]
        exact ⟨[], by rw [hnil]; rfl, iff_of_true rfl rfl⟩
      · have hne : payload ≠ [] := fun h => hempty (List.isEmpty_iff.mpr h)
        rw [Tcp.sendLoop.eq_def]
        dsimp only
        rw [if_neg hempty]
        cases outcome with
        | interrupted => exact ih payload
        | failed => exact ⟨payload, rfl, iff_of_false (by simp) hne⟩
        | bytes n =>
            dsimp only
            by_cases htaken : ((payload.take 1024).take n).isEmpty = true
            · rw [if_pos htaken]
              exact ⟨payload, rfl, iff_of_false (by simp) hne⟩
            · rw [if_neg htaken]
              obtain ⟨rest, hrest, hall⟩ := ih (payload.drop ((payload.take 1024).take n).length)
              have htake : (payload.take 1024).take n =
                  payload.take ((payload.take 1024).take n).length := by
                rw [List.take_take]
                simp
              refine ⟨rest, ?_, hall⟩
              dsimp only
              rw [List.append_assoc, ← hrest]
              conv_lhs => rw [← List.take_append_drop ((payload.take 1024).take n).length payload]
              rw [← htake]

/-- What `send_raw` may come to. -/
inductive SendStep (connection : Tcp) (payload : Bytes) : Bool → Bytes → Tcp → Prop where
  | whole (hconn : connection.connected = true) : SendStep connection payload true payload connection
  | broken {out rest : Bytes} {later : Tcp} (hpayload : payload = out ++ rest) (hrest : rest ≠ [])
      (hout : connection.connected = false → out = []) (hlater : later.connected = false) :
      SendStep connection payload false out later

theorem sendRaw_spec (outcomes : List SendOutcome) (connection : Tcp) {payload : Bytes} (hne : payload ≠ [])
    (hlt : payload.length < 2 ^ 31) :
    SendStep connection payload (connection.sendRaw outcomes payload).1
      (connection.sendRaw outcomes payload).2.1 (connection.sendRaw outcomes payload).2.2 := by
  unfold Tcp.sendRaw
  by_cases hconn : connection.connected = true
  · have hall : payload.take (asInt payload.length).toNat = payload := by
      rw [asInt_of_lt hlt]
      exact List.take_length
    rw [if_pos hconn, hall]
    obtain ⟨rest, hrest, hstatus⟩ := sendLoop_spec outcomes payload
    generalize Tcp.sendLoop outcomes payload = result at hrest hstatus
    obtain ⟨status, out⟩ := result
    dsimp only at hrest hstatus ⊢
    cases status with
    | true =>
        obtain rfl : rest = [] := hstatus.mp rfl
        rw [List.append_nil] at hrest
        subst hrest
        exact .whole hconn
    | false =>
        refine .broken hrest (fun h => ?_) (fun h => ?_) ?_
        · exact absurd (hstatus.mpr h) (by simp)
        · rw [hconn] at h
          cases h
        · rw [if_neg (by simp), Tcp.close, if_pos hconn]
  · rw [if_neg hconn]
    have hfalse : connection.connected = false := by simpa using hconn
    exact .broken rfl hne (fun _ => rfl) hfalse

theorem stream_of_not_connected {connection : Tcp} (h : connection.connected = false) :
    stream connection = [] := if_neg (by simp [h])

theorem bytes_ne_nil (m : SerializedMessage) : m.bytes ≠ [] := by
  intro hnil
  have hheader := (sound_serialize m.payload_lt m.serialize_eq).header
  rw [hnil] at hheader
  exact absurd hheader (by decide)

/-- A send of the session: the whole message went out, or its beginning. -/
theorem session_sendRaw_spec (s : HalSession) (outcomes : List SendOutcome) (m : SerializedMessage) :
    (s.sendRaw outcomes m = (true, { s with
        sent := s.sent ++ [m]
        output := s.output ++ m.bytes }) ∧ s.connection.connected = true) ∨
      ∃ tail rest connection, s.sendRaw outcomes m = (false, { s with
          connection := connection
          output := s.output ++ tail }) ∧
        m.bytes = tail ++ rest ∧ rest ≠ [] ∧ stream connection = [] := by
  have hspec := sendRaw_spec outcomes s.connection (bytes_ne_nil m)
    (sound_serialize m.payload_lt m.serialize_eq).small
  unfold HalSession.sendRaw
  generalize s.connection.sendRaw outcomes m.bytes = result at hspec
  obtain ⟨status, out, later⟩ := result
  dsimp only at hspec ⊢
  cases hspec with
  | whole hconn => exact .inl ⟨rfl, hconn⟩
  | broken hpayload hrest _ hlater =>
      exact .inr ⟨out, _, later, rfl, hpayload, hrest, stream_of_not_connected hlater⟩

/-! ## `get_next_openflow_message` -/

/-- What a call does with the stream that it finds. -/
inductive NextMessage (s : Bytes) (call : MessageCall) : Prop where
  | message {m rest : Bytes} (hcut : openflow.cut s = some (m, rest))
      (hreturned : call.returned = deserializeMessage m) (hvalid : Valid call.buf)
      (hstream : stream call.connection = rest)
  | ended (hcut : openflow.cut s = none) (hreturned : call.returned = .ok none) (hvalid : Valid call.buf)
      (hstream : stream call.connection = [])
  | aborted (hshort : openflow.Short s) (hreturned : call.returned = .error .aborted)

theorem getNext_spec (junk : Nat → UInt8) (connection : Tcp) {buf : OwnedAutobuf} (hbuf : Valid buf) :
    NextMessage (stream connection) (getNextOpenflowMessage junk connection buf) := by
  cases hcut : openflow.cut (stream connection) with
  | some cut =>
      obtain ⟨m, rest⟩ := cut
      obtain ⟨later, filled, hcall, hvalid, hstream⟩ := getNext_cut junk hbuf hcut
      rw [hcall]
      exact .message hcut rfl hvalid hstream
  | none =>
      by_cases hshort : openflow.Short (stream connection)
      · refine .aborted hshort ?_
        rw [getNextOpenflowMessage, receiveMessage_short junk hbuf hshort]
      · obtain ⟨later, filled, hmessage, hvalid, hstream⟩ := receiveMessage_ended junk hbuf hcut hshort
        rw [getNextOpenflowMessage, hmessage]
        exact .ended hcut rfl hvalid hstream

/-! ## Messages, less the handshake -/

/-- How far the messages that were read have taken the handshake. -/
inductive Stage where
  | greeting
  | checking
  | opened

def stageOf : List OfMessage → Stage
  | [] => .greeting
  | m :: ms =>
      if m.msgType = Ofpt.hello then
        if ms.any fun m => m.msgType == Ofpt.echoReply then .opened else .checking
      else stageOf ms

/-- All messages but the first hello, and the first echo reply behind it. -/
def lessHandshake : List OfMessage → List OfMessage
  | [] => []
  | m :: ms =>
      if m.msgType = Ofpt.hello then ms.eraseP fun m => m.msgType == Ofpt.echoReply
      else m :: lessHandshake ms

/-- What one more message does to the handshake, and whether it is kept. -/
structure Advance (ms : List OfMessage) (m : OfMessage) (stage : Stage) (kept : Bool) : Prop where
  stage_eq : stageOf (ms ++ [m]) = stage
  kept_eq : lessHandshake (ms ++ [m]) = if kept then lessHandshake ms ++ [m] else lessHandshake ms

/-- A message in front that is no hello. -/
theorem Advance.cons {ms : List OfMessage} {m : OfMessage} {stage : Stage} {kept : Bool}
    (h : Advance ms m stage kept) {first : OfMessage} (hfirst : first.msgType ≠ Ofpt.hello) :
    Advance (first :: ms) m stage kept := by
  refine ⟨?_, ?_⟩
  · rw [List.cons_append, stageOf, if_neg hfirst, h.stage_eq]
  · rw [List.cons_append, lessHandshake, if_neg hfirst, h.kept_eq, lessHandshake, if_neg hfirst]
    split
    · rfl
    · rfl

theorem advance_greeting {ms : List OfMessage} {m : OfMessage} (h : stageOf ms = .greeting) :
    (m.msgType = Ofpt.hello → Advance ms m .checking false) ∧
      (m.msgType ≠ Ofpt.hello → Advance ms m .greeting true) := by
  induction ms with
  | nil =>
      refine ⟨fun hm => ⟨?_, ?_⟩, fun hm => ⟨?_, ?_⟩⟩
      · simp [stageOf, hm]
      · simp [lessHandshake, hm]
      · simp [stageOf, hm]
      · simp [lessHandshake, hm]
  | cons first ms ih =>
      by_cases hfirst : first.msgType = Ofpt.hello
      · rw [stageOf, if_pos hfirst] at h
        split at h
        · cases h
        · cases h
      · rw [stageOf, if_neg hfirst] at h
        obtain ⟨hhello, hother⟩ := ih h
        exact ⟨fun hm => (hhello hm).cons hfirst, fun hm => (hother hm).cons hfirst⟩

theorem advance_checking {ms : List OfMessage} {m : OfMessage} (h : stageOf ms = .checking) :
    (m.msgType = Ofpt.echoReply → Advance ms m .opened false) ∧
      (m.msgType ≠ Ofpt.echoReply → Advance ms m .checking true) := by
  induction ms with
  | nil => cases h
  | cons first ms ih =>
      by_cases hfirst : first.msgType = Ofpt.hello
      · rw [stageOf, if_pos hfirst] at h
        split at h
        · cases h
        · rename_i hnone
          have hno : ∀ a ∈ ms, ¬ (a.msgType == Ofpt.echoReply) = true := by simpa using hnone
          have herase : ms.eraseP (fun m => m.msgType == Ofpt.echoReply) = ms := List.eraseP_of_forall_not hno
          refine ⟨fun hm => ⟨?_, ?_⟩, fun hm => ⟨?_, ?_⟩⟩
          · rw [List.cons_append, stageOf, if_pos hfirst, if_pos (by simp [hm])]
          · rw [List.cons_append, lessHandshake, if_pos hfirst, List.eraseP_append_right _ hno,
              List.eraseP_cons_of_pos (by simp [hm]), List.append_nil, lessHandshake, if_pos hfirst, herase]
            rfl
          · rw [List.cons_append, stageOf, if_pos hfirst, if_neg]
            simpa [hm] using hnone
          · rw [List.cons_append, lessHandshake, if_pos hfirst, List.eraseP_append_right _ hno,
              List.eraseP_cons_of_neg (by simp [hm]), lessHandshake, if_pos hfirst, herase]
            rfl
      · rw [stageOf, if_neg hfirst] at h
        obtain ⟨hreply, hother⟩ := ih h
        exact ⟨fun hm => (hreply hm).cons hfirst, fun hm => (hother hm).cons hfirst⟩

theorem advance_opened {ms : List OfMessage} (h : stageOf ms = .opened) (m : OfMessage) :
    Advance ms m .opened true := by
  induction ms with
  | nil => cases h
  | cons first ms ih =>
      by_cases hfirst : first.msgType = Ofpt.hello
      · rw [stageOf, if_pos hfirst] at h
        split at h
        · rename_i hsome
          obtain ⟨a, ha, hreply⟩ := List.any_eq_true.mp hsome
          refine ⟨?_, ?_⟩
          · rw [List.cons_append, stageOf, if_pos hfirst, List.any_append, hsome, Bool.true_or, if_pos rfl]
          · rw [List.cons_append, lessHandshake, if_pos hfirst,
              List.eraseP_append_left (p := fun m => m.msgType == Ofpt.echoReply) hreply _ ha,
              lessHandshake, if_pos hfirst]
            rfl
        · cases h
      · rw [stageOf, if_neg hfirst] at h
        exact (ih h).cons hfirst

/-! ## What was read -/

/-- The stage of the handshake that `hal::init` is in. -/
def phaseStage : SessionPhase → Option Stage
  | .sayHello | .awaitHello => some .greeting
  | .configure | .requestEcho | .awaitEcho => some .checking
  | .running => some .opened
  | .failed => none

/-- There is no next message, or none that the factory recognises. -/
def Unreadable (s : Bytes) : Prop :=
  openflow.cut s = none ∨ ∃ m rest, openflow.cut s = some (m, rest) ∧ deserializeMessage m = .ok none

/-- What a session has made of the stream that its switch sends. -/
structure Reads (stream₀ : Bytes) (s : HalSession) (raw : List Bytes) (ms : List OfMessage)
    (rest : Bytes) : Prop where
  valid : Valid s.socketBuf
  cuts : openflow.Cuts stream₀ raw rest
  decodes : Decodes raw ms
  kept : s.processed ++ s.asynchronousMessages = lessHandshake ms
  stage : ∀ stage, phaseStage s.phase = some stage → stageOf ms = stage
  /-- Whoever reads next goes on there, unless a failed send has closed the connection. -/
  unread : s.recvLoopEnded = false → s.phase ≠ .failed →
    stream s.connection = rest ∨ s.sendLoopEnded = true ∧ stream s.connection = []
  ended : s.recvLoopEnded = true → Unreadable rest ∨ s.sendLoopEnded = true
  /-- The loops begin when the handshake is over. -/
  idle : s.phase ≠ .running → s.recvLoopEnded = false ∧ s.sendLoopEnded = false ∧ s.sending = none

theorem reads_start {connection : Tcp} : Reads (stream connection) { connection := connection } [] []
    (stream connection) where
  valid := valid_fresh
  cuts := .nil _
  decodes := rfl
  kept := rfl
  stage := by
    intro stage h
    cases h
    rfl
  unread := fun _ _ => .inl rfl
  ended := by
    intro h
    cases h
  idle := fun _ => ⟨rfl, rfl, rfl⟩

section Reads

variable {stream₀ : Bytes} {s : HalSession} {raw : List Bytes} {ms : List OfMessage} {rest : Bytes}

/-- A step that changes nothing of what was read, and where it goes on. -/
theorem Reads.congr (h : Reads stream₀ s raw ms rest) {s' : HalSession} (hvalid : Valid s'.socketBuf)
    (hkept : s'.processed ++ s'.asynchronousMessages = s.processed ++ s.asynchronousMessages)
    (hstage : phaseStage s'.phase = phaseStage s.phase) (hrunning : s'.phase = .running ↔ s.phase = .running)
    (hfailed : s'.phase = .failed ↔ s.phase = .failed) (hrecv : s'.recvLoopEnded = s.recvLoopEnded)
    (hsend : s'.sendLoopEnded = s.sendLoopEnded) (hstream : stream s'.connection = stream s.connection)
    (hsending : s.phase ≠ .running → s'.sending = s.sending) : Reads stream₀ s' raw ms rest where
  valid := hvalid
  cuts := h.cuts
  decodes := h.decodes
  kept := hkept.trans h.kept
  stage := by
    rw [hstage]
    exact h.stage
  unread := by
    intro hr hf
    rw [hrecv] at hr
    rw [hsend, hstream]
    exact h.unread hr fun hp => hf (hfailed.mpr hp)
  ended := by
    rw [hrecv, hsend]
    exact h.ended
  idle := by
    intro hp
    have hp' : s.phase ≠ .running := fun h' => hp (hrunning.mpr h')
    rw [hrecv, hsend, hsending hp']
    exact h.idle hp'

/-- `hal::init` gives up. -/
theorem Reads.fail (h : Reads stream₀ s raw ms rest) (hphase : s.phase ≠ .running) {s' : HalSession}
    (hvalid : Valid s'.socketBuf)
    (hkept : s'.processed ++ s'.asynchronousMessages = s.processed ++ s.asynchronousMessages)
    (hfailed : s'.phase = .failed) (hrecv : s'.recvLoopEnded = s.recvLoopEnded)
    (hsend : s'.sendLoopEnded = s.sendLoopEnded) (hsending : s'.sending = s.sending) :
    Reads stream₀ s' raw ms rest where
  valid := hvalid
  cuts := h.cuts
  decodes := h.decodes
  kept := hkept.trans h.kept
  stage := by
    intro stage hs
    rw [hfailed] at hs
    cases hs
  unread := fun _ hp => absurd hfailed hp
  ended := by
    rw [hrecv, hsend]
    exact h.ended
  idle := by
    intro _
    rw [hrecv, hsend, hsending]
    exact h.idle hphase

/-- The three sends of `hal::init` read nothing. -/
theorem Reads.sendOr (h : Reads stream₀ s raw ms rest) {outcomes : List SendOutcome} {m : SerializedMessage}
    {next : SessionPhase} (hstage : phaseStage next = phaseStage s.phase) (hphase : s.phase ≠ .running)
    (hnext : next ≠ .running) (hfailed : s.phase ≠ .failed) (hnext' : next ≠ .failed) :
    Reads stream₀ (s.sendOr outcomes m next) raw ms rest := by
  rcases session_sendRaw_spec s outcomes m with ⟨hraw, _⟩ | ⟨tail, behind, later, hraw, _, _, _⟩
  · rw [HalSession.sendOr, hraw]
    exact h.congr h.valid rfl hstage (iff_of_false hnext hphase) (iff_of_false hnext' hfailed) rfl rfl rfl
      fun _ => rfl
  · rw [HalSession.sendOr, hraw]
    exact h.fail hphase h.valid rfl rfl rfl rfl rfl

/-- A message that is read takes the handshake on, or is kept. -/
theorem Reads.next (h : Reads stream₀ s raw ms rest) {input rest' : Bytes} {m : OfMessage}
    (hcut : openflow.cut rest = some (input, rest')) (hm : deserializeMessage input = .ok (some m))
    {stage : Stage} {kept : Bool} (hadvance : Advance ms m stage kept) {s' : HalSession}
    (hvalid : Valid s'.socketBuf) (hstream : stream s'.connection = rest')
    (hkept : s'.processed ++ s'.asynchronousMessages =
      if kept then s.processed ++ s.asynchronousMessages ++ [m] else s.processed ++ s.asynchronousMessages)
    (hstage : phaseStage s'.phase = some stage) (hended : s'.recvLoopEnded = false)
    (hidle : s'.phase ≠ .running → s'.sendLoopEnded = false ∧ s'.sending = none) :
    Reads stream₀ s' (raw ++ [input]) (ms ++ [m]) rest' where
  valid := hvalid
  cuts := h.cuts.snoc hcut
  decodes := h.decodes.snoc hm
  kept := by rw [hkept, hadvance.kept_eq, h.kept]
  stage := by
    intro stage' hs
    rw [hstage] at hs
    cases hs
    exact hadvance.stage_eq
  unread := fun _ _ => .inl hstream
  ended := by
    rw [hended]
    intro hr
    cases hr
  idle := fun hp => ⟨hended, hidle hp⟩

theorem Reads.take (h : Reads stream₀ s raw ms rest) (hreceiving : s.receiving = true) {input rest' : Bytes}
    {m : OfMessage} (hcut : openflow.cut rest = some (input, rest'))
    (hm : deserializeMessage input = .ok (some m)) {connection : Tcp} {buf : OwnedAutobuf}
    (hvalid : Valid buf) (hstream : stream connection = rest') :
    Reads stream₀ (HalSession.take { s with connection := connection, socketBuf := buf } m) (raw ++ [input])
      (ms ++ [m]) rest' := by
  have hstage := h.stage
  have hidle := h.idle
  cases hphase : s.phase with
  | awaitHello =>
      obtain ⟨hr, hs, hsending⟩ := hidle (by rw [hphase]; simp)
      obtain ⟨hhello, hother⟩ := @advance_greeting ms m (hstage _ (by rw [hphase]; rfl))
      simp only [HalSession.take]
      split
      · rename_i htype
        exact h.next hcut hm (hhello htype) hvalid hstream rfl rfl hr fun _ => ⟨hs, hsending⟩
      · rename_i htype
        exact h.next hcut hm (hother htype) hvalid hstream (List.append_assoc ..).symm rfl hr
          fun _ => ⟨hs, hsending⟩
  | awaitEcho =>
      obtain ⟨hr, hs, hsending⟩ := hidle (by rw [hphase]; simp)
      obtain ⟨hreply, hother⟩ := @advance_checking ms m (hstage _ (by rw [hphase]; rfl))
      simp only [HalSession.take]
      split
      · rename_i htype
        exact h.next hcut hm (hreply htype) valid_fresh hstream rfl rfl hr fun hp => absurd rfl hp
      · rename_i htype
        exact h.next hcut hm (hother htype) hvalid hstream (List.append_assoc ..).symm rfl hr
          fun _ => ⟨hs, hsending⟩
  | running =>
      have hr : s.recvLoopEnded = false := by simpa [HalSession.receiving, hphase] using hreceiving
      have hadvance := advance_opened (hstage _ (by rw [hphase]; rfl)) m
      simp only [HalSession.take]
      exact h.next hcut hm hadvance hvalid hstream (List.append_assoc ..).symm rfl hr
        fun hp => absurd rfl hp
  | _ => simp [HalSession.receiving, hphase] at hreceiving

/-- Nothing could be read, or nothing that is recognised. -/
theorem Reads.receiveNone (h : Reads stream₀ s raw ms rest)
    (hnone : Unreadable rest ∨ s.sendLoopEnded = true) {connection : Tcp} {buf : OwnedAutobuf}
    (hvalid : Valid buf) :
    Reads stream₀ (HalSession.receiveNone { s with connection := connection, socketBuf := buf })
      raw ms rest := by
  by_cases hphase : s.phase = .running
  · simp only [HalSession.receiveNone, hphase]
    exact {
      valid := hvalid
      cuts := h.cuts
      decodes := h.decodes
      kept := h.kept
      stage := by
        rw [← hphase]
        exact h.stage
      unread := fun hr => absurd hr (by simp)
      ended := fun _ => hnone
      idle := fun hp => absurd rfl hp }
  · have hfail : HalSession.receiveNone { s with connection := connection, socketBuf := buf } =
        HalSession.fail { s with connection := connection, socketBuf := buf } := by
      unfold HalSession.receiveNone
      split
      · rename_i hrunning
        exact absurd hrunning hphase
      · rfl
    rw [hfail]
    exact h.fail hphase hvalid rfl rfl rfl rfl rfl

theorem receiving_ne {s : HalSession} (h : s.receiving = true) :
    s.phase ≠ .failed ∧ (s.phase = .running → s.recvLoopEnded = false) := by
  refine ⟨fun hp => ?_, fun hp => ?_⟩
  · simp [HalSession.receiving, hp] at h
  · simpa [HalSession.receiving, hp] using h

/-- **A turn of a receiving loop.** It takes the next message of the switch, or nothing. -/
theorem Reads.receive (h : Reads stream₀ s raw ms rest) {junk : Nat → UInt8} {s' : HalSession}
    (hstep : s.receive junk = some s') :
    Reads stream₀ s' raw ms rest ∨
      ∃ input m rest', Reads stream₀ s' (raw ++ [input]) (ms ++ [m]) rest' := by
  unfold HalSession.receive at hstep
  split at hstep
  · rename_i hreceiving
    obtain ⟨hfailed, hopen⟩ := receiving_ne hreceiving
    have hended : s.recvLoopEnded = false := by
      by_cases hphase : s.phase = .running
      · exact hopen hphase
      · exact (h.idle hphase).1
    have hspec := getNext_spec junk s.connection h.valid
    dsimp only at hstep
    generalize getNextOpenflowMessage junk s.connection s.socketBuf = call at hstep hspec
    rcases h.unread hended hfailed with hunread | ⟨hbroken, hunread⟩
    · rw [hunread] at hspec
      cases hspec with
      | message hcut hreturned hvalid hstream =>
          rw [hreturned] at hstep
          split at hstep
          · cases hstep
          · rename_i hdecode
            cases hstep
            exact .inl (h.receiveNone (.inl (.inr ⟨_, _, hcut, hdecode⟩)) hvalid)
          · rename_i hdecode
            cases hstep
            exact .inr ⟨_, _, _, h.take hreceiving hcut hdecode hvalid hstream⟩
      | ended hcut hreturned hvalid hstream =>
          rw [hreturned] at hstep
          cases hstep
          exact .inl (h.receiveNone (.inl (.inl hcut)) hvalid)
      | aborted _ hreturned =>
          rw [hreturned] at hstep
          cases hstep
    · -- a connection that was closed is at its end
      rw [hunread] at hspec
      cases hspec with
      | message hcut _ _ _ => exact absurd (Framing.length_lt_of_cut hcut) (Nat.not_lt_zero _)
      | ended _ hreturned hvalid _ =>
          rw [hreturned] at hstep
          cases hstep
          exact .inl (h.receiveNone (.inr hbroken) hvalid)
      | aborted _ hreturned =>
          rw [hreturned] at hstep
          cases hstep
  · cases hstep

/-- A message of the switch is taken off the queue. -/
theorem Reads.process (h : Reads stream₀ s raw ms rest) {s' : HalSession}
    (hstep : s.process = some s') : Reads stream₀ s' raw ms rest := by
  unfold HalSession.process at hstep
  split at hstep
  · rename_i m later hphase hqueue
    dsimp only at hstep
    have hnext : Reads stream₀
        { s with asynchronousMessages := later, processed := s.processed ++ [m] } raw ms rest :=
      h.congr h.valid (by rw [hqueue, List.append_assoc]; rfl) rfl .rfl .rfl rfl rfl rfl fun _ => rfl
    split at hstep
    · obtain ⟨reply, _, heq⟩ := Option.map_eq_some_iff.mp hstep
      rw [← heq]
      exact hnext.congr hnext.valid rfl rfl .rfl .rfl rfl rfl rfl fun _ => rfl
    · cases hstep
      exact hnext
  · cases hstep

/-- The send loop reads nothing, but its failure ends the stream. -/
theorem Reads.send (h : Reads stream₀ s raw ms rest) {outcomes : List SendOutcome} {s' : HalSession}
    (hstep : s.send outcomes = some s') : Reads stream₀ s' raw ms rest := by
  unfold HalSession.send at hstep
  split at hstep
  · cases hstep
  · obtain ⟨m, hsending, heq⟩ := Option.map_eq_some_iff.mp hstep
    have hrunning : s.phase = .running := by
      by_contra hne
      have hidle := (h.idle hne).2.2
      rw [hsending] at hidle
      cases hidle
    dsimp only at heq
    rcases session_sendRaw_spec s outcomes m with ⟨hraw, _⟩ | ⟨tail, behind, later, hraw, _, _, hlater⟩
    · rw [hraw] at heq
      subst heq
      exact h.congr h.valid rfl rfl .rfl .rfl rfl rfl rfl fun hp => absurd hrunning hp
    · rw [hraw] at heq
      subst heq
      exact {
        valid := h.valid
        cuts := h.cuts
        decodes := h.decodes
        kept := h.kept
        stage := h.stage
        unread := fun _ _ => .inr ⟨rfl, hlater⟩
        ended := fun _ => .inr rfl
        idle := fun hp => absurd hrunning hp }

/-- **What one step reads.** -/
theorem Reads.step (h : Reads stream₀ s raw ms rest) {i : SessionInput} {s' : HalSession}
    (hstep : s.step i = some s') :
    Reads stream₀ s' raw ms rest ∨
      ∃ input m rest', Reads stream₀ s' (raw ++ [input]) (ms ++ [m]) rest' := by
  cases i with
  | sendNext xid outcomes =>
      refine .inl ?_
      change s.sendNext xid outcomes = some s' at hstep
      unfold HalSession.sendNext at hstep
      split at hstep
      · rename_i hphase
        cases hstep
        exact h.sendOr (by rw [hphase]; rfl) (by rw [hphase]; simp) (by simp) (by rw [hphase]; simp) (by simp)
      · rename_i hphase
        cases hstep
        exact h.sendOr (by rw [hphase]; rfl) (by rw [hphase]; simp) (by simp) (by rw [hphase]; simp) (by simp)
      · rename_i hphase
        cases hstep
        exact h.sendOr (by rw [hphase]; rfl) (by rw [hphase]; simp) (by simp) (by rw [hphase]; simp) (by simp)
      · cases hstep
  | receive junk => exact h.receive hstep
  | enqueue m =>
      refine .inl ?_
      simp only [HalSession.step] at hstep
      split at hstep
      · cases hstep
      · cases hstep
        exact h.congr h.valid rfl rfl .rfl .rfl rfl rfl rfl fun _ => rfl
  | dequeue =>
      refine .inl ?_
      simp only [HalSession.step, HalSession.dequeue] at hstep
      split at hstep
      · rename_i hphase _ _
        cases hstep
        exact h.congr h.valid rfl rfl .rfl .rfl rfl rfl rfl fun hp => absurd hphase hp
      · cases hstep
  | send outcomes => exact .inl (h.send hstep)
  | process => exact .inl (h.process hstep)

end Reads

/-- A session has just been accepted. -/
abbrev accepted (connection : Tcp) : HalSession := { connection := connection }

theorem reads_run {connection : Tcp} {ts : List (Transition HalSession SessionInput)} {s : HalSession}
    (hrun : Run HalSession.step (accepted connection) ts s) :
    ∃ raw ms rest, Reads (stream connection) s raw ms rest := by
  induction hrun with
  | nil => exact ⟨[], [], _, reads_start⟩
  | snoc _ hstep ih =>
      obtain ⟨raw, ms, rest, h⟩ := ih
      rcases h.step hstep with h | ⟨input, m, rest, h⟩
      · exact ⟨_, _, _, h⟩
      · exact ⟨_, _, _, h⟩

end IronStack.Proof

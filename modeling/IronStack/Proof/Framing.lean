import IronStack.Lib.Framing
import IronStack.Net.NetUtils
import IronStack.Proof.Buffers

/-!
# The messages that are read are the messages that were sent

Two reads make a message: eight bytes for its header, and as many as the header
says beyond them, into the same buffer. The pieces in which the network delivers
the stream do not matter, since a read only returns early when the connection has
ended. A header that announces less than its own eight bytes ends the controller:
the room that is made for the message ends before its body begins.
-/

namespace IronStack.Proof

open IronStack Lib OwnedAutobuf NetUtils

/-! ## The socket -/

/-- The bytes that have yet to be read. -/
def arrived (connection : Tcp) : Bytes := connection.arrivals.flatMap Arrival.bytes

/-- A closed connection delivers nothing more. -/
def stream (connection : Tcp) : Bytes := if connection.connected then arrived connection else []

theorem stream_of_connected {connection : Tcp} (h : connection.connected = true) :
    stream connection = arrived connection := if_pos h

theorem stream_close (connection : Tcp) : stream connection.close = [] := by
  unfold Tcp.close
  split
  · rfl
  · rename_i h
    exact if_neg h

theorem flatMap_leftover (b : Bytes) : (Arrival.leftover b).flatMap Arrival.bytes = b := by
  cases b with
  | nil => rfl
  | cons first rest => simp [Arrival.leftover, Arrival.bytes]

/-- What a call of `recv` may come back with. -/
inductive RecvStep (connection : Tcp) (size : Nat) : Received → Tcp → Prop where
  | ended (hnone : arrived connection = []) : RecvStep connection size .ended connection
  | interrupted {later : Tcp} (hconn : later.connected = connection.connected)
      (harrived : arrived later = arrived connection) : RecvStep connection size .interrupted later
  | bytes {later : Tcp} {content : Bytes} (hconn : later.connected = connection.connected)
      (harrived : content ++ arrived later = arrived connection) (hsize : content.length ≤ size) :
      RecvStep connection size (.bytes content) later

theorem recv_spec (connection : Tcp) (size : Nat) :
    RecvStep connection size (connection.recv size).1 (connection.recv size).2 := by
  unfold Tcp.recv
  split
  · rename_i hnil
    exact .ended (by rw [arrived, hnil, List.flatMap_nil])
  · rename_i later heq
    refine .interrupted rfl ?_
    rw [arrived, arrived, heq, List.flatMap_cons]
    rfl
  · rename_i first rest later heq
    refine .bytes rfl ?_ (List.length_take_le _ _)
    rw [arrived, arrived, heq, List.flatMap_append, flatMap_leftover, ← List.append_assoc,
      List.take_append_drop, List.flatMap_cons]
    rfl

/-- What a read of `k` bytes into memory makes of a connection that has `s` to deliver. -/
structure Filled (s memory : Bytes) (off k : Nat) (status : Bool) (later : Tcp)
    (memory' : Bytes) : Prop where
  length_eq : memory'.length = memory.length
  whole : k ≤ s.length → status = true ∧ stream later = s.drop k ∧
    memory' = memory.take off ++ s.take k ++ memory.drop (off + k)
  broken : s.length < k → status = false ∧ stream later = []

/-- A read that goes on behind the bytes it has already put into memory. -/
theorem Filled.after {content rest memory memory' : Bytes} {status : Bool} {off k : Nat}
    {later : Tcp} (hcontent : content.length ≤ k) (hmem : off + k ≤ memory.length)
    (h : Filled rest (memory.take off ++ content ++ memory.drop (off + content.length))
      (off + content.length) (k - content.length) status later memory') :
    Filled (content ++ rest) memory off k status later memory' := by
  have htake : (memory.take off).length = off := List.length_take_of_le (by omega)
  have hfront : (memory.take off ++ content).length = off + content.length := by
    rw [List.length_append, htake]
  refine ⟨?_, ?_, ?_⟩
  · rw [h.length_eq, List.length_append, hfront, List.length_drop]
    omega
  · intro hle
    rw [List.length_append] at hle
    obtain ⟨hstatus, hstream, hmemory⟩ := h.whole (by omega)
    have hbehind : off + content.length + (k - content.length) = off + content.length +
        (off + k - (off + content.length)) := by omega
    refine ⟨hstatus, ?_, ?_⟩
    · rw [hstream, List.drop_append, List.drop_of_length_le hcontent, List.nil_append]
    · rw [hmemory, ← hfront, List.take_left, List.drop_length_add_append, List.take_append,
        List.take_of_length_le hcontent, hfront, List.drop_drop, hbehind,
        Nat.add_sub_cancel' (by omega)]
      simp only [List.append_assoc]
  · intro hlt
    rw [List.length_append] at hlt
    exact h.broken (by omega)

/--
The loop reads on where it was, until it has all it was asked for or the
connection has ended. By induction on what the network has yet to deliver.
-/
theorem recvLoop_spec {connection : Tcp} {memory : Bytes} {buf total k : Nat}
    (hconn : connection.connected = true) (hmem : buf + total + k ≤ memory.length) :
    ∃ status later memory', connection.recvLoop memory buf ((total + k : Nat) : Int) total =
        .ok (status, later, memory') ∧
      Filled (arrived connection) memory (buf + total) k status later memory' := by
  -- on the arrivals and bytes that are pending: each call of `recv` takes some
  induction hpending : connection.pending using Nat.strongRecOn generalizing connection memory total k with
  | ind pending ih =>
    rw [Tcp.recvLoop_eq]
    by_cases hk : k = 0
    · subst hk
      rw [if_neg (by omega)]
      refine ⟨true, connection, memory, rfl, rfl, fun _ => ⟨rfl, ?_, ?_⟩, fun h => ?_⟩
      · rw [List.drop_zero, stream_of_connected hconn]
      · rw [List.take_zero, List.append_nil, Nat.add_zero, List.take_append_drop]
      · exact absurd h (Nat.not_lt_zero _)
    · rw [if_pos (by omega)]
      have hsize : (((total + k : Nat) : Int) - total).toNat = k := by omega
      have hstep := recv_spec connection k
      rw [hsize]
      split
      · -- an interrupted call is made again
        rename_i later hrecv
        rw [hrecv] at hstep
        cases hstep with
        | interrupted hconn' harrived =>
            have hlt : later.pending < pending := by
              rw [← hpending]
              exact Tcp.pending_recv_interrupted hrecv
            obtain ⟨status, later', memory', hloop, hfilled⟩ :=
              ih _ hlt (hconn'.trans hconn) hmem rfl
            rw [harrived] at hfilled
            exact ⟨status, later', memory', hloop, hfilled⟩
      · rename_i later hrecv
        rw [hrecv] at hstep
        cases hstep with
        | ended hnone =>
            refine ⟨false, _, memory, rfl, rfl, fun hle => ?_, fun _ => ⟨rfl, stream_close _⟩⟩
            rw [hnone, List.length_nil] at hle
            omega
      · rename_i content later hrecv
        rw [hrecv] at hstep
        cases hstep with
        | bytes hconn' harrived hcontent =>
            have hlt : later.pending < pending := by
              rw [← hpending]
              exact Tcp.pending_recv_bytes (Nat.pos_of_ne_zero hk) hrecv
            have hread : overwrite memory (buf + total) content =
                .ok (memory.take (buf + total) ++ content ++
                  memory.drop (buf + total + content.length)) := if_pos (by omega)
            rw [hread, ok_bind, ← harrived]
            have hnext : total + k = total + content.length + (k - content.length) := by omega
            obtain ⟨status, later', memory', hloop, hfilled⟩ :=
              @ih (later.count content.length).pending hlt (later.count content.length)
                (memory.take (buf + total) ++ content ++ memory.drop (buf + total + content.length))
                (total + content.length) (k - content.length) (hconn'.trans hconn)
                (by simp only [List.length_append, List.length_take, List.length_drop]; omega) rfl
            rw [← hnext] at hloop
            rw [← Nat.add_assoc] at hfilled
            exact ⟨status, later', memory', hloop, hfilled.after hcontent hmem⟩

/-- A read of so many bytes takes them off the stream, or ends the connection. -/
theorem recvFixedBytes_spec (connection : Tcp) {memory : Bytes} {off k : Nat} (hk : 0 < k)
    (hlt : k < 2 ^ 31) (hmem : off + k ≤ memory.length) :
    ∃ status later memory', connection.recvFixedBytes memory off (asInt k) =
        .ok (status, later, memory') ∧
      Filled (stream connection) memory off k status later memory' := by
  unfold Tcp.recvFixedBytes
  split
  · rename_i hconn
    have hloop := @recvLoop_spec connection memory off 0 k hconn hmem
    rw [Nat.zero_add, ← asInt_of_lt hlt, Nat.add_zero, ← stream_of_connected hconn] at hloop
    exact hloop
  · rename_i hconn
    have hnone : stream connection = [] := if_neg hconn
    refine ⟨false, connection, memory, rfl, rfl, fun hle => ?_, fun _ => ⟨rfl, hnone⟩⟩
    rw [hnone, List.length_nil] at hle
    omega

/-- A read into a buffer that is made to fit. -/
theorem recvFixedBytesInto_spec (junk : Nat → UInt8) (connection : Tcp) {buf : OwnedAutobuf}
    (hbuf : Valid buf) {k : Nat} (hk : 0 < k) (hlt : k < 2 ^ 31) :
    ∃ status later filled, connection.recvFixedBytesInto junk buf k = .ok (status, later, filled) ∧
      Valid filled ∧
      (k ≤ (stream connection).length → status = true ∧ stream later = (stream connection).drop k ∧
        Roomy filled k ∧ filled.contentSize = k ∧ filled.content = (stream connection).take k) ∧
      ((stream connection).length < k → status = false ∧ stream later = []) := by
  obtain ⟨grown, hgrown, hroomy, hsize, _⟩ := createEmptyBuffer_spec junk hbuf (Nat.le_of_lt hlt)
  have hmem : grown.beginOffset + k ≤ grown.writeableBuf.length := by
    rw [hroomy.length_eq, hroomy.front, Nat.zero_add]
    exact hroomy.room
  obtain ⟨status, later, memory', hread, hfilled⟩ :=
    recvFixedBytes_spec connection hk hlt hmem
  have hroomy' : Roomy { grown with writeableBuf := memory' } k :=
    ⟨hfilled.length_eq.trans hroomy.length_eq, hroomy.front, hroomy.room⟩
  unfold Tcp.recvFixedBytesInto
  rw [hgrown, ok_bind, hread, ok_bind]
  dsimp only
  cases status with
  | true =>
      refine ⟨true, later, _, rfl, ?_, fun hle => ?_, fun hshort => hfilled.broken hshort⟩
      · exact hroomy'.valid (Nat.le_of_eq hsize)
      · obtain ⟨_, hstream, hmemory⟩ := hfilled.whole hle
        refine ⟨rfl, hstream, hroomy', hsize, ?_⟩
        rw [content, hroomy'.front, List.drop_zero]
        dsimp only
        rw [hsize, hmemory, hroomy.front, List.take_zero, List.nil_append,
          List.take_left' (List.length_take_of_le hle)]
  | false =>
      refine ⟨false, later, _, rfl, ?_, fun hle => ?_, fun hshort => hfilled.broken hshort⟩
      · have hcleared : Roomy (clear { grown with writeableBuf := memory' }) k :=
          ⟨hroomy'.length_eq, hroomy'.front, hroomy'.room⟩
        exact hcleared.valid (Nat.zero_le _)
      · exact absurd (hfilled.whole hle).1 (by simp)

/-! ## One message -/

/-- The length that an OpenFlow header announces. -/
def headerLength (s : Bytes) : Nat :=
  match readU16 s 2 with
  | .ok length => length.toNat
  | .error _ => 0

/-- OpenFlow messages begin with a header of eight bytes. -/
def openflow : Framing UInt8 where
  header := 8
  len := headerLength
  header_pos := by omega
  len_append s t h := by rw [headerLength, headerLength, readU16_append_of_le (by omega)]

theorem headerLength_lt (s : Bytes) : headerLength s < 2 ^ 16 := by
  unfold headerLength
  split
  · exact UInt16.toNat_lt _
  · omega

/-- The header is read, or the connection ended before it was complete. -/
theorem receiveMessage_header (junk : Nat → UInt8) (connection : Tcp) {buf : OwnedAutobuf}
    (hbuf : Valid buf) (hheader : 8 ≤ (stream connection).length) :
    ∃ later filled, receiveMessage junk connection buf =
        receiveBalance junk later filled (subU32 (headerLength (stream connection)) 8) ∧
      stream later = (stream connection).drop 8 ∧ Valid filled ∧ Roomy filled 8 ∧
      filled.contentSize = 8 ∧ filled.content = (stream connection).take 8 := by
  obtain ⟨status, later, filled, hread, hvalid, hwhole, _⟩ :=
    recvFixedBytesInto_spec junk connection hbuf (by omega : 0 < 8) (by omega)
  obtain ⟨rfl, hstream, hroomy, hsize, hcontent⟩ := hwhole hheader
  refine ⟨later, filled, ?_, hstream, hvalid, hroomy, hsize, hcontent⟩
  obtain ⟨length, hlength⟩ := exists_readU16 (show 2 + 2 ≤ (stream connection).length by omega)
  have htake : ((stream connection).take 8).length = 8 := List.length_take_of_le hheader
  have hmemory : filled.writeableBuf.take 8 = (stream connection).take 8 := by
    rw [← hcontent, content, hsize, hroomy.front, List.drop_zero]
  have hfront : readU16 (filled.writeableBuf.drop filled.beginOffset) 2 = .ok length := by
    rw [← List.take_append_drop 8 (stream connection), readU16_append_of_le (by omega)] at hlength
    rw [hroomy.front, List.drop_zero, ← List.take_append_drop 8 filled.writeableBuf, hmemory,
      readU16_append_of_le (by omega), hlength]
  have hannounced : headerLength (stream connection) = length.toNat := by
    rw [headerLength, hlength]
  unfold receiveMessage
  rw [hread, ok_bind]
  dsimp only
  rw [if_pos rfl, hfront, ok_bind, hannounced]

/-- The balance of a message is put behind its header. -/
theorem receiveBalance_spec (junk : Nat → UInt8) (connection : Tcp) {filled : OwnedAutobuf}
    (hvalid : Valid filled) (hsize : filled.contentSize = 8) {k : Nat} (hk : 0 < k)
    (hlt : k + 8 < 2 ^ 16) :
    ∃ message later grown, receiveBalance junk connection filled k = .ok (message, later, grown) ∧
      Valid grown ∧
      (k ≤ (stream connection).length → stream later = (stream connection).drop k ∧
        message = some (filled.content ++ (stream connection).take k)) ∧
      ((stream connection).length < k → message = none ∧ stream later = []) := by
  have hmod : (k + 8) % 2 ^ 32 = k + 8 := Nat.mod_eq_of_lt (by omega)
  obtain ⟨grown, hgrown, hroomy, hgsize, hkept⟩ :=
    createEmptyBuffer_spec junk hvalid (by omega : k + 8 ≤ 2 ^ 31)
  have hroom := hroomy.room
  have hmem : grown.beginOffset + 8 + k ≤ grown.writeableBuf.length := by
    rw [hroomy.length_eq, hroomy.front]
    omega
  obtain ⟨status, later, memory', hread, hfilled⟩ :=
    recvFixedBytes_spec connection hk (by omega) hmem
  have hroomy' : Roomy { grown with writeableBuf := memory' } (k + 8) :=
    ⟨hfilled.length_eq.trans hroomy.length_eq, hroomy.front, hroom⟩
  have hptr : ptrOffsetMutable grown.contentSize 8 = .ok () := by
    rw [ptrOffsetMutable, if_neg]
    rw [hgsize, asInt_of_lt (by omega), asInt_of_lt (by omega)]
    omega
  have hvalid' := hroomy'.valid (Nat.le_of_eq hgsize)
  unfold receiveBalance
  rw [if_neg (by omega), hmod, hgrown, ok_bind, hptr, ok_bind, hread, ok_bind]
  dsimp only
  cases status with
  | true =>
      refine ⟨_, later, _, rfl, hvalid', fun hle => ?_, fun hshort => ?_⟩
      · obtain ⟨_, hstream, hmemory⟩ := hfilled.whole hle
        refine ⟨hstream, congrArg some ?_⟩
        have hfront : grown.writeableBuf.take (grown.beginOffset + 8) = filled.content := by
          rw [hroomy.front, Nat.zero_add, ← hsize]
          exact hkept
        have hlen : (filled.content ++ (stream connection).take k).length = k + 8 := by
          rw [List.length_append, length_content hvalid, hsize, List.length_take_of_le hle]
          omega
        rw [content, hroomy'.front, List.drop_zero]
        dsimp only
        rw [hgsize, hmemory, hfront, List.take_left' hlen]
      · exact absurd (hfilled.broken hshort).1 (by simp)
  | false =>
      refine ⟨_, later, _, rfl, hvalid', fun hle => ?_, fun hshort => ?_⟩
      · exact absurd (hfilled.whole hle).1 (by simp)
      · exact ⟨rfl, (hfilled.broken hshort).2⟩

/-- A message is read as it was cut from the stream. -/
theorem receiveMessage_cut (junk : Nat → UInt8) {connection : Tcp} {buf : OwnedAutobuf}
    (hbuf : Valid buf) {m rest : Bytes} (hcut : openflow.cut (stream connection) = some (m, rest)) :
    ∃ later filled, receiveMessage junk connection buf = .ok (some m, later, filled) ∧
      Valid filled ∧ stream later = rest := by
  obtain ⟨happend, hheader, hlen⟩ := Framing.cut_eq_some_iff.mp hcut
  have hm : headerLength (stream connection) = m.length := by
    rw [happend]
    exact (openflow.len_append m rest hheader).trans hlen
  have hlt := headerLength_lt (stream connection)
  have hge : 8 ≤ m.length := hheader
  obtain ⟨later, filled, hmessage, hstream, hvalid, hroomy, hsize, hcontent⟩ :=
    receiveMessage_header junk connection hbuf (by rw [happend, List.length_append]; omega)
  rw [hm, subU32_of_le hge (by omega)] at hmessage
  by_cases hzero : m.length - 8 = 0
  · -- a bare header
    refine ⟨later, filled, ?_, hvalid, ?_⟩
    · have h8 : m.length = 8 := by omega
      rw [hmessage, receiveBalance, if_pos hzero, hcontent, happend, ← h8, List.take_left]
      rfl
    · have h8 : m.length = 8 := by omega
      rw [hstream, happend, ← h8, List.drop_left]
  · obtain ⟨message, later', grown, hbalance, hvalid', hwhole, _⟩ :=
      receiveBalance_spec junk later hvalid hsize (Nat.pos_of_ne_zero hzero) (by omega)
    have hdrop : stream later = m.drop 8 ++ rest := by
      rw [hstream, happend, List.drop_append_of_le_length hge]
    have hbody : (m.drop 8).length = m.length - 8 := List.length_drop
    obtain ⟨hstream', rfl⟩ := hwhole (by rw [hdrop, List.length_append]; omega)
    refine ⟨later', grown, ?_, hvalid', ?_⟩
    · rw [hmessage, hbalance, hcontent, hdrop, happend, List.take_append_of_le_length hge,
        List.take_left' hbody, List.take_append_drop]
    · rw [hstream', hdrop, List.drop_left' hbody]

/-- A message that the stream does not hold is not read, and the connection has ended. -/
theorem receiveMessage_ended (junk : Nat → UInt8) {connection : Tcp} {buf : OwnedAutobuf}
    (hbuf : Valid buf) (hcut : openflow.cut (stream connection) = none)
    (hshort : ¬ openflow.Short (stream connection)) :
    ∃ later filled, receiveMessage junk connection buf = .ok (none, later, filled) ∧
      Valid filled ∧ stream later = [] := by
  by_cases hheader : 8 ≤ (stream connection).length
  · have hge : 8 ≤ headerLength (stream connection) := by
      by_contra hlt
      exact hshort ⟨hheader, Nat.lt_of_not_le hlt⟩
    have hless : (stream connection).length < headerLength (stream connection) := by
      by_contra hle
      rw [Framing.cut_of_le (f := openflow) hge (Nat.le_of_not_lt hle)] at hcut
      cases hcut
    have hlt := headerLength_lt (stream connection)
    obtain ⟨later, filled, hmessage, hstream, hvalid, hroomy, hsize, hcontent⟩ :=
      receiveMessage_header junk connection hbuf hheader
    rw [subU32_of_le hge (by omega)] at hmessage
    obtain ⟨message, later', grown, hbalance, hvalid', _, hbroken⟩ :=
      receiveBalance_spec junk later hvalid hsize
        (k := headerLength (stream connection) - 8) (by omega) (by omega)
    obtain ⟨rfl, hstream'⟩ := hbroken (by rw [hstream, List.length_drop]; omega)
    exact ⟨later', grown, hmessage.trans hbalance, hvalid', hstream'⟩
  · obtain ⟨status, later, filled, hread, hvalid, _, hbroken⟩ :=
      recvFixedBytesInto_spec junk connection hbuf (by omega : 0 < 8) (by omega)
    obtain ⟨rfl, hstream⟩ := hbroken (Nat.lt_of_not_le hheader)
    refine ⟨later, filled, ?_, hvalid, hstream⟩
    unfold receiveMessage
    rw [hread, ok_bind]
    rfl

/-- There is no byte behind a header that announces less than itself. -/
theorem receiveMessage_short (junk : Nat → UInt8) {connection : Tcp} {buf : OwnedAutobuf}
    (hbuf : Valid buf) (hshort : openflow.Short (stream connection)) :
    receiveMessage junk connection buf = .error .aborted := by
  have hlt : headerLength (stream connection) < 8 := hshort.short
  obtain ⟨later, filled, hmessage, _, hvalid, _, hsize, _⟩ :=
    receiveMessage_header junk connection hbuf hshort.whole
  rw [hmessage]
  generalize headerLength (stream connection) = n at hlt
  have hwrap : subU32 n 8 = 2 ^ 32 - 8 + n := by
    have hsum : 2 ^ 32 + n - 8 = 2 ^ 32 - 8 + n := by omega
    rw [subU32, hsum, Nat.mod_eq_of_lt (by omega)]
  have hmod : (subU32 n 8 + 8) % 2 ^ 32 = n := by
    rw [hwrap]
    omega
  obtain ⟨grown, hgrown, _, hgsize, _⟩ := createEmptyBuffer_spec junk hvalid (by omega : n ≤ 2 ^ 31)
  have hptr : ptrOffsetMutable grown.contentSize 8 = .error .aborted := by
    rw [ptrOffsetMutable, if_pos]
    rw [hgsize, asInt_of_lt (by omega), asInt_of_lt (by omega)]
    omega
  unfold receiveBalance
  rw [if_neg (by omega), hmod, hgrown, ok_bind, hptr]
  rfl

/-! ## Successive calls -/

/-- What one call after the other owes the stream that it finds. -/
inductive Framed : Bytes → List MessageCall → Prop where
  | done (s : Bytes) : Framed s []
  | message {s m rest : Bytes} {call : MessageCall} {later : List MessageCall}
      (hcut : openflow.cut s = some (m, rest)) (hhanded : call.handed = some m)
      (hleft : stream call.connection = rest) (hlater : Framed rest later) :
      Framed s (call :: later)
  | rejected {s : Bytes} {call : MessageCall} {later : List MessageCall} (hshort : openflow.Short s)
      (hhanded : call.handed = none) (hreturned : call.returned = .ok none) :
      Framed s (call :: later)
  | ended {s : Bytes} {call : MessageCall} {later : List MessageCall}
      (hcut : openflow.cut s = none) (hshort : ¬ openflow.Short s) (hhanded : call.handed = none)
      (hreturned : call.returned = .ok none) (hleft : stream call.connection = [])
      (hlater : Framed [] later) : Framed s (call :: later)

/-- The decoder returns from a message. -/
def Decoded (m : Bytes) : Prop := Answers (OfMessage.deserializeMessage m)

theorem not_short_nil : ¬ openflow.Short [] :=
  fun h => absurd h.whole (Nat.not_le.mpr openflow.header_pos)

/-- Nothing is behind the end of a stream. -/
theorem eq_nil_of_comesTo {ok : Bytes → Prop} {r : Bytes} (h : openflow.ComesTo ok [] r) : r = [] := by
  cases h with
  | here => rfl
  | next hcut _ _ => exact absurd (Framing.length_lt_of_cut hcut) (Nat.not_lt_zero _)

section Calls

variable (junk : Nat → UInt8)

theorem getNext_cut {connection : Tcp} {buf : OwnedAutobuf} (hbuf : Valid buf) {m rest : Bytes}
    (hcut : openflow.cut (stream connection) = some (m, rest)) :
    ∃ later filled, getNextOpenflowMessage junk connection buf =
        ⟨some m, OfMessage.deserializeMessage m, later, filled⟩ ∧
      Valid filled ∧ stream later = rest := by
  obtain ⟨later, filled, hmessage, hvalid, hstream⟩ := receiveMessage_cut junk hbuf hcut
  refine ⟨later, filled, ?_, hvalid, hstream⟩
  rw [getNextOpenflowMessage, hmessage]

theorem framed_of_no_short {n : Nat} {connection : Tcp} {buf : OwnedAutobuf} (hbuf : Valid buf)
    (hno : ∀ rest, openflow.ComesTo Decoded (stream connection) rest → ¬ openflow.Short rest) :
    Framed (stream connection) (calls junk n connection buf) := by
  induction n generalizing connection buf with
  | zero => exact .done _
  | succ n ih =>
      rw [calls]
      cases hcut : openflow.cut (stream connection) with
      | some cut =>
          obtain ⟨m, rest⟩ := cut
          obtain ⟨later, filled, hcall, hvalid, hstream⟩ := getNext_cut junk hbuf hcut
          rw [hcall]
          dsimp only
          cases hdecode : OfMessage.deserializeMessage m with
          | error fault => exact .message hcut rfl hstream (.done _)
          | ok message =>
              have hlater := @ih later filled hvalid fun r hr => by
                rw [hstream] at hr
                exact hno r (.next hcut ⟨message, hdecode⟩ hr)
              rw [hstream] at hlater
              exact .message hcut rfl hstream hlater
      | none =>
          have hshort := hno _ (.here _)
          obtain ⟨later, filled, hmessage, hvalid, hstream⟩ :=
            receiveMessage_ended junk hbuf hcut hshort
          rw [getNextOpenflowMessage, hmessage]
          dsimp only
          have hlater := @ih later filled hvalid fun r hr => by
            rw [hstream] at hr
            rw [eq_nil_of_comesTo hr]
            exact not_short_nil
          rw [hstream] at hlater
          exact .ended hcut hshort rfl rfl hstream hlater

theorem no_short_of_framed {s r : Bytes} (hcomes : openflow.ComesTo Decoded s r)
    {connection : Tcp} {buf : OwnedAutobuf} (hs : stream connection = s) (hbuf : Valid buf)
    (hall : ∀ n, Framed s (calls junk n connection buf)) : ¬ openflow.Short r := by
  induction hcomes generalizing connection buf with
  | here s =>
      intro hshort
      subst hs
      have hcall : getNextOpenflowMessage junk connection buf =
          ⟨none, .error .aborted, connection, buf⟩ := by
        rw [getNextOpenflowMessage, receiveMessage_short junk hbuf hshort]
      have hone := hall 1
      rw [calls, hcall] at hone
      cases hone with
      | message hcut _ _ _ =>
          rw [hshort.cut] at hcut
          cases hcut
      | rejected _ _ hreturned => cases hreturned
      | ended _ hnot _ _ _ _ => exact hnot hshort
  | next hcut hok _ ih =>
      subst hs
      obtain ⟨later, filled, hcall, hvalid, hstream⟩ := getNext_cut junk hbuf hcut
      obtain ⟨message, hdecode⟩ := hok
      refine ih hstream hvalid fun n => ?_
      have hnext := hall (n + 1)
      rw [calls, hcall, hdecode] at hnext
      cases hnext with
      | message hcut' _ _ hlater =>
          rw [hcut] at hcut'
          cases hcut'
          exact hlater
      | rejected hshort _ _ =>
          rw [hshort.cut] at hcut
          cases hcut
      | ended hnone _ _ _ _ _ =>
          rw [hnone] at hcut
          cases hcut

end Calls

/-- A hello that arrives in two pieces, with an interruption between them. -/
def helloInPieces : Tcp where
  connected := true
  arrivals := [.data 1 [0, 0], .interrupted, .data 8 [0, 0, 0, 0]]

/-- A header that announces four bytes. -/
def shortHeader : Tcp where
  connected := true
  arrivals := [.data 1 [0, 0, 4, 0, 0, 0, 0]]

end IronStack.Proof

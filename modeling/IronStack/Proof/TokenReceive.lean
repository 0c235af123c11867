import IronStack.Lib.Occurrence
import IronStack.Proof.ByteList
import IronStack.Proof.Framing

/-!
# Bytes up to a token

The bytes up to a token are received one by one, behind as many as the token has. They are
right as long as there are any: at the end of the file the byte that was read last is taken
again and again, until the token is found in what was never sent or the buffer is too
large. That a stream has ended is only seen if it is shorter than the token.
-/

namespace IronStack.Proof.TokenReceive

open IronStack Lib OwnedAutobuf Tcp

/-- What receiving up to a token is to come to, from the stream `s`. -/
def Meets (token s : Bytes) (r : Read (Bool × Tcp × OwnedAutobuf)) : Prop :=
  ∃ status later buf, r = .ok (status, later, buf) ∧
    (∀ k, FirstEnd token s k → status = true ∧ buf.content = s.take k ∧ stream later = s.drop k) ∧
    (¬ token <:+: s → status = false)

/-! ## The tail of the buffer -/

theorem byteAt_eq {buf : OwnedAutobuf} {i : Nat} {b : UInt8} (h : Valid buf)
    (hlt : buf.contentSize < 2 ^ 31) (hi : buf.content[i]? = some b) : buf.byteAt i = .ok b := by
  obtain ⟨hwithin, heq⟩ := List.getElem?_eq_some_iff.mp hi
  rw [length_content h] at hwithin
  have hfits := h.fits
  have hlen := h.length_eq
  rw [byteAt, asInt_of_lt hlt, if_neg (by omega), Int.toNat_natCast, readU8_of_lt (by omega), ← heq]
  simp only [content, List.getElem_take, List.getElem_drop]

/-- **The comparison of the tail** of the buffer, from a place on. -/
theorem mismatch_eq {buf : OwnedAutobuf} {tokenSize : Nat} (h : Valid buf)
    (hlt : buf.contentSize < 2 ^ 31) (hsize : tokenSize ≤ buf.contentSize) :
    ∀ {token front tail : Bytes} {counter : Nat}, buf.content = front ++ tail →
      tail.length = token.length → front.length = buf.contentSize - tokenSize + counter →
      mismatch buf tokenSize counter token = .ok (decide (tail ≠ token)) := by
  intro token
  induction token with
  | nil =>
      intro front tail counter _ htail _
      rw [List.length_eq_zero_iff.mp htail]
      rfl
  | cons c token ih =>
      intro front tail counter hcontent htail hfront
      obtain ⟨b, tail, rfl⟩ := List.exists_cons_of_length_eq_add_one htail
      have hlen := length_content h
      rw [hcontent, List.length_append, List.length_cons] at hlen
      have hoffset : asInt ((subU32 buf.contentSize tokenSize + counter) % 2 ^ 32) = front.length := by
        rw [subU32_of_le hsize (by omega), ← hfront, Nat.mod_eq_of_lt (by omega), asInt_of_lt (by omega)]
      have hb : buf.content[front.length]? = some b := by
        rw [hcontent, List.getElem?_append_right (Nat.le_refl _), Nat.sub_self, List.getElem?_cons_zero]
      rw [mismatch, hoffset, byteAt_eq h hlt hb, ok_bind]
      by_cases hsame : b = c
      · have hrest : buf.content = (front ++ [b]) ++ tail := by
          rw [hcontent, List.append_assoc, List.singleton_append]
        have hcounter : (front ++ [b]).length = buf.contentSize - tokenSize + (counter + 1) := by
          rw [List.length_append, List.length_singleton]
          omega
        rw [if_neg (not_not_intro hsame), ih hrest (Nat.succ.inj htail) hcounter]
        simp only [hsame, ne_eq, List.cons.injEq, true_and]
      · rw [if_pos hsame]
        simp only [pure_eq_ok, ne_eq, List.cons.injEq, hsame, false_and, not_false_eq_true, decide_true]

/-- The tail is the token where the bytes that were read end with it. -/
theorem mismatch_tail {buf : OwnedAutobuf} {token s : Bytes} {n : Nat} (h : Valid buf)
    (hcontent : buf.content = s.take n) (hn : n ≤ s.length) (hlt : n < 2 ^ 31) (hle : token.length ≤ n) :
    mismatch buf token.length 0 token = .ok true ∧ ¬ EndsAt token s n ∨
      mismatch buf token.length 0 token = .ok false ∧ EndsAt token s n := by
  have hlen := length_content h
  rw [hcontent, List.length_take_of_le hn] at hlen
  have hsplit : buf.content = (s.take n).take (n - token.length) ++ (s.take n).drop (n - token.length) := by
    rw [hcontent, List.take_append_drop]
  have htail : ((s.take n).drop (n - token.length)).length = token.length := by
    rw [List.length_drop, List.length_take_of_le hn]
    omega
  have hfront : ((s.take n).take (n - token.length)).length = buf.contentSize - token.length + 0 := by
    rw [List.length_take, List.length_take_of_le hn]
    omega
  have hmismatch := mismatch_eq h (by omega) (by omega) hsplit htail hfront
  rw [hmismatch, endsAt_iff hn]
  by_cases heq : (s.take n).drop (n - token.length) = token
  · exact .inr ⟨by rw [decide_eq_false (not_not_intro heq)], heq⟩
  · exact .inl ⟨by rw [decide_eq_true heq], heq⟩

/-! ## The loop -/

/-- A read of one byte. -/
theorem recv_one {connection later : Tcp} {content : Bytes}
    (h : connection.recv 1 = (.bytes content, later)) :
    ∃ b, content = [b] := by
  unfold recv at h
  split at h
  · cases h
  · cases h
  · cases h
    exact ⟨_, rfl⟩

/-- There is memory for one more byte. -/
theorem append_one {junk : Nat → UInt8} {buf : OwnedAutobuf} (h : Owned buf) (hlt : buf.contentSize < 2 ^ 31)
    (b : UInt8) : Holds (buf.append junk [b]) (buf.content ++ [b]) := by
  have hfits : buf.contentSize + [b].length < 2 ^ 32 := by
    rw [List.length_singleton]
    omega
  refine append_holds h hfits ?_
  rw [Nat.mod_eq_of_lt hfits]
  exact alloc_found junk h.toValid hlt

section Loop

variable {junk : Nat → UInt8} {ending : Ending} {token s : Bytes} {k : Nat}

/--
**A token that is there is found.** The bytes that were read are in the buffer, the others
have yet to be read, and the tail is the token at the first place where it ends.
-/
theorem tokenLoop_found (hfirst : FirstEnd token s k) (hk : k < 2 ^ 31) {connection : Tcp}
    {buf : OwnedAutobuf} {currentChar : UInt8} {n : Nat} (hconn : connection.connected = true)
    (hbuf : Owned buf) (hcontent : buf.content = s.take n) (harrived : arrived connection = s.drop n)
    (hle : token.length ≤ n) (hn : n ≤ k) :
    ∃ later found, tokenLoop junk ending token.length token connection buf currentChar =
      .ok (true, later, found) ∧ found.content = s.take k ∧ stream later = s.drop k := by
  have hks := hfirst.ends.within
  induction hpending : connection.pending using Nat.strongRecOn
    generalizing connection buf currentChar n with
  | ind pending ih =>
    have hlen := length_content hbuf.toValid
    rw [hcontent, List.length_take_of_le (by omega)] at hlen
    rw [tokenLoop_eq]
    rcases mismatch_tail hbuf.toValid hcontent (by omega) (by omega) hle with ⟨htail, hends⟩ | ⟨htail, hends⟩
    · rw [htail]
      dsimp only [Except.bind]
      rw [if_pos rfl]
      have hnk : n < k := by
        rcases Nat.lt_or_eq_of_le hn with hlt | rfl
        · exact hlt
        · exact absurd hfirst.ends hends
      have hstep := recv_spec connection 1
      split
      · rename_i later hrecv
        rw [hrecv] at hstep
        cases hstep with
        | interrupted hconn' harrived' =>
            exact ih _ (hpending ▸ pending_recv_interrupted hrecv) (hconn'.trans hconn) hbuf hcontent
              (harrived'.trans harrived) hle hn rfl
      · rename_i later hrecv
        rw [hrecv] at hstep
        cases hstep with
        | ended hnone =>
            rw [harrived, List.drop_eq_nil_iff] at hnone
            omega
      · rename_i later hrecv
        rw [hrecv] at hstep
        cases hstep with
        | ended hnone =>
            rw [harrived, List.drop_eq_nil_iff] at hnone
            omega
      · rename_i content later hrecv
        rw [hrecv] at hstep
        obtain ⟨b, rfl⟩ := recv_one hrecv
        cases hstep with
        | bytes hconn' harrived' _ =>
            -- one byte more is in the buffer, and one less to be read
            rw [harrived] at harrived'
            have hnext : s.take (n + 1) = s.take n ++ [b] := by
              rw [List.take_add, ← harrived']
              rfl
            have hrest : arrived later = s.drop (n + 1) := by
              rw [← List.drop_drop, ← harrived']
              rfl
            obtain ⟨grown, happend, howned, hgrown⟩ := @append_one junk buf hbuf (by omega) b
            rw [hcontent, ← hnext] at hgrown
            rw [List.headD_cons, happend]
            have hpending' : later.pending < pending := by
              rw [← hpending]
              exact pending_recv_bytes (Nat.lt_succ_self 0) hrecv
            exact @ih later.pending hpending' (later.count 1) grown b (n + 1) (hconn'.trans hconn) howned
              hgrown hrest (by omega) hnk rfl
    · -- the first place has been reached
      rw [htail]
      have hnk : n = k := by
        by_contra hne
        exact hfirst.first n (by omega) hends
      rw [hnk] at hcontent harrived
      exact ⟨connection, buf, rfl, hcontent, (stream_of_connected hconn).trans harrived⟩

/--
**What the loop returns.** It only returns false where there was an error, not at the end
of the file; and what it finds is found in a buffer whose size is an `int`.
-/
theorem tokenLoop_returned {tokenSize : Nat} (hne : token ≠ []) {connection later : Tcp}
    {buf out : OwnedAutobuf} {currentChar : UInt8} {status : Bool} (hsize : buf.contentSize < 2 ^ 32)
    (h : tokenLoop junk ending tokenSize token connection buf currentChar = .ok (status, later, out)) :
    (status = false → ending = .failed) ∧ (status = true → out.contentSize < 2 ^ 31) := by
  induction connection, buf, currentChar using tokenLoop.induct junk ending tokenSize token with
  | case1 connection buf currentChar e htail =>
      rw [tokenLoop_eq, htail] at h
      cases h
  | case2 connection buf currentChar htail =>
      rw [tokenLoop_eq, htail] at h
      cases h
      refine ⟨nofun, fun _ => ?_⟩
      by_contra hge
      have hpos := size_of_mismatch hne htail
      have hneg := asInt_neg (Nat.not_lt.mp hge) hsize
      omega
  | case3 connection buf currentChar htail later' hrecv ih =>
      rw [tokenLoop_eq, htail, hrecv] at h
      exact ih hsize h
  | case4 connection buf currentChar htail later' hrecv hending =>
      rw [tokenLoop_eq, htail, hrecv, hending] at h
      cases h
      exact ⟨fun _ => hending, nofun⟩
  | case5 connection buf currentChar htail later' hrecv hending e happend =>
      rw [tokenLoop_eq, htail, hrecv, hending] at h
      dsimp only [Except.bind] at h
      rw [if_pos rfl, happend] at h
      cases h
  | case6 connection buf currentChar htail later' hrecv hending grown happend ih =>
      rw [tokenLoop_eq, htail, hrecv, hending] at h
      dsimp only [Except.bind] at h
      rw [if_pos rfl, happend] at h
      rw [hending] at ih ⊢
      refine ih ?_ h
      rw [contentSize_append (List.cons_ne_nil _ []) happend]
      exact Nat.mod_lt _ (by decide)
  | case7 connection buf currentChar htail content later' hrecv currentChar' e happend =>
      rw [tokenLoop_eq, htail, hrecv] at h
      dsimp only [Except.bind] at h
      rw [if_pos rfl, happend] at h
      cases h
  | case8 connection buf currentChar htail content later' hrecv currentChar' grown happend ih =>
      rw [tokenLoop_eq, htail, hrecv] at h
      dsimp only [Except.bind] at h
      rw [if_pos rfl, happend] at h
      refine ih ?_ h
      rw [contentSize_append (List.cons_ne_nil _ []) happend]
      exact Nat.mod_lt _ (by decide)

end Loop

/-! ## The first block -/

theorem connected_recv (connection : Tcp) (size : Nat) :
    (connection.recv size).2.connected = connection.connected := by
  unfold recv
  split
  · rfl
  · rfl
  · rfl

/-- A read that ends with what was asked for does not close the connection. -/
theorem connected_recvLoop {connection later : Tcp} {memory memory' : Bytes} {buf total : Nat}
    {bytesToRead : Int} (h : connection.recvLoop memory buf bytesToRead total = .ok (true, later, memory')) :
    later.connected = connection.connected := by
  induction connection, memory, total using recvLoop.induct bytesToRead with
  | case1 connection memory total hmore later' hrecv ih =>
      have hsame := connected_recv connection (bytesToRead - total).toNat
      rw [hrecv] at hsame
      rw [recvLoop_eq, if_pos hmore, hrecv] at h
      exact (ih h).trans hsame
  | case2 connection memory total hmore later' hrecv =>
      rw [recvLoop_eq, if_pos hmore, hrecv] at h
      cases h
  | case3 connection memory total hmore content later' hrecv ih =>
      have hsame := connected_recv connection (bytesToRead - total).toNat
      rw [hrecv] at hsame
      rw [recvLoop_eq, if_pos hmore, hrecv] at h
      obtain ⟨written, _, h⟩ := bind_eq_ok.mp h
      exact (ih written h).trans hsame
  | case4 connection memory total hdone =>
      rw [recvLoop_eq, if_neg hdone] at h
      cases h
      rfl

/-- Nor does one into a buffer, which is an owned one then. -/
theorem recvFixedBytesInto_true {junk : Nat → UInt8} {connection later : Tcp} {buf filled : OwnedAutobuf}
    {k : Nat} (hconn : connection.connected = true) (hbuf : Owned buf) (hlt : k < 2 ^ 31)
    (h : connection.recvFixedBytesInto junk buf k = .ok (true, later, filled)) :
    later.connected = true ∧ filled.bufSize < 2 ^ 32 := by
  have hgrown := alloc_grown junk hbuf.toValid (by omega) (alloc_found junk hbuf.toValid (Nat.le_of_lt hlt))
  rw [recvFixedBytesInto, createEmptyBuffer, if_neg (by decide), pure_eq_ok, ok_bind] at h
  obtain ⟨⟨status, later', memory⟩, hread, h⟩ := bind_eq_ok.mp h
  rw [recvFixedBytes, if_pos hconn] at hread
  cases status with
  | true =>
      cases h
      exact ⟨(connected_recvLoop hread).trans hconn, hgrown.bufSize_lt hbuf.bufSize_lt⟩
  | false => cases h

/-! ## The whole of it -/

section Receive

variable {junk : Nat → UInt8} {uninitialized : UInt8} {connection : Tcp} {buf : OwnedAutobuf} {token : Bytes}

theorem owned_clear (h : Owned buf) : Owned buf.clear := by
  refine ⟨⟨h.length_eq, ?_⟩, h.bufSize_lt⟩
  have hfits := h.fits
  rw [OwnedAutobuf.clear]
  dsimp only
  omega

/-- The call reads a block, and goes on from there. -/
theorem receive_eq (hconn : connection.connected = true) (hne : token ≠ []) :
    connection.recvUntilToken junk uninitialized .endOfFile buf token =
      (connection.recvFixedBytesInto junk buf.clear token.length).bind fun (status, later, block) =>
        if status then
          tokenLoop junk .endOfFile token.length
            (token.take (asInt token.length).toNat) later block uninitialized
        else .ok (false, later.close, block) := by
  have hsome : ¬ token.length = 0 := by rwa [List.length_eq_zero_iff]
  unfold recvUntilToken
  dsimp only
  rw [if_pos hconn, if_neg hsome]
  rfl

theorem tokenLoop_nil {ending : Ending} {tokenSize : Nat} (later : Tcp) (block : OwnedAutobuf)
    (currentChar : UInt8) :
    tokenLoop junk ending tokenSize [] later block currentChar = .ok (true, later, block) := by
  rw [tokenLoop_eq]
  rfl

/-- A token whose size is no `int` is not compared, and nothing is read. -/
theorem receive_huge (hconn : connection.connected = true) (hhuge : 2 ^ 31 ≤ token.length)
    (hlt : token.length < 2 ^ 32) :
    ∃ out, connection.recvUntilToken junk uninitialized .endOfFile buf token =
      .ok (true, connection, out) := by
  have hneg := asInt_neg hhuge hlt
  have hne : token ≠ [] := by
    rintro rfl
    cases hhuge
  have hnone : (asInt token.length).toNat = 0 := by omega
  have hread : ∀ memory off, connection.recvFixedBytes memory off (asInt token.length) =
      .ok (true, connection, memory) := by
    intro memory off
    rw [recvFixedBytes, if_pos hconn]
    rw [recvLoop_eq, if_neg (by omega)]
  rw [receive_eq hconn hne, hnone, List.take_zero, recvFixedBytesInto, createEmptyBuffer,
    if_neg (by decide), pure_eq_ok, ok_bind, hread]
  exact ⟨_, tokenLoop_nil _ _ _⟩

/-- A stream that is shorter than the token ends before the first block is read. -/
theorem receive_short (hconn : connection.connected = true) (hbuf : Owned buf) (hne : token ≠ [])
    (hlt : token.length < 2 ^ 31) (hshort : (stream connection).length < token.length) :
    ∃ later out, connection.recvUntilToken junk uninitialized .endOfFile buf token =
      .ok (false, later, out) := by
  obtain ⟨status, later, block, hread, _, _, hbroken⟩ :=
    recvFixedBytesInto_spec junk connection (owned_clear hbuf).toValid (List.length_pos_of_ne_nil hne) hlt
  obtain ⟨rfl, _⟩ := hbroken hshort
  rw [receive_eq hconn hne, hread]
  exact ⟨_, _, rfl⟩

/-- Otherwise the loop begins behind the first block. -/
theorem receive_block (hconn : connection.connected = true) (hbuf : Owned buf) (hne : token ≠ [])
    (hlt : token.length < 2 ^ 31) (hle : token.length ≤ (stream connection).length) :
    ∃ later block, connection.recvUntilToken junk uninitialized .endOfFile buf token =
        tokenLoop junk .endOfFile token.length token later block uninitialized ∧
      later.connected = true ∧ Owned block ∧ block.content = (stream connection).take token.length ∧
      arrived later = (stream connection).drop token.length := by
  obtain ⟨status, later, block, hread, hvalid, hwhole, _⟩ :=
    recvFixedBytesInto_spec junk connection (owned_clear hbuf).toValid (List.length_pos_of_ne_nil hne) hlt
  obtain ⟨rfl, hstream, _, _, hcontent⟩ := hwhole hle
  obtain ⟨hconn', hsize⟩ := recvFixedBytesInto_true hconn (owned_clear hbuf) hlt hread
  rw [stream_of_connected hconn'] at hstream
  refine ⟨later, block, ?_, hconn', ⟨hvalid, hsize⟩, hcontent, hstream⟩
  rw [receive_eq hconn hne, hread, asInt_of_lt hlt, Int.toNat_natCast, List.take_length]
  rfl

/--
**Receiving up to a token does what it is for** exactly if the stream is shorter than the
token, or the token is in the stream and ends where the number of bytes is an `int`.
-/
theorem receive_meets_iff (hconn : connection.connected = true) (hbuf : Owned buf) (hne : token ≠ [])
    (hsize : token.length < 2 ^ 32) :
    Meets token (stream connection)
        (connection.recvUntilToken junk uninitialized .endOfFile buf token) ↔
      (stream connection).length < token.length ∧ token.length < 2 ^ 31 ∨
        ∃ k < 2 ^ 31, FirstEnd token (stream connection) k := by
  have hpos := List.length_pos_of_ne_nil hne
  by_cases hlt : token.length < 2 ^ 31
  · by_cases hle : token.length ≤ (stream connection).length
    · obtain ⟨later, block, hloop, hconn', hblock, hcontent, harrived⟩ :=
        @receive_block junk uninitialized connection buf token hconn hbuf hne hlt hle
      rw [hloop]
      refine ⟨?_, ?_⟩
      · intro ⟨status, later', out, hreturned, hfound, habsent⟩
        obtain ⟨hfalse, htrue⟩ := tokenLoop_returned hne (contentSize_lt hblock) hreturned
        have hstatus : status = true := by
          cases status with
          | true => rfl
          | false => cases hfalse rfl
        have hinfix : token <:+: stream connection := by
          by_contra hnone
          rw [habsent hnone] at hstatus
          cases hstatus
        obtain ⟨k, hk⟩ := exists_firstEnd_iff.mpr hinfix
        obtain ⟨_, hout, _⟩ := hfound k hk
        refine .inr ⟨k, ?_, hk⟩
        -- no more bytes than the size of the buffer
        have hlen : out.content.length ≤ out.contentSize := List.length_take_le _ _
        rw [hout, List.length_take_of_le hk.ends.within] at hlen
        have hint := htrue hstatus
        omega
      · rintro (⟨hshort, _⟩ | ⟨k, hint, hk⟩)
        · omega
        · obtain ⟨later', found, hreturned, hout, hstream⟩ :=
            tokenLoop_found hk hint hconn' hblock hcontent harrived (Nat.le_refl _) hk.ends.length_le
          refine ⟨true, later', found, hreturned, ?_, ?_⟩
          · intro j hj
            rw [hj.unique hk]
            exact ⟨rfl, hout, hstream⟩
          · intro hnone
            exact absurd (exists_firstEnd_iff.mp ⟨k, hk⟩) hnone
    · have hshort : (stream connection).length < token.length := Nat.lt_of_not_le hle
      obtain ⟨later, out, hreturned⟩ :=
        @receive_short junk uninitialized connection buf token hconn hbuf hne hlt hshort
      refine ⟨fun _ => .inl ⟨hshort, hlt⟩, fun _ => ⟨false, later, out, hreturned, ?_, fun _ => rfl⟩⟩
      intro k hk
      have hwithin := hk.ends.within
      have htoken := hk.ends.length_le
      omega
  · obtain ⟨out, hreturned⟩ :=
      @receive_huge junk uninitialized connection buf token hconn (Nat.not_lt.mp hlt) hsize
    refine ⟨?_, ?_⟩
    · intro ⟨status, later, out', hreturned', hfound, habsent⟩
      rw [hreturned] at hreturned'
      cases hreturned'
      have hinfix : token <:+: stream connection := by
        by_contra hnone
        cases habsent hnone
      obtain ⟨k, hk⟩ := exists_firstEnd_iff.mpr hinfix
      obtain ⟨_, _, hstream⟩ := hfound k hk
      have hlen := congrArg List.length hstream
      rw [List.length_drop] at hlen
      have hwithin := hk.ends.within
      have htoken := hk.ends.length_le
      omega
    · rintro (⟨_, hlt'⟩ | ⟨k, hint, hk⟩)
      · exact absurd hlt' hlt
      · have htoken := hk.ends.length_le
        omega

end Receive

/-- A line that arrives in three pieces, the first two of which are parts of its end. -/
def linePieces : Tcp where
  connected := true
  arrivals := [.data 97 [13], .interrupted, .data 10 [98]]

theorem linePieces_received :
    Meets [13, 10] (stream linePieces) (linePieces.recvUntilToken (fun _ => 0) 0 .endOfFile {} [13, 10]) := by
  refine (receive_meets_iff rfl owned_fresh (List.cons_ne_nil _ _) (by decide)).mpr
    (.inr ⟨3, by decide, ?_, ?_⟩)
  · exact ⟨by decide, [97], rfl⟩
  · intro j hj h
    have hle : 2 ≤ j := h.length_le
    obtain rfl : j = 2 := by omega
    exact absurd h.suffix (by decide)

/-- The file ends without the token: that is never found out. -/
theorem absentToken_fails :
    ¬ ∀ (junk : Nat → UInt8) (uninitialized : UInt8) (connection : Tcp) (buf : OwnedAutobuf) (token : Bytes),
      connection.connected = true → Owned buf → token ≠ [] → token.length < 2 ^ 32 →
        Meets token (stream connection)
          (connection.recvUntilToken junk uninitialized .endOfFile buf token) := by
  intro h
  have hne : ([99] : Bytes) ≠ [] := List.cons_ne_nil _ _
  obtain ⟨status, later, out, hreturned, _, habsent⟩ :=
    h (fun _ => 0) 0 { connected := true, arrivals := [.data 97 [98]] } {} [99] rfl owned_fresh hne
      (by decide)
  obtain ⟨connection, block, hloop, _, hblock, _⟩ :=
    @receive_block (fun _ => 0) 0 { connected := true, arrivals := [.data 97 [98]] } {} [99] rfl owned_fresh
      hne (by decide) (by decide)
  rw [hloop] at hreturned
  have hending := (tokenLoop_returned hne (contentSize_lt hblock) hreturned).1 (habsent (by decide))
  cases hending

end IronStack.Proof.TokenReceive

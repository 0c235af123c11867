import IronStack.AutobufEdits

/-!
# `tcp`, as far as it receives

What the network delivers is a list of arrivals: bytes, in pieces of any size, and
the interruptions that a blocked `recv` comes back from. Behind the last of them
the connection ends. No caller here gives a timeout.
-/

namespace IronStack

open Lib

/-- What a blocked `recv` comes back with: bytes that arrived, or `EINTR`. -/
inductive Arrival where
  | data (first : UInt8) (rest : Bytes)
  | interrupted

namespace Arrival

/-- The bytes that arrived. -/
def bytes : Arrival → Bytes
  | data first rest => first :: rest
  | interrupted => []

/-- Bytes that were not asked for stay where they are. -/
def leftover : Bytes → List Arrival
  | [] => []
  | first :: rest => [.data first rest]

/-- An arrival is good for at most this many calls of `recv`. -/
def weight : Arrival → Nat
  | data _ rest => rest.length + 1
  | interrupted => 1

end Arrival

/-- `tcp`, with what its `connection_info` and the process's `global_info` count. -/
structure Tcp where
  connected : Bool
  bytesReceived : UInt64 := 0
  totalBytesReceived : UInt64 := 0
  connectionsActive : UInt32 := 1
  arrivals : List Arrival

/-- What `recv` returns: -1 with `EINTR`, 0 or another error, or bytes. -/
inductive Received where
  | interrupted
  | ended
  | bytes (content : Bytes)

namespace Tcp

/-- `tcp::close`. -/
def close (connection : Tcp) : Tcp :=
  if connection.connected then
    { connection with
      connected := false
      connectionsActive := connection.connectionsActive - 1 }
  else connection

/-- The system's `recv`, which waits for an arrival and returns `size` bytes of it at most. -/
def recv (connection : Tcp) (size : Nat) : Received × Tcp :=
  match connection.arrivals with
  | [] => (.ended, connection)
  | .interrupted :: later => (.interrupted, { connection with arrivals := later })
  | .data first rest :: later =>
      (.bytes ((first :: rest).take size),
        { connection with arrivals := Arrival.leftover ((first :: rest).drop size) ++ later })

/-- How many calls of `recv` can still come back before the connection ends. -/
def pending (connection : Tcp) : Nat := (connection.arrivals.map Arrival.weight).sum

/-- The counters of bytes that were received. -/
def count (connection : Tcp) (n : Nat) : Tcp :=
  { connection with
    bytesReceived := connection.bytesReceived + n.toUInt64
    totalBytesReceived := connection.totalBytesReceived + n.toUInt64 }

theorem pending_recv_interrupted {connection later : Tcp} {size : Nat}
    (h : connection.recv size = (.interrupted, later)) : later.pending < connection.pending := by
  unfold recv at h
  split at h
  · exact absurd h (by simp)
  · rename_i heq
    cases h
    simp [pending, heq, Arrival.weight]
  · exact absurd h (by simp)

theorem pending_recv_bytes {connection later : Tcp} {size : Nat} (hsize : 0 < size)
    {content : Bytes} (h : connection.recv size = (.bytes content, later)) :
    later.pending < connection.pending := by
  unfold recv at h
  split at h
  · exact absurd h (by simp)
  · exact absurd h (by simp)
  · rename_i first rest arrivals heq
    cases h
    have hdrop : ((first :: rest).drop size).length ≤ rest.length := by
      rw [List.length_drop, List.length_cons]
      omega
    generalize (first :: rest).drop size = left at hdrop
    cases left with
    | nil => simp [pending, heq, Arrival.leftover, Arrival.weight]
    | cons first' rest' =>
        rw [List.length_cons] at hdrop
        simp only [pending, heq, Arrival.leftover, List.cons_append, List.nil_append, List.map_cons,
          List.sum_cons, Arrival.weight]
        omega

/--
The loop of `tcp::recv_fixed_bytes`, into memory from `buf` on. `total` bytes have
been read; `bytesToRead` is an `int`, and the loop ends at once if it is negative.
-/
def recvLoop (connection : Tcp) (memory : Bytes) (buf : Nat) (bytesToRead : Int) (total : Nat) :
    Read (Bool × Tcp × Bytes) :=
  if _hmore : (total : Int) < bytesToRead then
    match _hrecv : connection.recv (bytesToRead - total).toNat with
    | (.interrupted, connection) => recvLoop connection memory buf bytesToRead total
    | (.ended, connection) => .ok (false, connection.close, memory)
    | (.bytes content, connection) => do
        let memory ← overwrite memory (buf + total) content
        recvLoop (connection.count content.length) memory buf bytesToRead (total + content.length)
  else .ok (true, connection, memory)
termination_by connection.pending
decreasing_by
  · exact pending_recv_interrupted _hrecv
  · have hsize : 0 < (bytesToRead - total).toNat := by omega
    have hlt := pending_recv_bytes hsize _hrecv
    exact hlt

/-- One turn of the loop. -/
theorem recvLoop_eq (connection : Tcp) (memory : Bytes) (buf : Nat) (bytesToRead : Int) (total : Nat) :
    connection.recvLoop memory buf bytesToRead total =
      if (total : Int) < bytesToRead then
        match connection.recv (bytesToRead - total).toNat with
        | (.interrupted, later) => later.recvLoop memory buf bytesToRead total
        | (.ended, later) => .ok (false, later.close, memory)
        | (.bytes content, later) => do
            let memory ← overwrite memory (buf + total) content
            (later.count content.length).recvLoop memory buf bytesToRead (total + content.length)
      else .ok (true, connection, memory) := by
  conv_lhs => unfold recvLoop
  by_cases hmore : (total : Int) < bytesToRead
  · rw [dif_pos hmore, if_pos hmore]
    split
    · rename_i hrecv
      rw [hrecv]
    · rename_i hrecv
      rw [hrecv]
    · rename_i hrecv
      rw [hrecv]
  · rw [dif_neg hmore, if_neg hmore]

/-- `tcp::recv_fixed_bytes`, into memory from `buf` on. -/
def recvFixedBytes (connection : Tcp) (memory : Bytes) (buf : Nat) (bytesToRead : Int) :
    Read (Bool × Tcp × Bytes) :=
  if connection.connected then connection.recvLoop memory buf bytesToRead 0
  else .ok (false, connection, memory)

/-- `tcp::recv_fixed_bytes`, into an `autobuf` that is made to fit. -/
def recvFixedBytesInto (junk : Nat → UInt8) (connection : Tcp) (buf : OwnedAutobuf)
    (bytesToRead : Nat) : Read (Bool × Tcp × OwnedAutobuf) := do
  let buf ← buf.createEmptyBuffer junk bytesToRead false
  let (status, connection, memory) ←
    connection.recvFixedBytes buf.writeableBuf buf.beginOffset (asInt bytesToRead)
  let buf := { buf with writeableBuf := memory }
  if status then return (true, connection, buf) else return (false, connection, buf.clear)

/-! ## Reading up to a token -/

/-- What is behind the last arrival: the end of the file, where `recv` returns 0, or an error. -/
inductive Ending where
  | endOfFile
  | failed

/--
The loop of `tcp::recv_until_token` over the token, from `counter` on: whether the tail of
the buffer differs from it. The offsets are words that become an `int`.
-/
def mismatch (buf : OwnedAutobuf) (tokenSize counter : Nat) : Bytes → Read Bool
  | [] => .ok false
  | c :: token => do
      let b ← buf.byteAt (asInt ((subU32 buf.contentSize tokenSize + counter) % 2 ^ 32))
      if b ≠ c then return true else mismatch buf tokenSize (counter + 1) token

/-- The bytes that can still be put behind the content before its size is no `int`. -/
def room (buf : OwnedAutobuf) : Nat :=
  if buf.contentSize < 2 ^ 32 then 2 ^ 31 - buf.contentSize else 2 ^ 31 + 1

theorem recv_ended {connection later : Tcp} {size : Nat} (h : connection.recv size = (.ended, later)) :
    later = connection := by
  unfold recv at h
  split at h
  · cases h
    rfl
  · cases h
  · cases h

theorem size_of_mismatch {buf : OwnedAutobuf} {tokenSize counter : Nat} {token : Bytes} {differs : Bool}
    (hne : token ≠ []) (h : mismatch buf tokenSize counter token = .ok differs) :
    0 < asInt buf.contentSize := by
  cases token with
  | nil => exact absurd rfl hne
  | cons c token =>
      obtain ⟨b, hb, _⟩ := bind_eq_ok.mp h
      rw [OwnedAutobuf.byteAt] at hb
      split at hb
      · cases hb
      · omega

theorem ne_nil_of_mismatch {buf : OwnedAutobuf} {tokenSize counter : Nat} {token : Bytes}
    (h : mismatch buf tokenSize counter token = .ok true) : token ≠ [] := by
  rintro rfl
  cases h

theorem room_append {junk : Nat → UInt8} {buf grown : OwnedAutobuf} {c : UInt8}
    (hsize : 0 < asInt buf.contentSize) (h : buf.append junk [c] = .ok grown) : room grown < room buf := by
  have hgrown := OwnedAutobuf.contentSize_append (List.cons_ne_nil c []) h
  rw [List.length_singleton] at hgrown
  rw [room, room, hgrown]
  by_cases hlt : buf.contentSize < 2 ^ 32
  · have hint : buf.contentSize < 2 ^ 31 := by
      by_contra hge
      have hneg := asInt_neg (Nat.not_lt.mp hge) hlt
      omega
    rw [if_pos hlt, Nat.mod_eq_of_lt (by omega), if_pos (by omega)]
    omega
  · have hmod : (buf.contentSize + 1) % 2 ^ 32 < 2 ^ 32 := Nat.mod_lt _ (by decide)
    rw [if_neg hlt, if_pos hmod]
    omega

/-- How much is left for the loop to do: calls of `recv`, and bytes to append. -/
def left (connection : Tcp) (buf : OwnedAutobuf) : Nat := connection.pending + room buf

/--
The loop of `tcp::recv_until_token`, for a token of which some bytes are compared, with the
letter that was read last. A read of no bytes at the end of the file is not told apart from
one of a byte, so that the letter is appended again.
-/
def tokenLoop (junk : Nat → UInt8) (ending : Ending) (tokenSize : Nat) (token : Bytes)
    (connection : Tcp) (buf : OwnedAutobuf) (currentChar : UInt8) :
    Read (Bool × Tcp × OwnedAutobuf) :=
  match _htail : mismatch buf tokenSize 0 token with
  | .error e => .error e
  | .ok false => .ok (true, connection, buf)
  | .ok true =>
      match _hrecv : connection.recv 1 with
      | (.interrupted, connection) => tokenLoop junk ending tokenSize token connection buf currentChar
      | (.ended, connection) =>
          match ending with
          | .failed => .ok (false, connection.close, buf)
          | .endOfFile =>
              match _happend : buf.append junk [currentChar] with
              | .error e => .error e
              | .ok buf => tokenLoop junk ending tokenSize token (connection.count 1) buf currentChar
      | (.bytes content, connection) =>
          let currentChar := content.headD currentChar
          match _happend : buf.append junk [currentChar] with
          | .error e => .error e
          | .ok buf => tokenLoop junk ending tokenSize token (connection.count 1) buf currentChar
termination_by connection.left buf
decreasing_by
  · have hlt := pending_recv_interrupted _hrecv
    rw [left, left]
    omega
  · have hlt := room_append (size_of_mismatch (ne_nil_of_mismatch _htail) _htail) _happend
    obtain rfl := recv_ended _hrecv
    exact Nat.add_lt_add_left hlt _
  · have hlt := room_append (size_of_mismatch (ne_nil_of_mismatch _htail) _htail) _happend
    have hpending := pending_recv_bytes (Nat.lt_succ_self 0) _hrecv
    exact Nat.add_lt_add hpending hlt

/-- One turn of the loop. -/
theorem tokenLoop_eq (junk : Nat → UInt8) (ending : Ending) (tokenSize : Nat) (token : Bytes)
    (connection : Tcp) (buf : OwnedAutobuf) (currentChar : UInt8) :
    tokenLoop junk ending tokenSize token connection buf currentChar =
      (mismatch buf tokenSize 0 token).bind fun differs =>
        if differs then
          match connection.recv 1, ending with
          | (.interrupted, later), _ => tokenLoop junk ending tokenSize token later buf currentChar
          | (.ended, later), .failed => .ok (false, later.close, buf)
          | (.ended, later), .endOfFile =>
              (buf.append junk [currentChar]).bind fun buf =>
                tokenLoop junk ending tokenSize token (later.count 1) buf currentChar
          | (.bytes content, later), _ =>
              (buf.append junk [content.headD currentChar]).bind fun buf =>
                tokenLoop junk ending tokenSize token (later.count 1) buf (content.headD currentChar)
        else .ok (true, connection, buf) := by
  conv_lhs => unfold tokenLoop
  split
  · rename_i heq
    rw [heq]
    rfl
  · rename_i heq
    rw [heq]
    rfl
  · rename_i heq
    rw [heq]
    dsimp only [Except.bind]
    rw [if_pos rfl]
    split
    · rename_i hrecv
      rw [hrecv]
    · rename_i hrecv
      rw [hrecv]
      cases ending with
      | failed => rfl
      | endOfFile =>
          dsimp only
          split
          · rename_i happend
            rw [happend]
          · rename_i happend
            rw [happend]
    · rename_i hrecv
      rw [hrecv]
      dsimp only
      split
      · rename_i happend
        rw [happend]
      · rename_i happend
        rw [happend]

/--
`tcp::recv_until_token`. No letter has been read when its loop begins, and a token whose size
is no `int` is not compared.
-/
def recvUntilToken (junk : Nat → UInt8) (uninitialized : UInt8) (ending : Ending) (connection : Tcp)
    (buf : OwnedAutobuf) (token : Bytes) : Read (Bool × Tcp × OwnedAutobuf) := do
  let buf := buf.clear
  if connection.connected then
    if token.length = 0 then return (true, connection, buf)
    else do
      let (status, connection, buf) ← connection.recvFixedBytesInto junk buf token.length
      let compared := token.take (asInt token.length).toNat
      if status then tokenLoop junk ending token.length compared connection buf uninitialized
      else return (false, connection.close, buf)
  else return (false, connection, buf)

end Tcp

end IronStack

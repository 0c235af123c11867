import IronStack.Stats.StatsCodec

/-!
# Port statistics there and back

A counter that is not supported is written as the word of all ones, and a word of all
ones is read as a counter that is not supported. So a counter comes back with its flag
unless it is supported and has reached that word. The bytes sent are written under the
flag of the bytes received, and come back with that.
-/

namespace IronStack.Proof.PortStats

open IronStack Lib

/-- A counter and the flag that says whether it is supported. -/
structure Field where
  supported : PortStats → Bool
  counter : PortStats → UInt64

/-- The bytes sent. -/
def bytesSent : Field := ⟨PortStats.txBytesSupported, PortStats.txBytes⟩

/-- The other counters. -/
def ordinary : List Field :=
  [⟨PortStats.rxPacketsSupported, PortStats.rxPackets⟩,
    ⟨PortStats.txPacketsSupported, PortStats.txPackets⟩,
    ⟨PortStats.rxBytesSupported, PortStats.rxBytes⟩,
    ⟨PortStats.rxDroppedSupported, PortStats.rxDropped⟩,
    ⟨PortStats.txDroppedSupported, PortStats.txDropped⟩,
    ⟨PortStats.rxErrorsSupported, PortStats.rxErrors⟩,
    ⟨PortStats.txErrorsSupported, PortStats.txErrors⟩,
    ⟨PortStats.rxFrameErrorsSupported, PortStats.rxFrameErrors⟩,
    ⟨PortStats.rxOverrunErrorsSupported, PortStats.rxOverrunErrors⟩,
    ⟨PortStats.rxCrcErrorsSupported, PortStats.rxCrcErrors⟩,
    ⟨PortStats.collisionErrorsSupported, PortStats.collisionErrors⟩]

/-- All twelve. -/
def fields : List Field := bytesSent :: ordinary

/-- The word of all ones. -/
abbrev allOnes : UInt64 := 0xffffffffffffffff

/-- A field comes back: its flag, and its counter if that is supported. -/
structure Field.Kept (f : Field) (sent received : PortStats) : Prop where
  supported : f.supported received = f.supported sent
  counter : f.supported sent = true → f.counter received = f.counter sent

/-- What comes back is equal in the port number, in every flag and in every supported counter. -/
structure SameStats (sent received : PortStats) : Prop where
  port : received.port = sent.port
  fields : ∀ f ∈ fields, f.Kept sent received

/-- Everything that was sent can be told from what is on the wire. -/
structure Encodable (s : PortStats) : Prop where
  port : s.allPorts = true → s.port = ofppNone
  counters : ∀ f ∈ fields, f.supported s = true → f.counter s ≠ allOnes
  bytesSent : s.txBytesSupported = true → s.rxBytesSupported = true
  noBytesSent : s.txBytesSupported = false → s.rxBytesSupported = true → s.txBytes = allOnes

/-! ## What is on the wire -/

theorem length_serialize (s : PortStats) : s.serialize.length = 104 := by
  simp only [PortStats.serialize, List.length_append, length_be16, List.flatMap_cons, List.flatMap_nil,
    length_be64, List.length_cons, List.length_nil]

/-- The words of an array behind a header of eight bytes. -/
theorem readU64_behind {port : UInt16} {pad : Bytes} {words : List UInt64} {i : Nat} {word : UInt64}
    (hpad : pad.length = 6) (h : words[i]? = some word) :
    readU64 (be16 port ++ (pad ++ words.flatMap be64)) (8 + 8 * i) = .ok word := by
  have hport : (be16 port).length ≤ 8 + 8 * i := by
    rw [length_be16]
    omega
  have hrest : pad.length ≤ 8 + 8 * i - (be16 port).length := by
    rw [length_be16]
    omega
  have hoff : 8 + 8 * i - (be16 port).length - pad.length = 8 * i := by
    rw [length_be16, hpad]
    omega
  rw [readU64_append_right hport, readU64_append_right hrest, hoff]
  exact readU64_flatMap h

/-- What `deserialize` makes of what `serialize` wrote. -/
structure Received (s r : PortStats) : Prop where
  port : r.port = if s.allPorts then ofppNone else s.port
  flags : ∀ f ∈ fields, f.supported r = counterSupported (f.counter r)
  counters : ∀ f ∈ ordinary, f.counter r = wireCounter (f.supported s) (f.counter s)
  sentWord : r.txBytes = wireCounter s.rxBytesSupported s.txBytes

theorem deserialize_serialize (s : PortStats) :
    ∃ r, PortStats.deserialize (.ofBytes s.serialize) = .ok (some r) ∧ Received s r := by
  have hlen : ¬(Autobuf.ofBytes s.serialize).size < 104 := by
    rw [show (Autobuf.ofBytes s.serialize).size = s.serialize.length from rfl, length_serialize]
    omega
  have hport : readU16 s.serialize 0 = .ok (if s.allPorts then ofppNone else s.port) :=
    readU16_be16 _ _
  have hword : ∀ (i : Nat) (word : UInt64), _ → readU64 s.serialize (8 + 8 * i) = .ok word :=
    fun i word h => readU64_behind rfl h
  unfold PortStats.deserialize
  rw [if_neg hlen, show (Autobuf.ofBytes s.serialize).memory = s.serialize from rfl, hport,
    hword 0 _ rfl, hword 1 _ rfl, hword 2 _ rfl, hword 3 _ rfl, hword 4 _ rfl, hword 5 _ rfl,
    hword 6 _ rfl, hword 7 _ rfl, hword 8 _ rfl, hword 9 _ rfl, hword 10 _ rfl, hword 11 _ rfl]
  refine ⟨_, rfl, rfl, ?_, ?_, rfl⟩
  · simp [fields, bytesSent, ordinary]
  · simp [ordinary]

/-! ## What comes back -/

/-- A counter under its own flag is kept unless it is supported and all ones. -/
theorem wireCounter_kept_iff {supported : Bool} {counter : UInt64} :
    (counterSupported (wireCounter supported counter) = supported ∧
      (supported = true → wireCounter supported counter = counter)) ↔
      (supported = true → counter ≠ allOnes) := by
  cases supported with
  | false => simp [wireCounter, counterSupported]
  | true => simp [wireCounter, counterSupported]

/-- A counter under another flag is kept if it is that flag that its own one needs. -/
theorem otherFlag_kept_iff {own other : Bool} {counter : UInt64} :
    (counterSupported (wireCounter other counter) = own ∧
      (own = true → wireCounter other counter = counter)) ↔
      (own = true → counter ≠ allOnes) ∧ (own = true → other = true) ∧
        (own = false → other = true → counter = allOnes) := by
  cases own <;> cases other <;> simp [wireCounter, counterSupported]

variable {s r : PortStats}

theorem Received.kept_iff (hr : Received s r) {f : Field} (hf : f ∈ ordinary) :
    f.Kept s r ↔ (f.supported s = true → f.counter s ≠ allOnes) := by
  have hflag := hr.flags f (List.mem_cons_of_mem _ hf)
  rw [hr.counters f hf] at hflag
  rw [← wireCounter_kept_iff, ← hflag, ← hr.counters f hf]
  exact ⟨fun h => ⟨h.supported, h.counter⟩, fun h => ⟨h.1, h.2⟩⟩

theorem Received.bytesSent_kept_iff (hr : Received s r) :
    bytesSent.Kept s r ↔ (s.txBytesSupported = true → s.txBytes ≠ allOnes) ∧
      (s.txBytesSupported = true → s.rxBytesSupported = true) ∧
      (s.txBytesSupported = false → s.rxBytesSupported = true → s.txBytes = allOnes) := by
  have hflag : r.txBytesSupported = counterSupported r.txBytes := hr.flags bytesSent List.mem_cons_self
  rw [hr.sentWord] at hflag
  rw [← otherFlag_kept_iff, ← hflag, ← hr.sentWord]
  exact ⟨fun h => ⟨h.supported, h.counter⟩, fun h => ⟨h.1, h.2⟩⟩

theorem Received.port_iff (hr : Received s r) :
    r.port = s.port ↔ (s.allPorts = true → s.port = ofppNone) := by
  rw [hr.port]
  cases s.allPorts with
  | false => simp
  | true => simp [eq_comm]

theorem Received.same_iff (hr : Received s r) : SameStats s r ↔ Encodable s := by
  refine ⟨?_, ?_⟩
  · intro h
    have htx := hr.bytesSent_kept_iff.mp (h.fields bytesSent List.mem_cons_self)
    refine ⟨hr.port_iff.mp h.port, ?_, htx.2.1, htx.2.2⟩
    refine List.forall_mem_cons.mpr ⟨htx.1, ?_⟩
    intro f hf
    exact (hr.kept_iff hf).mp (h.fields f (List.mem_cons_of_mem _ hf))
  · intro h
    refine ⟨hr.port_iff.mpr h.port, List.forall_mem_cons.mpr ⟨?_, ?_⟩⟩
    · have hones := h.counters bytesSent List.mem_cons_self
      exact hr.bytesSent_kept_iff.mpr ⟨hones, h.bytesSent, h.noBytesSent⟩
    · intro f hf
      exact (hr.kept_iff hf).mpr (h.counters f (List.mem_cons_of_mem _ hf))

/--
**Port statistics come back from the wire** exactly if no supported counter is the word
of all ones, the port is the one that stands for all ports if it is to be all ports, and
the bytes sent are supported just as the bytes received are (or else they are all ones).
-/
theorem roundTrip_iff (s : PortStats) :
    (∃ r, PortStats.deserialize (.ofBytes s.serialize) = .ok (some r) ∧ SameStats s r) ↔ Encodable s := by
  obtain ⟨r, hdes, hr⟩ := deserialize_serialize s
  rw [← hr.same_iff]
  refine ⟨?_, ?_⟩
  · rintro ⟨r', hdes', hsame⟩
    rw [hdes] at hdes'
    cases hdes'
    exact hsame
  · intro hsame
    exact ⟨r, hdes, hsame⟩

/-- A switch that counts the bytes sent, but not those received. -/
theorem txBytes_lost :
    ¬∃ r, PortStats.deserialize
        (.ofBytes (PortStats.serialize { port := 1, txBytesSupported := true, txBytes := 5 })) =
          .ok (some r) ∧
      SameStats { port := 1, txBytesSupported := true, txBytes := 5 } r := by
  rintro ⟨r, hdes, hsame⟩
  obtain ⟨r', hdes', hr⟩ := deserialize_serialize { port := 1, txBytesSupported := true, txBytes := 5 }
  rw [hdes] at hdes'
  cases hdes'
  cases (hr.same_iff.mp hsame).bytesSent rfl

end IronStack.Proof.PortStats

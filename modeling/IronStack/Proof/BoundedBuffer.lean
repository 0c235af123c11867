import IronStack.BoundedBuffer
import IronStack.Proof.OwnedBuffers

/-!
# The bounded buffer, and its writers

The bytes come out in the order in which they went in, as long as their sizes add up to a
word. But nobody tells the writers of the room that a reader makes: those who are blocked
when he is done stay blocked, and whether they would have to shows in the sum of the sizes.
-/

namespace IronStack.Proof

open IronStack Lib BoundedBuffer AutobufBounds OwnedBuffers

namespace BoundedBuffers

variable {τ : Type} {junk : Nat → UInt8}

abbrev BufferWorld (τ : Type) := MonitorWorld τ (Read BoundedBuffer) BufferRequest Bytes

/-- The bytes that were put in, in order. -/
def enqueued (log : List (BufferRequest × Bytes)) : Bytes :=
  log.flatMap fun entry =>
    match entry.1.call with
    | .enqueue incomingBuf | .forceEnqueue incomingBuf => incomingBuf.bytes
    | _ => []

/-- The bytes that were returned, in order. -/
def dequeued (log : List (BufferRequest × Bytes)) : Bytes := log.flatMap Prod.snd

/-- What came out is the front part of what went in, nobody is blocked who could go on, and the
program has not come upon memory that is not there. -/
structure Sound (junk : Nat → UInt8) (w : BufferWorld τ) : Prop where
  defined : w.state ≠ .error .outOfBounds
  inOrder : dequeued w.log <+: enqueued w.log
  awake : (boundedBuffer junk).Awake w

/-- The writers who are blocked would have to wait with so many bytes in the buffer. -/
def WritersWait (w : BufferWorld τ) (b : BoundedBuffer) (size : Nat) : Prop :=
  ∀ thread incomingBuf found, w.phase thread = .blocked ⟨.enqueue incomingBuf, found⟩ →
    b.maxSize.toNat ≤ (size + incomingBuf.bytes.length) % 2 ^ 32

/-- The bytes fit the buffer, or are refused, and the writers who are blocked have to wait behind them. -/
def PutFits (w : BufferWorld τ) (b : BoundedBuffer) (incomingBuf : Chunk) (found : Bool) : Prop :=
  incomingBuf.bytes.length = 0 ∨
    Honest b.buf found (b.buf.contentSize + incomingBuf.bytes.length) ∧
      (Room b.buf found (b.buf.contentSize + incomingBuf.bytes.length) →
        WritersWait w b (b.buf.contentSize + incomingBuf.bytes.length))

/-- The condition under which a call disturbs nobody. -/
def Undisturbing (w : BufferWorld τ) (b : BoundedBuffer) (r : BufferRequest) : Prop :=
  match r.call with
  | .enqueue incomingBuf | .forceEnqueue incomingBuf => PutFits w b incomingBuf r.found
  | .dequeue maxReadSize => r.found = true → WritersWait w b (b.buf.contentSize - maxReadSize.toNat)
  | .dequeueExact readSize => r.found = true → WritersWait w b (b.buf.contentSize - readSize.toNat)
  | .setMax _ => True

/-- The call that gets past its wait in a step, if there is one, is of that kind. -/
def UndisturbingStep (w : BufferWorld τ) (i : MonitorInput τ BufferRequest) : Prop :=
  ∀ b r, w.state = .ok b → w.entering i = some r → b.mustWait r.call = false → Undisturbing w b r

/-! ## One call -/

section Calls

variable (junk) {b b' : BoundedBuffer} {found : Bool} {incomingBuf result : Bytes} {readSize : Nat}

/-- **What goes in** is behind what was there. -/
theorem put_ok (h : Orderly b.buf)
    (hroom : incomingBuf.length = 0 ∨ Room b.buf found (b.buf.contentSize + incomingBuf.length)) :
    ∃ buf, b.put junk found incomingBuf = .ok ({ b with buf := buf }, []) ∧ Orderly buf ∧
      buf.content = b.buf.content ++ incomingBuf := by
  obtain ⟨buf, hplus, horderly, hcontent⟩ := plusOther_room junk h hroom
  exact ⟨buf, by rw [put, hplus]; rfl, horderly, hcontent⟩

theorem put_short (h : Orderly b.buf) (hlt : incomingBuf.length < 2 ^ 32) (hsome : incomingBuf.length ≠ 0)
    (hshort : ¬ Room b.buf found (b.buf.contentSize + incomingBuf.length)) :
    (Honest b.buf found (b.buf.contentSize + incomingBuf.length) ∧
      b.put junk found incomingBuf = .error .aborted) ∨
    ¬ Honest b.buf found (b.buf.contentSize + incomingBuf.length) ∧
      b.put junk found incomingBuf = .error .outOfBounds := by
  rcases plusOther_short junk h hlt hsome hshort with ⟨hhonest, hplus⟩ | ⟨hhonest, hplus⟩
  · exact .inl ⟨hhonest, by rw [put, hplus]; rfl⟩
  · exact .inr ⟨hhonest, by rw [put, hplus]; rfl⟩

/-- **What comes out** was in front. -/
theorem take_ok (h : Orderly b.buf) (hle : readSize ≤ b.buf.contentSize)
    (hfound : readSize = 0 ∨ found = true) :
    ∃ buf, b.take junk found readSize = .ok ({ b with buf := buf }, b.buf.content.take readSize) ∧
      Orderly buf ∧ buf.content = b.buf.content.drop readSize := by
  have hmax := h.contentSize_le
  have hlen := h.length_content
  have hread : b.buf.toOwnedAutobuf.readFront readSize = .ok (b.buf.content.take readSize) :=
    readFront_ok h.owned hle
  have hsize : (b.buf.content.take readSize).length = readSize := by
    rw [List.length_take]
    omega
  have hroom : Room {} found (b.buf.content.take readSize).length := by
    rw [hsize]
    exact room_fresh (by omega) hfound
  obtain ⟨written, hset, -, hcontent⟩ := setContent_room junk orderly_fresh hroom
  obtain ⟨horderly, htrimmed⟩ := trimFront_orderly h readSize
  refine ⟨_, ?_, horderly, htrimmed⟩
  rw [BoundedBuffer.take, hread, ok_bind, hset, ok_bind, hcontent]
  rfl

/-- Without memory for it nothing comes out. -/
theorem take_short (h : Orderly b.buf) (hle : readSize ≤ b.buf.contentSize) (hsome : readSize ≠ 0) :
    b.take junk false readSize = .error .aborted := by
  have hlen := h.length_content
  have hread : b.buf.toOwnedAutobuf.readFront readSize = .ok (b.buf.content.take readSize) :=
    readFront_ok h.owned hle
  have hsize : (b.buf.content.take readSize).length = readSize := by
    rw [List.length_take]
    omega
  have hmax := h.contentSize_le
  have hshort : ¬ Room {} false (b.buf.content.take readSize).length := by
    rw [hsize]
    rintro (hfits | ⟨_, hfound, _⟩)
    · exact hsome (Nat.le_zero.mp ((Nat.le_add_left _ _).trans hfits))
    · cases hfound
  have hset : ({} : WriteableAutobuf).setContent junk false (b.buf.content.take readSize) =
      .error .aborted := by
    rcases setContent_short junk orderly_fresh (by omega) hshort with ⟨_, hset⟩ | ⟨hdishonest, _⟩
    · exact hset
    · refine absurd ⟨?_, nofun⟩ hdishonest
      rw [orderly_fresh.front_eq, hsize]
      omega
  rw [BoundedBuffer.take, hread, ok_bind, hset]
  rfl

variable {junk}

/-- What is known of bytes that went in. -/
theorem put_done (h : Orderly b.buf) (hlt : incomingBuf.length < 2 ^ 32)
    (hdone : b.put junk found incomingBuf = .ok (b', result)) :
    result = [] ∧ Orderly b'.buf ∧ b'.buf.content = b.buf.content ++ incomingBuf ∧
      b'.maxSize = b.maxSize := by
  by_cases hroom : incomingBuf.length = 0 ∨ Room b.buf found (b.buf.contentSize + incomingBuf.length)
  · obtain ⟨buf, hput, horderly, hcontent⟩ := put_ok junk h hroom
    cases hput.symm.trans hdone
    exact ⟨rfl, horderly, hcontent, rfl⟩
  · rw [not_or] at hroom
    rcases put_short junk h hlt hroom.1 hroom.2 with ⟨_, hput⟩ | ⟨_, hput⟩
    · cases hput.symm.trans hdone
    · cases hput.symm.trans hdone

/-- What is known of bytes that came out. -/
theorem take_done (h : Orderly b.buf) (hle : readSize ≤ b.buf.contentSize)
    (hdone : b.take junk found readSize = .ok (b', result)) :
    result = b.buf.content.take readSize ∧ Orderly b'.buf ∧ b'.buf.content = b.buf.content.drop readSize ∧
      b'.maxSize = b.maxSize := by
  by_cases hfound : readSize = 0 ∨ found = true
  · obtain ⟨buf, htake, horderly, hcontent⟩ := take_ok junk h hle hfound
    cases htake.symm.trans hdone
    exact ⟨rfl, horderly, hcontent, rfl⟩
  · rw [not_or, Bool.not_eq_true] at hfound
    rw [hfound.2, take_short junk h hle hfound.1] at hdone
    cases hdone

/-- The bytes that `dequeue` takes. -/
theorem readSize_le (b : BoundedBuffer) (maxReadSize : Nat) :
    (if b.buf.contentSize ≥ maxReadSize then maxReadSize else b.buf.contentSize) ≤ b.buf.contentSize := by
  split <;> omega

end Calls

/-! ## What is kept -/

/-- The buffer underneath is in order, and has the bytes that went in and did not come out. -/
def Kept (w : BufferWorld τ) : Prop :=
  ∀ b, w.state = .ok b → Orderly b.buf ∧ enqueued w.log = dequeued w.log ++ b.buf.content

theorem enqueued_concat (log : List (BufferRequest × Bytes)) (r : BufferRequest) (result : Bytes) :
    enqueued (log ++ [(r, result)]) = enqueued log ++ enqueued [(r, result)] := List.flatMap_append

theorem dequeued_concat (log : List (BufferRequest × Bytes)) (r : BufferRequest) (result : Bytes) :
    dequeued (log ++ [(r, result)]) = dequeued log ++ result := by
  rw [dequeued, List.flatMap_append, List.flatMap_singleton]
  rfl

section Steps

variable {w w' : BufferWorld τ} {i : MonitorInput τ BufferRequest} {b b' : BoundedBuffer}
  {r : BufferRequest} {result : Bytes}

/-- **One call keeps the bytes in order.** -/
theorem perform_keeps {log : List (BufferRequest × Bytes)} (h : Orderly b.buf)
    (hlog : enqueued log = dequeued log ++ b.buf.content) (hgo : b.mustWait r.call = false)
    (hdone : b.perform junk r = .ok (b', result)) :
    Orderly b'.buf ∧
      enqueued (log ++ [(r, result)]) = dequeued (log ++ [(r, result)]) ++ b'.buf.content := by
  have hput : ∀ incomingBuf : Chunk, enqueued [(r, result)] = incomingBuf.bytes →
      b.put junk r.found incomingBuf.bytes = .ok (b', result) →
      Orderly b'.buf ∧
      enqueued (log ++ [(r, result)]) = dequeued (log ++ [(r, result)]) ++ b'.buf.content := by
    intro incomingBuf hnew hdone
    obtain ⟨rfl, horderly, hcontent, _⟩ := put_done h incomingBuf.lt hdone
    refine ⟨horderly, ?_⟩
    rw [enqueued_concat, dequeued_concat, hnew, hcontent, hlog, List.append_nil, List.append_assoc]
  have htake : ∀ readSize ≤ b.buf.contentSize, enqueued [(r, result)] = [] →
      b.take junk r.found readSize = .ok (b', result) →
      Orderly b'.buf ∧
      enqueued (log ++ [(r, result)]) = dequeued (log ++ [(r, result)]) ++ b'.buf.content := by
    intro readSize hle hnew hdone
    obtain ⟨rfl, horderly, hcontent, _⟩ := take_done h hle hdone
    refine ⟨horderly, ?_⟩
    rw [enqueued_concat, dequeued_concat, hnew, hcontent, hlog, List.append_nil, List.append_assoc,
      List.take_append_drop]
  obtain ⟨call, found⟩ := r
  cases call with
  | enqueue incomingBuf => exact hput incomingBuf (List.append_nil _) hdone
  | forceEnqueue incomingBuf => exact hput incomingBuf (List.append_nil _) hdone
  | dequeue maxReadSize => exact htake _ (readSize_le b _) rfl hdone
  | dequeueExact readSize =>
      have hle : readSize.toNat ≤ b.buf.contentSize := Nat.not_lt.mp (of_decide_eq_false hgo)
      exact htake _ hle rfl hdone
  | setMax max =>
      cases hdone
      refine ⟨h, ?_⟩
      rw [enqueued_concat, dequeued_concat, hlog, List.append_nil]
      exact List.append_nil _

theorem kept_step [DecidableEq τ] (h : Kept w ∧ dequeued w.log <+: enqueued w.log)
    (hstep : (boundedBuffer junk).step w i = some w') :
    Kept w' ∧ dequeued w'.log <+: enqueued w'.log := by
  obtain ⟨hkept, hprefix⟩ := h
  obtain ⟨b, hstate, ⟨hsame, hlog⟩ | ⟨r, _, hgo, ⟨e, _, hend, hlog⟩ | ⟨b', result, hdone, hnext, hlog⟩⟩⟩ :=
    HaltingMonitor.step_log hstep
  · rw [Kept, hsame, hlog]
    exact ⟨hkept, hprefix⟩
  · rw [Kept, hend, hlog]
    exact ⟨nofun, hprefix⟩
  · obtain ⟨horderly, hcontent⟩ := hkept b hstate
    obtain ⟨horderly', hcontent'⟩ := perform_keeps horderly hcontent hgo hdone
    rw [Kept, hnext, hlog]
    refine ⟨fun b₁ hb₁ => ?_, ⟨_, hcontent'.symm⟩⟩
    cases hb₁
    exact ⟨horderly', hcontent'⟩

/-! ## Who stays blocked -/

/-- Behind a call that notifies no writers and that takes nothing from a reader, the writers
are those who may have been forgotten. -/
theorem leavesWaiting_iff (hawake : (boundedBuffer junk).Awake w) (hstate : w.state = .ok b)
    (hmax : b'.maxSize = b.maxSize) (hsilent : b.notifies r .full = false)
    (hreaders : b.notifies r .empty = true ∨ b'.buf.contentSize ≤ b.buf.contentSize) :
    (boundedBuffer junk).LeavesWaiting w b r b' ↔ WritersWait w b b'.buf.contentSize := by
  constructor
  · intro hleaves thread incomingBuf found hblocked
    have hfull := hleaves thread _ hblocked hsilent
    have hfull := (Bool.and_eq_true_iff.mp hfull).2
    rw [← hmax]
    exact of_decide_eq_true hfull
  · intro hwriters thread waiting hblocked hnot
    have hbefore := hawake b hstate thread waiting hblocked
    obtain ⟨call, found⟩ := waiting
    cases call with
    | enqueue incomingBuf =>
        refine Bool.and_eq_true_iff.mpr ⟨?_, decide_eq_true ?_⟩
        · rw [hmax]
          exact (Bool.and_eq_true_iff.mp hbefore).1
        · rw [hmax]
          exact hwriters thread incomingBuf found hblocked
    | dequeue maxReadSize =>
        have hempty : b.buf.contentSize = 0 := beq_iff_eq.mp hbefore
        rcases hreaders with htold | hle
        · exact absurd htold (Bool.eq_false_iff.mp hnot)
        · exact beq_iff_eq.mpr (by omega)
    | dequeueExact readSize =>
        have hshort : b.buf.contentSize < readSize.toNat := of_decide_eq_true hbefore
        rcases hreaders with htold | hle
        · exact absurd htold (Bool.eq_false_iff.mp hnot)
        · exact decide_eq_true (by omega)
    | forceEnqueue _ => cases hbefore
    | setMax _ => cases hbefore

/-- With as many bytes as before the writers have to wait as before. -/
theorem writersWait_of_awake (hawake : (boundedBuffer junk).Awake w) (hstate : w.state = .ok b) :
    WritersWait w b b.buf.contentSize := by
  intro thread incomingBuf found hblocked
  have hfull := hawake b hstate thread _ hblocked
  exact of_decide_eq_true (Bool.and_eq_true_iff.mp hfull).2

/-- A call ends well: not in memory that is not there, and whom it does not notify has to wait. -/
def EndsWell (junk : Nat → UInt8) (w : BufferWorld τ) (b : BoundedBuffer) (r : BufferRequest) : Prop :=
  b.perform junk r ≠ .error .outOfBounds ∧
    ∀ b' result, b.perform junk r = .ok (b', result) → (boundedBuffer junk).LeavesWaiting w b r b'

theorem put_endsWell_iff {incomingBuf : Chunk} (h : Orderly b.buf) (hawake : (boundedBuffer junk).Awake w)
    (hstate : w.state = .ok b) (hput : b.perform junk r = b.put junk r.found incomingBuf.bytes)
    (hfull : b.notifies r .full = false) (hempty : b.notifies r .empty = true) :
    EndsWell junk w b r ↔ PutFits w b incomingBuf r.found := by
  have hleaves : ∀ buf : WriteableAutobuf, (boundedBuffer junk).LeavesWaiting w b r { b with buf := buf } ↔
      WritersWait w b buf.contentSize :=
    fun buf => leavesWaiting_iff hawake hstate rfl hfull (.inl hempty)
  have hlen := h.length_content
  rw [EndsWell, hput]
  by_cases hroom : incomingBuf.bytes.length = 0 ∨
      Room b.buf r.found (b.buf.contentSize + incomingBuf.bytes.length)
  · obtain ⟨buf, hdone, horderly, hcontent⟩ := put_ok junk h hroom
    have hsize : buf.contentSize = b.buf.contentSize + incomingBuf.bytes.length := by
      rw [← horderly.length_content, hcontent, List.length_append, hlen]
    rw [hdone]
    constructor
    · rintro ⟨-, hends⟩
      have hwriters := (hleaves buf).mp (hends _ _ rfl)
      rw [hsize] at hwriters
      exact hroom.imp_right fun hroom => ⟨honest_of_room h.toBounded hroom, fun _ => hwriters⟩
    · intro hfits
      refine ⟨nofun, fun b' result heq => ?_⟩
      cases heq
      refine (hleaves buf).mpr ?_
      rw [hsize]
      by_cases hnone : incomingBuf.bytes.length = 0
      · rw [hnone]
        exact writersWait_of_awake hawake hstate
      · exact (hfits.resolve_left hnone).2 (hroom.resolve_left hnone)
  · rw [not_or] at hroom
    rcases put_short junk h incomingBuf.lt hroom.1 hroom.2 with ⟨hhonest, hdone⟩ | ⟨hdishonest, hdone⟩
    · rw [hdone]
      refine ⟨fun _ => .inr ⟨hhonest, fun hfits => absurd hfits hroom.2⟩, fun _ => ⟨nofun, nofun⟩⟩
    · rw [hdone]
      refine ⟨fun hends => absurd rfl hends.1, fun hfits => ?_⟩
      exact absurd (hfits.resolve_left hroom.1).1 hdishonest

theorem take_endsWell_iff {readSize : Nat} (h : Orderly b.buf) (hawake : (boundedBuffer junk).Awake w)
    (hstate : w.state = .ok b) (htake : b.perform junk r = b.take junk r.found readSize)
    (hle : readSize ≤ b.buf.contentSize) (hfull : b.notifies r .full = false) :
    EndsWell junk w b r ↔ (r.found = true → WritersWait w b (b.buf.contentSize - readSize)) := by
  have hlen := h.length_content
  rw [EndsWell, htake]
  by_cases hfound : readSize = 0 ∨ r.found = true
  · obtain ⟨buf, hdone, horderly, hcontent⟩ := take_ok junk h hle hfound
    have hsize : buf.contentSize = b.buf.contentSize - readSize := by
      rw [← horderly.length_content, hcontent, List.length_drop, hlen]
    have hleaves : (boundedBuffer junk).LeavesWaiting w b r { b with buf := buf } ↔
        WritersWait w b buf.contentSize :=
      leavesWaiting_iff hawake hstate rfl hfull (.inr (by dsimp only; omega))
    rw [hdone]
    constructor
    · rintro ⟨-, hends⟩ _
      rw [← hsize]
      exact hleaves.mp (hends _ _ rfl)
    · intro hwriters
      refine ⟨nofun, fun b' result heq => ?_⟩
      cases heq
      refine hleaves.mpr ?_
      rw [hsize]
      rcases hfound with hnone | hfound
      · rw [hnone]
        exact writersWait_of_awake hawake hstate
      · exact hwriters hfound
  · rw [not_or, Bool.not_eq_true] at hfound
    rw [hfound.2, take_short junk h hle hfound.1]
    exact ⟨fun _ => nofun, fun _ => ⟨nofun, nofun⟩⟩

/-- A change of the maximum is told to the writers, and is nothing to the readers. -/
theorem setMax_endsWell {max : UInt32} {found : Bool} (hawake : (boundedBuffer junk).Awake w)
    (hstate : w.state = .ok b) : EndsWell junk w b ⟨.setMax max, found⟩ := by
  refine ⟨nofun, fun b' result heq => ?_⟩
  cases heq
  intro thread waiting hblocked hnot
  have hbefore := hawake b hstate thread waiting hblocked
  obtain ⟨call, found'⟩ := waiting
  cases call with
  | enqueue incomingBuf =>
      have hsame : b.maxSize = max := by
        by_contra hne
        have htold : (b.maxSize != max && BufferCond.full == BufferCond.full) = true := by
          rw [bne_iff_ne.mpr hne]
          rfl
        exact absurd htold (Bool.eq_false_iff.mp hnot)
      rw [← hsame]
      exact hbefore
  | dequeue maxReadSize => exact hbefore
  | dequeueExact readSize => exact hbefore
  | forceEnqueue _ => cases hbefore
  | setMax _ => cases hbefore

/-- **One call disturbs nobody** exactly if it meets the condition. -/
theorem endsWell_iff (h : Orderly b.buf) (hawake : (boundedBuffer junk).Awake w) (hstate : w.state = .ok b)
    (hgo : b.mustWait r.call = false) : EndsWell junk w b r ↔ Undisturbing w b r := by
  obtain ⟨call, found⟩ := r
  cases call with
  | enqueue incomingBuf => exact put_endsWell_iff h hawake hstate rfl rfl rfl
  | forceEnqueue incomingBuf => exact put_endsWell_iff h hawake hstate rfl rfl rfl
  | dequeue maxReadSize =>
      have hrest : b.buf.contentSize - maxReadSize.toNat = b.buf.contentSize -
          (if b.buf.contentSize ≥ maxReadSize.toNat then maxReadSize.toNat else b.buf.contentSize) := by
        split <;> omega
      rw [Undisturbing]
      dsimp only
      rw [hrest]
      exact take_endsWell_iff h hawake hstate rfl (readSize_le b _) rfl
  | dequeueExact readSize =>
      have hle : readSize.toNat ≤ b.buf.contentSize := Nat.not_lt.mp (of_decide_eq_false hgo)
      exact take_endsWell_iff h hawake hstate rfl hle rfl
  | setMax max => exact ⟨fun _ => trivial, fun _ => setMax_endsWell hawake hstate⟩

theorem sound_step_iff [DecidableEq τ] (hkept : Kept w ∧ dequeued w.log <+: enqueued w.log)
    (hawake : (boundedBuffer junk).Awake w) (hstep : (boundedBuffer junk).step w i = some w') :
    Sound junk w' ↔ UndisturbingStep w i := by
  have hdefined := HaltingMonitor.halts_step_iff (e := Fault.outOfBounds) hstep
  have hawake' := HaltingMonitor.awake_step_iff hawake hstep
  constructor
  · rintro ⟨hnot, -, hnext⟩ b r hstate hop hgo
    refine (endsWell_iff (hkept.1 b hstate).1 hawake hstate hgo).mp
      ⟨fun herror => ?_, fun b' result hdone => ?_⟩
    · exact hnot (hdefined.mpr ⟨b, r, hstate, hop, hgo, herror⟩)
    · exact hawake'.mp hnext b r b' result hstate hop hgo hdone
  · intro hundisturbing
    have hends : ∀ b r, w.state = .ok b → w.entering i = some r → b.mustWait r.call = false →
        EndsWell junk w b r := fun b r hstate hop hgo =>
      (endsWell_iff (hkept.1 b hstate).1 hawake hstate hgo).mpr (hundisturbing b r hstate hop hgo)
    refine ⟨fun hend => ?_, (kept_step hkept hstep).2, hawake'.mpr ?_⟩
    · obtain ⟨b, r, hstate, hop, hgo, herror⟩ := hdefined.mp hend
      exact (hends b r hstate hop hgo).1 herror
    · intro b r b' result hstate hop hgo hdone
      exact (hends b r hstate hop hgo).2 b' result hdone

end Steps

/-! ## Runs -/

/-- A buffer with a maximum, and nobody at it yet. -/
def start (τ : Type) (max : UInt32) : BufferWorld τ := Monitor.boot (.ok { maxSize := max })

theorem kept_start (max : UInt32) : Kept (start τ max) ∧
    dequeued (start τ max).log <+: enqueued (start τ max).log := by
  refine ⟨fun b hb => ?_, List.prefix_refl _⟩
  cases hb
  exact ⟨orderly_fresh, rfl⟩

/--
**The buffer is safe in a run** exactly if every call that gets past its wait leaves those writers
waiting who are blocked, and puts no more into the buffer than a word counts.
-/
theorem sound_run_iff [DecidableEq τ] {max : UInt32}
    {ts : List (Transition (BufferWorld τ) (MonitorInput τ BufferRequest))} {last : BufferWorld τ}
    (hr : Run (boundedBuffer junk).step (start τ max) ts last) :
    (∀ tr ∈ ts, Sound junk tr.target) ↔ ∀ tr ∈ ts, UndisturbingStep tr.source tr.input := by
  refine hr.forall_good_iff (fun w => Kept w ∧ dequeued w.log <+: enqueued w.log)
    (boundedBuffer junk).Awake (kept_start max) (HaltingMonitor.awake_boot _ _) ?_ ?_ ?_
  · intro u i v hu hstep
    exact kept_step hu hstep
  · intro u i v _ _ _ hsound
    exact hsound.awake
  · intro u i v hu hawake hstep
    exact sound_step_iff hu hawake hstep

/-- A reader waits for two bytes, is woken up when there are three, and another one gets the rest. -/
theorem threeBytes_sound : ∃ ts last, Run (boundedBuffer fun _ => 0).step (start Nat 8) ts last ∧
    dequeued last.log = [1, 2, 3] ∧
      ((∀ tr ∈ ts, Sound (fun _ => 0) tr.target) ↔ ∀ tr ∈ ts, UndisturbingStep tr.source tr.input) := by
  obtain ⟨ts, last, hr, hcheck⟩ := Run.exists_of_test (boundedBuffer fun _ => 0).step (start Nat 8)
    [.call 1 ⟨.dequeueExact 2, true⟩, .call 0 ⟨.enqueue ⟨[1, 2, 3], by decide⟩, true⟩, .resume 1,
      .call 2 ⟨.dequeue 5, true⟩]
    (fun _ last => dequeued last.log == [1, 2, 3]) (by decide +kernel)
  exact ⟨ts, last, hr, beq_iff_eq.mp hcheck, sound_run_iff hr⟩

/-- Is the thread blocked in a call that could go on? -/
def forgotten (w : BufferWorld Nat) (thread : Nat) : Bool :=
  match w.state, w.phase thread with
  | .ok b, .blocked r => !b.mustWait r.call
  | _, _ => false

theorem not_awake_of_forgotten {w : BufferWorld Nat} {thread : Nat} (h : forgotten w thread = true) :
    ¬ (boundedBuffer junk).Awake w := by
  intro hawake
  unfold forgotten at h
  split at h
  · rename_i b r hstate hblocked
    have hwait : b.mustWait r.call = true := hawake b hstate thread r hblocked
    rw [hwait] at h
    cases h
  · cases h

/-- A writer who is blocked by a buffer of four stays blocked when a reader has emptied it. -/
theorem emptiedBuffer_forgets : ¬ ∀ (junk : Nat → UInt8) (max : UInt32)
    (ts : List (Transition (BufferWorld Nat) (MonitorInput Nat BufferRequest))) (last : BufferWorld Nat),
      Run (boundedBuffer junk).step (start Nat max) ts last → ∀ tr ∈ ts, Sound junk tr.target := by
  intro h
  obtain ⟨ts, last, hr, hcheck⟩ := Run.exists_of_test (boundedBuffer fun _ => 0).step (start Nat 4)
    [.call 0 ⟨.enqueue ⟨[1, 2, 3], by decide⟩, true⟩, .call 1 ⟨.enqueue ⟨[4], by decide⟩, true⟩,
      .call 2 ⟨.dequeue 3, true⟩]
    (fun ts _ => ts.any fun tr => forgotten tr.target 1) (by decide +kernel)
  obtain ⟨tr, htr, hforgotten⟩ := List.any_eq_true.mp hcheck
  exact not_awake_of_forgotten hforgotten (h _ _ _ _ hr tr htr).awake

end BoundedBuffers

end IronStack.Proof

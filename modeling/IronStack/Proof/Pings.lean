import IronStack.Lib.Machine
import IronStack.Lib.OrdMap
import IronStack.Net.EchoDaemon

/-!
# Pings and the replies to them

A ping returns a time exactly when a reply with its sequence number was taken up while its
request was in the queue, and notified before the ping returned. This needs that no ping
registers under the number of another one that has not returned yet. It is so while fewer
than 2^32 pings are made without a shutdown of the daemon: a shutdown sets the next number
back to 0, but it does not wait for the pings that it fails.
-/

namespace IronStack.Proof.EchoDaemon

open IronStack Lib IronStack.EchoDaemon

variable {s s' : EchoDaemon} {call call' : PingCall} {thread i : Nat}

/-! ## What a ping has to do with replies -/

/-- The request of a ping is in the queue, if nobody took it out. -/
def awaits : PingPhase → Bool
  | .registered => true
  | .waiting => true
  | .woken => true
  | .leaving => false
  | .returned _ => false

def finished : PingPhase → Bool
  | .returned _ => true
  | _ => false

theorem finished_of_awaits {phase : PingPhase} (h : awaits phase = true) : finished phase = false := by
  cases phase with
  | returned b => cases h
  | _ => rfl

/-- How far a reply to a ping has come. -/
inductive ReplyProgress where
  | none
  /-- It was taken up while the ping awaited it. -/
  | taken
  /-- It was notified before the ping returned. -/
  | notified
  /-- The daemon was shut down before. -/
  | missed
deriving DecidableEq

/-- The packet processing thread is at a reply with the number of a ping that awaits it. -/
def ReplyFor (s : EchoDaemon) (call : PingCall) : Prop :=
  s.filter = .looking (s.requests call.request).seq ∧ awaits call.phase = true

instance (s : EchoDaemon) (call : PingCall) : Decidable (ReplyFor s call) :=
  inferInstanceAs (Decidable (_ ∧ _))

/-- What a step does for a ping. -/
def advance (s : EchoDaemon) (call : PingCall) (p : ReplyProgress) : EchoInput → ReplyProgress
  | .takeOut => if p = .none ∧ ReplyFor s call then .taken else p
  | .notify => if p = .taken ∧ finished call.phase = false then .notified else p
  | .shutdown => if p = .none ∧ s.initialized = true then .missed else p
  | _ => p

def follow (i : Nat) (p : ReplyProgress) (tr : Transition EchoDaemon EchoInput) : ReplyProgress :=
  match tr.source.pings i with
  | none => p
  | some call => advance tr.source call p tr.input

/-- How far a reply to the ping of a thread came in a run. -/
def replyProgress (i : Nat) (ts : List (Transition EchoDaemon EchoInput)) : ReplyProgress :=
  ts.foldl (follow i) .none

/--
A ping returns a time exactly if a reply to it was notified; a reply that was taken up is on
its way to the ping; and no reply is for two pings.
-/
structure PingsSound (ts : List (Transition EchoDaemon EchoInput)) (s : EchoDaemon) : Prop where
  answered : ∀ i call b, s.pings i = some call → call.phase = .returned b →
    (b = true ↔ replyProgress i ts = .notified)
  delivered : ∀ i call, s.pings i = some call → finished call.phase = false → replyProgress i ts = .taken →
    s.filter = .notifying call.request
  alone : ∀ tr ∈ ts, ∀ i i' call call', tr.source.pings i = some call → tr.source.pings i' = some call' →
    ReplyFor tr.source call → ReplyFor tr.source call' → i = i'

/-- A ping registers under a number that no ping has that has not returned. -/
def Fresh (s : EchoDaemon) (input : EchoInput) : Prop :=
  ∀ thread now destMac, input = .register thread now destMac → ∀ i call, s.pings i = some call →
    finished call.phase = false → (s.requests call.request).seq ≠ s.seq

/-! ## Invariants -/

/-- Requests have numbers below the next, and no two pings have one in common. -/
structure RequestsOk (s : EchoDaemon) : Prop where
  looking : ∀ i, (s.lookups i).isSome = true → s.pings i = none
  queued : ∀ (v : UInt32) r, s.waitQueue[v]? = some r → r < s.nextRequest
  filter : ∀ r, s.filter = .notifying r → r < s.nextRequest
  called : ∀ i call, s.pings i = some call → call.request < s.nextRequest
  request_ne : ∀ i i' call call', i ≠ i' → s.pings i = some call → s.pings i' = some call' →
    call.request ≠ call'.request
  seq_ne : ∀ i i' call call', i ≠ i' → s.pings i = some call → s.pings i' = some call' →
    finished call.phase = false → finished call'.phase = false →
    (s.requests call.request).seq ≠ (s.requests call'.request).seq

/-- Where the request of a ping is that has not returned. -/
structure Progress (s : EchoDaemon) (call : PingCall) (p : ReplyProgress) : Prop where
  status : (s.requests call.request).status = true ↔ p = .notified
  filter : s.filter = .notifying call.request ↔ p = .taken
  queue : ∀ (v : UInt32), s.waitQueue[v]? = some call.request ↔
    p = .none ∧ awaits call.phase = true ∧ v = (s.requests call.request).seq

/-- The invariant of the ping of a thread. -/
structure PingOk (s : EchoDaemon) (i : Nat) (p : ReplyProgress) : Prop where
  absent : s.pings i = none → p = .none
  progress : ∀ call, s.pings i = some call → finished call.phase = false → Progress s call p
  returned : ∀ call b, s.pings i = some call → call.phase = .returned b → (b = true ↔ p = .notified)

variable {p : ReplyProgress}

/-- A ping does not see what other fields become. -/
theorem Progress.congr (h : Progress s call p) (hrequest : call'.request = call.request)
    (hphase : awaits call'.phase = awaits call.phase)
    (hrequests : s'.requests call.request = s.requests call.request)
    (hfilter : s'.filter = .notifying call.request ↔ s.filter = .notifying call.request)
    (hqueue : ∀ (v : UInt32), s'.waitQueue[v]? = some call.request ↔ s.waitQueue[v]? = some call.request) :
    Progress s' call' p where
  status := by rw [hrequest, hrequests, h.status]
  filter := by rw [hrequest, hfilter, h.filter]
  queue := by
    intro v
    rw [hrequest, hphase, hrequests, hqueue, h.queue]

/-- The same for a ping in any phase, while its own call is as it was. -/
theorem PingOk.congr (hok : PingOk s i p) (hpings : s'.pings i = s.pings i)
    (hrequests : ∀ call, s.pings i = some call → s'.requests call.request = s.requests call.request)
    (hfilter : ∀ r, s'.filter = .notifying r ↔ s.filter = .notifying r)
    (hqueue : ∀ call, s.pings i = some call → finished call.phase = false →
      ∀ (v : UInt32), s'.waitQueue[v]? = some call.request ↔ s.waitQueue[v]? = some call.request) :
    PingOk s' i p where
  absent := by
    rw [hpings]
    exact hok.absent
  progress := by
    intro call hcall hfinished
    rw [hpings] at hcall
    exact (hok.progress call hcall hfinished).congr rfl rfl (hrequests call hcall) (hfilter _)
      (hqueue call hcall hfinished)
  returned := by
    rw [hpings]
    exact hok.returned

/-- Requests stay apart where pings go on, and nothing is put into the queue. -/
theorem RequestsOk.congr (h : RequestsOk s) (hlookups : s'.lookups = s.lookups)
    (hnext : s'.nextRequest = s.nextRequest)
    (hseq : ∀ r, (s'.requests r).seq = (s.requests r).seq)
    (hqueue : ∀ (v : UInt32) r, s'.waitQueue[v]? = some r → s.waitQueue[v]? = some r)
    (hfilter : ∀ r, s'.filter = .notifying r → r < s.nextRequest)
    (hpings : ∀ i call', s'.pings i = some call' → ∃ call, s.pings i = some call ∧
      call'.request = call.request ∧
      (finished call'.phase = false → finished call.phase = false)) :
    RequestsOk s' where
  looking := by
    intro i hi
    rw [hlookups] at hi
    cases hcall' : s'.pings i with
    | none => rfl
    | some call' =>
        obtain ⟨call, hcall, -⟩ := hpings i call' hcall'
        cases (h.looking i hi).symm.trans hcall
  queued := by
    intro v r hr
    rw [hnext]
    exact h.queued v r (hqueue v r hr)
  filter := by
    rw [hnext]
    exact hfilter
  called := by
    intro i call' hcall'
    obtain ⟨call, hcall, heq, -⟩ := hpings i call' hcall'
    rw [hnext, heq]
    exact h.called i call hcall
  request_ne := by
    intro i i' call₁' call₂' hne h₁' h₂'
    obtain ⟨call₁, h₁, heq₁, -⟩ := hpings i call₁' h₁'
    obtain ⟨call₂, h₂, heq₂, -⟩ := hpings i' call₂' h₂'
    rw [heq₁, heq₂]
    exact h.request_ne i i' call₁ call₂ hne h₁ h₂
  seq_ne := by
    intro i i' call₁' call₂' hne h₁' h₂' hf₁ hf₂
    obtain ⟨call₁, h₁, heq₁, hfin₁⟩ := hpings i call₁' h₁'
    obtain ⟨call₂, h₂, heq₂, hfin₂⟩ := hpings i' call₂' h₂'
    rw [hseq, hseq, heq₁, heq₂]
    exact h.seq_ne i i' call₁ call₂ hne h₁ h₂ (hfin₁ hf₁) (hfin₂ hf₂)

/-- A ping that has not returned is as its progress says. -/
theorem Progress.pingOk (h : Progress s call p) (hcall : s.pings i = some call)
    (hfinished : finished call.phase = false) : PingOk s i p where
  absent := by
    rw [hcall]
    rintro ⟨⟩
  progress := by
    intro call' hcall' _
    rw [← Option.some.inj (hcall.symm.trans hcall')]
    exact h
  returned := by
    intro call' b hcall' hphase
    rw [← Option.some.inj (hcall.symm.trans hcall')] at hphase
    rw [hphase] at hfinished
    cases hfinished

/-! ## What a step does -/

theorem setPing_self (s : EchoDaemon) (thread : Nat) (call : PingCall) :
    (s.setPing thread call).pings thread = some call :=
  if_pos rfl

theorem setPing_of_ne (hne : i ≠ thread) (s : EchoDaemon) (call : PingCall) :
    (s.setPing thread call).pings i = s.pings i :=
  if_neg hne

/-- A ping goes on from one phase to the next. -/
theorem goOn_eq_some {phase next : PingPhase} (h : s.goOn thread phase next = some (call, s')) :
    s.pings thread = some call ∧ call.phase = phase ∧ s' = s.setPing thread { call with phase := next } := by
  rw [goOn] at h
  split at h
  · cases h
  · rename_i call₀ hcall
    split at h
    · rename_i hphase
      cases h
      exact ⟨hcall, hphase, rfl⟩
    · cases h

/-- Pings go on one at a time. -/
theorem pings_setPing (hcall : s.pings thread = some call) {phase : PingPhase}
    (hfinished : finished call.phase = false) (i : Nat) (call' : PingCall)
    (h : (s.setPing thread { call with phase }).pings i = some call') :
    ∃ call, s.pings i = some call ∧ call'.request = call.request ∧
      (finished call'.phase = false → finished call.phase = false) := by
  by_cases hi : i = thread
  · rw [hi, setPing_self] at h
    rw [← Option.some.inj h, hi]
    exact ⟨call, hcall, rfl, fun _ => hfinished⟩
  · rw [setPing_of_ne hi] at h
    exact ⟨call', h, rfl, id⟩

theorem RequestsOk.setPing (h : RequestsOk s) (hcall : s.pings thread = some call) (phase : PingPhase)
    (hfinished : finished call.phase = false) : RequestsOk (s.setPing thread { call with phase }) :=
  h.congr rfl rfl (fun _ => rfl) (fun _ _ hr => hr) h.filter (pings_setPing hcall hfinished)

/-- A ping goes on, and awaits a reply if it did. -/
theorem PingOk.setPing (hok : PingOk s i p) (hcall : s.pings thread = some call) {phase : PingPhase}
    (hfinished : finished call.phase = false) (hfinished' : finished phase = false)
    (hawaits : awaits phase = awaits call.phase) : PingOk (s.setPing thread { call with phase }) i p := by
  by_cases hi : i = thread
  · rw [hi] at hok ⊢
    have hprogress : Progress (s.setPing thread { call with phase }) { call with phase } p :=
      (hok.progress call hcall hfinished).congr rfl hawaits rfl Iff.rfl fun _ => Iff.rfl
    exact hprogress.pingOk (setPing_self s thread _) hfinished'
  · exact hok.congr (setPing_of_ne hi s _) (fun _ _ => rfl) (fun _ => Iff.rfl) fun _ _ _ _ => Iff.rfl

/-- Who erases its number has its own request out of the queue, and leaves the others there. -/
theorem PingOk.erase (hok : PingOk s i p) (hrequests : RequestsOk s) (hcall : s.pings thread = some call)
    (hphase : call.phase = .woken) :
    PingOk { s.setPing thread { call with phase := .leaving } with
      waitQueue := s.waitQueue.erase (s.requests call.request).seq } i p := by
  have hfinished : finished call.phase = false := by rw [hphase]; rfl
  by_cases hi : i = thread
  · rw [hi] at hok ⊢
    have hprogress := hok.progress call hcall hfinished
    have hleft : Progress { s.setPing thread { call with phase := .leaving } with
        waitQueue := s.waitQueue.erase (s.requests call.request).seq } { call with phase := .leaving } p := by
      refine ⟨hprogress.status, hprogress.filter, fun v => ⟨fun hqueue => ?_, fun h => (by cases h.2.1)⟩⟩
      rw [getElem?_erase] at hqueue
      split at hqueue
      · cases hqueue
      · rename_i hv
        exact absurd ((hprogress.queue v).mp hqueue).2.2.symm hv
    exact hleft.pingOk (setPing_self s thread _) rfl
  · refine hok.congr (setPing_of_ne hi s _) (fun _ _ => rfl) (fun _ => Iff.rfl) fun call' hcall' hfinished' v => ?_
    dsimp only
    rw [getElem?_erase]
    split
    · rename_i hv
      refine ⟨fun hqueue => (by cases hqueue), fun hqueue => ?_⟩
      have hseq := (((hok.progress call' hcall' hfinished').queue v).mp hqueue).2.2
      exact absurd (hv.trans hseq) (hrequests.seq_ne thread i call call' (Ne.symm hi) hcall hcall' hfinished hfinished')
    · exact Iff.rfl

/-- A ping returns what is noted in its request. -/
theorem PingOk.finish (hok : PingOk s i p) (hcall : s.pings thread = some call) (hphase : call.phase = .leaving) :
    PingOk (s.setPing thread { call with phase := .returned (s.requests call.request).status }) i p := by
  by_cases hi : i = thread
  · rw [hi] at hok ⊢
    have hfinished : finished call.phase = false := by rw [hphase]; rfl
    have hprogress := hok.progress call hcall hfinished
    refine ⟨fun hnone => ?_, fun call' hcall' hfinished' => ?_, fun call' b hcall' hphase' => ?_⟩
    · rw [setPing_self] at hnone
      cases hnone
    · rw [setPing_self] at hcall'
      rw [← Option.some.inj hcall'] at hfinished'
      cases hfinished'
    · rw [setPing_self] at hcall'
      rw [← Option.some.inj hcall'] at hphase'
      rw [← PingPhase.returned.inj hphase']
      exact hprogress.status
  · exact hok.congr (setPing_of_ne hi s _) (fun _ _ => rfl) (fun _ => Iff.rfl) fun _ _ _ _ => Iff.rfl

/-! ## A registration -/

theorem requests_enqueue_of_lt {r : Nat} (hr : r < s.nextRequest) (dest : IpAddress) (destMac : MacAddress)
    (ports : Std.ExtTreeSet UInt16) : (s.enqueue thread dest destMac ports).requests r = s.requests r :=
  if_neg (Nat.ne_of_lt hr)

theorem requests_enqueue_self (s : EchoDaemon) (dest : IpAddress) (destMac : MacAddress)
    (ports : Std.ExtTreeSet UInt16) :
    (s.enqueue thread dest destMac ports).requests s.nextRequest = { seq := s.seq } :=
  if_pos rfl

/-- The ping of the thread is the new one, and the others are as they were. -/
theorem pings_enqueue {dest : IpAddress} {destMac : MacAddress} {ports : Std.ExtTreeSet UInt16}
    (h : (s.enqueue thread dest destMac ports).pings i = some call) :
    i = thread ∧ call.request = s.nextRequest ∨ i ≠ thread ∧ s.pings i = some call := by
  by_cases hi : i = thread
  · rw [hi] at h
    cases (setPing_self s thread _).symm.trans h
    exact .inl ⟨hi, rfl⟩
  · exact .inr ⟨hi, (setPing_of_ne hi s _).symm.trans h⟩

theorem RequestsOk.enqueue (h : RequestsOk s)
    (hfresh : ∀ i call, s.pings i = some call → finished call.phase = false →
      (s.requests call.request).seq ≠ s.seq)
    (dest : IpAddress) (destMac : MacAddress) (ports : Std.ExtTreeSet UInt16) :
    RequestsOk (s.enqueue thread dest destMac ports) where
  looking := by
    intro i hi
    by_cases hthread : i = thread
    · rw [EchoDaemon.enqueue] at hi
      dsimp only at hi
      rw [if_pos hthread] at hi
      cases hi
    · rw [EchoDaemon.enqueue] at hi
      dsimp only at hi
      rw [if_neg hthread] at hi
      exact (setPing_of_ne hthread s _).trans (h.looking i hi)
  queued := by
    intro v r hr
    change (s.waitQueue.insert s.seq s.nextRequest)[v]? = some r at hr
    rw [getElem?_insert] at hr
    split at hr
    · rw [← Option.some.inj hr]
      exact Nat.lt_succ_self _
    · exact Nat.lt_succ_of_lt (h.queued v r hr)
  filter := by
    intro r hr
    exact Nat.lt_succ_of_lt (h.filter r hr)
  called := by
    intro i call hcall
    rcases pings_enqueue hcall with ⟨-, heq⟩ | ⟨-, hcall⟩
    · rw [heq]
      exact Nat.lt_succ_self _
    · exact Nat.lt_succ_of_lt (h.called i call hcall)
  request_ne := by
    intro i i' call call' hne hcall hcall'
    rcases pings_enqueue hcall with ⟨hi, heq⟩ | ⟨-, hcall⟩ <;>
      rcases pings_enqueue hcall' with ⟨hi', heq'⟩ | ⟨-, hcall'⟩
    · exact absurd (hi.trans hi'.symm) hne
    · rw [heq]
      exact Nat.ne_of_gt (h.called i' call' hcall')
    · rw [heq']
      exact Nat.ne_of_lt (h.called i call hcall)
    · exact h.request_ne i i' call call' hne hcall hcall'
  seq_ne := by
    intro i i' call call' hne hcall hcall' hfin hfin'
    rcases pings_enqueue hcall with ⟨hi, heq⟩ | ⟨-, hcall⟩ <;>
      rcases pings_enqueue hcall' with ⟨hi', heq'⟩ | ⟨-, hcall'⟩
    · exact absurd (hi.trans hi'.symm) hne
    · rw [heq, requests_enqueue_self, requests_enqueue_of_lt (h.called i' call' hcall')]
      exact Ne.symm (hfresh i' call' hcall' hfin')
    · rw [heq', requests_enqueue_self, requests_enqueue_of_lt (h.called i call hcall)]
      exact hfresh i call hcall hfin
    · rw [requests_enqueue_of_lt (h.called i call hcall), requests_enqueue_of_lt (h.called i' call' hcall')]
      exact h.seq_ne i i' call call' hne hcall hcall' hfin hfin'

/-- The new ping awaits its reply, and takes no number from another one. -/
theorem PingOk.enqueue (hok : PingOk s i p) (hrequests : RequestsOk s)
    (hlooking : (s.lookups thread).isSome = true)
    (hfresh : ∀ i call, s.pings i = some call → finished call.phase = false →
      (s.requests call.request).seq ≠ s.seq)
    (dest : IpAddress) (destMac : MacAddress) (ports : Std.ExtTreeSet UInt16) :
    PingOk (s.enqueue thread dest destMac ports) i p := by
  by_cases hi : i = thread
  · rw [hi] at hok ⊢
    have hnone := hok.absent (hrequests.looking thread hlooking)
    suffices h : Progress (s.enqueue thread dest destMac ports)
        ⟨s.nextRequest, dest, destMac, ports, .registered⟩ p from h.pingOk (setPing_self s thread _) rfl
    refine ⟨?_, ?_, fun v => ?_⟩
    · rw [requests_enqueue_self, hnone]
      exact ⟨fun hstatus => (by cases hstatus), fun h => (by cases h)⟩
    · rw [hnone]
      refine ⟨fun hfilter => ?_, fun h => (by cases h)⟩
      exact absurd (hrequests.filter s.nextRequest hfilter) (Nat.lt_irrefl _)
    · rw [requests_enqueue_self]
      change (s.waitQueue.insert s.seq s.nextRequest)[v]? = some s.nextRequest ↔ _
      rw [getElem?_insert]
      split
      · rename_i hv
        exact ⟨fun _ => ⟨hnone, rfl, hv.symm⟩, fun _ => rfl⟩
      · rename_i hv
        refine ⟨fun hqueue => ?_, fun h => absurd h.2.2.symm hv⟩
        exact absurd (hrequests.queued v s.nextRequest hqueue) (Nat.lt_irrefl _)
  · refine hok.congr (setPing_of_ne hi s _) (fun call hcall => ?_) (fun _ => Iff.rfl) fun call hcall hfinished v => ?_
    · exact requests_enqueue_of_lt (hrequests.called i call hcall) dest destMac ports
    · change (s.waitQueue.insert s.seq s.nextRequest)[v]? = some call.request ↔ _
      rw [getElem?_insert]
      split
      · rename_i hv
        refine ⟨fun heq => ?_, fun hqueue => ?_⟩
        · exact absurd (Option.some.inj heq).symm (Nat.ne_of_lt (hrequests.called i call hcall))
        · have hseq := (((hok.progress call hcall hfinished).queue v).mp hqueue).2.2
          exact absurd (hseq.symm.trans hv.symm) (hfresh i call hcall hfinished)
      · exact Iff.rfl

/-! ## Replies, and a shutdown -/

theorem advance_returned {b : Bool} (hphase : call.phase = .returned b) (s : EchoDaemon) (p : ReplyProgress)
    (input : EchoInput) : advance s call p input = .notified ↔ p = .notified := by
  cases input with
  | takeOut =>
      have hnot : ¬ ReplyFor s call := by
        rintro ⟨-, hawaits⟩
        rw [hphase] at hawaits
        cases hawaits
      rw [advance, if_neg fun h => hnot h.2]
  | notify =>
      have hfinished : finished call.phase = true := by rw [hphase]; rfl
      rw [advance, hfinished, if_neg fun h => nomatch h.2]
  | shutdown =>
      rw [advance]
      split
      · rename_i h
        rw [h.1]
        decide
      · exact Iff.rfl
  | _ => exact Iff.rfl

/-- A step that leaves pings as they are is a matter of those that have not returned. -/
theorem PingOk.advance (hok : PingOk s i p) (hcall : s.pings i = some call) (hpings : s'.pings = s.pings)
    (input : EchoInput) (h : finished call.phase = false → Progress s call p →
      Progress s' call (advance s call p input)) :
    PingOk s' i (advance s call p input) where
  absent := by
    rw [hpings, hcall]
    rintro ⟨⟩
  progress := by
    intro call' hcall' hfinished
    rw [hpings] at hcall'
    obtain rfl := Option.some.inj (hcall.symm.trans hcall')
    exact h hfinished (hok.progress call hcall hfinished)
  returned := by
    intro call' b hcall' hphase
    rw [hpings] at hcall'
    obtain rfl := Option.some.inj (hcall.symm.trans hcall')
    rw [advance_returned hphase]
    exact hok.returned call b hcall hphase

/-- The request of a ping is taken out if the reply is for it, and no other one is. -/
theorem Progress.takeOut (h : Progress s call p) (hstep : s.takeOut = some s') :
    Progress s' call (advance s call p .takeOut) := by
  rw [EchoDaemon.takeOut] at hstep
  split at hstep
  · rename_i seq hfilter
    have htaken : p ≠ .taken := by
      intro heq
      cases hfilter.symm.trans (h.filter.mpr heq)
    split at hstep
    · rename_i hqueue
      cases hstep
      have hnot : ¬ (p = .none ∧ ReplyFor s call) := by
        rintro ⟨hnone, hlooking, hawaits⟩
        obtain rfl := FilterPhase.looking.inj (hfilter.symm.trans hlooking)
        cases hqueue.symm.trans ((h.queue _).mpr ⟨hnone, hawaits, rfl⟩)
      rw [EchoDaemon.advance, if_neg hnot]
      exact ⟨h.status, ⟨fun heq => (by cases heq), fun heq => absurd heq htaken⟩, h.queue⟩
    · rename_i request hqueue
      cases hstep
      by_cases hown : request = call.request
      · rw [hown] at hqueue ⊢
        obtain ⟨hnone, hawaits, hseq⟩ := (h.queue seq).mp hqueue
        have hreply : ReplyFor s call := ⟨by rw [hfilter, hseq], hawaits⟩
        rw [EchoDaemon.advance, if_pos ⟨hnone, hreply⟩]
        refine ⟨?_, ⟨fun _ => rfl, fun _ => rfl⟩, fun v => ⟨fun hv => ?_, fun hv => (by cases hv.1)⟩⟩
        · rw [h.status, hnone]
          decide
        · dsimp only at hv
          rw [getElem?_erase] at hv
          split at hv
          · cases hv
          · rename_i hne
            exact absurd (hseq.trans ((h.queue v).mp hv).2.2.symm) hne
      · have hseq : ¬ (p = .none ∧ awaits call.phase = true ∧ seq = (s.requests call.request).seq) := by
          intro heq
          exact hown (Option.some.inj (hqueue.symm.trans ((h.queue seq).mpr heq)))
        have hnot : ¬ (p = .none ∧ ReplyFor s call) := by
          rintro ⟨hnone, hlooking, hawaits⟩
          exact hseq ⟨hnone, hawaits, FilterPhase.looking.inj (hfilter.symm.trans hlooking)⟩
        rw [EchoDaemon.advance, if_neg hnot]
        refine ⟨h.status, ⟨fun heq => ?_, fun heq => absurd heq htaken⟩, fun v => ?_⟩
        · exact absurd (FilterPhase.notifying.inj heq) hown
        · dsimp only
          rw [getElem?_erase]
          split
          · rename_i hv
            rw [← hv]
            exact ⟨fun heq => (by cases heq), fun heq => absurd heq hseq⟩
          · exact h.queue v
  · cases hstep

/-- The notification is for the ping whose request was taken out. -/
theorem Progress.notify (h : Progress s call p) (hfinished : finished call.phase = false)
    (hstep : s.notify = some s') : Progress s' call (advance s call p .notify) := by
  rw [EchoDaemon.notify] at hstep
  split at hstep
  · rename_i request hfilter
    cases hstep
    by_cases hown : call.request = request
    · have htaken := h.filter.mp (hown ▸ hfilter)
      rw [EchoDaemon.advance, if_pos ⟨htaken, hfinished⟩]
      refine ⟨?_, ⟨fun heq => (by cases heq), fun heq => (by cases heq)⟩, fun v => ?_⟩
      · dsimp only
        rw [if_pos hown]
        exact ⟨fun _ => rfl, fun _ => rfl⟩
      · refine ⟨fun hqueue => ?_, fun heq => (by cases heq.1)⟩
        cases htaken.symm.trans ((h.queue v).mp hqueue).1
    · have htaken : p ≠ .taken := by
        intro heq
        exact hown (FilterPhase.notifying.inj (hfilter.symm.trans (h.filter.mpr heq))).symm
      rw [EchoDaemon.advance, if_neg fun heq => htaken heq.1]
      refine ⟨?_, ⟨fun heq => (by cases heq), fun heq => absurd heq htaken⟩, fun v => ?_⟩
      · dsimp only
        rw [if_neg hown]
        exact h.status
      · dsimp only
        rw [if_neg hown]
        exact h.queue v
  · cases hstep

/-- A shutdown fails the pings whose requests are in the queue. -/
theorem Progress.shutdown (h : Progress s call p) : Progress s.shutdown call (advance s call p .shutdown) := by
  rw [EchoDaemon.shutdown, EchoDaemon.advance]
  split
  · rename_i hinitialized
    rw [if_neg fun heq => by rw [heq.2] at hinitialized; cases hinitialized]
    exact h
  · rename_i hinitialized
    have hstatus : p ≠ .none → s.waitQueue.toList.any (·.2 == call.request) = false := by
      intro hp
      rw [List.any_eq_false]
      intro entry hentry heq
      have hqueue := Std.ExtTreeMap.mem_toList_iff_getElem?_eq_some.mp hentry
      rw [eq_of_beq heq] at hqueue
      exact hp ((h.queue entry.1).mp hqueue).1
    by_cases hp : p = .none
    · rw [if_pos ⟨hp, by simpa using hinitialized⟩]
      refine ⟨⟨fun heq => ?_, fun heq => (by cases heq)⟩, ⟨fun heq => ?_, fun heq => (by cases heq)⟩,
        fun v => ⟨fun heq => ?_, fun heq => (by cases heq.1)⟩⟩
      · dsimp only at heq
        split at heq
        · cases heq
        · cases hp.symm.trans (h.status.mp heq)
      · cases hp.symm.trans (h.filter.mp heq)
      · cases Std.ExtTreeMap.getElem?_empty.symm.trans heq
    · rw [if_neg fun heq => hp heq.1]
      refine ⟨?_, h.filter, fun v => ⟨fun heq => ?_, fun heq => absurd heq.1 hp⟩⟩
      · dsimp only
        rw [hstatus hp]
        exact h.status
      · cases Std.ExtTreeMap.getElem?_empty.symm.trans heq

end IronStack.Proof.EchoDaemon

import IronStack.Proof.Pings

/-!
# Runs of pings

The invariants of pings hold in every run in which a new ping has a number of its own. The
numbers of the first 2^32 pings are different, as long as the daemon is not shut down.
-/

namespace IronStack.Proof.EchoDaemon

open IronStack Lib IronStack.EchoDaemon

variable {s s' : EchoDaemon} {call call' : PingCall} {thread i : Nat} {p : ReplyProgress}

/-! ## Steps and runs -/

/-- Nothing changes that pings and their requests are about. -/
structure SameRequests (s s' : EchoDaemon) : Prop where
  lookups : s'.lookups = s.lookups
  pings : s'.pings = s.pings
  requests : s'.requests = s.requests
  waitQueue : s'.waitQueue = s.waitQueue
  seq : s'.seq = s.seq
  nextRequest : s'.nextRequest = s.nextRequest
  filter : ∀ r, s'.filter = .notifying r ↔ s.filter = .notifying r

theorem SameRequests.requestsOk (hsame : SameRequests s s') (h : RequestsOk s) : RequestsOk s' := by
  refine h.congr hsame.lookups hsame.nextRequest (fun r => by rw [hsame.requests]) (fun v r hr => ?_)
    (fun r hr => h.filter r ((hsame.filter r).mp hr)) fun i call hcall => ?_
  · rw [hsame.waitQueue] at hr
    exact hr
  · rw [hsame.pings] at hcall
    exact ⟨call, hcall, rfl, id⟩

theorem SameRequests.pingOk (hsame : SameRequests s s') (hok : PingOk s i p) : PingOk s' i p :=
  hok.congr (by rw [hsame.pings]) (fun _ _ => by rw [hsame.requests]) hsame.filter
    fun _ _ _ _ => by rw [hsame.waitQueue]

/-- A new packet does not touch the requests. -/
theorem filterPacket_same {packet : PacketIn} {rawPkt : RawPacket} {done : Bool} (hidle : s.filter = .idle)
    (h : s.filterPacket packet rawPkt = .ok (done, s')) : SameRequests s s' := by
  have hself : SameRequests s s := ⟨rfl, rfl, rfl, rfl, rfl, rfl, fun _ => Iff.rfl⟩
  rw [filterPacket] at h
  split at h
  · cases h
    exact hself
  · split at h
    · cases h
      exact hself
    · obtain ⟨pkt?, -, h⟩ := bind_eq_ok.mp h
      cases pkt? with
      | none =>
          cases h
          exact hself
      | some pkt =>
          dsimp only at h
          split at h
          · cases h
            exact hself
          · split at h
            · cases h
              exact hself
            · split at h
              · obtain ⟨s₁, hnote, heq⟩ := map_eq_ok.mp h
                obtain ⟨seq, -, hnote⟩ := bind_eq_ok.mp hnote
                cases hnote
                cases heq
                refine ⟨rfl, rfl, rfl, rfl, rfl, rfl, fun r => ?_⟩
                rw [hidle]
                exact ⟨fun heq => (by cases heq), fun heq => (by cases heq)⟩
              · split at h
                · obtain ⟨s₁, hanswer, heq⟩ := map_eq_ok.mp h
                  obtain ⟨msg, -, hanswer⟩ := bind_eq_ok.mp hanswer
                  cases hanswer
                  cases heq
                  exact ⟨rfl, rfl, rfl, rfl, rfl, rfl, fun _ => Iff.rfl⟩
                · cases h
                  exact hself

theorem packet_same {packet : PacketIn} {rawPkt : RawPacket} (hstep : s.step (.packet packet rawPkt) = some s') :
    SameRequests s s' := by
  rw [step] at hstep
  split at hstep
  · cases hstep
  · rename_i hidle
    cases hfilter : s.filterPacket packet rawPkt with
    | error e =>
        rw [hfilter] at hstep
        cases hstep
    | ok result =>
        rw [hfilter] at hstep
        cases hstep
        exact filterPacket_same (Decidable.not_not.mp hidle) hfilter

/-- Most steps tell a ping nothing. -/
theorem follow_of_advance {input : EchoInput} (h : ∀ call, advance s call p input = p) :
    follow i p ⟨s, input, s'⟩ = p := by
  rw [follow]
  split
  · rfl
  · exact h _

/-- A step is about the replies to pings, and their own phases stay. -/
theorem PingOk.follow (hok : PingOk s i p) (hpings : s'.pings = s.pings) (input : EchoInput)
    (h : ∀ call, finished call.phase = false → Progress s call p →
      Progress s' call (EchoDaemon.advance s call p input)) :
    PingOk s' i (EchoDaemon.follow i p ⟨s, input, s'⟩) := by
  rw [EchoDaemon.follow]
  split
  · rename_i hnone
    rw [hok.absent hnone]
    refine ⟨fun _ => rfl, fun call hcall => ?_, fun call b hcall => ?_⟩ <;>
      cases (hpings.symm ▸ hnone).symm.trans hcall
  · rename_i call hcall
    exact hok.advance hcall hpings input (h call)

theorem RequestsOk.takeOut (h : RequestsOk s) (hstep : s.takeOut = some s') : RequestsOk s' ∧ s'.pings = s.pings := by
  rw [EchoDaemon.takeOut] at hstep
  split at hstep
  · split at hstep
    · cases hstep
      exact ⟨h.congr rfl rfl (fun _ => rfl) (fun _ _ hr => hr) (fun _ hr => by cases hr)
        fun i call hcall => ⟨call, hcall, rfl, id⟩, rfl⟩
    · rename_i request hqueue
      cases hstep
      refine ⟨h.congr rfl rfl (fun _ => rfl) (fun v r hr => ?_) (fun r hr => ?_)
        fun i call hcall => ⟨call, hcall, rfl, id⟩, rfl⟩
      · dsimp only at hr
        rw [getElem?_erase] at hr
        split at hr
        · cases hr
        · exact hr
      · rw [← FilterPhase.notifying.inj hr]
        exact h.queued _ request hqueue
  · cases hstep

theorem RequestsOk.notify (h : RequestsOk s) (hstep : s.notify = some s') : RequestsOk s' ∧ s'.pings = s.pings := by
  rw [EchoDaemon.notify] at hstep
  split at hstep
  · cases hstep
    refine ⟨h.congr rfl rfl (fun r => ?_) (fun _ _ hr => hr) (fun _ hr => by cases hr)
      fun i call hcall => ⟨call, hcall, rfl, id⟩, rfl⟩
    dsimp only
    split <;> rfl
  · cases hstep

theorem RequestsOk.shutdown (h : RequestsOk s) : RequestsOk s.shutdown ∧ s.shutdown.pings = s.pings := by
  rw [EchoDaemon.shutdown]
  split
  · exact ⟨h, rfl⟩
  · refine ⟨h.congr rfl rfl (fun r => ?_) (fun v r hr => ?_) h.filter fun i call hcall => ⟨call, hcall, rfl, id⟩, rfl⟩
    · dsimp only
      split <;> rfl
    · cases Std.ExtTreeMap.getElem?_empty.symm.trans hr

/-- A call of `ping` begins, or returns at once. -/
theorem ok_ping {dest : IpAddress} {vlanId : UInt16} {timeoutMs : Int32} (h : RequestsOk s) (hok : PingOk s i p)
    (hstep : s.ping thread dest vlanId timeoutMs = some s') : RequestsOk s' ∧ PingOk s' i p := by
  rw [ping] at hstep
  split at hstep
  · cases hstep
  · rename_i hfree
    split at hstep
    · cases hstep
      exact ⟨h, hok⟩
    · split at hstep
      · cases hstep
        exact ⟨h, hok⟩
      · split at hstep
        · cases hstep
          exact ⟨h, hok⟩
        · cases hstep
          refine ⟨⟨fun i hi => ?_, h.queued, h.filter, h.called, h.request_ne, h.seq_ne⟩,
            hok.congr rfl (fun _ _ => rfl) (fun _ => Iff.rfl) fun _ _ _ _ => Iff.rfl⟩
          dsimp only at hi ⊢
          split at hi
          · rename_i hthread
            rw [hthread]
            cases hping : s.pings thread with
            | none => rfl
            | some call =>
                rw [hping, Option.isSome_some, Bool.or_true] at hfree
                exact absurd rfl hfree
          · exact h.looking i hi

theorem portsToUse_same (s : EchoDaemon) (now : Nat) (destMac : MacAddress) (vlanId : UInt16) :
    SameRequests s (s.portsToUse now destMac vlanId).2 := by
  rw [portsToUse]
  dsimp only
  split <;> exact ⟨rfl, rfl, rfl, rfl, rfl, rfl, fun _ => Iff.rfl⟩

theorem ok_register {now : Nat} {destMac : MacAddress} (h : RequestsOk s) (hok : PingOk s i p)
    (hfresh : Fresh s (.register thread now destMac)) (hstep : s.register thread now destMac = some s') :
    RequestsOk s' ∧ PingOk s' i p := by
  rw [register] at hstep
  split at hstep
  · cases hstep
  · rename_i dest vlanId hlooking
    have hsame := portsToUse_same s now destMac vlanId
    have hfresh' : ∀ i call, (s.portsToUse now destMac vlanId).2.pings i = some call → finished call.phase = false →
        ((s.portsToUse now destMac vlanId).2.requests call.request).seq ≠ (s.portsToUse now destMac vlanId).2.seq := by
      rw [hsame.pings, hsame.requests, hsame.seq]
      exact hfresh thread now destMac rfl
    cases hstep
    refine ⟨(hsame.requestsOk h).enqueue hfresh' _ _ _,
      (hsame.pingOk hok).enqueue (hsame.requestsOk h) ?_ hfresh' _ _ _⟩
    rw [hsame.lookups, hlooking]
    rfl

/-- **One step keeps the invariants**, if a new ping has a number of its own. -/
theorem ok_step {input : EchoInput} (h : RequestsOk s) (hok : PingOk s i p) (hfresh : Fresh s input)
    (hstep : s.step input = some s') : RequestsOk s' ∧ PingOk s' i (follow i p ⟨s, input, s'⟩) := by
  cases input with
  | init =>
      cases hstep
      have hsame : SameRequests s s.init := ⟨rfl, rfl, rfl, rfl, rfl, rfl, fun _ => Iff.rfl⟩
      rw [follow_of_advance fun _ => rfl]
      exact ⟨hsame.requestsOk h, hsame.pingOk hok⟩
  | others switchMac switchState cam controller =>
      cases hstep
      rw [follow_of_advance fun _ => rfl]
      have hsame : SameRequests s { s with switchMac, switchState, cam, controller } :=
        ⟨rfl, rfl, rfl, rfl, rfl, rfl, fun _ => Iff.rfl⟩
      exact ⟨hsame.requestsOk h, hsame.pingOk hok⟩
  | shutdown =>
      cases hstep
      exact ⟨h.shutdown.1, hok.follow h.shutdown.2 .shutdown fun _ _ hprogress => hprogress.shutdown⟩
  | ping thread dest vlanId timeoutMs =>
      rw [follow_of_advance fun _ => rfl]
      exact ok_ping h hok hstep
  | register thread now destMac =>
      rw [follow_of_advance fun _ => rfl]
      exact ok_register h hok hfresh hstep
  | send thread =>
      rw [follow_of_advance fun _ => rfl]
      obtain ⟨⟨call, s₁⟩, hgo, hsend⟩ := Option.bind_eq_some_iff.mp hstep
      obtain ⟨hcall, hphase, rfl⟩ := goOn_eq_some hgo
      obtain ⟨msg, -, hsend⟩ := Option.bind_eq_some_iff.mp hsend
      have hfinished : finished call.phase = false := by rw [hphase]; rfl
      have hok₁ : PingOk (s.setPing thread { call with phase := .waiting }) i p :=
        hok.setPing hcall hfinished rfl (by rw [hphase]; rfl)
      have h₁ := h.setPing hcall .waiting hfinished
      have hsame : SameRequests (s.setPing thread { call with phase := .waiting }) s' := by
        cases hsend
        exact ⟨rfl, rfl, rfl, rfl, rfl, rfl, fun _ => Iff.rfl⟩
      exact ⟨hsame.requestsOk h₁, hsame.pingOk hok₁⟩
  | wake thread =>
      rw [follow_of_advance fun _ => rfl]
      obtain ⟨⟨call, s₁⟩, hgo, heq⟩ := Option.map_eq_some_iff.mp hstep
      obtain ⟨hcall, hphase, rfl⟩ := goOn_eq_some hgo
      have hfinished : finished call.phase = false := by rw [hphase]; rfl
      cases heq
      exact ⟨h.setPing hcall .woken hfinished, hok.setPing hcall hfinished rfl (by rw [hphase]; rfl)⟩
  | erase thread =>
      rw [follow_of_advance fun _ => rfl]
      obtain ⟨⟨call, s₁⟩, hgo, heq⟩ := Option.map_eq_some_iff.mp hstep
      obtain ⟨hcall, hphase, rfl⟩ := goOn_eq_some hgo
      have hfinished : finished call.phase = false := by rw [hphase]; rfl
      cases heq
      refine ⟨h.congr rfl rfl (fun _ => rfl) (fun v r hr => ?_) h.filter (pings_setPing hcall hfinished),
        hok.erase h hcall hphase⟩
      change (s.waitQueue.erase _)[v]? = some r at hr
      rw [getElem?_erase] at hr
      split at hr
      · cases hr
      · exact hr
  | finish thread =>
      rw [follow_of_advance fun _ => rfl]
      change s.finish thread = some s' at hstep
      rw [EchoDaemon.finish] at hstep
      split at hstep
      · cases hstep
      · rename_i call₀ hcall₀
        obtain ⟨⟨call, s₁⟩, hgo, heq⟩ := Option.map_eq_some_iff.mp hstep
        obtain ⟨hcall, hphase, rfl⟩ := goOn_eq_some hgo
        obtain rfl := Option.some.inj (hcall₀.symm.trans hcall)
        have hfinished : finished call₀.phase = false := by rw [hphase]; rfl
        cases heq
        exact ⟨h.setPing hcall _ hfinished, hok.finish hcall hphase⟩
  | packet packet rawPkt =>
      rw [follow_of_advance fun _ => rfl]
      have hsame := packet_same hstep
      exact ⟨hsame.requestsOk h, hsame.pingOk hok⟩
  | takeOut =>
      obtain ⟨hrequests, hpings⟩ := h.takeOut hstep
      exact ⟨hrequests, hok.follow hpings .takeOut fun _ _ hprogress => hprogress.takeOut hstep⟩
  | notify =>
      obtain ⟨hrequests, hpings⟩ := h.notify hstep
      exact ⟨hrequests, hok.follow hpings .notify fun _ hfinished hprogress => hprogress.notify hfinished hstep⟩

/-- A daemon that nobody has called `ping` of. -/
def fresh (controller : PacketHal) : EchoDaemon := { controller }

theorem requestsOk_fresh (controller : PacketHal) : RequestsOk (fresh controller) where
  looking := by
    rintro i ⟨⟩
  queued := by
    intro v r hr
    cases Std.ExtTreeMap.getElem?_empty.symm.trans hr
  filter := by
    intro r hr
    cases hr
  called := by
    rintro i call ⟨⟩
  request_ne := by
    rintro i i' call call' _ ⟨⟩
  seq_ne := by
    rintro i i' call call' _ ⟨⟩

theorem pingOk_fresh (controller : PacketHal) (i : Nat) : PingOk (fresh controller) i .none where
  absent := fun _ => rfl
  progress := by
    rintro call ⟨⟩
  returned := by
    rintro call b ⟨⟩

/-- **The invariants of a run.** -/
theorem ok_run {controller : PacketHal} {ts : List (Transition EchoDaemon EchoInput)}
    (hrun : Run step (fresh controller) ts s) (hfresh : ∀ tr ∈ ts, Fresh tr.source tr.input) :
    RequestsOk s ∧ ∀ i, PingOk s i (replyProgress i ts) := by
  induction hrun with
  | nil =>
      exact ⟨requestsOk_fresh controller, fun i => pingOk_fresh controller i⟩
  | @snoc ts u v input hrun hstep ih =>
      obtain ⟨hrequests, hpings⟩ := ih fun tr htr => hfresh tr (List.mem_append_left _ htr)
      have hnew := hfresh _ (List.mem_append_right _ (List.mem_singleton.mpr rfl))
      -- the invariant of the requests is the same for all pings, so any one of them will do
      refine ⟨(ok_step hrequests (hpings 0) hnew hstep).1, fun i => ?_⟩
      rw [replyProgress, List.foldl_append]
      exact (ok_step hrequests (hpings i) hnew hstep).2

/--
**Pings return what came**, in every run in which no ping registers under the number of one
that has not returned: a time if a reply with its number was taken up and notified, and
nothing else; and no reply is for two pings.
-/
theorem pings_sound {controller : PacketHal} {ts : List (Transition EchoDaemon EchoInput)}
    (hrun : Run step (fresh controller) ts s) (hfresh : ∀ tr ∈ ts, Fresh tr.source tr.input) :
    PingsSound ts s where
  answered := by
    intro i call b hcall hphase
    exact ((ok_run hrun hfresh).2 i).returned call b hcall hphase
  delivered := by
    intro i call hcall hfinished htaken
    exact (((ok_run hrun hfresh).2 i).progress call hcall hfinished).filter.mpr htaken
  alone := by
    intro tr htr i i' call call' hcall hcall' hreply hreply'
    obtain ⟨l, l', rfl⟩ := List.append_of_mem htr
    have hrequests := (ok_run (hrun.before rfl) fun tr' htr' => hfresh tr' (List.mem_append_left _ htr')).1
    by_contra hne
    have hseq := FilterPhase.looking.inj (hreply.1.symm.trans hreply'.1)
    exact hrequests.seq_ne i i' call call' hne hcall hcall' (finished_of_awaits hreply.2)
      (finished_of_awaits hreply'.2) hseq

/-! ## Without a shutdown -/

/-- Requests have their numbers in the order of their registration. -/
structure Numbered (s : EchoDaemon) : Prop where
  seq : s.seq = UInt32.ofNat s.nextRequest
  requests : ∀ r, r < s.nextRequest → (s.requests r).seq = UInt32.ofNat r

structure SameNumbers (s s' : EchoDaemon) : Prop where
  seq : s'.seq = s.seq
  nextRequest : s'.nextRequest = s.nextRequest
  requests : ∀ r, (s'.requests r).seq = (s.requests r).seq

theorem SameNumbers.numbered (hsame : SameNumbers s s') (h : Numbered s) : Numbered s' where
  seq := by rw [hsame.seq, hsame.nextRequest, h.seq]
  requests := by
    intro r hr
    rw [hsame.nextRequest] at hr
    rw [hsame.requests, h.requests r hr]

theorem SameRequests.numbers (h : SameRequests s s') : SameNumbers s s' :=
  ⟨h.seq, h.nextRequest, fun r => by rw [h.requests]⟩

theorem numbered_enqueue (h : Numbered s) (dest : IpAddress) (destMac : MacAddress)
    (ports : Std.ExtTreeSet UInt16) : Numbered (s.enqueue thread dest destMac ports) where
  seq := by
    change s.seq + 1 = UInt32.ofNat (s.nextRequest + 1)
    rw [h.seq, UInt32.ofNat_add]
    rfl
  requests := by
    intro r hr
    by_cases hlt : r < s.nextRequest
    · rw [requests_enqueue_of_lt hlt, h.requests r hlt]
    · obtain rfl : r = s.nextRequest := Nat.le_antisymm (Nat.le_of_lt_succ hr) (Nat.not_lt.mp hlt)
      rw [requests_enqueue_self, h.seq]

/-- Only a registration or a shutdown changes the numbers. -/
theorem sameNumbers_step {input : EchoInput} (hshutdown : input ≠ .shutdown)
    (hregister : ∀ thread now destMac, input ≠ .register thread now destMac) (hstep : s.step input = some s') :
    SameNumbers s s' := by
  have hself : SameNumbers s s := ⟨rfl, rfl, fun _ => rfl⟩
  cases input with
  | init =>
      cases hstep
      exact ⟨rfl, rfl, fun _ => rfl⟩
  | others =>
      cases hstep
      exact ⟨rfl, rfl, fun _ => rfl⟩
  | shutdown => exact absurd rfl hshutdown
  | ping thread dest vlanId timeoutMs =>
      change s.ping thread dest vlanId timeoutMs = some s' at hstep
      rw [ping] at hstep
      split_ifs at hstep <;> cases hstep <;> exact ⟨rfl, rfl, fun _ => rfl⟩
  | register thread now destMac => exact absurd rfl (hregister thread now destMac)
  | send thread =>
      obtain ⟨⟨call, s₁⟩, hgo, hsend⟩ := Option.bind_eq_some_iff.mp hstep
      obtain ⟨-, -, rfl⟩ := goOn_eq_some hgo
      obtain ⟨msg, -, hsend⟩ := Option.bind_eq_some_iff.mp hsend
      cases hsend
      exact ⟨rfl, rfl, fun _ => rfl⟩
  | wake thread =>
      obtain ⟨⟨call, s₁⟩, hgo, heq⟩ := Option.map_eq_some_iff.mp hstep
      obtain ⟨-, -, rfl⟩ := goOn_eq_some hgo
      cases heq
      exact ⟨rfl, rfl, fun _ => rfl⟩
  | erase thread =>
      obtain ⟨⟨call, s₁⟩, hgo, heq⟩ := Option.map_eq_some_iff.mp hstep
      obtain ⟨-, -, rfl⟩ := goOn_eq_some hgo
      cases heq
      exact ⟨rfl, rfl, fun _ => rfl⟩
  | finish thread =>
      change s.finish thread = some s' at hstep
      rw [EchoDaemon.finish] at hstep
      split at hstep
      · cases hstep
      · obtain ⟨⟨call, s₁⟩, hgo, heq⟩ := Option.map_eq_some_iff.mp hstep
        obtain ⟨-, -, rfl⟩ := goOn_eq_some hgo
        cases heq
        exact ⟨rfl, rfl, fun _ => rfl⟩
  | packet packet rawPkt =>
      exact (packet_same hstep).numbers
  | takeOut =>
      change s.takeOut = some s' at hstep
      rw [EchoDaemon.takeOut] at hstep
      split at hstep
      · split at hstep <;> cases hstep <;> exact ⟨rfl, rfl, fun _ => rfl⟩
      · cases hstep
  | notify =>
      change s.notify = some s' at hstep
      rw [EchoDaemon.notify] at hstep
      split at hstep
      · cases hstep
        refine ⟨rfl, rfl, fun r => ?_⟩
        dsimp only
        split <;> rfl
      · cases hstep

/-- A registration uses the next number. -/
theorem register_eq_some {now : Nat} {destMac : MacAddress} (hstep : s.register thread now destMac = some s') :
    ∃ s₁ dest ports, SameRequests s s₁ ∧ s' = s₁.enqueue thread dest destMac ports := by
  rw [register] at hstep
  split at hstep
  · cases hstep
  · rename_i dest vlanId _
    cases hstep
    exact ⟨_, dest, _, portsToUse_same s now destMac vlanId, rfl⟩

/-- A step without a shutdown is a registration, or leaves the numbers as they are. -/
theorem registers_or_same {input : EchoInput} (hshutdown : input ≠ .shutdown) (hstep : s.step input = some s') :
    (∃ thread now destMac s₁ dest ports, input = .register thread now destMac ∧ SameRequests s s₁ ∧
      s' = s₁.enqueue thread dest destMac ports) ∨
    (∀ thread now destMac, input ≠ .register thread now destMac) ∧ SameNumbers s s' := by
  by_cases hregister : ∀ thread now destMac, input ≠ .register thread now destMac
  · exact .inr ⟨hregister, sameNumbers_step hshutdown hregister hstep⟩
  · push Not at hregister
    obtain ⟨thread, now, destMac, rfl⟩ := hregister
    obtain ⟨s₁, dest, ports, hsame, heq⟩ := register_eq_some hstep
    exact .inl ⟨thread, now, destMac, s₁, dest, ports, rfl, hsame, heq⟩

theorem nextRequest_le_step {input : EchoInput} (hshutdown : input ≠ .shutdown) (hstep : s.step input = some s') :
    s.nextRequest ≤ s'.nextRequest := by
  rcases registers_or_same hshutdown hstep with ⟨_, _, _, s₁, _, _, -, hsame, rfl⟩ | ⟨-, hsame⟩
  · rw [← hsame.nextRequest]
    exact Nat.le_succ _
  · exact Nat.le_of_eq hsame.nextRequest.symm

theorem numbered_step {input : EchoInput} (h : Numbered s) (hshutdown : input ≠ .shutdown)
    (hstep : s.step input = some s') : Numbered s' := by
  rcases registers_or_same hshutdown hstep with ⟨_, _, _, s₁, dest, ports, -, hsame, rfl⟩ | ⟨-, hsame⟩
  · exact numbered_enqueue (hsame.numbers.numbered h) dest _ ports
  · exact hsame.numbered h

/-- Among the first 2^32 pings, a new one has a number of its own. -/
theorem fresh_step {input : EchoInput} (hrequests : RequestsOk s) (h : Numbered s)
    (hshutdown : input ≠ .shutdown) (hstep : s.step input = some s') (hfew : s'.nextRequest ≤ 2 ^ 32) :
    Fresh s input := by
  intro _ _ _ hinput i call hcall _ heq
  rcases registers_or_same hshutdown hstep with ⟨_, _, _, s₁, _, _, -, hsame, rfl⟩ | ⟨hnot, -⟩
  · have hlt := hrequests.called i call hcall
    change s₁.nextRequest + 1 ≤ 2 ^ 32 at hfew
    rw [hsame.nextRequest] at hfew
    rw [h.requests _ hlt, h.seq] at heq
    have hmod := congrArg UInt32.toNat heq
    rw [UInt32.toNat_ofNat', UInt32.toNat_ofNat', Nat.mod_eq_of_lt (by omega), Nat.mod_eq_of_lt (by omega)] at hmod
    exact Nat.ne_of_lt hlt hmod
  · exact hnot _ _ _ hinput

/-- **Numbers are fresh without a shutdown**, for the first 2^32 pings. -/
theorem fresh_of_few {controller : PacketHal} {ts : List (Transition EchoDaemon EchoInput)}
    (hrun : Run step (fresh controller) ts s) (hno : ∀ tr ∈ ts, tr.input ≠ .shutdown)
    (hfew : s.nextRequest ≤ 2 ^ 32) : Numbered s ∧ ∀ tr ∈ ts, Fresh tr.source tr.input := by
  induction hrun with
  | nil =>
      exact ⟨⟨rfl, fun r hr => absurd hr (Nat.not_lt_zero r)⟩, fun _ htr => absurd htr List.not_mem_nil⟩
  | @snoc ts u v input hrun hstep ih =>
      have hshutdown := hno _ (List.mem_append_right _ (List.mem_singleton.mpr rfl))
      obtain ⟨hnumbered, hfresh⟩ := ih (fun tr htr => hno tr (List.mem_append_left _ htr))
        (Nat.le_trans (nextRequest_le_step hshutdown hstep) hfew)
      have hnew := fresh_step (ok_run hrun hfresh).1 hnumbered hshutdown hstep hfew
      exact ⟨numbered_step hnumbered hshutdown hstep,
        List.forall_mem_append.mpr ⟨hfresh, List.forall_mem_singleton.mpr hnew⟩⟩

/-! ## One host, and its replies -/

def pingerIp : IpAddress := .ofOctets 10 0 0 1

def pingerMac : MacAddress := .ofOctets 0 1 2 3 4 5

def pingedIp : IpAddress := .ofOctets 10 0 0 2

def pingedMac : MacAddress := .ofOctets 0 1 2 3 4 6

/-- The reply to the request with number 0. -/
def firstReply : PacketIn where
  inPort := 1
  pktData := [0, 1, 2, 3, 4, 5, 0, 1, 2, 3, 4, 6, 8, 0, 0x45, 0, 0, 32, 0xd5, 0x6b, 0, 0, 64, 1, 0, 0,
    10, 0, 0, 2, 10, 0, 0, 1, 0, 0, 0, 0, 1, 0, 0x16, 1, 0, 0, 0, 0]
  size_lt := by decide

def pingInputs (thread : Nat) : List EchoInput :=
  [.init, .ping thread pingedIp 1 1000, .register thread 0 pingedMac]

def answeredInputs : List EchoInput :=
  .others pingerMac { switchIpAddress := pingerIp } {} ⟨true, []⟩ :: pingInputs 0 ++
    [.send 0, .packet firstReply { packetType := .icmp }, .takeOut, .wake 0, .erase 0, .notify, .finish 0]

/-- A ping that has returned a time, before the 2^32-th. -/
def hasAnswer (s : EchoDaemon) (thread : Nat) : Bool :=
  (s.pings thread).any (fun call => call.phase = .returned true) && decide (s.nextRequest ≤ 2 ^ 32)

def isShutdown : EchoInput → Bool
  | .shutdown => true
  | _ => false

/-- The time of the wait may be up when the reply comes, if it is notified before the ping returns. -/
theorem answered_sound : ∃ ts s call, Run step (fresh ⟨true, []⟩) ts s ∧ s.pings 0 = some call ∧
    call.phase = .returned true ∧ PingsSound ts s := by
  obtain ⟨ts, s, hrun, htest⟩ := Run.exists_of_test step (fresh ⟨true, []⟩) answeredInputs
    (fun ts s => hasAnswer s 0 && ts.all fun tr => !isShutdown tr.input) (by rfl)
  obtain ⟨hanswer, hno⟩ := Bool.and_eq_true_iff.mp htest
  obtain ⟨hreturned, hfew⟩ := Bool.and_eq_true_iff.mp hanswer
  obtain ⟨call, hcall, hphase⟩ := (Option.any_eq_true _ _).mp hreturned
  have hno' : ∀ tr ∈ ts, tr.input ≠ .shutdown := by
    intro tr htr heq
    have hinput := List.all_eq_true.mp hno tr htr
    rw [heq] at hinput
    cases hinput
  refine ⟨ts, s, call, hrun, hcall, of_decide_eq_true hphase, ?_⟩
  exact pings_sound hrun (fresh_of_few hrun hno' (of_decide_eq_true hfew)).2

/-- A ping from before a shutdown takes the number of one after it out of the queue. -/
def lostInputs : List EchoInput :=
  .others pingerMac { switchIpAddress := pingerIp } {} ⟨true, []⟩ :: pingInputs 0 ++
    [.send 0, .wake 0, .shutdown] ++ pingInputs 1 ++ [.erase 0, .packet firstReply { packetType := .icmp }, .takeOut]

/-- The reply to the second ping is lost. -/
example : ∃ ts s, Run step (fresh ⟨true, []⟩) ts s ∧ ¬ PingsSound ts s := by
  obtain ⟨ts, s, hrun, htest⟩ := Run.exists_of_test step (fresh ⟨true, []⟩) lostInputs
    (fun ts s => (s.pings 1).any (fun call => call.phase = .registered) &&
      decide (replyProgress 1 ts = .taken) && decide (s.filter = .idle)) (by rfl)
  obtain ⟨hearlier, hidle⟩ := Bool.and_eq_true_iff.mp htest
  obtain ⟨hregistered, htaken⟩ := Bool.and_eq_true_iff.mp hearlier
  obtain ⟨call, hcall, hphase⟩ := (Option.any_eq_true _ _).mp hregistered
  have hfinished : finished call.phase = false := by rw [of_decide_eq_true hphase]; rfl
  refine ⟨ts, s, hrun, fun hsound => ?_⟩
  have hfilter := hsound.delivered 1 call hcall hfinished (of_decide_eq_true htaken)
  cases hfilter.symm.trans (of_decide_eq_true hidle)

end IronStack.Proof.EchoDaemon

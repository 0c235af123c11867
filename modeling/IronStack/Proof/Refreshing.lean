import IronStack.Flow.Refreshing
import IronStack.Proof.Barrier
import IronStack.Proof.World
import Mathlib.Data.List.Nodup
import Mathlib.Data.List.ReduceOption

/-!
# When a refresh has really refreshed

A refresh waits for its transaction, and the HAL completes a transaction at the
first message with its xid, or at a barrier reply with a larger one. The tables,
though, are updated when the last message of the reply comes in. So a caller is
woken too early by a reply in several messages, by a barrier reply that overtakes
the request, by any message that happens to carry its xid, and, waiting for a
limited time, by a wakeup that means nothing.

In a run that stays away from these, `refresh_flows` only returns true once all
of the reply is in the tables. What carries the proof is the order of things: the
HAL has processed exactly the messages the switch sent before those still on the
way, and nothing of a reply is sent behind its last message, or behind the reply
to a barrier request that followed it.
-/

namespace IronStack.Proof

open IronStack Lib FlowService RefreshWorld

/--
In this step the tables became what `updateTables` makes of the flows in these messages,
and each of the flows found its place.
-/
structure UpdatesTables (t : Transition RefreshWorld RefreshInput) (fragments : List StatsFragment) :
    Prop where
  tables : t.target.flows.svc.flowTables = (updateTables t.source.flows.now
    t.source.flows.svc.flowTables (fragments.flatMap (·.flowStats))).2.1
  installed : (updateTables t.source.flows.now t.source.flows.svc.flowTables
    (fragments.flatMap (·.flowStats))).2.2 = UInt32.ofNat (fragments.flatMap (·.flowStats)).length

/-- All of the reply to a refresh has been received, and the tables were updated from it. -/
structure RefreshComplete (ts : List (Transition RefreshWorld RefreshInput)) (w : RefreshWorld)
    (number : Nat) : Prop where
  ended : ∃ f ∈ w.sent, f.number = number ∧ f.moreToFollow = false
  received : ∀ f ∈ w.sent, f.number = number → f ∈ w.received
  updated : ∀ f ∈ w.sent, f.number = number →
    ∃ t ∈ ts, ∃ fragments, f ∈ fragments ∧ UpdatesTables t fragments

/-- Every refresh that returned true was complete. -/
def RefreshesComplete (ts : List (Transition RefreshWorld RefreshInput)) (w : RefreshWorld) : Prop :=
  ∀ call, (call, true) ∈ w.returned → RefreshComplete ts w call.number

/-- A caller waits for this transaction. -/
def Awaits (w : RefreshWorld) (number : Nat) : Prop := ∃ call ∈ w.calls, call.number = number

/-- A barrier reply completes no refresh that was not sent before the barrier request. -/
def VouchesForRefreshes (w : RefreshWorld) (b : HalObject FlowCallback) : Prop :=
  ∀ o ∈ w.hal.callbackTransactions, Awaits w o.1.number → o.1.xid ≤ b.xid →
    [o.1, b].Sublist w.hal.wire

/-- Another message completes no refresh, or it is the last message of the reply to it. -/
def EndsRefresh (w : RefreshWorld) (header : HalHeader) : Prop :=
  ∀ o ∈ w.hal.callbackTransactions.find? fun o => o.1.xid == header.xid, Awaits w o.1.number →
    ∃ f ∈ w.contents.head?.join, f.number = o.1.number ∧ f.moreToFollow = false

/-- Processing this message wakes no refresh too early. -/
def CompletesInTime (w : RefreshWorld) : SwitchMessage FlowCallback → Prop
  | .barrierReply b => VouchesForRefreshes w b
  | .other header _ => HalWorld.callbackStatus? header.msgType ≠ none → EndsRefresh w header

/-- The steps that wake no refresh too early. -/
def WakesInTime (w : RefreshWorld) : RefreshInput → Prop
  | .hal .process => ∀ m ∈ w.hal.asynchronousMessages.head?, CompletesInTime w m
  | .resume number true => ∀ call ∈ w.calls, call.number = number → 0 ≤ call.timeoutMs →
      w.isDone number = true
  | _ => True

/-! ## Order on the wire -/

/-- In a list without repetition, what comes before an element is in front of it. -/
theorem pair_sublist_iff {α : Type*} {a b : α} {l l' : List α} (hnd : (l ++ b :: l').Nodup) :
    [a, b].Sublist (l ++ b :: l') ↔ a ∈ l := by
  obtain ⟨_, hnd', hdisj⟩ := List.nodup_append.mp hnd
  have hb : b ∉ l := fun hb => hdisj b hb b List.mem_cons_self rfl
  have hb' : b ∉ l' := (List.nodup_cons.mp hnd').1
  refine ⟨?_, ?_⟩
  · intro h
    obtain ⟨l₁, l₂, heq, h₁, h₂⟩ := List.sublist_append_iff.mp h
    cases l₁ with
    | nil =>
        -- both come from the tail, which has no second `b`
        have hl₂ : [a, b].Sublist (b :: l') := by
          rw [show [a, b] = l₂ from heq]
          exact h₂
        have hbl : b ∈ l' := List.singleton_sublist.mp hl₂.of_cons_cons
        exact absurd hbl hb'
    | cons x l₁ =>
        obtain ⟨rfl, _⟩ := List.cons.inj heq
        exact h₁.subset List.mem_cons_self
  · intro h
    exact (List.singleton_sublist.mpr h).append (List.singleton_sublist.mpr List.mem_cons_self)

/-! ## Only statistics touch the pending flows -/

theorem addFlow_pendingFlows {now : Nat} {svc svc' : FlowService} {a : AddFlowArgs}
    {result : AddFlowResult} (h : svc.addFlow now a = some (result, svc')) :
    svc'.pendingFlows = svc.pendingFlows := by
  rcases addFlow_cases h with ⟨_, rfl, _⟩ | ⟨_, _, hinst⟩
  · rfl
  · exact hinst.pending

theorem callAddFlow_pendingFlows {w w' : FlowWorld} {a : AddFlowArgs}
    (h : w.callAddFlow a = some w') : w'.svc.pendingFlows = w.svc.pendingFlows := by
  unfold FlowWorld.callAddFlow at h
  split at h
  · exact absurd h (by simp)
  · rename_i result svc hadd
    rw [← addFlow_pendingFlows hadd]
    dsimp only at h
    split at h <;> obtain rfl := Option.some.inj h <;> split <;> rfl

theorem foldl_enqueue_pendingFlows (l : List FlowEntry) (svc : FlowService) :
    (l.foldl (fun svc e => svc.enqueueTransaction
      (.unacknowledged (.flowMod (clearRequest e.description)))) svc).pendingFlows =
        svc.pendingFlows := by
  induction l generalizing svc with
  | nil => rfl
  | cons e l ih =>
      rw [List.foldl_cons, ih]
      rfl

theorem sendLastClear_pendingFlows (svc : FlowService) (timeoutMs : Int32) (request : ModifyFlow) :
    (svc.sendLastClear timeoutMs request).2.pendingFlows = svc.pendingFlows := by
  unfold sendLastClear
  split <;> rfl

theorem clearAllFlows_pendingFlows (now : Nat) (svc : FlowService) (timeoutMs : Int32)
    (keep : Bool) : (svc.clearAllFlows now timeoutMs keep).2.pendingFlows = svc.pendingFlows := by
  unfold clearAllFlows
  split
  · rfl
  · split
    · dsimp only
      split
      · rfl
      · rw [sendLastClear_pendingFlows, foldl_enqueue_pendingFlows]
        rfl
    · rw [sendLastClear_pendingFlows]
      rfl

theorem removeFlow_pendingFlows (now : Nat) (svc : FlowService) (cookieId : UInt64) :
    (svc.removeFlow now cookieId).2.pendingFlows = svc.pendingFlows := by
  unfold removeFlow
  split
  · rfl
  · split <;> rfl

theorem complete_pendingFlows {w w' : FlowWorld} {tid : Nat} {reply : Option OfpType}
    (h : w.complete tid reply = some w') : w'.svc.pendingFlows = w.svc.pendingFlows := by
  unfold FlowWorld.complete at h
  split at h
  · dsimp only at h
    split at h
    · exact absurd h (by simp)
    · obtain rfl := Option.some.inj h
      rfl
    · split at h
      · exact absurd h (by simp)
      · obtain ⟨t, _, rfl⟩ := Option.map_eq_some_iff.mp h
        rfl
  · exact absurd h (by simp)

theorem resume_pendingFlows {w w' : FlowWorld} {tid : Nat} {status : Bool}
    (h : w.resume tid status = some w') : w'.svc.pendingFlows = w.svc.pendingFlows := by
  unfold FlowWorld.resume at h
  split at h
  · split at h
    · exact absurd h (by simp)
    · dsimp only at h
      split at h
      · obtain ⟨svc, hfin, rfl⟩ := Option.map_eq_some_iff.mp h
        unfold addFlowFinish at hfin
        split at hfin
        · exact absurd hfin (by simp)
        · obtain ⟨t, _, rfl⟩ := Option.map_eq_some_iff.mp hfin
          rfl
      · obtain rfl := Option.some.inj h
        cases status <;> rfl
      · obtain rfl := Option.some.inj h
        rfl
  · exact absurd h (by simp)

theorem init_pendingFlows {svc svc' : FlowService} (h : svc.init = some svc') :
    svc'.pendingFlows = svc.pendingFlows := by
  unfold FlowService.init at h
  split at h
  · rw [← Option.some.inj h]
  · split at h
    · exact absurd h (by simp)
    · rw [← Option.some.inj h]

theorem shutdown_pendingFlows {svc svc' : FlowService} (h : svc.shutdown = some svc') :
    svc'.pendingFlows = svc.pendingFlows := by
  unfold FlowService.shutdown at h
  split at h
  · rw [← Option.some.inj h]
  · split at h
    · exact absurd h (by simp)
    · rw [← Option.some.inj h]

theorem getNextAvailableCookieId_pendingFlows (svc : FlowService) (random : UInt64) :
    (svc.getNextAvailableCookieId random).2.pendingFlows = svc.pendingFlows := by
  unfold getNextAvailableCookieId
  split <;> rfl

theorem step_pendingFlows {w w' : FlowWorld} {i : FlowInput} (hi : isElsewhere i = true)
    (h : w.step i = some w') : w'.svc.pendingFlows = w.svc.pendingFlows := by
  cases i with
  | statsReply flowStats moreToFollow => exact absurd hi (by simp [isElsewhere])
  | refreshFlows timeoutMs => exact absurd hi (by simp [isElsewhere])
  | tick ns =>
      obtain rfl := Option.some.inj h
      rfl
  | init =>
      obtain ⟨svc, hsvc, rfl⟩ := Option.map_eq_some_iff.mp h
      exact init_pendingFlows hsvc
  | init2 =>
      obtain rfl := Option.some.inj h
      rfl
  | init2Finish =>
      obtain rfl := Option.some.inj h
      rfl
  | shutdown =>
      obtain ⟨svc, hsvc, rfl⟩ := Option.map_eq_some_iff.mp h
      exact shutdown_pendingFlows hsvc
  | addFlow a => exact callAddFlow_pendingFlows h
  | addFlowAuto random a =>
      exact (callAddFlow_pendingFlows h).trans
        (getNextAvailableCookieId_pendingFlows w.svc random)
  | removeFlow cookieId =>
      obtain rfl := Option.some.inj h
      exact removeFlow_pendingFlows w.now w.svc cookieId
  | clearAllFlows timeoutMs keep =>
      obtain rfl := Option.some.inj h
      rw [(clear_spec w timeoutMs keep).1]
      exact clearAllFlows_pendingFlows w.now w.svc timeoutMs keep
  | flowRemoved cookie =>
      obtain rfl := Option.some.inj h
      rfl
  | complete tid reply => exact complete_pendingFlows h
  | resume tid status => exact resume_pendingFlows h

/-- A statistics reply is added to the pending flows, which its last message empties. -/
theorem update_pendingFlows {w w' : FlowWorld} {flowStats : List FlowDescriptionAndStats}
    {moreToFollow : Bool} (h : w.update flowStats moreToFollow = some w') :
    w'.svc.pendingFlows = if moreToFollow then w.svc.pendingFlows ++ flowStats else [] := by
  obtain ⟨svc, hsvc, rfl⟩ := Option.map_eq_some_iff.mp h
  rcases flowUpdateHandler_cases hsvc with ⟨rfl, rfl⟩ | ⟨rfl, _, _, hempty, _⟩
  · rfl
  · exact hempty

/-! ## What a message completes -/

/-- A completion made while processing a message: which transactions it can be of. -/
theorem process_completed {γ : Type} {w w' : HalWorld γ} (h : w.process = some w')
    {m : SwitchMessage γ} {rest : List (SwitchMessage γ)}
    (hm : w.asynchronousMessages = m :: rest) {c : HalCompletion γ} (hc : c ∈ w'.completions) :
    c ∈ w.completions ∨ ∃ o ∈ w.callbackTransactions, c.object = o.1 ∧
      match m with
      | .barrierReply b => o.1.xid ≤ b.xid
      | .other header _ => HalWorld.callbackStatus? header.msgType ≠ none ∧
          (w.callbackTransactions.find? fun o => o.1.xid == header.xid) = some o := by
  unfold HalWorld.process at h
  rw [hm] at h
  dsimp only at h
  split at h
  · obtain rfl := Option.some.inj h
    exact Or.inl hc
  · split at h
    · obtain rfl := Option.some.inj h
      exact Or.inl hc
    · rename_i status hstatus
      split at h
      · rename_i hbarrier
        obtain rfl := Option.some.inj h
        rcases List.mem_append.mp hc with hold | hnew
        · exact Or.inl hold
        · obtain ⟨o, ho, rfl⟩ := List.mem_map.mp hnew
          obtain ⟨hreg, hle⟩ := List.mem_filter.mp ho
          refine Or.inr ⟨o, hreg, rfl, ?_⟩
          cases m with
          | barrierReply b => exact of_decide_eq_true hle
          | other header hne => exact absurd hbarrier hne
      · rename_i hother
        obtain rfl := Option.some.inj h
        rcases List.mem_append.mp hc with hold | hnew
        · exact Or.inl hold
        · rw [Option.mem_toList, Option.map_eq_some_iff] at hnew
          obtain ⟨o, ho, rfl⟩ := hnew
          refine Or.inr ⟨o, List.mem_of_find?_eq_some ho, rfl, ?_⟩
          cases m with
          | barrierReply b => exact absurd rfl hother
          | other header hne =>
              refine ⟨?_, ho⟩
              intro hnone
              rw [show (SwitchMessage.other header hne).header.msgType = header.msgType from rfl,
                hnone] at hstatus
              exact absurd hstatus (by simp)

/-! ## The messages on the way -/

/-- The messages on the way, each with what it says about flows. -/
def queue (w : RefreshWorld) : List (SwitchMessage FlowCallback × Option StatsFragment) :=
  w.hal.asynchronousMessages.zip w.contents

/-- The request of a refresh, sent before a barrier request. -/
def SentAhead (w : RefreshWorld) (o b : HalObject FlowCallback) : Prop :=
  [o, b].Sublist w.hal.wire ∧ o.number ∈ w.requests

/-- The messages on the way keep the order of the requests they answer. -/
structure QueueInv (w : RefreshWorld) : Prop where
  base : HalInv w.hal
  aligned : w.contents.length = w.hal.asynchronousMessages.length
  known : ∀ n ∈ w.requests, n < w.hal.nextNumber
  called : ∀ call ∈ w.calls, call.number ∈ w.requests
  /-- The reply to a barrier request says nothing about flows. -/
  plain : ∀ p ∈ queue w, ∀ b, p.1.answers? = some b → p.2 = none
  /-- When the switch answers a barrier request, the refreshes before it are answered. -/
  vouched : ∀ p ∈ queue w, ∀ b, p.1.answers? = some b → ∀ o, SentAhead w o b →
    w.answered o.number = true
  /-- Nothing of their replies is behind the barrier reply. -/
  ahead : (queue w).Pairwise fun p q => ∀ b, p.1.answers? = some b → ∀ o, SentAhead w o b →
    ∀ f, q.2 = some f → f.number ≠ o.number

/-- What becomes of the parts of a reply. -/
structure FragmentInv (w : RefreshWorld) : Prop where
  /-- The HAL processes them in the order they were sent. -/
  sent : w.sent = w.received ++ w.contents.reduceOption
  /-- Nothing of a reply is sent behind its last part. -/
  ended : w.sent.Pairwise fun f g => g.number = f.number → f.moreToFollow = true
  accounted : ∀ f ∈ w.received, f ∈ w.pendingFragments ∨ ∃ u ∈ w.updates, f ∈ u.fragments
  /-- While a part is pending, the last part of its reply has not been received. -/
  unfinished : ∀ f ∈ w.pendingFragments, ∀ g ∈ w.received, g.number = f.number →
    g.moreToFollow = true
  pending : w.flows.svc.pendingFlows = w.pendingFragments.flatMap (·.flowStats)
  faithful : ∀ u ∈ w.updates, u.flows = u.fragments.flatMap (·.flowStats)

/-- All of the reply to a refresh has been received, and is in the updates on record. -/
structure RefreshAccounted (w : RefreshWorld) (number : Nat) : Prop where
  ended : ∃ f ∈ w.sent, f.number = number ∧ f.moreToFollow = false
  received : ∀ f ∈ w.sent, f.number = number → f ∈ w.received
  updated : ∀ f ∈ w.sent, f.number = number →
    ∃ u ∈ w.updates, f ∈ u.fragments ∧ u.flows = u.fragments.flatMap (·.flowStats)

/-- Every refresh that returned true is accounted for. -/
def RefreshesAccounted (w : RefreshWorld) : Prop :=
  ∀ call, (call, true) ∈ w.returned → RefreshAccounted w call.number

/-- What the runs that wake no refresh too early keep. -/
structure RefreshInv (w : RefreshWorld) : Prop where
  queue : QueueInv w
  fragments : FragmentInv w
  /-- A transaction a caller waits for is only completed when the refresh is complete. -/
  done : ∀ n, Awaits w n → w.isDone n = true → RefreshAccounted w n
  returned : RefreshesAccounted w

theorem answered_iff {w : RefreshWorld} {n : Nat} :
    w.answered n = true ↔ ∃ f ∈ w.sent, f.number = n ∧ f.moreToFollow = false := by
  simp [answered, List.any_eq_true]

theorem isDone_iff {w : RefreshWorld} {n : Nat} :
    w.isDone n = true ↔ ∃ c ∈ w.hal.completions, c.object.number = n := by
  simp [isDone, List.any_eq_true]

theorem refreshInv_boot (tables : List FlowTable) : RefreshInv (boot tables) where
  queue :=
    { base := halInv_boot
      aligned := rfl
      known := by simp [boot]
      called := by simp [boot]
      plain := by simp [queue, boot, HalWorld.boot]
      vouched := by simp [queue, boot, HalWorld.boot]
      ahead := by simp [queue, boot, HalWorld.boot] }
  fragments :=
    { sent := rfl
      ended := .nil
      accounted := by simp [boot]
      unfinished := by simp [boot]
      pending := rfl
      faithful := by simp [boot] }
  done n hn := by
    obtain ⟨call, hcall, _⟩ := hn
    exact absurd hcall (by simp [boot])
  returned call hcall := absurd hcall (by simp [boot])

/-! ## Steps and the messages on the way -/

theorem wire_nodup {γ : Type} {w : HalWorld γ} (h : HalInv w) : w.wire.Nodup := by
  have hnum := h.numbered
  unfold objects Proof.departed at hnum
  rw [List.map_append, List.map_append] at hnum
  have hdep := (List.nodup_append.mp hnum).2.1
  rw [List.map_append] at hdep
  exact List.Nodup.of_map _ (List.nodup_append.mp hdep).1

theorem number_lt_of_wire {γ : Type} {w : HalWorld γ} (h : HalInv w) {o : HalObject γ}
    (ho : o ∈ w.wire) : o.number < w.nextNumber :=
  h.fresh o (List.mem_append_right _ (List.mem_append_left _ ho))

theorem answered_mono {w w' : RefreshWorld} (hsent : ∀ f ∈ w.sent, f ∈ w'.sent) {n : Nat}
    (h : w.answered n = true) : w'.answered n = true := by
  obtain ⟨f, hf, hn⟩ := answered_iff.mp h
  exact answered_iff.mpr ⟨f, hsent f hf, hn⟩

namespace QueueInv

variable {w w' : RefreshWorld}

theorem mem_messages {p : SwitchMessage FlowCallback × Option StatsFragment} (hp : p ∈ queue w) :
    p.1 ∈ w.hal.asynchronousMessages := (List.of_mem_zip hp).1

/-- No message comes or goes, and no refresh gets ahead of an answered barrier request. -/
theorem of_frame (h : QueueInv w) (hbase : HalInv w'.hal)
    (hmsgs : w'.hal.asynchronousMessages = w.hal.asynchronousMessages)
    (hcontents : w'.contents = w.contents) (hsent : ∀ f ∈ w.sent, f ∈ w'.sent)
    (hknown : ∀ n ∈ w'.requests, n < w'.hal.nextNumber)
    (hcalled : ∀ call ∈ w'.calls, call.number ∈ w'.requests)
    (hahead : ∀ m ∈ w.hal.asynchronousMessages, ∀ b, m.answers? = some b →
      ∀ o, SentAhead w' o b → SentAhead w o b) : QueueInv w' := by
  have hqueue : queue w' = queue w := by
    rw [queue, queue, hmsgs, hcontents]
  refine ⟨hbase, by rw [hcontents, hmsgs, h.aligned], hknown, hcalled, ?_, ?_, ?_⟩
  · rw [hqueue]
    exact h.plain
  · rw [hqueue]
    intro p hp b hb o ho
    exact answered_mono hsent (h.vouched p hp b hb o (hahead p.1 (mem_messages hp) b hb o ho))
  · rw [hqueue]
    refine h.ahead.imp_of_mem ?_
    intro p q hp _ hpq b hb o ho
    exact hpq b hb o (hahead p.1 (mem_messages hp) b hb o ho)

/-- A message is sent. -/
theorem of_append (h : QueueInv w) (hbase : HalInv w'.hal) (hwire : w'.hal.wire = w.hal.wire)
    (hnext : w'.hal.nextNumber = w.hal.nextNumber) (hreq : w'.requests = w.requests)
    (hcalls : w'.calls = w.calls) {m : SwitchMessage FlowCallback} {content : Option StatsFragment}
    (hmsgs : w'.hal.asynchronousMessages = w.hal.asynchronousMessages ++ [m])
    (hcontents : w'.contents = w.contents ++ [content]) (hsent : ∀ f ∈ w.sent, f ∈ w'.sent)
    (hplain : ∀ b, m.answers? = some b → content = none)
    (hvouched : ∀ b, m.answers? = some b → ∀ o, SentAhead w o b → w.answered o.number = true)
    (hnew : ∀ f, content = some f → w.answered f.number = false) : QueueInv w' := by
  have hqueue : queue w' = queue w ++ [(m, content)] := by
    rw [queue, queue, hmsgs, hcontents, List.zip_append h.aligned.symm]
    rfl
  have hahead : ∀ o b, SentAhead w' o b → SentAhead w o b := by
    intro o b ho
    unfold SentAhead at ho ⊢
    rwa [hwire, hreq] at ho
  refine ⟨hbase, ?_, ?_, ?_, ?_, ?_, ?_⟩
  · rw [hcontents, hmsgs, List.length_append, List.length_append, h.aligned]
    rfl
  · rw [hreq, hnext]
    exact h.known
  · rw [hcalls, hreq]
    exact h.called
  · rw [hqueue]
    intro p hp b hb
    rcases List.mem_append.mp hp with hold | hlast
    · exact h.plain p hold b hb
    · obtain rfl := List.mem_singleton.mp hlast
      exact hplain b hb
  · rw [hqueue]
    intro p hp b hb o ho
    rcases List.mem_append.mp hp with hold | hlast
    · exact answered_mono hsent (h.vouched p hold b hb o (hahead o b ho))
    · obtain rfl := List.mem_singleton.mp hlast
      exact answered_mono hsent (hvouched b hb o (hahead o b ho))
  · rw [hqueue]
    refine List.pairwise_append.mpr ⟨?_, List.pairwise_singleton .., ?_⟩
    · exact h.ahead.imp fun hpq b hb o ho => hpq b hb o (hahead o b ho)
    · -- what is behind an answered barrier request is to no refresh that it vouched for
      intro p hp q hq b hb o ho f hf heq
      obtain rfl := List.mem_singleton.mp hq
      have hans := h.vouched p hp b hb o (hahead o b ho)
      rw [← heq, hnew f hf] at hans
      exact absurd hans (by simp)

/-- The first message leaves. -/
theorem of_tail (h : QueueInv w) (hbase : HalInv w'.hal) (hwire : w'.hal.wire = w.hal.wire)
    (hnext : w.hal.nextNumber ≤ w'.hal.nextNumber) (hreq : w'.requests = w.requests)
    (hcalls : w'.calls = w.calls) {m : SwitchMessage FlowCallback} {content : Option StatsFragment}
    (hmsgs : w.hal.asynchronousMessages = m :: w'.hal.asynchronousMessages)
    (hcontents : w.contents = content :: w'.contents) (hsent : w'.sent = w.sent) : QueueInv w' := by
  have hqueue : queue w = (m, content) :: queue w' := by
    rw [queue, queue, hmsgs, hcontents]
    rfl
  have hahead : ∀ o b, SentAhead w' o b → SentAhead w o b := by
    intro o b ho
    unfold SentAhead at ho ⊢
    rwa [hwire, hreq] at ho
  have hmem : ∀ p ∈ queue w', p ∈ queue w := by
    intro p hp
    rw [hqueue]
    exact List.mem_cons_of_mem _ hp
  refine ⟨hbase, ?_, ?_, ?_, fun p hp => h.plain p (hmem p hp), ?_, ?_⟩
  · have := h.aligned
    rw [hcontents, hmsgs] at this
    simpa using this
  · rw [hreq]
    exact fun n hn => (h.known n hn).trans_le hnext
  · rw [hcalls, hreq]
    exact h.called
  · intro p hp b hb o ho
    exact answered_mono (fun f hf => hsent ▸ hf) (h.vouched p (hmem p hp) b hb o (hahead o b ho))
  · have htail := h.ahead
    rw [hqueue] at htail
    exact (List.pairwise_cons.mp htail).2.imp fun hpq b hb o ho => hpq b hb o (hahead o b ho)

end QueueInv

/-! ## Steps and the parts of replies -/

/-- A complete refresh stays complete: nothing is added to a reply that has ended. -/
theorem RefreshAccounted.mono {w w' : RefreshWorld} {n : Nat} (h : RefreshAccounted w n)
    {new : List StatsFragment} (hsent : w'.sent = w.sent ++ new)
    (hnew : ∀ f ∈ new, w.answered f.number = false) (hrec : ∀ f ∈ w.received, f ∈ w'.received)
    (hupd : ∀ u ∈ w.updates, u ∈ w'.updates) : RefreshAccounted w' n := by
  have hold : ∀ f ∈ w'.sent, f.number = n → f ∈ w.sent := by
    intro f hf hn
    rw [hsent] at hf
    rcases List.mem_append.mp hf with hf | hf
    · exact hf
    · have hans := hnew f hf
      rw [hn, answered_iff.mpr h.ended] at hans
      exact absurd hans (by simp)
  refine ⟨?_, ?_, ?_⟩
  · obtain ⟨f, hf, hend⟩ := h.ended
    exact ⟨f, hsent ▸ List.mem_append_left _ hf, hend⟩
  · intro f hf hn
    exact hrec f (h.received f (hold f hf hn) hn)
  · intro f hf hn
    obtain ⟨u, hu, hfu⟩ := h.updated f (hold f hf hn) hn
    exact ⟨u, hupd u hu, hfu⟩

namespace FragmentInv

variable {w w' : RefreshWorld}

theorem of_frame (h : FragmentInv w) (hsent : w'.sent = w.sent) (hrec : w'.received = w.received)
    (hcontents : w'.contents.reduceOption = w.contents.reduceOption)
    (hpend : w'.pendingFragments = w.pendingFragments) (hupd : w'.updates = w.updates)
    (hflows : w'.flows.svc.pendingFlows = w.flows.svc.pendingFlows) : FragmentInv w' := by
  refine ⟨?_, ?_, ?_, ?_, ?_, ?_⟩
  · rw [hsent, hrec, hcontents]
    exact h.sent
  · rw [hsent]
    exact h.ended
  · rw [hrec, hpend, hupd]
    exact h.accounted
  · rw [hpend, hrec]
    exact h.unfinished
  · rw [hflows, hpend]
    exact h.pending
  · rw [hupd]
    exact h.faithful

/-- The switch sends a part of a reply that has not ended. -/
theorem reply (h : FragmentInv w) {f : StatsFragment} (hf : w.answered f.number = false)
    {hal : HalWorld FlowCallback} : FragmentInv
      { w with hal := hal, contents := w.contents ++ [some f], sent := w.sent ++ [f] } := by
  refine ⟨?_, ?_, h.accounted, h.unfinished, h.pending, h.faithful⟩
  · show w.sent ++ [f] = w.received ++ (w.contents ++ [some f]).reduceOption
    rw [List.reduceOption_append, ← List.append_assoc, ← h.sent]
    rfl
  · refine List.pairwise_append.mpr ⟨h.ended, List.pairwise_singleton .., ?_⟩
    intro g hg f' hf' heq
    obtain rfl := List.mem_singleton.mp hf'
    by_contra hlast
    rw [heq, answered_iff.mpr ⟨g, hg, rfl, by simpa using hlast⟩] at hf
    exact absurd hf (by simp)

/-- The last part of a reply has nothing of it behind. -/
theorem number_ne_of_behind (h : FragmentInv w) {f g : StatsFragment} {rest : List StatsFragment}
    (hsent : w.sent = w.received ++ f :: rest) (hf : f.moreToFollow = false) (hg : g ∈ rest) :
    g.number ≠ f.number := by
  intro heq
  have hended := h.ended
  rw [hsent] at hended
  have := (List.pairwise_cons.mp (List.pairwise_append.mp hended).2.1).1 g hg heq
  rw [hf] at this
  exact absurd this (by simp)

/-- Before a part of a reply, its last part has not been received. -/
theorem more_of_received (h : FragmentInv w) {f g : StatsFragment} {rest : List StatsFragment}
    (hsent : w.sent = w.received ++ f :: rest) (hg : g ∈ w.received) (heq : g.number = f.number) :
    g.moreToFollow = true := by
  have hended := h.ended
  rw [hsent] at hended
  exact (List.pairwise_append.mp hended).2.2 g hg f List.mem_cons_self heq.symm

/-- A part of a reply reaches the service. -/
theorem deliver (h : FragmentInv w) {f : StatsFragment} {rest : List (Option StatsFragment)}
    {hal : HalWorld FlowCallback} (hcontents : w.contents = some f :: rest)
    (hs : { w with hal := hal, contents := rest }.deliver f = some w') : FragmentInv w' := by
  have hsent : w.sent = w.received ++ f :: rest.reduceOption := by
    rw [h.sent, hcontents, List.reduceOption_cons_of_some]
  obtain ⟨flows, hupdate, rfl⟩ := Option.map_eq_some_iff.mp hs
  have hpending := update_pendingFlows hupdate
  dsimp only at hpending
  refine ⟨?_, h.ended, ?_, ?_, ?_, ?_⟩
  · show w.sent = (w.received ++ [f]) ++ rest.reduceOption
    rw [hsent, List.append_assoc]
    rfl
  · intro g hg
    cases hmore : f.moreToFollow with
    | true =>
        simp only [if_true]
        rcases List.mem_append.mp hg with hold | hnew
        · exact (h.accounted g hold).imp_left (List.mem_append_left _)
        · exact Or.inl (List.mem_append_right _ hnew)
    | false =>
        -- what was pending, and the last part, are in the update
        refine Or.inr ?_
        simp only [Bool.false_eq_true, if_false]
        rcases List.mem_append.mp hg with hold | hnew
        · rcases h.accounted g hold with hpend | ⟨u, hu, hgu⟩
          · exact ⟨_, List.mem_append_right _ (List.mem_singleton_self _),
              List.mem_append_left _ hpend⟩
          · exact ⟨u, List.mem_append_left _ hu, hgu⟩
        · exact ⟨_, List.mem_append_right _ (List.mem_singleton_self _),
            List.mem_append_right _ hnew⟩
  · cases hmore : f.moreToFollow with
    | false => simp
    | true =>
        simp only [if_true]
        intro p hp g hg heq
        rcases List.mem_append.mp hg with hold | hnew
        · rcases List.mem_append.mp hp with hp | hp
          · exact h.unfinished p hp g hold heq
          · obtain rfl := List.mem_singleton.mp hp
            exact h.more_of_received hsent hold heq
        · obtain rfl := List.mem_singleton.mp hnew
          exact hmore
  · rw [hpending]
    dsimp only
    cases f.moreToFollow with
    | true => simp [h.pending]
    | false => simp
  · cases f.moreToFollow with
    | true => exact h.faithful
    | false =>
        simp only [Bool.false_eq_true, if_false]
        intro u hu
        rcases List.mem_append.mp hu with hold | hnew
        · exact h.faithful u hold
        · obtain rfl := List.mem_singleton.mp hnew
          simp [h.pending]

/-- Once all of a reply has been received, with its last part, the refresh is complete. -/
theorem complete (h : FragmentInv w) {n : Nat} (hans : w.answered n = true)
    (hqueue : ∀ f ∈ w.contents.reduceOption, f.number ≠ n) : RefreshAccounted w n := by
  have hreceived : ∀ f ∈ w.sent, f.number = n → f ∈ w.received := by
    intro f hf hn
    rw [h.sent] at hf
    rcases List.mem_append.mp hf with hf | hf
    · exact hf
    · exact absurd hn (hqueue f hf)
  obtain ⟨last, hlast, hn, hmore⟩ := answered_iff.mp hans
  refine ⟨⟨last, hlast, hn, hmore⟩, hreceived, ?_⟩
  intro f hf hfn
  rcases h.accounted f (hreceived f hf hfn) with hpend | ⟨u, hu, hfu⟩
  · have := h.unfinished f hpend last (hreceived last hlast hn) (hn.trans hfn.symm)
    rw [hmore] at this
    exact absurd this (by simp)
  · exact ⟨u, hu, hfu, h.faithful u hu⟩

end FragmentInv

/-! ## Every step -/

namespace RefreshInv

variable {w w' : RefreshWorld}

/-- Steps that complete no transaction and end no call. -/
theorem of_quiet (h : RefreshInv w) (hqueue : QueueInv w') (hfrag : FragmentInv w')
    {new : List StatsFragment} (hsent : w'.sent = w.sent ++ new)
    (hnew : ∀ f ∈ new, w.answered f.number = false) (hrec : w'.received = w.received)
    (hupd : w'.updates = w.updates) (hdone : w'.hal.completions = w.hal.completions)
    (hcalls : ∀ n, Awaits w' n → w.isDone n = true → Awaits w n)
    (hret : w'.returned = w.returned) : RefreshInv w' := by
  have hkept : ∀ n, RefreshAccounted w n → RefreshAccounted w' n := fun n hn =>
    hn.mono hsent hnew (fun f hf => hrec ▸ hf) fun u hu => hupd ▸ hu
  refine ⟨hqueue, hfrag, ?_, ?_⟩
  · intro n hn hd
    have hd' : w.isDone n = true := by
      unfold isDone at hd ⊢
      rwa [hdone] at hd
    exact hkept n (h.done n (hcalls n hn hd') hd')
  · intro call hcall
    rw [hret] at hcall
    exact hkept _ (h.returned call hcall)

theorem runFlows (h : RefreshInv w) {input : FlowInput} (hs : w.runFlows input = some w') :
    RefreshInv w' := by
  unfold RefreshWorld.runFlows at hs
  split at hs
  · rename_i helse
    obtain ⟨flows, hflows, rfl⟩ := Option.map_eq_some_iff.mp hs
    refine h.of_quiet ?_ ?_ (List.append_nil _).symm (by simp) rfl rfl rfl (fun _ hn _ => hn) rfl
    · exact h.queue.of_frame h.queue.base rfl rfl (fun f hf => hf) h.queue.known h.queue.called
        fun _ _ _ _ _ ho => ho
    · exact h.fragments.of_frame rfl rfl rfl rfl rfl (step_pendingFlows helse hflows)
  · exact absurd hs (by simp)

/-- Steps of the HAL that neither send nor process anything. -/
theorem of_hal (h : RefreshInv w) {hal : HalWorld FlowCallback} (hbase : HalInv hal)
    (hwire : hal.wire = w.hal.wire) (hnext : w.hal.nextNumber ≤ hal.nextNumber)
    (hmsgs : hal.asynchronousMessages = w.hal.asynchronousMessages)
    (hdone : hal.completions = w.hal.completions) : RefreshInv (w.adopt hal) := by
  have hcontents : (w.adopt hal).contents = w.contents := by
    unfold adopt
    simp [hmsgs]
  refine h.of_quiet ?_ ?_ (List.append_nil _).symm (by simp) rfl rfl hdone (fun _ hn _ => hn) rfl
  · refine h.queue.of_frame hbase hmsgs hcontents (fun f hf => hf)
      (fun n hn => (h.queue.known n hn).trans_le hnext) h.queue.called ?_
    intro _ _ _ _ o ho
    unfold SentAhead at ho ⊢
    rwa [show (w.adopt hal).hal.wire = w.hal.wire from hwire] at ho
  · exact h.fragments.of_frame rfl rfl (by rw [hcontents]) rfl rfl rfl

/-- Sending a request leaves the order of what was sent before as it was. -/
theorem send (h : RefreshInv w) {hal : HalWorld FlowCallback} (hs : w.hal.send true = some hal) :
    RefreshInv (w.adopt hal) := by
  have hbase : HalInv hal := h.queue.base.step (i := .send true) hs
  unfold HalWorld.send at hs
  split at hs
  · exact absurd hs (by simp)
  · obtain ⟨x, _, rfl⟩ := Option.map_eq_some_iff.mp hs
    rw [if_pos rfl] at hbase ⊢
    have hcontents : (w.adopt { w.hal with sending := none, wire := w.hal.wire ++ [x] }).contents =
        w.contents := by
      unfold adopt
      simp
    refine h.of_quiet ?_ ?_ (List.append_nil _).symm (by simp) rfl rfl rfl (fun _ hn _ => hn) rfl
    · refine h.queue.of_frame hbase rfl hcontents (fun f hf => hf) h.queue.known h.queue.called ?_
      intro m hm b hb o ho
      obtain ⟨hsub, hreq⟩ := ho
      refine ⟨?_, hreq⟩
      obtain ⟨l₁, l₂, hsplit⟩ := List.append_of_mem (h.queue.base.answers m hm b hb)
      have hnd := wire_nodup h.queue.base
      have hnd' := wire_nodup hbase
      change [o, b].Sublist (w.hal.wire ++ [x]) at hsub
      change (w.hal.wire ++ [x]).Nodup at hnd'
      rw [hsplit] at hnd hnd' hsub ⊢
      rw [List.append_assoc, List.cons_append] at hnd' hsub
      exact (pair_sublist_iff hnd).mpr ((pair_sublist_iff hnd').mp hsub)
    · exact h.fragments.of_frame rfl rfl (by rw [hcontents]) rfl rfl rfl

/-- A message without flow statistics is sent. -/
theorem of_message (h : RefreshInv w) {hal : HalWorld FlowCallback} (hbase : HalInv hal)
    (hwire : hal.wire = w.hal.wire) (hnext : hal.nextNumber = w.hal.nextNumber)
    {m : SwitchMessage FlowCallback}
    (hmsgs : hal.asynchronousMessages = w.hal.asynchronousMessages ++ [m])
    (hdone : hal.completions = w.hal.completions)
    (hvouched : ∀ b, m.answers? = some b → ∀ o, SentAhead w o b → w.answered o.number = true) :
    RefreshInv (w.adopt hal) := by
  have hcontents : (w.adopt hal).contents = w.contents ++ [none] := by
    unfold adopt
    rw [hmsgs, List.length_append, Nat.add_sub_cancel_left]
    rfl
  refine h.of_quiet ?_ ?_ (List.append_nil _).symm (by simp) rfl rfl hdone (fun _ hn _ => hn) rfl
  · exact h.queue.of_append hbase hwire hnext rfl rfl hmsgs hcontents (fun f hf => hf)
      (fun _ _ => rfl) hvouched fun f hf => absurd hf (by simp)
  · refine h.fragments.of_frame rfl rfl ?_ rfl rfl rfl
    rw [hcontents, List.reduceOption_append]
    simp

/-- The switch handles a request; if it answers a barrier request, the refreshes before it are. -/
theorem switchHandles (h : RefreshInv w) {hal : HalWorld FlowCallback}
    (hready : w.readyToHandle = true) (hs : w.hal.switchHandles = some hal) :
    RefreshInv (w.adopt hal) := by
  have hbase : HalInv hal := h.queue.base.step (i := .switchHandles) hs
  obtain ⟨b, hb, rfl⟩ := Option.map_eq_some_iff.mp hs
  unfold readyToHandle at hready
  simp only [hb] at hready
  cases hbar : b.isBarrierRequest with
  | false =>
      simp only [hbar, Bool.false_eq_true, if_false] at hbase ⊢
      exact h.of_hal hbase rfl le_rfl rfl rfl
  | true =>
      simp only [hbar, if_true] at hbase ⊢
      refine h.of_message hbase rfl rfl rfl rfl ?_
      intro b' hb' o ho
      obtain rfl : b = b' := Option.some.inj hb'
      obtain ⟨hlt, hget⟩ := List.getElem?_eq_some_iff.mp hb
      have hsplit : w.hal.wire =
          w.hal.wire.take w.hal.handled ++ b :: w.hal.wire.drop (w.hal.handled + 1) := by
        rw [← hget, ← List.drop_eq_getElem_cons hlt, List.take_append_drop]
      have hnd := wire_nodup h.queue.base
      have hsub := ho.1
      rw [hsplit] at hnd hsub
      have hmem := (pair_sublist_iff hnd).mp hsub
      rw [hbar, Bool.not_true, Bool.false_or, List.all_eq_true] at hready
      have hans := hready o hmem
      simpa [List.contains_iff_mem, ho.2] using hans

theorem reply (h : RefreshInv w) {index : Nat} {flowStats : List FlowDescriptionAndStats}
    {moreToFollow : Bool} (hs : w.reply index flowStats moreToFollow = some w') :
    RefreshInv w' := by
  unfold RefreshWorld.reply at hs
  split at hs
  · rename_i o _
    split at hs
    · rename_i hcond
      obtain ⟨hal, hhal, rfl⟩ := Option.map_eq_some_iff.mp hs
      have hbase : HalInv hal := h.queue.base.step (i := .switchSends _) hhal
      unfold HalWorld.switchSends at hhal
      split at hhal
      · obtain rfl := Option.some.inj hhal
        have hopen : ∀ f : StatsFragment, f.number = o.number → w.answered f.number = false := by
          intro f hf
          rw [hf]
          exact hcond.2.2
        refine h.of_quiet ?_ (h.fragments.reply (hopen _ rfl)) rfl ?_ rfl rfl rfl
          (fun _ hn _ => hn) rfl
        · refine h.queue.of_append hbase rfl rfl rfl rfl rfl rfl
            (fun f hf => List.mem_append_left _ hf) ?_ ?_ ?_
          · intro b hb
            exact absurd hb (by simp [SwitchMessage.answers?])
          · intro b hb
            exact absurd hb (by simp [SwitchMessage.answers?])
          · intro f hf
            obtain rfl := Option.some.inj hf
            exact hopen _ rfl
        · intro f hf
          obtain rfl := List.mem_singleton.mp hf
          exact hopen _ rfl
      · exact absurd hhal (by simp)
    · exact absurd hs (by simp)
  · exact absurd hs (by simp)

end RefreshInv

/-! ## Processing a message -/

/-- What processing a message changes besides what it delivers. -/
structure ProcessedMessage (w : RefreshWorld) (content : Option StatsFragment)
    (w' : RefreshWorld) : Prop where
  hal : w.hal.process = some w'.hal
  contents : w.contents = content :: w'.contents
  requests : w'.requests = w.requests
  calls : w'.calls = w.calls
  sent : w'.sent = w.sent
  returned : w'.returned = w.returned
  received : ∀ f ∈ w.received, f ∈ w'.received
  updates : ∀ u ∈ w.updates, u ∈ w'.updates

theorem processed_of_process {w w' : RefreshWorld} (hf : FragmentInv w)
    (h : w.process = some w') :
    ∃ content, ProcessedMessage w content w' ∧ FragmentInv w' := by
  unfold RefreshWorld.process at h
  split at h
  · rename_i content rest hal hcontents hhal
    refine ⟨content, ?_⟩
    cases content with
    | none =>
        obtain rfl := Option.some.inj h
        refine ⟨⟨hhal, hcontents, rfl, rfl, rfl, rfl, fun f hf => hf, fun u hu => hu⟩, ?_⟩
        refine hf.of_frame rfl rfl ?_ rfl rfl rfl
        rw [hcontents, List.reduceOption_cons_of_none]
    | some f =>
        have hfrag := hf.deliver hcontents h
        obtain ⟨flows, _, rfl⟩ := Option.map_eq_some_iff.mp h
        refine ⟨⟨hhal, hcontents, rfl, rfl, rfl, rfl, ?_, ?_⟩, hfrag⟩
        · exact fun g hg => List.mem_append_left _ hg
        · intro u hu
          cases hmore : f.moreToFollow with
          | true => simpa [hmore] using hu
          | false => simpa [hmore] using Or.inl hu
  · exact absurd h (by simp)

/-- Every fragment on the way is in some message. -/
theorem exists_mem_queue {w : RefreshWorld}
    (h : w.contents.length = w.hal.asynchronousMessages.length) {f : StatsFragment}
    (hf : f ∈ w.contents.reduceOption) : ∃ m, (m, some f) ∈ queue w := by
  obtain ⟨i, hi, hget⟩ := List.getElem_of_mem (List.reduceOption_mem_iff.mp hf)
  refine ⟨w.hal.asynchronousMessages.get ⟨i, h ▸ hi⟩, ?_⟩
  rw [← hget]
  exact List.mem_iff_getElem.mpr ⟨i, by simpa [queue, ← h] using hi, by simp [queue]⟩

namespace RefreshInv

variable {w w' : RefreshWorld}

/-- A refresh completed by a barrier reply was answered before. -/
theorem complete_of_barrierReply (h : RefreshInv w) {content : Option StatsFragment}
    (hp : ProcessedMessage w content w') (hqueue : QueueInv w') (hfrag : FragmentInv w')
    {b : HalObject FlowCallback}
    (hm : w.hal.asynchronousMessages = .barrierReply b :: w'.hal.asynchronousMessages)
    {o : HalObject FlowCallback} (hahead : SentAhead w o b) : RefreshAccounted w' o.number := by
  have hsplit : Proof.queue w = (.barrierReply b, content) :: Proof.queue w' := by
    rw [Proof.queue, Proof.queue, hm, hp.contents]
    rfl
  have hans := h.queue.vouched _ (hsplit ▸ List.mem_cons_self) b rfl o hahead
  refine hfrag.complete (answered_mono (fun f hf => hp.sent ▸ hf) hans) ?_
  intro f hf
  obtain ⟨m, hmem⟩ := exists_mem_queue hqueue.aligned hf
  have hpair := h.queue.ahead
  rw [hsplit] at hpair
  exact (List.pairwise_cons.mp hpair).1 _ hmem b rfl o hahead f rfl

/-- A refresh completed by the last part of its reply. -/
theorem complete_of_last (h : RefreshInv w) {f : StatsFragment}
    (hp : ProcessedMessage w (some f) w') (hfrag : FragmentInv w')
    (hmore : f.moreToFollow = false) : RefreshAccounted w' f.number := by
  have hsent : w.sent = w.received ++ f :: w'.contents.reduceOption := by
    rw [h.fragments.sent, hp.contents, List.reduceOption_cons_of_some]
  refine hfrag.complete ?_ fun g hg => h.fragments.number_ne_of_behind hsent hmore hg
  refine answered_iff.mpr ⟨f, ?_, rfl, hmore⟩
  rw [hp.sent, hsent]
  exact List.mem_append_right _ List.mem_cons_self

theorem process (h : RefreshInv w) (hok : WakesInTime w (.hal .process))
    (hs : w.process = some w') : RefreshInv w' := by
  obtain ⟨content, hp, hfrag⟩ := processed_of_process h.fragments hs
  obtain ⟨m, hhal⟩ := process_cases hp.hal
  have hnext : w.hal.nextNumber ≤ w'.hal.nextNumber := by
    rcases hhal.made with ⟨hsame, _⟩ | ⟨hmade, _⟩ <;> omega
  have hqueue : QueueInv w' := h.queue.of_tail (h.queue.base.step (i := .process) hp.hal)
    hhal.wire hnext hp.requests hp.calls hhal.messages hp.contents hp.sent
  have hkept : ∀ n, RefreshAccounted w n → RefreshAccounted w' n := fun n hn =>
    hn.mono (hp.sent.trans (List.append_nil _).symm) (by simp) hp.received hp.updates
  refine ⟨hqueue, hfrag, ?_, ?_⟩
  · intro n hn hd
    have hn' : Awaits w n := by
      unfold Awaits at hn ⊢
      rwa [hp.calls] at hn
    obtain ⟨c, hc, rfl⟩ := isDone_iff.mp hd
    rcases process_completed hp.hal hhal.messages hc with hold | ⟨o, ho, hobj, hcause⟩
    · exact hkept _ (h.done _ hn' (isDone_iff.mpr ⟨c, hold, rfl⟩))
    · rw [hobj] at hn' ⊢
      have hguard := hok m (by rw [hhal.messages]; rfl)
      cases m with
      | barrierReply b =>
          obtain ⟨call, hcall, hnum⟩ := hn'
          have hahead : SentAhead w o.1 b :=
            ⟨hguard o ho ⟨call, hcall, hnum⟩ hcause, hnum ▸ h.queue.called call hcall⟩
          exact h.complete_of_barrierReply hp hqueue hfrag hhal.messages hahead
      | other header hne =>
          obtain ⟨f, hhead, hnum, hmore⟩ := hguard hcause.1 o hcause.2 hn'
          rw [hp.contents, List.head?_cons] at hhead
          obtain rfl : content = some f := hhead
          rw [← hnum]
          exact h.complete_of_last hp hfrag hmore
  · intro call hcall
    rw [hp.returned] at hcall
    exact hkept _ (h.returned call hcall)

/-! ## Calls -/

theorem isDone_lt (h : RefreshInv w) {n : Nat} (hd : w.isDone n = true) : n < w.hal.nextNumber := by
  obtain ⟨c, hc, rfl⟩ := isDone_iff.mp hd
  refine h.queue.base.fresh _ (List.mem_append_right _ (h.queue.base.departed _ ?_))
  exact List.mem_append_left _ (List.mem_map_of_mem hc)

/-- A caller draws a new transaction, and perhaps waits for it. -/
theorem of_construct (h : RefreshInv w) {svc : FlowService}
    (hsvc : svc.pendingFlows = w.flows.svc.pendingFlows) (callback : Option FlowCallback)
    {calls : List RefreshCall} (hcalls : ∀ call ∈ calls, call.number = w.hal.nextNumber) :
    RefreshInv { w with
      flows := { w.flows with svc := svc }
      hal := w.hal.construct .statsRequest callback
      requests := w.requests ++ [w.hal.nextNumber]
      calls := w.calls ++ calls } := by
  have hbase : HalInv (w.hal.construct .statsRequest callback) :=
    h.queue.base.step (i := .construct .statsRequest callback) rfl
  refine h.of_quiet ?_ ?_ (List.append_nil _).symm (by simp) rfl rfl rfl ?_ rfl
  · refine h.queue.of_frame hbase rfl rfl (fun f hf => hf) ?_ ?_ ?_
    · intro n hn
      rcases List.mem_append.mp hn with hold | hnew
      · exact Nat.lt_succ_of_lt (h.queue.known n hold)
      · rw [List.mem_singleton.mp hnew]
        exact Nat.lt_succ_self _
    · intro call hcall
      rcases List.mem_append.mp hcall with hold | hnew
      · exact List.mem_append_left _ (h.queue.called call hold)
      · rw [hcalls call hnew]
        exact List.mem_append_right _ (List.mem_singleton_self _)
    · -- the new transaction is not on the wire
      intro m _ b _ o ⟨hsub, hreq⟩
      refine ⟨hsub, ?_⟩
      rcases List.mem_append.mp hreq with hold | hnew
      · exact hold
      · have hlt := number_lt_of_wire h.queue.base (hsub.subset List.mem_cons_self)
        rw [List.mem_singleton.mp hnew] at hlt
        exact absurd hlt (Nat.lt_irrefl _)
  · exact h.fragments.of_frame rfl rfl rfl rfl rfl hsvc
  · intro n ⟨call, hcall, hn⟩ hd
    rcases List.mem_append.mp hcall with hold | hnew
    · exact ⟨call, hold, hn⟩
    · have hlt := h.isDone_lt hd
      rw [← hn, hcalls call hnew] at hlt
      exact absurd hlt (Nat.lt_irrefl _)

theorem refreshFlows (h : RefreshInv w) (timeoutMs : Int32) :
    RefreshInv (w.refreshFlows timeoutMs) := by
  unfold RefreshWorld.refreshFlows
  have hsvc : (w.flows.svc.refreshFlows timeoutMs).2.pendingFlows = w.flows.svc.pendingFlows := by
    unfold FlowService.refreshFlows
    split
    · rfl
    · split <;> rfl
  dsimp only
  split
  · split
    · exact h.of_construct hsvc (some .blocking) (by simp)
    · have hnone := h.of_construct hsvc none (List.forall_mem_nil _)
      rwa [List.append_nil] at hnone
  · refine h.of_quiet ?_ ?_ (List.append_nil _).symm (by simp) rfl rfl rfl (fun _ hn _ => hn) rfl
    · exact h.queue.of_frame h.queue.base rfl rfl (fun f hf => hf) h.queue.known h.queue.called
        fun _ _ _ _ _ ho => ho
    · exact h.fragments.of_frame rfl rfl rfl rfl rfl hsvc

/-- A call only returns true once its transaction is completed. -/
theorem resume (h : RefreshInv w) {n : Nat} {status : Bool} (hok : WakesInTime w (.resume n status))
    (hs : w.resume n status = some w') : RefreshInv w' := by
  unfold RefreshWorld.resume at hs
  split at hs
  · exact absurd hs (by simp)
  · rename_i call hfind
    have hcall : call ∈ w.calls := List.mem_of_find?_eq_some hfind
    have hnum : call.number = n := by simpa using List.find?_some hfind
    split at hs
    · exact absurd hs (by simp)
    · rename_i hwait
      obtain rfl := Option.some.inj hs
      refine ⟨?_, ?_, ?_, ?_⟩
      · refine h.queue.of_frame h.queue.base rfl rfl (fun f hf => hf) h.queue.known ?_
          fun _ _ _ _ _ ho => ho
        exact fun call' hcall' => h.queue.called call' (List.mem_filter.mp hcall').1
      · exact h.fragments.of_frame rfl rfl rfl rfl rfl rfl
      · intro k ⟨call', hcall', hk⟩ hd
        exact (h.done k ⟨call', (List.mem_filter.mp hcall').1, hk⟩ hd).mono
          (List.append_nil _).symm (by simp) (fun f hf => hf) fun u hu => hu
      · intro call' hcall'
        rcases List.mem_append.mp hcall' with hold | hnew
        · exact (h.returned call' hold).mono (List.append_nil _).symm (by simp)
            (fun f hf => hf) fun u hu => hu
        · obtain ⟨rfl, rfl⟩ : call' = call ∧ true = status := by simpa using hnew
          -- `wait` has seen it, and `timed_wait` was not woken for nothing
          have hdone : w.isDone n = true := by
            by_cases hneg : call'.timeoutMs < 0
            · by_contra hnot
              exact hwait ⟨hneg, fun hd => hnot hd.2⟩
            · exact hok call' hcall hnum (Int32.not_lt.mp hneg)
          rw [hnum]
          exact (h.done n ⟨call', hcall, hnum⟩ hdone).mono
            (List.append_nil _).symm (by simp) (fun f hf => hf) fun u hu => hu

theorem step (h : RefreshInv w) {i : RefreshInput} (hok : WakesInTime w i)
    (hs : w.step i = some w') : RefreshInv w' := by
  cases i with
  | flows input => exact h.runFlows hs
  | refreshFlows timeoutMs =>
      obtain rfl := Option.some.inj hs
      exact h.refreshFlows timeoutMs
  | switchReplies index flowStats moreToFollow => exact h.reply hs
  | resume n status => exact h.resume hok hs
  | hal input =>
      cases input with
      | process => exact h.process hok hs
      | construct msgType callback =>
          obtain rfl := Option.some.inj hs
          exact h.of_hal (h.queue.base.step (i := .construct msgType callback) rfl) rfl
            (Nat.le_succ _) rfl rfl
      | enqueue index =>
          obtain ⟨hal, hhal, rfl⟩ := Option.map_eq_some_iff.mp hs
          have hbase := h.queue.base.step hhal
          obtain ⟨o, _, rfl⟩ := Option.map_eq_some_iff.mp hhal
          exact h.of_hal hbase rfl le_rfl rfl rfl
      | dequeue =>
          obtain ⟨hal, hhal, rfl⟩ := Option.map_eq_some_iff.mp hs
          obtain ⟨o, rest, _, _, hdeq⟩ := dequeue_cases hhal
          exact h.of_hal (h.queue.base.step (i := .dequeue) hhal) hdeq.wire hdeq.nextNumber.ge
            hdeq.messages hdeq.completions
      | send ok =>
          obtain ⟨hal, hhal, rfl⟩ := Option.map_eq_some_iff.mp hs
          cases ok with
          | true => exact h.send hhal
          | false =>
              -- the send loop ends
              have hbase := h.queue.base.step hhal
              simp only [HalWorld.step, HalWorld.send] at hhal
              split at hhal
              · exact absurd hhal (by simp)
              · obtain ⟨o, _, rfl⟩ := Option.map_eq_some_iff.mp hhal
                exact h.of_hal hbase rfl le_rfl rfl rfl
      | switchHandles =>
          simp only [RefreshWorld.step, runHal] at hs
          split at hs
          · rename_i hready
            obtain ⟨hal, hhal, rfl⟩ := Option.map_eq_some_iff.mp hs
            exact h.switchHandles hready hhal
          · exact absurd hs (by simp)
      | switchSends header =>
          obtain ⟨hal, hhal, rfl⟩ := Option.map_eq_some_iff.mp hs
          have hbase := h.queue.base.step hhal
          simp only [HalWorld.step, HalWorld.switchSends] at hhal
          split at hhal
          · obtain rfl := Option.some.inj hhal
            refine h.of_message hbase rfl rfl rfl rfl ?_
            intro b hb
            exact absurd hb (by simp [SwitchMessage.answers?])
          · exact absurd hhal (by simp)

end RefreshInv

/-! ## The updates on record -/

/-- An update is put on record by the step that makes it. -/
theorem step_updates {w w' : RefreshWorld} {i : RefreshInput} (hs : w.step i = some w')
    {u : TableUpdate} (hu : u ∈ w'.updates) (hflows : u.flows = u.fragments.flatMap (·.flowStats)) :
    u ∈ w.updates ∨ UpdatesTables ⟨w, i, w'⟩ u.fragments := by
  cases i with
  | flows input =>
      simp only [RefreshWorld.step, runFlows] at hs
      split at hs
      · obtain ⟨flows, _, rfl⟩ := Option.map_eq_some_iff.mp hs
        exact Or.inl hu
      · exact absurd hs (by simp)
  | refreshFlows timeoutMs =>
      obtain rfl := Option.some.inj hs
      refine Or.inl ?_
      unfold RefreshWorld.refreshFlows at hu
      dsimp only at hu
      split at hu
      · split at hu <;> exact hu
      · exact hu
  | switchReplies index flowStats moreToFollow =>
      simp only [RefreshWorld.step, RefreshWorld.reply] at hs
      split at hs
      · split at hs
        · obtain ⟨hal, _, rfl⟩ := Option.map_eq_some_iff.mp hs
          exact Or.inl hu
        · exact absurd hs (by simp)
      · exact absurd hs (by simp)
  | resume n status =>
      simp only [RefreshWorld.step, RefreshWorld.resume] at hs
      split at hs
      · exact absurd hs (by simp)
      · split at hs
        · exact absurd hs (by simp)
        · obtain rfl := Option.some.inj hs
          exact Or.inl hu
  | hal input =>
      cases input with
      | process =>
          simp only [RefreshWorld.step, runHal, RefreshWorld.process] at hs
          split at hs
          · split at hs
            · obtain rfl := Option.some.inj hs
              exact Or.inl hu
            · rename_i f
              obtain ⟨flows, hflows', rfl⟩ := Option.map_eq_some_iff.mp hs
              obtain ⟨svc, hsvc, rfl⟩ := Option.map_eq_some_iff.mp hflows'
              rcases flowUpdateHandler_cases hsvc with ⟨hmore, _⟩ | ⟨hmore, _, _, _, htables, hcount⟩
              · simp only [hmore, if_true] at hu
                exact Or.inl hu
              · simp only [hmore, Bool.false_eq_true, if_false, List.mem_append,
                  List.mem_singleton] at hu
                rcases hu with hold | rfl
                · exact Or.inl hold
                · -- the flows on record are those the tables were given
                  refine Or.inr ⟨?_, ?_⟩
                  · rw [← hflows]
                    exact htables
                  · rw [← hflows]
                    exact hcount
          · exact absurd hs (by simp)
      | switchHandles =>
          simp only [RefreshWorld.step, runHal] at hs
          split at hs
          · obtain ⟨hal, _, rfl⟩ := Option.map_eq_some_iff.mp hs
            exact Or.inl hu
          · exact absurd hs (by simp)
      | construct msgType callback =>
          obtain rfl := Option.some.inj hs
          exact Or.inl hu
      | enqueue _ | dequeue | send _ | switchSends _ =>
          obtain ⟨hal, _, rfl⟩ := Option.map_eq_some_iff.mp hs
          exact Or.inl hu

/-- Every update on record was made in a step of the run. -/
theorem exists_updatesTables {tables : List FlowTable}
    {ts : List (Transition RefreshWorld RefreshInput)} {w : RefreshWorld}
    (hr : Run RefreshWorld.step (boot tables) ts w) {u : TableUpdate} (hu : u ∈ w.updates)
    (hflows : u.flows = u.fragments.flatMap (·.flowStats)) :
    ∃ t ∈ ts, UpdatesTables t u.fragments := by
  induction hr with
  | nil => exact absurd hu (by simp [boot])
  | snoc _ hs ih =>
      rcases step_updates hs hu hflows with hold | hnew
      · obtain ⟨t, ht, hut⟩ := ih hold
        exact ⟨t, List.mem_append_left _ ht, hut⟩
      · exact ⟨_, List.mem_append_right _ (List.mem_singleton_self _), hnew⟩

/--
**A completed refresh is complete.** In every run in which no step wakes a refresh
too early, a `refresh_flows` that has returned true had all of the reply to its
request received, and the tables updated from it in some step of the run.
-/
theorem refresh_complete {tables : List FlowTable}
    {ts : List (Transition RefreshWorld RefreshInput)} {w : RefreshWorld}
    (hr : Run RefreshWorld.step (boot tables) ts w)
    (hok : ∀ t ∈ ts, WakesInTime t.source t.input) : RefreshesComplete ts w := by
  have hinv := (hr.invariant_guarded RefreshInv WakesInTime (refreshInv_boot tables)
    (fun _ _ _ h hg hs => h.step hg hs) hok).1
  intro call hcall
  have hacc := hinv.returned call hcall
  refine ⟨hacc.ended, hacc.received, ?_⟩
  intro f hf hn
  obtain ⟨u, hu, hfu, hflows⟩ := hacc.updated f hf hn
  obtain ⟨t, ht, hut⟩ := exists_updatesTables hr hu hflows
  exact ⟨t, ht, u.fragments, hfu, hut⟩

instance (w : RefreshWorld) (number : Nat) : Decidable (Awaits w number) :=
  inferInstanceAs (Decidable (∃ call ∈ w.calls, call.number = number))

instance (w : RefreshWorld) : (m : SwitchMessage FlowCallback) → Decidable (CompletesInTime w m)
  | .barrierReply b => inferInstanceAs (Decidable (∀ o ∈ w.hal.callbackTransactions,
      Awaits w o.1.number → o.1.xid ≤ b.xid → [o.1, b].Sublist w.hal.wire))
  | .other header _ => inferInstanceAs (Decidable
      (HalWorld.callbackStatus? header.msgType ≠ none →
        ∀ o ∈ w.hal.callbackTransactions.find? fun o => o.1.xid == header.xid,
          Awaits w o.1.number →
            ∃ f ∈ w.contents.head?.join, f.number = o.1.number ∧ f.moreToFollow = false))

instance (w : RefreshWorld) : (i : RefreshInput) → Decidable (WakesInTime w i)
  | .hal .process => inferInstanceAs (Decidable
      (∀ m ∈ w.hal.asynchronousMessages.head?, CompletesInTime w m))
  | .resume number true => inferInstanceAs (Decidable
      (∀ call ∈ w.calls, call.number = number → 0 ≤ call.timeoutMs → w.isDone number = true))
  | .resume _ false => .isTrue trivial
  | .flows _ => .isTrue trivial
  | .refreshFlows _ => .isTrue trivial
  | .switchReplies .. => .isTrue trivial
  | .hal (.construct ..) => .isTrue trivial
  | .hal (.enqueue _) => .isTrue trivial
  | .hal .dequeue => .isTrue trivial
  | .hal (.send _) => .isTrue trivial
  | .hal .switchHandles => .isTrue trivial
  | .hal (.switchSends _) => .isTrue trivial

/-- The next transaction goes to the switch, which handles it. -/
def roundTrip : List RefreshInput :=
  [.hal (.enqueue 0), .hal .dequeue, .hal (.send true), .hal .switchHandles]

/-- A controller that has downloaded the flows of a switch that has none. -/
def downloaded : List RefreshInput :=
  [.flows .init, .flows .init2, .hal (.construct .statsRequest none)] ++ roundTrip ++
    [.switchReplies 0 [] false, .hal .process, .flows .init2Finish]

/-- A flow that matches everything. -/
def answeredFlow (cookie : UInt64) : FlowDescriptionAndStats where
  flowDescription := ⟨OfMatch.clear, OpenflowActionList.clear, cookie, 100⟩

/-- A refresh answered in one message. -/
theorem refresh_of_one_message : ∃ ts w,
    Run RefreshWorld.step (boot [dellS48xxAclTable]) ts w ∧
      w.returned = [(⟨1, -1⟩, true)] ∧ RefreshesComplete ts w := by
  obtain ⟨ts, w, hr, h⟩ := Run.exists_of_test RefreshWorld.step (boot [dellS48xxAclTable])
    (downloaded ++ [.refreshFlows (-1)] ++ roundTrip ++
      [.switchReplies 1 [answeredFlow 5] false, .hal .process, .resume 1 true])
    (fun ts w => decide (w.returned = [(⟨1, -1⟩, true)]) &&
      ts.all fun t => decide (WakesInTime t.source t.input)) (by decide +kernel)
  simp only [Bool.and_eq_true, decide_eq_true_eq, List.all_eq_true] at h
  exact ⟨ts, w, hr, h.1, refresh_complete hr h.2⟩

/-- A refresh answered in two messages returns when the first of them has come in. -/
theorem refresh_of_first_message : ∃ ts w,
    Run RefreshWorld.step (boot [dellS48xxAclTable]) ts w ∧ ¬ RefreshesComplete ts w := by
  obtain ⟨ts, w, hr, h⟩ := Run.exists_of_test RefreshWorld.step (boot [dellS48xxAclTable])
    (downloaded ++ [.refreshFlows (-1)] ++ roundTrip ++
      [.switchReplies 1 [answeredFlow 5] true, .switchReplies 1 [answeredFlow 6] false,
        .hal .process, .resume 1 true])
    (fun _ w => decide ((⟨1, -1⟩, true) ∈ w.returned) &&
      w.sent.any fun f => f.number == 1 && !decide (f ∈ w.received)) (by decide +kernel)
  simp only [Bool.and_eq_true, decide_eq_true_eq, List.any_eq_true, Bool.not_eq_true',
    decide_eq_false_iff_not, beq_iff_eq] at h
  obtain ⟨hret, f, hf, hnum, hmissing⟩ := h
  refine ⟨ts, w, hr, ?_⟩
  intro hall
  exact hmissing ((hall _ hret).received f hf hnum)

end IronStack.Proof

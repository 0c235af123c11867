import IronStack.Hal.System
import IronStack.Lib.Machine
import Mathlib.Data.List.Perm.Basic

/-!
# What a barrier reply completes

The reply to a barrier request vouches for the requests sent before it. The HAL
takes those to be the registered transactions with an xid up to the barrier's. But
an xid is drawn when the transaction is constructed, and other threads may have
theirs sent first: a transaction can be registered after a barrier request with a
larger xid went out, and is then completed by a reply that says nothing about it.

As long as no transaction is registered behind an outstanding barrier request with
an xid that is not smaller, barrier replies are sound. That every transaction is
completed at most once does not depend on any of this.
-/

namespace IronStack.Proof

open IronStack Lib HalWorld

variable {γ : Type}

/-- The barrier requests that were sent, and whose reply has not been processed. -/
def outstanding (w : HalWorld γ) : List (HalObject γ) :=
  (w.wire.drop w.handled).filter (·.isBarrierRequest) ++
    w.asynchronousMessages.filterMap (·.answers?)

/-- A transaction may be registered: it follows every outstanding barrier request in xid, too. -/
def RegistersInOrder (w : HalWorld γ) : HalInput γ → Prop
  | .dequeue => ∀ o ∈ w.pendingTransactions.head?, o.hasCompletionAcknowledgement = true →
      ∀ b ∈ outstanding w, b.xid < o.xid
  | _ => True

/--
A barrier reply has only completed the barrier request it answers, and transactions
that were sent before that.
-/
def BarrierSound (w : HalWorld γ) : Prop :=
  ∀ c ∈ w.completions, ∀ b, c.cause.answers? = some b →
    c.object = b ∨ [c.object, b].Sublist w.wire

/-- No transaction was completed twice. -/
def CompletedOnce (w : HalWorld γ) : Prop :=
  (w.completions.map fun c => c.object.number).Nodup

/-! ## The objects -/

/-- The objects the send loop has dequeued, in order. -/
def departed (w : HalWorld γ) : List (HalObject γ) := w.wire ++ w.sending.toList

/-- All objects. -/
def objects (w : HalWorld γ) : List (HalObject γ) :=
  w.constructed ++ w.pendingTransactions ++ departed w

/-- The objects that were registered: completed, or still in the callback list. -/
def registered (w : HalWorld γ) : List (HalObject γ) :=
  w.completions.map (·.object) ++ w.callbackTransactions.map (·.1)

/-- Objects are told apart by their numbers, and registered once, when they depart. -/
structure HalInv (w : HalWorld γ) : Prop where
  numbered : ((objects w).map (·.number)).Nodup
  fresh : ∀ o ∈ objects w, o.number < w.nextNumber
  departed : ∀ o ∈ registered w, o ∈ departed w
  once : ((registered w).map (·.number)).Nodup
  /-- A barrier reply is to a barrier request that was sent. -/
  answers : ∀ m ∈ w.asynchronousMessages, ∀ b, m.answers? = some b → b ∈ w.wire

theorem halInv_boot : HalInv (boot γ) where
  numbered := by simp [objects, Proof.departed, boot]
  fresh o ho := by simp [objects, Proof.departed, boot] at ho
  departed o ho := by simp [registered, boot] at ho
  once := by simp [registered, boot]
  answers m hm := by simp [boot] at hm

/-- Taking the first match out of a list and putting it in front. -/
theorem perm_find?_eraseP {α : Type*} (p : α → Bool) (l : List α) :
    ((l.find? p).toList ++ l.eraseP p).Perm l := by
  induction l with
  | nil => exact .nil
  | cons a l ih =>
      by_cases ha : p a = true
      · rw [List.find?_cons_of_pos ha, List.eraseP_cons_of_pos ha]
        exact .refl _
      · rw [List.find?_cons_of_neg ha, List.eraseP_cons_of_neg ha]
        exact List.perm_middle.trans (ih.cons a)

/-! ## Processing a message -/

/-- What processing a message comes to for the transactions. -/
structure Processed (w : HalWorld γ) (m : SwitchMessage γ) (w' : HalWorld γ) : Prop where
  constructed : w'.constructed = w.constructed
  sending : w'.sending = w.sending
  wire : w'.wire = w.wire
  handled : w'.handled = w.handled
  messages : w.asynchronousMessages = m :: w'.asynchronousMessages
  /-- No transaction is lost. -/
  registered : (registered w').Perm (registered w)
  callbacks : ∀ o ∈ w'.callbackTransactions, o ∈ w.callbackTransactions
  /-- What a barrier reply completes. -/
  completed : ∀ c ∈ w'.completions, c ∈ w.completions ∨ c.cause = m ∧
    (∀ b, m.answers? = some b → ∃ o ∈ w.callbackTransactions, c.object = o.1 ∧ o.1.xid ≤ b.xid)
  /-- Either no object was made, or one that is at once enqueued. -/
  made : w'.nextNumber = w.nextNumber ∧ w'.pendingTransactions = w.pendingTransactions ∨
    w'.nextNumber = w.nextNumber + 1 ∧ ∃ o, o.number = w.nextNumber ∧
      w'.pendingTransactions = w.pendingTransactions ++ [o]

/-- A message that answers a barrier request is a barrier reply with its xid. -/
theorem header_of_answers {m : SwitchMessage γ} {b : HalObject γ} (h : m.answers? = some b) :
    m.header = ⟨b.xid, .barrierReply⟩ := by
  cases m with
  | barrierReply request =>
      obtain rfl := Option.some.inj h
      rfl
  | other header hne => exact absurd h (by simp [SwitchMessage.answers?])

theorem completeBarrier_registered (w : HalWorld γ) (m : SwitchMessage γ) :
    (registered (w.completeBarrier m)).Perm (registered w) := by
  have hperm := List.filter_append_perm (fun o : CallbackTransaction γ => o.1.xid ≤ m.header.xid)
    w.callbackTransactions
  have hobj : ((w.callbackTransactions.filter fun o => o.1.xid ≤ m.header.xid).map fun o =>
      complete o (if o.1.xid = m.header.xid then some m.header else none) true m).map (·.object) =
        (w.callbackTransactions.filter fun o => o.1.xid ≤ m.header.xid).map (·.1) := by
    rw [List.map_map]
    rfl
  unfold registered completeBarrier
  dsimp only
  rw [List.map_append, hobj, List.append_assoc, ← List.map_append]
  exact (hperm.map _).append_left _

theorem completeOne_registered (w : HalWorld γ) (status : Bool) (m : SwitchMessage γ) :
    (registered (w.completeOne status m)).Perm (registered w) := by
  have hperm := perm_find?_eraseP (fun o : CallbackTransaction γ => o.1.xid == m.header.xid)
    w.callbackTransactions
  have hobj : (((w.callbackTransactions.find? fun o => o.1.xid == m.header.xid).map fun o =>
      complete o (some m.header) status m).toList).map (·.object) =
        (w.callbackTransactions.find? fun o => o.1.xid == m.header.xid).toList.map (·.1) := by
    cases w.callbackTransactions.find? fun o => o.1.xid == m.header.xid <;> rfl
  unfold registered completeOne
  dsimp only
  rw [List.map_append, hobj, List.append_assoc, ← List.map_append]
  exact (hperm.map _).append_left _

theorem process_cases {w w' : HalWorld γ} (h : w.process = some w') :
    ∃ m, Processed w m w' := by
  unfold process at h
  cases hmsg : w.asynchronousMessages with
  | nil =>
      rw [hmsg] at h
      exact absurd h (by simp)
  | cons m rest =>
      rw [hmsg] at h
      refine ⟨m, ?_⟩
      dsimp only at h
      have hanswer : m.header.msgType ≠ .barrierReply → ∀ b, m.answers? ≠ some b := by
        intro hne b hb
        rw [header_of_answers hb] at hne
        exact hne rfl
      split at h
      · -- an echo request: the reply is made and enqueued by the processing thread itself
        rename_i hecho
        obtain rfl := Option.some.inj h
        refine ⟨rfl, rfl, rfl, rfl, hmsg, .refl _, fun o ho => ho, fun c hc => Or.inl hc, ?_⟩
        exact Or.inr ⟨rfl, _, rfl, rfl⟩
      · split at h
        · -- a message no transaction waits for
          obtain rfl := Option.some.inj h
          exact ⟨rfl, rfl, rfl, rfl, hmsg, .refl _, fun o ho => ho, fun c hc => Or.inl hc,
            Or.inl ⟨rfl, rfl⟩⟩
        · rename_i status _
          split at h
          · -- a barrier reply completes every transaction with an xid up to its own
            rename_i hbarrier
            obtain rfl := Option.some.inj h
            refine ⟨rfl, rfl, rfl, rfl, hmsg, completeBarrier_registered _ m, ?_, ?_,
              Or.inl ⟨rfl, rfl⟩⟩
            · intro o ho
              exact (List.mem_filter.mp ho).1
            · intro c hc
              rcases List.mem_append.mp hc with hold | hnew
              · exact Or.inl hold
              · obtain ⟨o, ho, rfl⟩ := List.mem_map.mp hnew
                obtain ⟨hreg, hle⟩ := List.mem_filter.mp ho
                refine Or.inr ⟨rfl, fun b hb => ⟨o, hreg, rfl, ?_⟩⟩
                rw [header_of_answers hb] at hle
                exact of_decide_eq_true hle
          · -- any other reply completes the first transaction with its xid
            rename_i hother
            obtain rfl := Option.some.inj h
            refine ⟨rfl, rfl, rfl, rfl, hmsg, completeOne_registered _ status m, ?_, ?_,
              Or.inl ⟨rfl, rfl⟩⟩
            · intro o ho
              exact List.mem_of_mem_eraseP ho
            · intro c hc
              rcases List.mem_append.mp hc with hold | hnew
              · exact Or.inl hold
              · rw [Option.mem_toList, Option.map_eq_some_iff] at hnew
                obtain ⟨o, _, rfl⟩ := hnew
                exact Or.inr ⟨rfl, fun b hb => absurd hb (hanswer hother b)⟩

/-! ## Dequeueing -/

/-- What the send loop does when it dequeues a transaction. -/
structure Dequeued (w : HalWorld γ) (o : HalObject γ) (rest : List (HalObject γ))
    (w' : HalWorld γ) : Prop where
  nextNumber : w'.nextNumber = w.nextNumber
  constructed : w'.constructed = w.constructed
  pending : w'.pendingTransactions = rest
  sending : w'.sending = some o
  wire : w'.wire = w.wire
  handled : w'.handled = w.handled
  messages : w'.asynchronousMessages = w.asynchronousMessages
  completions : w'.completions = w.completions
  callbacks : w'.callbackTransactions = w.callbackTransactions ∨
    ∃ h : o.hasCompletionAcknowledgement = true,
      w'.callbackTransactions = w.callbackTransactions ++ [⟨o, h⟩]

theorem dequeue_cases {w w' : HalWorld γ} (h : w.dequeue = some w') :
    ∃ o rest, w.sending = none ∧ w.pendingTransactions = o :: rest ∧ Dequeued w o rest w' := by
  unfold dequeue at h
  split at h
  · rename_i o rest hsend hpend
    obtain rfl := Option.some.inj h
    refine ⟨o, rest, hsend, hpend, rfl, rfl, rfl, rfl, rfl, rfl, rfl, rfl, ?_⟩
    dsimp only
    split
    · rename_i hack
      exact Or.inr ⟨hack, rfl⟩
    · exact Or.inl rfl
  · exact absurd h (by simp)

/-! ## Every run -/

namespace HalInv

variable {w w' : HalWorld γ}

/-- Steps that make no object and register none. -/
theorem of_same (h : HalInv w) (hobj : (objects w').Perm (objects w))
    (hnext : w'.nextNumber = w.nextNumber) (hdep : ∀ o ∈ Proof.departed w, o ∈ Proof.departed w')
    (hreg : (registered w').Perm (registered w))
    (hans : ∀ m ∈ w'.asynchronousMessages, ∀ b, m.answers? = some b → b ∈ w'.wire) :
    HalInv w' where
  numbered := (hobj.map _).nodup_iff.mpr h.numbered
  fresh o ho := by
    rw [hnext]
    exact h.fresh o (hobj.mem_iff.mp ho)
  departed o ho := hdep o (h.departed o (hreg.mem_iff.mp ho))
  once := (hreg.map _).nodup_iff.mpr h.once
  answers := hans

/-- Steps that make one object. -/
theorem of_new (h : HalInv w) {o : HalObject γ} (ho : o.number = w.nextNumber)
    (hobj : (objects w').Perm (o :: objects w)) (hnext : w'.nextNumber = w.nextNumber + 1)
    (hdep : Proof.departed w' = Proof.departed w) (hreg : (registered w').Perm (registered w))
    (hans : ∀ m ∈ w'.asynchronousMessages, ∀ b, m.answers? = some b → b ∈ w'.wire) :
    HalInv w' where
  numbered := by
    rw [(hobj.map _).nodup_iff, List.map_cons, List.nodup_cons]
    refine ⟨?_, h.numbered⟩
    intro hmem
    obtain ⟨x, hx, hxo⟩ := List.mem_map.mp hmem
    have hlt := h.fresh x hx
    omega
  fresh x hx := by
    rw [hnext]
    rcases List.mem_cons.mp (hobj.mem_iff.mp hx) with rfl | hold
    · omega
    · have hlt := h.fresh x hold
      omega
  departed x hx := by
    rw [hdep]
    exact h.departed x (hreg.mem_iff.mp hx)
  once := (hreg.map _).nodup_iff.mpr h.once
  answers := hans

theorem dequeue (h : HalInv w) (hs : w.dequeue = some w') : HalInv w' := by
  obtain ⟨o, rest, hsend, hpend, heq⟩ := dequeue_cases hs
  have hdep : Proof.departed w = w.wire := by simp [Proof.departed, hsend]
  have hdep' : Proof.departed w' = w.wire ++ [o] := by rw [Proof.departed, heq.wire, heq.sending]; rfl
  have hperm : (objects w').Perm (objects w) := by
    rw [objects, objects, heq.constructed, heq.pending, hpend, hdep', hdep]
    calc w.constructed ++ rest ++ (w.wire ++ [o])
        = w.constructed ++ ((rest ++ w.wire) ++ [o]) := by simp only [List.append_assoc]
      List.Perm _ (w.constructed ++ o :: (rest ++ w.wire)) :=
          (List.perm_append_singleton o (rest ++ w.wire)).append_left _
      _ = w.constructed ++ o :: rest ++ w.wire := by simp
  have hreg : ∀ x ∈ registered w, x ∈ w.wire := fun x hx => hdep ▸ h.departed x hx
  -- what was registered before has departed, so it is not the object that departs now
  have hnew : ∀ x ∈ registered w, x.number ≠ o.number := by
    intro x hx hxo
    have hnd := (hperm.map (·.number)).nodup_iff.mpr h.numbered
    rw [objects, hdep', ← List.append_assoc, List.map_append, List.nodup_append] at hnd
    exact hnd.2.2 _ (List.mem_map_of_mem (List.mem_append_right _ (hreg x hx))) _
      (List.mem_map_of_mem (List.mem_singleton.mpr rfl)) hxo
  have hboth : registered w' = registered w ∨ registered w' = registered w ++ [o] := by
    rcases heq.callbacks with hcb | ⟨hack, hcb⟩
    · exact Or.inl (by rw [registered, registered, heq.completions, hcb])
    · exact Or.inr (by rw [registered, registered, heq.completions, hcb]; simp)
  refine ⟨(hperm.map _).nodup_iff.mpr h.numbered, fun x hx => ?_, fun x hx => ?_, ?_, ?_⟩
  · rw [heq.nextNumber]
    exact h.fresh x (hperm.mem_iff.mp hx)
  · rw [hdep']
    rcases hboth with hr | hr
    · exact List.mem_append_left _ (hreg x (hr ▸ hx))
    · rw [hr] at hx
      rcases List.mem_append.mp hx with hold | hlast
      · exact List.mem_append_left _ (hreg x hold)
      · exact List.mem_append_right _ hlast
  · rcases hboth with hr | hr
    · rw [hr]
      exact h.once
    · rw [hr, List.map_append, List.nodup_append]
      refine ⟨h.once, by simp, fun n hn k hk => ?_⟩
      obtain ⟨x, hx, rfl⟩ := List.mem_map.mp hn
      rw [show k = o.number by simpa using hk]
      exact hnew x hx
  · rw [heq.messages, heq.wire]
    exact h.answers

theorem enqueue (h : HalInv w) {index : Nat} (hs : w.enqueue index = some w') : HalInv w' := by
  obtain ⟨o, ho, rfl⟩ := Option.map_eq_some_iff.mp hs
  refine h.of_same ?_ rfl (fun x hx => hx) (.refl _) h.answers
  obtain ⟨hlt, hget⟩ := List.getElem?_eq_some_iff.mp ho
  -- it only changes from one list to the other
  have hperm : (w.constructed.eraseIdx index ++ [o]).Perm w.constructed := by
    rw [← hget]
    exact List.perm_append_comm.trans (List.getElem_cons_eraseIdx_perm hlt)
  show (w.constructed.eraseIdx index ++ (w.pendingTransactions ++ [o]) ++
    Proof.departed w).Perm _
  refine List.Perm.append_right _ ?_
  refine (List.Perm.append_left _ List.perm_append_comm).trans ?_
  rw [← List.append_assoc]
  exact hperm.append_right _

theorem send (h : HalInv w) {ok : Bool} (hs : w.send ok = some w') : HalInv w' := by
  rw [HalWorld.send] at hs
  split at hs
  · cases hs
  · obtain ⟨o, ho, rfl⟩ := Option.map_eq_some_iff.mp hs
    cases ok with
    | false => exact h.of_same (.refl _) rfl (fun x hx => hx) (.refl _) h.answers
    | true =>
        -- what is being sent has departed already
        have hdep : Proof.departed w = w.wire ++ [o] := by rw [Proof.departed, ho]; rfl
        have hdep' : Proof.departed { w with sending := none, wire := w.wire ++ [o] } =
            Proof.departed w := by
          rw [hdep]
          exact List.append_nil _
        refine h.of_same ?_ rfl (fun x hx => ?_) (.refl _) ?_
        · rw [objects, objects, ← hdep']
          exact .refl _
        · rw [← hdep'] at hx
          exact hx
        · intro m hm b hb
          exact List.mem_append_left _ (h.answers m hm b hb)

theorem switchHandles (h : HalInv w) (hs : w.switchHandles = some w') : HalInv w' := by
  obtain ⟨o, ho, rfl⟩ := Option.map_eq_some_iff.mp hs
  refine h.of_same (.refl _) rfl (fun x hx => hx) (.refl _) ?_
  intro m hm b hb
  dsimp only at hm
  split at hm
  · rcases List.mem_append.mp hm with hold | hnew
    · exact h.answers m hold b hb
    · rw [List.mem_singleton.mp hnew] at hb
      obtain rfl := Option.some.inj hb
      exact List.mem_of_getElem? ho
  · exact h.answers m hm b hb

theorem switchSends (h : HalInv w) {header : HalHeader} (hs : w.switchSends header = some w') :
    HalInv w' := by
  rw [HalWorld.switchSends] at hs
  split at hs
  · obtain rfl := Option.some.inj hs
    refine h.of_same (.refl _) rfl (fun x hx => hx) (.refl _) ?_
    intro m hm b hb
    rcases List.mem_append.mp hm with hold | hnew
    · exact h.answers m hold b hb
    · rw [List.mem_singleton.mp hnew] at hb
      exact absurd hb (by simp [SwitchMessage.answers?])
  · cases hs

theorem process (h : HalInv w) (hs : w.process = some w') : HalInv w' := by
  obtain ⟨m, hp⟩ := process_cases hs
  have hdep : Proof.departed w' = Proof.departed w := by
    rw [Proof.departed, hp.wire, hp.sending, Proof.departed]
  have hans : ∀ m ∈ w'.asynchronousMessages, ∀ b, m.answers? = some b → b ∈ w'.wire := by
    intro m' hm' b hb
    rw [hp.wire]
    exact h.answers m' (by rw [hp.messages]; exact List.mem_cons_of_mem _ hm') b hb
  rcases hp.made with ⟨hnext, hpend⟩ | ⟨hnext, o, ho, hpend⟩
  · refine h.of_same ?_ hnext (fun x hx => hdep ▸ hx) hp.registered hans
    rw [objects, hp.constructed, hpend, hdep, objects]
  · refine h.of_new ho ?_ hnext hdep hp.registered hans
    rw [objects, hp.constructed, hpend, hdep, objects]
    rw [← List.append_assoc, List.append_assoc _ [o]]
    exact List.perm_middle

theorem step (h : HalInv w) {i : HalInput γ} (hs : w.step i = some w') : HalInv w' := by
  cases i with
  | construct msgType callback =>
      obtain rfl := Option.some.inj hs
      refine h.of_new (o := w.newObject ⟨w.xidCounter, msgType⟩ callback) rfl ?_ rfl rfl (.refl _)
        h.answers
      -- the new object is the last of the constructed, but the first of all in the count
      show (w.constructed ++ [_] ++ w.pendingTransactions ++ Proof.departed w).Perm _
      rw [objects, List.append_assoc, List.append_assoc, List.append_assoc]
      exact List.perm_middle
  | enqueue index => exact h.enqueue hs
  | dequeue => exact h.dequeue hs
  | send ok => exact h.send hs
  | switchHandles => exact h.switchHandles hs
  | switchSends header => exact h.switchSends hs
  | process => exact h.process hs

end HalInv

theorem halInv_reachable {ts : List (Transition (HalWorld γ) (HalInput γ))} {w : HalWorld γ}
    (hr : Run HalWorld.step (boot γ) ts w) : HalInv w :=
  (hr.invariant HalInv halInv_boot fun _ _ _ h hs => h.step hs).1

/-- **At most one completion.** -/
theorem completedOnce_of_inv {w : HalWorld γ} (h : HalInv w) : CompletedOnce w := by
  have honce := h.once
  rw [registered, List.map_append, List.nodup_append, List.map_map] at honce
  exact honce.1

/-! ## Runs that register in order -/

/--
Were an outstanding barrier request answered now, the reply would complete the
barrier request itself, and transactions that were sent before it.
-/
def AnswerableSoundly (w : HalWorld γ) : Prop :=
  ∀ b ∈ outstanding w, ∀ o ∈ w.callbackTransactions, o.1.xid ≤ b.xid →
    o.1 = b ∨ [o.1, b].Sublist w.wire

/-- What the runs that register in order keep. -/
structure BarrierInv (w : HalWorld γ) : Prop where
  base : HalInv w
  answerable : AnswerableSoundly w
  sound : BarrierSound w

namespace BarrierInv

variable {w w' : HalWorld γ}

/-- Steps that send nothing, register nothing and complete nothing. -/
theorem of_frame (h : BarrierInv w) (hbase : HalInv w') (hwire : w'.wire = w.wire)
    (hout : ∀ b ∈ outstanding w', b ∈ outstanding w)
    (hcb : w'.callbackTransactions = w.callbackTransactions)
    (hdone : w'.completions = w.completions) : BarrierInv w' where
  base := hbase
  answerable b hb o ho := by
    rw [hcb] at ho
    rw [hwire]
    exact h.answerable b (hout b hb) o ho
  sound c hc b hb := by
    rw [hdone] at hc
    rw [hwire]
    exact h.sound c hc b hb

theorem dequeue (h : BarrierInv w) (hok : RegistersInOrder w .dequeue)
    (hs : w.dequeue = some w') : BarrierInv w' := by
  obtain ⟨o, rest, _, hpend, heq⟩ := dequeue_cases hs
  have hout : outstanding w' = outstanding w := by
    rw [outstanding, outstanding, heq.wire, heq.handled, heq.messages]
  refine ⟨h.base.dequeue hs, fun b hb c hc hle => ?_, fun c hc => ?_⟩
  · rw [hout] at hb
    rw [heq.wire]
    rcases heq.callbacks with hcb | ⟨hack, hcb⟩
    · exact h.answerable b hb c (hcb ▸ hc) hle
    · rw [hcb] at hc
      rcases List.mem_append.mp hc with hold | hnew
      · exact h.answerable b hb c hold hle
      · -- the new transaction has a larger xid
        rw [List.mem_singleton.mp hnew] at hle
        have hlt : b.xid < o.xid := hok o (by rw [hpend]; rfl) hack b hb
        exact absurd hlt (UInt32.not_lt.mpr hle)
  · rw [heq.completions] at hc
    rw [heq.wire]
    exact h.sound c hc

/-- Sending appends to the wire, and what was registered before is there. -/
theorem send (h : BarrierInv w) {o : HalObject γ} (ho : w.sending = some o)
    (hbase : HalInv { w with sending := none, wire := w.wire ++ [o] }) :
    BarrierInv { w with sending := none, wire := w.wire ++ [o] } := by
  have hgrow : ∀ x y : HalObject γ, [x, y].Sublist w.wire → [x, y].Sublist (w.wire ++ [o]) :=
    fun x y hxy => hxy.trans (List.sublist_append_left ..)
  refine ⟨hbase, fun b hb c hc hle => ?_, fun c hc b hb => ?_⟩
  · dsimp only at hc
    have hold : b ∈ outstanding w ∨ b = o := by
      unfold outstanding at hb ⊢
      dsimp only at hb
      rcases List.mem_append.mp hb with hsent | hmsg
      · obtain ⟨hdrop, hbar⟩ := List.mem_filter.mp hsent
        rw [List.drop_append] at hdrop
        rcases List.mem_append.mp hdrop with hw | hlast
        · exact Or.inl (List.mem_append_left _ (List.mem_filter.mpr ⟨hw, hbar⟩))
        · exact Or.inr (List.mem_singleton.mp (List.mem_of_mem_drop hlast))
      · exact Or.inl (List.mem_append_right _ hmsg)
    rcases hold with hold | rfl
    · exact (h.answerable b hold c hc hle).imp_right (hgrow _ _)
    · -- the barrier request was just sent: all that is registered departed before, or is it
      have hmem := h.base.departed c.1 (List.mem_append_right _ (List.mem_map_of_mem hc))
      rw [Proof.departed, ho] at hmem
      rcases List.mem_append.mp hmem with hwire | hself
      · refine Or.inr ?_
        exact (List.singleton_sublist.mpr hwire).append (.refl [b])
      · exact Or.inl (by simpa using hself)
  · exact (h.sound c hc b hb).imp_right (hgrow _ _)

theorem process (h : BarrierInv w) (hs : w.process = some w') : BarrierInv w' := by
  have hbase : HalInv w' := h.base.step (i := .process) hs
  obtain ⟨m, hp⟩ := process_cases hs
  have hout : ∀ b ∈ outstanding w', b ∈ outstanding w := by
    intro b hb
    unfold outstanding at hb ⊢
    rw [hp.wire, hp.handled] at hb
    rcases List.mem_append.mp hb with hsent | hmsg
    · exact List.mem_append_left _ hsent
    · rw [hp.messages]
      refine List.mem_append_right _ ?_
      obtain ⟨m', hm', hb'⟩ := List.mem_filterMap.mp hmsg
      exact List.mem_filterMap.mpr ⟨m', List.mem_cons_of_mem _ hm', hb'⟩
  refine ⟨hbase, fun b hb o ho hle => ?_, fun c hc b hb => ?_⟩
  · rw [hp.wire]
    exact h.answerable b (hout b hb) o (hp.callbacks o ho) hle
  · rw [hp.wire]
    rcases hp.completed c hc with hold | ⟨rfl, hnew⟩
    · exact h.sound c hold b hb
    · obtain ⟨o, ho, hobj, hle⟩ := hnew b hb
      have hbout : b ∈ outstanding w := by
        unfold outstanding
        rw [hp.messages]
        exact List.mem_append_right _ (List.mem_filterMap.mpr ⟨_, List.mem_cons_self, hb⟩)
      rw [hobj]
      exact h.answerable b hbout o ho hle

theorem step (h : BarrierInv w) {i : HalInput γ} (hok : RegistersInOrder w i)
    (hs : w.step i = some w') : BarrierInv w' := by
  have hbase : HalInv w' := h.base.step hs
  cases i with
  | construct msgType callback =>
      obtain rfl := Option.some.inj hs
      exact h.of_frame hbase rfl (fun b hb => hb) rfl rfl
  | enqueue index =>
      obtain ⟨o, _, rfl⟩ := Option.map_eq_some_iff.mp hs
      exact h.of_frame hbase rfl (fun b hb => hb) rfl rfl
  | dequeue => exact h.dequeue hok hs
  | send ok =>
      simp only [HalWorld.step, HalWorld.send] at hs
      split at hs
      · exact absurd hs (by simp)
      · obtain ⟨o, ho, rfl⟩ := Option.map_eq_some_iff.mp hs
        cases ok with
        | false => exact h.of_frame hbase rfl (fun b hb => hb) rfl rfl
        | true => exact h.send ho hbase
  | switchHandles =>
      -- a barrier request moves from the wire to the replies, and stays outstanding
      obtain ⟨o, ho, rfl⟩ := Option.map_eq_some_iff.mp hs
      refine h.of_frame hbase rfl (fun b hb => ?_) rfl rfl
      obtain ⟨hlt, hget⟩ := List.getElem?_eq_some_iff.mp ho
      have hdrop : w.wire.drop w.handled = o :: w.wire.drop (w.handled + 1) := by
        rw [← hget]
        exact List.drop_eq_getElem_cons hlt
      unfold outstanding at hb ⊢
      dsimp only at hb
      rw [hdrop]
      rcases List.mem_append.mp hb with hsent | hmsg
      · obtain ⟨hmem, hbar⟩ := List.mem_filter.mp hsent
        exact List.mem_append_left _ (List.mem_filter.mpr ⟨List.mem_cons_of_mem _ hmem, hbar⟩)
      · split at hmsg
        · rename_i hbar
          rw [List.filterMap_append] at hmsg
          rcases List.mem_append.mp hmsg with hold | hnew
          · exact List.mem_append_right _ hold
          · have hbo : b = o := by simpa [SwitchMessage.answers?, eq_comm] using hnew
            rw [hbo]
            exact List.mem_append_left _ (List.mem_filter.mpr ⟨List.mem_cons_self, hbar⟩)
        · exact List.mem_append_right _ hmsg
  | switchSends header =>
      simp only [HalWorld.step, HalWorld.switchSends] at hs
      split at hs
      · obtain rfl := Option.some.inj hs
        refine h.of_frame hbase rfl (fun b hb => ?_) rfl rfl
        unfold outstanding at hb ⊢
        dsimp only at hb
        rw [List.filterMap_append] at hb
        simpa [SwitchMessage.answers?] using hb
      · exact absurd hs (by simp)
  | process => exact h.process hs

end BarrierInv

theorem barrierInv_boot : BarrierInv (boot γ) where
  base := halInv_boot
  answerable b hb := by simp [outstanding, boot] at hb
  sound c hc := by simp [boot] at hc

/--
**Barrier completion.** In every run each transaction is completed at most once.
If no step registers a transaction behind an outstanding barrier request with an
xid at least its own, barrier replies only complete what they vouch for.
-/
theorem barrier_completion {ts : List (Transition (HalWorld γ) (HalInput γ))} {w : HalWorld γ}
    (hr : Run HalWorld.step (boot γ) ts w) :
    CompletedOnce w ∧
      ((∀ t ∈ ts, RegistersInOrder t.source t.input) → BarrierSound w) := by
  refine ⟨completedOnce_of_inv (halInv_reachable hr), fun hok => ?_⟩
  exact (hr.invariant_guarded BarrierInv RegistersInOrder barrierInv_boot
    (fun _ _ _ h hg hs => h.step hg hs) hok).1.sound

instance (w : HalWorld γ) : (i : HalInput γ) → Decidable (RegistersInOrder w i)
  | .dequeue => inferInstanceAs (Decidable (∀ o ∈ w.pendingTransactions.head?,
      o.hasCompletionAcknowledgement = true → ∀ b ∈ outstanding w, b.xid < o.xid))
  | .construct .. => .isTrue trivial
  | .enqueue _ => .isTrue trivial
  | .send _ => .isTrue trivial
  | .switchHandles => .isTrue trivial
  | .switchSends _ => .isTrue trivial
  | .process => .isTrue trivial

/-- A flow-mod and a barrier request, each with a callback: the flow-mod draws the smaller xid. -/
def constructBoth : List (HalInput Unit) :=
  [.construct .flowMod (some ()), .construct .barrierRequest (some ())]

/-- The send loop takes the next transaction and sends it. -/
def sendNext : List (HalInput Unit) := [.dequeue, .send true]

/-- Sent in the order of their xids, both are completed by the barrier reply. -/
theorem barrier_completes_earlier : ∃ ts w, Run HalWorld.step (boot Unit) ts w ∧
    w.completions.map (·.object.number) = [0, 1] ∧ CompletedOnce w ∧ BarrierSound w := by
  obtain ⟨ts, w, hr, hcheck⟩ := Run.exists_of_test HalWorld.step (boot Unit)
    (constructBoth ++ [.enqueue 0] ++ sendNext ++ [.enqueue 0] ++ sendNext ++
      [.switchHandles, .switchHandles, .process])
    (fun ts w => w.completions.map (·.object.number) == [0, 1] &&
      decide (∀ t ∈ ts, RegistersInOrder t.source t.input)) (by decide +kernel)
  rw [Bool.and_eq_true, beq_iff_eq, decide_eq_true_eq] at hcheck
  have hboth := barrier_completion hr
  exact ⟨ts, w, hr, hcheck.1, hboth.1, hboth.2 hcheck.2⟩

/--
Another thread gets its barrier request sent first: the reply to it completes the
flow-mod, which the switch has not looked at.
-/
theorem barrier_completes_later : ∃ ts w, Run HalWorld.step (boot Unit) ts w ∧ ¬ BarrierSound w := by
  obtain ⟨ts, w, hr, hcheck⟩ := Run.exists_of_test HalWorld.step (boot Unit)
    (constructBoth ++ [.enqueue 1] ++ sendNext ++ [.enqueue 0] ++ sendNext ++
      [.switchHandles, .process])
    (fun _ w => w.completions.any fun c => c.cause.answers?.any fun b =>
      decide (c.object ≠ b ∧ ¬ [c.object, b].Sublist w.wire)) (by decide +kernel)
  refine ⟨ts, w, hr, fun hsound => ?_⟩
  obtain ⟨c, hc, hbad⟩ := List.any_eq_true.mp hcheck
  obtain ⟨b, hb, hbad⟩ := (Option.any_eq_true _ _).mp hbad
  obtain ⟨hne, hnot⟩ := of_decide_eq_true hbad
  rcases hsound c hc b hb with heq | hsub
  · exact hne heq
  · exact hnot hsub

end IronStack.Proof

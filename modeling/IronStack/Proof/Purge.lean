import IronStack.Proof.Ports

/-!
# What goes when a port goes

When a port is lost the flow service's callback has `remove_flow` remove every live
flow whose only action outputs to it, by cookie, and the CAM forget the stations
behind it. Two things can get in the way. `remove_flow` takes the first table that
holds the cookie, which need not be the one the flow is in. And the callback
returns at once if the link bits stored for the port read up, which they still do
when the switch deletes a port that was up.
-/

namespace IronStack.Proof

open IronStack Lib FlowTable FlowService SwitchState SwitchWorld

/-- The record of the port a message is about. -/
def portOf (w : SwitchWorld) (status : PortStatus) : OpenflowVlanPort :=
  portAt w.state.ports status.description.portNumber

/--
The message takes a physical port down that was up, or removes it, and the port is
on a VLAN the flow service is registered for.
-/
structure LosesPort (w : SwitchWorld) (status : PortStatus) : Prop where
  physical : status.description.portNumber < firstReservedPort
  registered : ∃ it ∈ w.state.portModCallbacks,
    w.alive it.2 = true ∧ (portOf w status).isMemberOfVlan it.1 = true
  lost : status.reason = .delete ∨
    (status.reason = .modify ∧ (portOf w status).valid = true ∧
      (portOf w status).port.isUp = true ∧ status.description.isUp = false)

/-- The flow is live, and its only action is to output to the port. -/
def DependsOn (port : UInt16) (e : FlowEntry) : Prop :=
  e.state.isStanding = true ∧ e.description.actionList.actions = [.outputToPort false port]

instance (port : UInt16) (e : FlowEntry) : Decidable (DependsOn port e) :=
  inferInstanceAs (Decidable (_ ∧ _))

theorem DependsOn.outputsToPort {port : UInt16} {e : FlowEntry} (h : DependsOn port e) :
    outputsToPort port e = true := by
  rw [IronStack.outputsToPort, h.1, h.2]
  simp

/-- Going from `w` to `w'`, all that depends on the port was purged, and no other live flow. -/
structure PortPurged (port : UInt16) (w w' : SwitchWorld) : Prop where
  /-- The flows to the port are marked, and their deletes on the way. -/
  flows : ∀ i c e, entryAt w.flow.svc i c = some e → DependsOn port e →
    (∃ e', entryAt w'.flow.svc i c = some e' ∧ e'.state = .pendingDeletion) ∧
      ∃ tr ∈ w'.flow.svc.enqueued.drop w.flow.svc.enqueued.length,
        tr.request = .flowMod (deleteStrictRequest e.description)
  stations : NoStations w'.cam port
  others : ∀ i c e, entryAt w.flow.svc i c = some e → e.state.isStanding = true →
    ¬ DependsOn port e → entryAt w'.flow.svc i c = some e

/-- No live flow outputs to the port alone. -/
def NoFlows (w : SwitchWorld) (port : UInt16) : Prop :=
  ∀ i c e, entryAt w.flow.svc i c = some e → ¬ DependsOn port e

/--
For every live flow whose only action carries the port's number: if it depends on the
port, `remove_flow` of its cookie finds this very flow, and if it finds a live flow
at all, that one depends on the port.
-/
def RemovesRight (w : SwitchWorld) (port : UInt16) : Prop :=
  ∀ i c e, entryAt w.flow.svc i c = some e → outputsToPort port e = true →
    (DependsOn port e → RemovedAt w.flow.svc i c) ∧
      ∀ j e', RemovedAt w.flow.svc j c → entryAt w.flow.svc j c = some e' →
        e'.state.isStanding = true → DependsOn port e'

/-- The link bits stored for the port will read down: a removal does not touch them. -/
def ReadsDown (w : SwitchWorld) (status : PortStatus) : Prop :=
  w.state.initialized = true ∧ (status.reason = .delete → (portOf w status).port.isUp = false)

/-- The condition on the state before: see `port_purged_iff`. -/
def PurgesPort (w : SwitchWorld) (status : PortStatus) : Prop :=
  (ReadsDown w status ∧
      ((w.flow.svc.initialized = true ∧ RemovesRight w status.description.portNumber) ∨
        (w.flow.svc.initialized = false ∧ NoFlows w status.description.portNumber))) ∨
    (¬ ReadsDown w status ∧ NoFlows w status.description.portNumber ∧
      NoStations w.cam status.description.portNumber)

theorem standing_not_deleted {e : FlowEntry} (h : e.state.isStanding = true) :
    e.state ≠ .deleted := by
  intro hd
  rw [hd] at h
  exact absurd h (by simp [FlowState.isStanding])

theorem condemned_of_standing {now : Nat} {e : FlowEntry} (h : e.state.isStanding = true) :
    condemned now e = e.setState now .pendingDeletion := if_neg (standing_not_deleted h)

/-- A live flow is not what a mark leaves of a flow. -/
theorem ne_condemned {now : Nat} {e e₀ : FlowEntry} (h : e.state.isStanding = true) :
    e ≠ condemned now e₀ := by
  intro heq
  rw [heq, condemned_not_standing] at h
  exact absurd h (by simp)

/-- A purge leaves no flow to the port as it was. -/
theorem PortPurged.not_kept {w w' : SwitchWorld} {port : UInt16} (hp : PortPurged port w w')
    {i : Nat} {c : UInt64} {e : FlowEntry} (he : entryAt w.flow.svc i c = some e)
    (hdep : DependsOn port e) : entryAt w'.flow.svc i c ≠ some e := by
  intro hkept
  obtain ⟨⟨e', he', hs⟩, _⟩ := hp.flows i c e he hdep
  rw [hkept] at he'
  have hlive := hdep.1
  rw [Option.some.inj he', hs] at hlive
  exact absurd hlive (by simp [FlowState.isStanding])

/-- When the callback was made for a port that reads down. -/
theorem portPurged_of_calledBack {w w' : SwitchWorld} {port : UInt16}
    (h : CalledBack port w w') :
    PortPurged port w w' ↔
      (w.flow.svc.initialized = true ∧ RemovesRight w port) ∨
        (w.flow.svc.initialized = false ∧ NoFlows w port) := by
  cases hon : w.flow.svc.initialized with
  | false =>
      -- an offline service lists no flows, so none is affected
      have hoff : ∀ i c, ¬ (Affected w.flow.svc port c ∧ RemovedAt w.flow.svc i c) := by
        intro i c hc
        rw [Affected, hon] at hc
        exact absurd hc.1.1 (by simp)
      have hkept := fun i c => h.removed.kept i c (hoff i c)
      refine ⟨?_, ?_⟩
      · intro hp
        refine Or.inr ⟨rfl, fun i c e he hdep => ?_⟩
        exact hp.not_kept he hdep (by rw [hkept, he])
      · intro hcond
        have hno : NoFlows w port := (hcond.resolve_left fun hh => absurd hh.1 (by simp)).2
        refine ⟨fun i c e he hdep => absurd hdep (hno i c e he), h.stations, fun i c e he _ _ => ?_⟩
        rw [hkept, he]
  | true =>
      refine ⟨?_, ?_⟩
      · intro hp
        refine Or.inl ⟨rfl, fun i c e he hout => ⟨fun hdep => ?_, fun j e' hj he' hlive => ?_⟩⟩
        · -- a flow that `remove_flow` does not find stays
          by_contra hnot
          exact hp.not_kept he hdep (by rw [h.removed.kept i c fun hh => hnot hh.2, he])
        · -- a flow it finds instead is marked
          by_contra hnot
          have hkept := hp.others j c e' he' hlive hnot
          rw [h.removed.marked j c ⟨hon, i, e, he, hout⟩ hj, he'] at hkept
          exact ne_condemned hlive (Option.some.inj hkept).symm
      · intro hcond
        have hright : RemovesRight w port := (hcond.resolve_right fun hh => absurd hh.1 (by simp)).2
        refine ⟨fun i c e he hdep => ?_, h.stations, fun i c e he hlive hnot => ?_⟩
        · have hat := (hright i c e he hdep.outputsToPort).1 hdep
          have haff : Affected w.flow.svc port c := ⟨hon, i, e, he, hdep.outputsToPort⟩
          refine ⟨⟨condemned w.flow.now e, ?_, ?_⟩, ?_⟩
          · rw [h.removed.marked i c haff hat, he]
            rfl
          · rw [condemned_of_standing hdep.1]
            rfl
          · obtain ⟨l, hl, hsent⟩ := h.removed.sent
            rw [hl, List.drop_left]
            exact hsent i c e haff hat he
        · refine (h.removed.kept i c fun hh => ?_).trans he
          obtain ⟨⟨_, j, e₀, he₀, hout⟩, hat⟩ := hh
          exact hnot ((hright j c e₀ he₀ hout).2 i e hat he hlive)

/-- When nothing was done to the flows and the stations. -/
theorem portPurged_of_same {w w' : SwitchWorld} {port : UInt16}
    (hsvc : w'.flow.svc = w.flow.svc) (hcam : w'.cam = w.cam) :
    PortPurged port w w' ↔ NoFlows w port ∧ NoStations w.cam port := by
  refine ⟨?_, ?_⟩
  · intro hp
    refine ⟨fun i c e he hdep => ?_, hcam ▸ hp.stations⟩
    exact hp.not_kept he hdep (by rw [hsvc, he])
  · intro ⟨hflows, hstations⟩
    refine ⟨fun i c e he hdep => absurd hdep (hflows i c e he), hcam ▸ hstations, ?_⟩
    intro i c e he _ _
    rw [hsvc, he]

/-- A port on a VLAN is on record. -/
theorem port_of_member {ports : PortMap} {n vlan : UInt16}
    (h : (portAt ports n).isMemberOfVlan vlan = true) : ports[n]? = some (portAt ports n) := by
  unfold portAt at h ⊢
  cases hp : ports[n]? with
  | none =>
      rw [hp] at h
      exact absurd h (by simp [OpenflowVlanPort.isMemberOfVlan])
  | some p => rfl

/-- What `update_switch_port` hands to the callbacks when a port is lost. -/
structure LostCopy (w : SwitchWorld) (status : PortStatus) (copy : OpenflowVlanPort) : Prop where
  made : (w.state.updateSwitchPort status).1 = some copy
  callbacks : (w.state.updateSwitchPort status).2.portModCallbacks = w.state.portModCallbacks
  vlans : copy.vlanMembership = (portOf w status).vlanMembership
  number : copy.port.portNumber = status.description.portNumber
  up : copy.port.isUp = true ↔ ¬ ReadsDown w status

theorem updateSwitchPort_lost {w : SwitchWorld} {status : PortStatus} (hinv : SwitchInv w)
    (hon : w.state.initialized = true) (hlost : LosesPort w status) :
    ∃ copy, LostCopy w status copy := by
  obtain ⟨it, _, _, hmember⟩ := hlost.registered
  have hthere : w.state.ports[status.description.portNumber]? = some (portOf w status) :=
    port_of_member hmember
  have hphysical : ¬ status.description.portNumber ≥ firstReservedPort :=
    UInt16.not_le.mpr hlost.physical
  have hmade : maybeCreatePort w.state.ports status.description.portNumber = w.state.ports := by
    unfold maybeCreatePort
    rw [if_neg hphysical, Std.ExtTreeMap.contains_eq_isSome_getElem?, hthere]
    rfl
  rcases hlost.lost with hdel | ⟨hmod, hvalid, hup, hdown⟩
  · refine ⟨(portOf w status).setValid false, ?_, ?_, rfl, ?_, ?_⟩
    · simp [updateSwitchPort, hon, hphysical, hdel, hmade, removePort, hthere, portAt]
    · simp [updateSwitchPort, hon, hphysical, hdel]
    · have hnumber := hinv.ports _ _ hlost.physical hthere
      exact hnumber
    · show (portOf w status).port.isUp = true ↔ _
      simp [ReadsDown, hon, hdel]
  · refine ⟨((portOf w status).setOpenflowPort status.description).setValid true, ?_, ?_, rfl, rfl,
      ?_⟩
    · have hport : portAt w.state.ports status.description.portNumber = portOf w status := rfl
      simp [updateSwitchPort, hon, hphysical, hmod, hmade, hport, hvalid, hup, hdown,
        createOrUpdatePort, hthere]
      simp [portAt]
    · simp [updateSwitchPort, hon, hphysical, hmod]
    · have hnot : (((portOf w status).setOpenflowPort status.description).setValid true).port.isUp =
          false := hdown
      simp [ReadsDown, hon, hmod, hnot]

/-- The message is handled by calling back, at least once, for the copy. -/
theorem handlePortStatus_lost {w : SwitchWorld} {status : PortStatus} {copy : OpenflowVlanPort}
    (hlost : LosesPort w status) (hcopy : LostCopy w status copy) :
    ∃ cbs : List Nat, cbs ≠ [] ∧ w.handlePortStatus status =
      cbs.foldl (fun w _ => w.callBack copy)
        { w with state := (w.state.updateSwitchPort status).2 } := by
  refine ⟨(w.state.updateSwitchPort status).2.callbacksFor w.alive copy, ?_, ?_⟩
  · obtain ⟨it, hit, halive, hmember⟩ := hlost.registered
    refine List.ne_nil_of_mem (a := it.2) ?_
    rw [callbacksFor, hcopy.callbacks]
    refine List.mem_map_of_mem (List.mem_filter.mpr ⟨hit, ?_⟩)
    rw [OpenflowVlanPort.isMemberOfVlan] at hmember ⊢
    rw [hcopy.vlans, hmember, halive]
    rfl
  · have hmade := hcopy.made
    unfold handlePortStatus
    generalize w.state.updateSwitchPort status = result at hmade ⊢
    obtain ⟨port?, state⟩ := result
    dsimp only at hmade
    rw [hmade]
    rfl

/-- A message that comes before `switch_state` is initialized does nothing. -/
theorem handlePortStatus_off {w : SwitchWorld} (hoff : w.state.initialized = false)
    (status : PortStatus) : w.handlePortStatus status = w := by
  unfold handlePortStatus updateSwitchPort
  simp [hoff]

/-- What is purged does not depend on the state of the switch. -/
theorem portPurged_state {w w' : SwitchWorld} {port : UInt16} (state : SwitchState) :
    PortPurged port { w with state := state } w' ↔ PortPurged port w w' := by
  refine ⟨?_, ?_⟩
  · intro h
    exact ⟨h.flows, h.stations, h.others⟩
  · intro h
    exact ⟨h.flows, h.stations, h.others⟩

/-- Where the stored link bits read down the callbacks do their work. -/
theorem portPurged_of_down {w : SwitchWorld} {status : PortStatus} {copy : OpenflowVlanPort}
    (hinv : SwitchInv w) (hlost : LosesPort w status) (hcopy : LostCopy w status copy)
    (hdown : ReadsDown w status) :
    PortPurged status.description.portNumber w (w.handlePortStatus status) ↔
      PurgesPort w status := by
  obtain ⟨cbs, hne, hhandled⟩ := handlePortStatus_lost hlost hcopy
  have hlow : copy.port.isUp = false := by
    by_contra hup
    exact hcopy.up.mp (by simpa using hup) hdown
  have hcalled := foldl_callBack_down
    (w := { w with state := (w.state.updateSwitchPort status).2 }) hinv.service hlow hne
  rw [hcopy.number] at hcalled
  rw [hhandled, ← portPurged_state (w.state.updateSwitchPort status).2,
    portPurged_of_calledBack hcalled]
  simp only [PurgesPort, hdown, true_and, not_true_eq_false, false_and, or_false]
  exact Iff.rfl

/-- Where they read up the callbacks return at once. -/
theorem portPurged_of_up {w : SwitchWorld} {status : PortStatus} {copy : OpenflowVlanPort}
    (hlost : LosesPort w status) (hcopy : LostCopy w status copy)
    (hnot : ¬ ReadsDown w status) :
    PortPurged status.description.portNumber w (w.handlePortStatus status) ↔
      PurgesPort w status := by
  obtain ⟨cbs, _, hhandled⟩ := handlePortStatus_lost hlost hcopy
  have hsame := foldl_callBack_up (w := { w with state := (w.state.updateSwitchPort status).2 })
    cbs (hcopy.up.mpr hnot)
  rw [hhandled, ← portPurged_state (w.state.updateSwitchPort status).2,
    portPurged_of_same hsame.1 hsame.2]
  simp only [PurgesPort, hnot, false_and, not_false_eq_true, true_and, false_or]
  exact Iff.rfl

/--
**Losing a port.** In every reachable state, for every message that takes a port
down or removes it: all that depends on the port is purged, and nothing else,
exactly when the link bits stored for the port read down and `remove_flow` finds the
right flows; or nothing depends on the port.
-/
theorem port_purged_iff {tables : List FlowTable}
    {ts : List (Transition SwitchWorld SwitchInput)} {w w' : SwitchWorld}
    (hr : Run SwitchWorld.step (boot tables) ts w) {status : PortStatus}
    (hlost : LosesPort w status) (hs : w.step (.portStatus status) = some w') :
    PortPurged status.description.portNumber w w' ↔ PurgesPort w status := by
  have hinv := switchInv_reachable hr
  obtain rfl := Option.some.inj hs
  cases hon : w.state.initialized with
  | false =>
      have hnot : ¬ ReadsDown w status := fun hd => by simp [ReadsDown, hon] at hd
      rw [handlePortStatus_off hon, portPurged_of_same rfl rfl]
      simp [PurgesPort, hnot]
  | true =>
      obtain ⟨copy, hcopy⟩ := updateSwitchPort_lost hinv hon hlost
      by_cases hdown : ReadsDown w status
      · exact portPurged_of_down hinv hlost hcopy hdown
      · exact portPurged_of_up hlost hcopy hdown

instance (svc : FlowService) (i : Nat) (c : UInt64) : Decidable (RemovedAt svc i c) :=
  inferInstanceAs (Decidable (_ ∧ _))

instance (w : SwitchWorld) (port : UInt16) : Decidable (RemovesRight w port) :=
  decidable_of_iff (∀ p ∈ allEntries w.flow.svc, outputsToPort port p.2.2 = true →
      (DependsOn port p.2.2 → RemovedAt w.flow.svc p.1 p.2.1) ∧
        ∀ q ∈ allEntries w.flow.svc, q.2.1 = p.2.1 → RemovedAt w.flow.svc q.1 q.2.1 →
          q.2.2.state.isStanding = true → DependsOn port q.2.2) <| by
    simp only [RemovesRight, Prod.forall, mem_allEntries]
    refine ⟨fun h i c e he hout => ⟨(h i c e he hout).1, fun j e' hj he' => ?_⟩,
      fun h i c e he hout => ⟨(h i c e he hout).1, fun j k e' he' hk hj => ?_⟩⟩
    · exact (h i c e he hout).2 j c e' he' rfl hj
    · subst hk
      exact (h i k e he hout).2 j e' hj he'

/-- A switch with ports 1 and 2 on VLAN 7, and a station behind port 1. -/
def bringUpSwitch : List SwitchInput :=
  [.state (.setSwitchFeatures [{ portNumber := 1 }, { portNumber := 2 }]),
    .state .setSwitchConfig, .state .setSwitchDescription,
    .state (.setSwitchIp (.ofOctets 10 0 0 1)), .state (.setSwitchMacOverride false MacAddress.nil),
    .state (.setName "switch"), .state (.setVlanPorts [1, 2] 7),
    .cam (.createCamTable 7), .cam (.insert (fun _ => 0) (.ofOctets 2 0 0 0 0 9) 7 1)] ++
    bringUp.map .flow

/-- A flow that outputs to a port. -/
def outputFlow (cookie : UInt64) (port : UInt16) : SwitchInput :=
  .flow (.addFlow
    { description := ⟨OfMatch.clear, ⟨[.outputToPort false port]⟩, cookie, 100⟩
      installTimeoutMs := 0 })

/-- Flows to port 1 under cookie 5 and to port 2 under cookie 6. -/
def bothFlows : List SwitchInput := bringUpSwitch ++ [outputFlow 5 1, outputFlow 6 2]

/-- The link of port 1 goes down. -/
def linkDown : PortStatus := ⟨.modify, { portNumber := 1, state := { portLinkDown := true } }⟩

/-- Port 1 is removed. -/
def portDeleted : PortStatus := ⟨.delete, { portNumber := 1 }⟩

instance (w : SwitchWorld) (status : PortStatus) : Decidable (LosesPort w status) :=
  decidable_of_iff (status.description.portNumber < firstReservedPort ∧
      (∃ it ∈ w.state.portModCallbacks,
        w.alive it.2 = true ∧ (portOf w status).isMemberOfVlan it.1 = true) ∧
      (status.reason = .delete ∨
        (status.reason = .modify ∧ (portOf w status).valid = true ∧
          (portOf w status).port.isUp = true ∧ status.description.isUp = false)))
    ⟨fun h => ⟨h.1, h.2.1, h.2.2⟩, fun h => ⟨h.physical, h.registered, h.lost⟩⟩

/-- When its link goes down the flow to port 1 is removed, the other left alone. -/
theorem link_down_purged : ∃ ts w w', Run SwitchWorld.step (boot [dellS48xxAclTable]) ts w ∧
    LosesPort w linkDown ∧ ¬ NoFlows w 1 ∧ w.step (.portStatus linkDown) = some w' ∧
    PortPurged 1 w w' := by
  obtain ⟨ts, w, hr, hcheck⟩ := Run.exists_of_test SwitchWorld.step (boot [dellS48xxAclTable])
    bothFlows (fun _ w => decide (LosesPort w linkDown ∧ w.state.initialized = true ∧
      w.flow.svc.initialized = true ∧ RemovesRight w 1) &&
      (entryAt w.flow.svc 0 5).any fun e => decide (DependsOn 1 e)) (by decide +kernel)
  rw [Bool.and_eq_true] at hcheck
  obtain ⟨hlost, hready, hon, hright⟩ := of_decide_eq_true hcheck.1
  obtain ⟨e, he, hdep⟩ := (Option.any_eq_true _ _).mp hcheck.2
  refine ⟨ts, w, w.handlePortStatus linkDown, hr, hlost, ?_, rfl, ?_⟩
  · intro hno
    exact hno 0 5 e he (of_decide_eq_true hdep)
  · exact (port_purged_iff hr hlost rfl).mpr
      (Or.inl ⟨⟨hready, fun hdel => absurd hdel (by decide)⟩, Or.inl ⟨hon, hright⟩⟩)

/-- When port 1 is removed the flow to it stays as it is: its link still reads up. -/
theorem port_deleted_ignored : ∃ ts w w', Run SwitchWorld.step (boot [dellS48xxAclTable]) ts w ∧
    LosesPort w portDeleted ∧ w.step (.portStatus portDeleted) = some w' ∧
    ¬ PortPurged 1 w w' := by
  obtain ⟨ts, w, hr, hcheck⟩ := Run.exists_of_test SwitchWorld.step (boot [dellS48xxAclTable])
    bothFlows (fun _ w => decide (LosesPort w portDeleted) &&
      ((entryAt w.flow.svc 0 5).any fun e => decide (DependsOn 1 e)) &&
      (entryAt (w.handlePortStatus portDeleted).flow.svc 0 5).all fun (e : FlowEntry) =>
        decide (e.state ≠ FlowState.pendingDeletion)) (by decide +kernel)
  rw [Bool.and_eq_true, Bool.and_eq_true] at hcheck
  obtain ⟨⟨hlost, hdep⟩, hstays⟩ := hcheck
  obtain ⟨e, he, hdep⟩ := (Option.any_eq_true _ _).mp hdep
  refine ⟨ts, w, w.handlePortStatus portDeleted, hr, of_decide_eq_true hlost, rfl, fun hp => ?_⟩
  obtain ⟨⟨e', he', hs⟩, _⟩ := hp.flows 0 5 e he (of_decide_eq_true hdep)
  rw [he'] at hstays
  exact of_decide_eq_true (p := e'.state ≠ .pendingDeletion) hstays hs

end IronStack.Proof

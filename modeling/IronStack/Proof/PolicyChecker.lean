import IronStack.Net.PolicyChecker
import IronStack.Proof.ArpEgress
import IronStack.Proof.World
import IronStack.Switch.System

/-!
# The VLAN of an accelerated flow

The CAM and the flow policy checker look up the VLAN of a packet one after the other,
each in its own way. Where the tag is one of the port, or the port has a single VLAN,
they agree, and the flow stays in that VLAN. Elsewhere the checker has a -1 that is
passed on as a VLAN.
-/

namespace IronStack.Proof

open IronStack Std Lib NetUtils SwitchState FlowService

/-! ## What a packet brings about -/

/-- The record of the port that a packet came in on. -/
def ingressPort (s : CamServices) (packet : PacketIn) : OpenflowVlanPort :=
  ((s.switchState.getD {}).getSwitchPort packet.inPort).1.2

/-- The VLAN of a packet, as it is determined for the checker. -/
def packetVlan (s : CamServices) (packet : PacketIn) (raw : RawPacket) : Int :=
  (getVlanFromPacket (s.switchState.getD {}) packet raw).1

/-- The CAM learns the sender under a VLAN, whatever it holds. -/
def LearnsUnder (s : CamServices) (packet : PacketIn) (raw : RawPacket) (vlan : UInt16) : Prop :=
  ∀ cam : Cam, ({ s with cam }.filterPacket packet raw).2.cam =
    cam.insert s.clock s.now raw.srcMac vlan packet.inPort

/-- The flow of a request to install one. -/
def requestedFlow (tr : FlowTransaction) : Option FlowDescription :=
  match tr.request with
  | .flowMod msg => some msg.flowDescription
  | .statsRequestFlowStats => none

/-- Everything that the flow service, if there is one, has handed to the controller. -/
def transactions (s : FlowPolicyChecker) : List FlowTransaction := (s.flowSvc.map (·.enqueued)).getD []

/-- The flows that are installed between one state and the next. -/
def installedFlows (s s' : FlowPolicyChecker) : List FlowDescription :=
  ((transactions s').drop (transactions s).length).filterMap requestedFlow

/-- The L2 flows that are installed because of a packet stay inside its VLAN. -/
structure InsideVlan (s s' : FlowPolicyChecker) (packet : PacketIn) (raw : RawPacket) : Prop where
  member : ∀ flow ∈ installedFlows s s', isL2Flow flow.criteria = true →
    (ingressPort s.services packet).isMemberOfVlan flow.criteria.vlanId = true
  output : ∀ flow ∈ installedFlows s s', isL2Flow flow.criteria = true →
    flow.actionList.actions = [.outputToPort false packet.inPort]
  /-- Without a VLAN for the packet there is no flow. -/
  determined : packetVlan s.services packet raw = -1 → installedFlows s s' = []
  learned : ∀ flow ∈ installedFlows s s', isL2Flow flow.criteria = true →
    ∀ vlan, LearnsUnder s.services packet raw vlan → flow.criteria.vlanId = vlan

/-! ## When it does -/

/-- The tag is one of the port, or the port has the one VLAN that an untagged packet can be on. -/
def VlanCertain (port : OpenflowVlanPort) (raw : RawPacket) : Prop :=
  if raw.hasVlanTag then port.isMemberOfVlan raw.vlanId = true
  else port.valid = true ∧ port.tagged = false ∧ port.vlanMembership.size = 1

/-- There is a flow service, and it has the flow installed that it is asked for, with its next cookie. -/
def Admitted (s : FlowPolicyChecker) (random : UInt64) (srcMac : MacAddress)
    (vlanId phyPort : UInt16) : Prop :=
  ∃ svc, s.flowSvc = some svc ∧ (admits (svc.getNextAvailableCookieId random).2
    ((FlowPolicyChecker.acceleratedFlow srcMac vlanId phyPort).withCookie
      (svc.getNextAvailableCookieId random).1)).isSome = true

/-- The checker comes to ask for a flow of the sender on a VLAN, and has it installed. -/
structure Accelerates (s : FlowPolicyChecker) (random : UInt64) (packet : PacketIn) (raw : RawPacket)
    (vlan : UInt16) : Prop where
  initialized : s.initialized = true
  camOnline : s.camOnline = true
  stateOnline : s.services.switchState.isSome = true
  sender : raw.srcMac.isNil = false ∧ raw.srcMac.isBroadcast = false
  admitted : Admitted s random raw.srcMac vlan packet.inPort

/-- What is left of the VLAN of a packet that there is none for: its tag, or the -1. -/
def uncertainVlan (raw : RawPacket) : UInt16 := if raw.hasVlanTag then raw.vlanId else 0xffff

/-! ## Looking up the port -/

section Lookup

variable {s cam : CamServices} {packet : PacketIn} {raw : RawPacket}

/-- Looking up a port a second time finds the same. -/
theorem getSwitchPort_again (state : SwitchState) (n : UInt16) :
    ((state.getSwitchPort n).2.getSwitchPort n).1 = (state.getSwitchPort n).1 := by
  have hsame : ∀ (ports : PortMap) (p : OpenflowVlanPort),
      portAt (maybeCreatePort (ports.insert n p) n) n = p := by
    intro ports p
    have hkept : maybeCreatePort (ports.insert n p) n = ports.insert n p := by
      unfold maybeCreatePort
      simp
    rw [hkept]
    simp [portAt]
  simp only [getSwitchPort, hsame]

/-- All that is looked at of the switch state is the port. -/
theorem getVlanFromPacket_congr {state state' : SwitchState}
    (h : (state'.getSwitchPort packet.inPort).1 = (state.getSwitchPort packet.inPort).1) :
    (getVlanFromPacket state' packet raw).1 = (getVlanFromPacket state packet raw).1 := by
  unfold getVlanFromPacket
  generalize state'.getSwitchPort packet.inPort = found' at h ⊢
  generalize state.getSwitchPort packet.inPort = found at h ⊢
  obtain ⟨⟨status, port⟩, after⟩ := found
  obtain ⟨_, after'⟩ := found'
  obtain rfl := h
  dsimp only
  split
  · rfl
  · split
    · rfl
    · split
      · rfl
      · split
        · rfl
        · rfl

theorem packetVlan_tagged (htag : raw.hasVlanTag = true) : packetVlan s packet raw = raw.vlanId.toNat := by
  rw [packetVlan, getVlanFromPacket, if_pos htag, RawPacket.getVlanId, if_pos htag]

/-- What the checker makes of an untagged packet on a port that it cannot be on. -/
theorem packetVlan_barred (htag : raw.hasVlanTag = false)
    (h : (ingressPort s packet).valid = false ∨ (ingressPort s packet).tagged = true) :
    packetVlan s packet raw = -1 := by
  unfold packetVlan getVlanFromPacket
  unfold ingressPort at h
  rcases h with h | h
  · have hstatus : ((s.switchState.getD {}).getSwitchPort packet.inPort).1.1 = false := h
    simp [htag, hstatus]
  · simp only [htag, Bool.false_eq_true, if_false, h, if_true]
    split <;> rfl

/-- On a port that it can be on, an untagged packet has a VLAN if there is but one. -/
theorem packetVlan_open (htag : raw.hasVlanTag = false) (hvalid : (ingressPort s packet).valid = true)
    (huntagged : (ingressPort s packet).tagged = false) : packetVlan s packet raw =
      match (ingressPort s packet).vlanMembership.toList with
      | [vlan] => (vlan.toNat : Int)
      | _ => -1 := by
  have hstatus : ((s.switchState.getD {}).getSwitchPort packet.inPort).1.1 = true := hvalid
  unfold ingressPort at huntagged
  unfold packetVlan getVlanFromPacket ingressPort
  simp only [htag, hstatus, huntagged, Bool.false_eq_true, Bool.not_true, if_false]
  rcases ((s.switchState.getD {}).getSwitchPort packet.inPort).1.2.vlanMembership.toList with
    _ | ⟨vlan, _ | ⟨vlan', vlans⟩⟩
  · rfl
  · rfl
  · rfl

/-- Where there is doubt the flow is asked for on what is left of the VLAN; an untagged packet has none. -/
theorem packetVlan_uncertain (h : ¬ VlanCertain (ingressPort s packet) raw) :
    UInt16.ofInt (packetVlan s packet raw) = uncertainVlan raw ∧
      (raw.hasVlanTag = false → packetVlan s packet raw = -1) := by
  unfold uncertainVlan
  cases htag : raw.hasVlanTag with
  | true => 
      rw [packetVlan_tagged htag, ofInt_toNat, if_pos rfl]
      exact ⟨rfl, nofun⟩
  | false =>
      have hnone : packetVlan s packet raw = -1 := by
        unfold VlanCertain at h
        simp only [htag, Bool.false_eq_true, if_false] at h
        cases hvalid : (ingressPort s packet).valid with
        | false => exact packetVlan_barred htag (.inl hvalid)
        | true =>
            cases htagged : (ingressPort s packet).tagged with
            | true => exact packetVlan_barred htag (.inr htagged)
            | false =>
                rw [packetVlan_open htag hvalid htagged]
                split
                · rename_i vlan hlist
                  refine absurd ⟨hvalid, htagged, ?_⟩ h
                  rw [← ExtTreeSet.length_toList, hlist]
                  rfl
                · rfl
      rw [hnone]
      exact ⟨rfl, fun _ => rfl⟩

end Lookup

/-! ## The CAM -/

section Cam

variable {s : CamServices} {packet : PacketIn} {raw : RawPacket}

/-- What the filter does to the services: it looks up the port, and may learn the sender. -/
theorem filterPacket_learns (s : CamServices) (packet : PacketIn) (raw : RawPacket) :
    (s.filterPacket packet raw).2.cam = s.cam ∨
      (s.filterPacket packet raw).2.cam = s.cam.insert s.clock s.now raw.srcMac
        (if raw.hasVlanTag then raw.vlanId else (ingressPort s packet).vlanMembership.min?.getD 1)
        packet.inPort := by
  unfold CamServices.filterPacket
  split
  · exact .inl rfl
  · cases hstate : s.switchState with
    | none => exact .inl rfl
    | some state =>
        dsimp only
        split
        · exact .inl rfl
        · split
          · split
            · exact .inr rfl
            · exact .inl rfl
          · split
            · refine .inr ?_
              rw [ingressPort, hstate]
              rfl
            · exact .inl rfl

theorem filterPacket_switchState (s : CamServices) (packet : PacketIn) (raw : RawPacket) :
    (s.filterPacket packet raw).2.switchState = s.switchState ∨
      (s.filterPacket packet raw).2.switchState =
        s.switchState.map fun state => (state.getSwitchPort packet.inPort).2 := by
  unfold CamServices.filterPacket
  split
  · exact .inl rfl
  · cases hstate : s.switchState with
    | none => exact .inl hstate
    | some state =>
        dsimp only [Option.map]
        refine .inr ?_
        split
        · rfl
        · split
          · split
            · rfl
            · rfl
          · split
            · rfl
            · rfl

/-- The checker finds the switch state as if the CAM had not looked. -/
theorem packetVlan_filterPacket (s : CamServices) (packet : PacketIn) (raw : RawPacket) :
    packetVlan (s.filterPacket packet raw).2 packet raw = packetVlan s packet raw ∧
      (s.filterPacket packet raw).2.switchState.isSome = s.switchState.isSome := by
  rcases filterPacket_switchState s packet raw with h | h
  · rw [packetVlan, h]
    exact ⟨rfl, rfl⟩
  · cases hstate : s.switchState with
    | none =>
        rw [packetVlan, h, packetVlan, hstate]
        exact ⟨rfl, rfl⟩
    | some state =>
        rw [packetVlan, h, packetVlan, hstate]
        exact ⟨getVlanFromPacket_congr (getSwitchPort_again state packet.inPort), rfl⟩

/-- The tables of a CAM on one VLAN, with nothing in it. -/
def camOn (vlan : UInt16) : Cam := ({} : Cam).createCamTable vlan

/-- A CAM on one VLAN learns on that VLAN, and on no other. -/
theorem insert_camOn_iff (clock : MacAddress → Nat) (now : Nat) (addr : MacAddress) (vlan vlan' port : UInt16) :
    (camOn vlan).insert clock now addr vlan' port = camOn vlan ↔ vlan' ≠ vlan := by
  have htables : (camOn vlan).camTables = (∅ : ExtTreeMap UInt16 CamTable).insert vlan {} := by
    simp [camOn, Cam.createCamTable]
  have hat : ∀ v : UInt16, (camOn vlan).camTables[v]? = if vlan = v then some {} else none := by
    intro v
    rw [htables, getElem?_insert]
    simp
  unfold Cam.insert Cam.onTable
  rw [hat]
  by_cases hv : vlan = vlan'
  · subst hv
    rw [if_pos rfl]
    refine iff_of_false (fun h => ?_) (not_not.mpr rfl)
    have hat' := congrArg (fun c : Cam => c.camTables[vlan]?) h
    dsimp only at hat'
    rw [hat, if_pos rfl, getElem?_insert, if_pos rfl] at hat'
    have hsize := congrArg (fun t : CamTable => t.camMappings.size) (Option.some.inj hat')
    simp [CamTable.insert, ExtTreeMap.size_insert] at hsize
  · rw [if_neg hv]
    exact iff_of_true rfl (Ne.symm hv)

/-- The sender of an untagged packet is learned on an untagged port, in its lowest VLAN. -/
theorem learnsUnder_of_untagged {s : CamServices} {state : SwitchState} {packet : PacketIn}
    {raw : RawPacket} {port : OpenflowVlanPort} (hinit : s.initialized = true)
    (hstate : s.switchState = some state) (hport : (state.getSwitchPort packet.inPort).1 = (true, port))
    (huntagged : port.tagged = false) (hraw : raw.hasVlanTag = false) :
    LearnsUnder s packet raw (port.vlanMembership.min?.getD 1) := by
  intro cam
  unfold CamServices.filterPacket
  rw [hinit, hstate]
  simp [hport, huntagged, hraw]

/-- Where there is no doubt, the packet has a VLAN of the port. The CAM learns the sender under no other. -/
theorem packetVlan_certain (h : VlanCertain (ingressPort s packet) raw) : ∃ vlan : UInt16,
    packetVlan s packet raw = vlan.toNat ∧ (ingressPort s packet).isMemberOfVlan vlan = true ∧
      ∀ vlan', LearnsUnder s packet raw vlan' → vlan = vlan' := by
  -- the CAM has its own way to find the VLAN
  have hlearned : ∀ vlan vlan', (if raw.hasVlanTag then raw.vlanId
      else (ingressPort s packet).vlanMembership.min?.getD 1) = vlan → LearnsUnder s packet raw vlan' →
      vlan = vlan' := by
    intro vlan vlan' hvlan hlearn
    by_contra hne
    have hother := (insert_camOn_iff s.clock s.now raw.srcMac vlan' vlan packet.inPort).mpr hne
    have hquiet : ({ s with cam := camOn vlan' }.filterPacket packet raw).2.cam = camOn vlan' := by
      rcases filterPacket_learns { s with cam := camOn vlan' } packet raw with hcam | hcam
      · exact hcam
      · change ({ s with cam := camOn vlan' }.filterPacket packet raw).2.cam =
          (camOn vlan').insert s.clock s.now raw.srcMac (if raw.hasVlanTag then raw.vlanId
            else (ingressPort s packet).vlanMembership.min?.getD 1) packet.inPort at hcam
        rw [hcam, hvlan, hother]
    rw [hlearn (camOn vlan'), insert_camOn_iff] at hquiet
    exact hquiet rfl
  unfold VlanCertain at h
  cases htag : raw.hasVlanTag with
  | true =>
      rw [htag, if_pos rfl] at h
      exact ⟨raw.vlanId, packetVlan_tagged htag, h, fun vlan' => hlearned _ vlan' (if_pos htag)⟩
  | false =>
      simp only [htag, Bool.false_eq_true, if_false] at h
      obtain ⟨hvalid, huntagged, hsize⟩ := h
      rw [← ExtTreeSet.length_toList] at hsize
      obtain ⟨vlan, hlist⟩ := List.length_eq_one_iff.mp hsize
      have hmin : (ingressPort s packet).vlanMembership.min? = some vlan := by
        rw [ExtTreeSet.min?_eq_head?_toList, hlist]
        rfl
      refine ⟨vlan, ?_, ?_, fun vlan' => hlearned _ vlan' ?_⟩
      · rw [packetVlan_open htag hvalid huntagged, hlist]
      · rw [OpenflowVlanPort.isMemberOfVlan, ExtTreeSet.contains_iff_mem, ← ExtTreeSet.mem_toList, hlist]
        exact List.mem_singleton_self vlan
      · rw [if_neg (by simp [htag]), hmin]
        rfl

end Cam

/-! ## The flow service -/

section Service

variable {s s' : FlowPolicyChecker} {packet : PacketIn} {raw : RawPacket} {junk : Nat → UInt8}
  {random : UInt64} {status : Bool}

open FlowPolicyChecker

/-- Nothing is installed where nothing is handed to the controller. -/
theorem installedFlows_of_same (h : transactions s' = transactions s) : installedFlows s s' = [] := by
  rw [installedFlows, h, List.drop_length]
  rfl

/-- One flow is installed under a condition, and none otherwise. -/
def InstallsIf (asked : Prop) (a : AddFlowAutoArgs) (s s' : FlowPolicyChecker) : Prop :=
  (asked ∧ ∃ cookie, installedFlows s s' = [(a.withCookie cookie).description]) ∨
    (¬ asked ∧ installedFlows s s' = [])

/-- The flow that is asked for is installed, or none is. -/
theorem accelerateFlow_installed {srcMac : MacAddress} {vlanId phyPort : UInt16}
    (h : s.accelerateFlow random srcMac vlanId phyPort = some (status, s')) :
    InstallsIf (Admitted s random srcMac vlanId phyPort) (acceleratedFlow srcMac vlanId phyPort) s s' := by
  unfold accelerateFlow at h
  cases hsvc : s.flowSvc with
  | none =>
      rw [hsvc] at h
      obtain ⟨_, rfl⟩ := Prod.mk.inj (Option.some.inj h)
      refine .inr ⟨?_, installedFlows_of_same rfl⟩
      intro ⟨svc, hsome, _⟩
      exact absurd (hsvc.symm.trans hsome) nofun
  | some svc =>
      rw [hsvc] at h
      obtain ⟨⟨result, svc'⟩, hauto, hs'⟩ := Option.map_eq_some_iff.mp h
      obtain ⟨_, rfl⟩ := Prod.mk.inj hs'
      have hadd : (svc.getNextAvailableCookieId random).2.addFlow s.services.now
          ((acceleratedFlow srcMac vlanId phyPort).withCookie (svc.getNextAvailableCookieId random).1) =
            some (result, svc') := hauto
      have hbefore : transactions s = (svc.getNextAvailableCookieId random).2.enqueued := by
        rw [transactions, hsvc, (getNextAvailableCookieId_same svc random).2]
        rfl
      rcases addFlow_cases hadd with ⟨hnone, hsame, _⟩ | ⟨index, hadmits, hinst⟩
      · refine .inr ⟨?_, installedFlows_of_same ?_⟩
        · intro ⟨svc₀, hsvc₀, hsome⟩
          obtain rfl := Option.some.inj (hsvc.symm.trans hsvc₀)
          rw [hnone] at hsome
          exact absurd hsome nofun
        · rw [hbefore, ← hsame]
          rfl
      · refine .inl ⟨⟨svc, hsvc, by rw [hadmits]; rfl⟩, (svc.getNextAvailableCookieId random).1, ?_⟩
        obtain ⟨tr, henq, hreq, _⟩ := hinst.sent
        have hafter : transactions { s with flowSvc := some svc' } = transactions s ++ [tr] := by
          rw [hbefore, ← henq]
          rfl
        have hflow : requestedFlow tr =
            some ((acceleratedFlow srcMac vlanId phyPort).withCookie
              (svc.getNextAvailableCookieId random).1).description := by
          rw [requestedFlow, hreq]
          rfl
        rw [installedFlows, hafter, List.drop_left, List.filterMap_cons, hflow]
        rfl

theorem installedFlows_congr {s'' : FlowPolicyChecker} (h : s''.flowSvc = s'.flowSvc) :
    installedFlows s s'' = installedFlows s s' := by
  rw [installedFlows, installedFlows, transactions, transactions, transactions, h]

/-- Forwarding a packet has nothing to do with flows. -/
theorem forwardPacket_flowSvc (h : s.forwardPacket junk packet raw = some (status, s')) :
    s'.flowSvc = s.flowSvc := by
  unfold forwardPacket at h
  split at h
  · obtain ⟨_, rfl⟩ := Prod.mk.inj (Option.some.inj h)
    rfl
  · obtain ⟨state, _, h⟩ := Option.bind_eq_some_iff.mp h
    obtain ⟨⟨controller, state'⟩, _, h⟩ := Option.bind_eq_some_iff.mp h
    obtain ⟨_, rfl⟩ := Prod.mk.inj (Option.some.inj h)
    rfl

/-- Where nothing is asked for, nothing changes. -/
theorem installsIf_refused {asked : Prop} {a : AddFlowAutoArgs} (h : ¬ asked) : InstallsIf asked a s s :=
  .inr ⟨h, installedFlows_of_same rfl⟩

/-- A flow is asked for the sender if that is a station. -/
theorem accelerateSender_installed {state : SwitchState}
    (h : s.accelerateSender random state packet raw = some s') :
    InstallsIf ((raw.srcMac.isNil = false ∧ raw.srcMac.isBroadcast = false) ∧
        Admitted s random raw.srcMac (UInt16.ofInt (getVlanFromPacket state packet raw).1) packet.inPort)
      (acceleratedFlow raw.srcMac (UInt16.ofInt (getVlanFromPacket state packet raw).1) packet.inPort) s s' := by
  unfold accelerateSender at h
  split at h
  · rename_i hmac
    rw [Bool.and_eq_true, Bool.not_eq_true', Bool.not_eq_true'] at hmac
    obtain ⟨⟨status, after⟩, hasked, rfl⟩ := Option.map_eq_some_iff.mp h
    rcases accelerateFlow_installed hasked with ⟨hadmitted, hflow⟩ | ⟨hrefused, hflow⟩
    · exact .inl ⟨⟨hmac, hadmitted⟩, hflow⟩
    · exact .inr ⟨fun hasked => hrefused hasked.2, hflow⟩
  · rename_i hmac
    obtain rfl := Option.some.inj h
    refine installsIf_refused fun hasked => hmac ?_
    rw [hasked.1.1, hasked.1.2]
    rfl

/-- **What the checker has installed** is the flow of the sender, on the VLAN that the packet is given. -/
theorem filterPacket_installed (h : s.filterPacket junk random packet raw = some (status, s')) :
    InstallsIf (Accelerates s random packet raw (UInt16.ofInt (packetVlan s.services packet raw)))
      (acceleratedFlow raw.srcMac (UInt16.ofInt (packetVlan s.services packet raw)) packet.inPort) s s' := by
  unfold FlowPolicyChecker.filterPacket at h
  split at h
  · rename_i hoff
    obtain ⟨_, rfl⟩ := Prod.mk.inj (Option.some.inj h)
    exact installsIf_refused fun haccel => by simp [haccel.initialized] at hoff
  · rename_i hon
    split at h
    · rename_i hoff
      obtain ⟨_, rfl⟩ := Prod.mk.inj (Option.some.inj h)
      exact installsIf_refused fun haccel => by simp [haccel.camOnline] at hoff
    · rename_i hcam
      rcases hstate : s.services.switchState with _ | state
      · rw [hstate] at h
        obtain ⟨_, rfl⟩ := Prod.mk.inj (Option.some.inj h)
        exact installsIf_refused fun haccel => by simpa [hstate] using haccel.stateOnline
      · rw [hstate] at h
        obtain ⟨after, hsender, hforward⟩ := Option.bind_eq_some_iff.mp h
        have hvlan : packetVlan s.services packet raw = (getVlanFromPacket state packet raw).1 := by
          rw [packetVlan, hstate]
          rfl
        rw [InstallsIf, installedFlows_congr (forwardPacket_flowSvc hforward), hvlan]
        rcases accelerateSender_installed hsender with ⟨hasked, hflow⟩ | ⟨hrefused, hflow⟩
        · refine .inl ⟨⟨by simpa using hon, by simpa using hcam, ?_, hasked.1, hasked.2⟩, hflow⟩
          rw [hstate]
          rfl
        · exact .inr ⟨fun haccel => hrefused ⟨haccel.sender, haccel.admitted⟩, hflow⟩

end Service

/-! ## The packet and its flow -/

section Inside

variable {s s' : FlowPolicyChecker} {cam : CamServices} {packet : PacketIn} {raw : RawPacket}
  {junk : Nat → UInt8} {random : UInt64} {status : Bool}

open FlowPolicyChecker

theorem insideVlan_of_none (h : installedFlows s s' = []) : InsideVlan s s' packet raw := by
  have hnone : ∀ flow, flow ∉ installedFlows s s' := by
    intro flow hflow
    rw [h] at hflow
    exact List.not_mem_nil hflow
  exact ⟨fun flow hflow => absurd hflow (hnone flow), fun flow hflow => absurd hflow (hnone flow),
    fun _ => h, fun flow hflow => absurd hflow (hnone flow)⟩

/-- It is enough to look at the one flow that there is. -/
theorem insideVlan_of_singleton {flow : FlowDescription} (h : installedFlows s s' = [flow])
    (hmember : (ingressPort s.services packet).isMemberOfVlan flow.criteria.vlanId = true)
    (houtput : flow.actionList.actions = [.outputToPort false packet.inPort])
    (hdetermined : packetVlan s.services packet raw ≠ -1)
    (hlearned : ∀ vlan, LearnsUnder s.services packet raw vlan → flow.criteria.vlanId = vlan) :
    InsideVlan s s' packet raw := by
  have honly : ∀ flow', flow' ∈ installedFlows s s' → flow' = flow := by
    intro flow' hflow
    rw [h] at hflow
    exact List.mem_singleton.mp hflow
  refine ⟨?_, ?_, fun hnone => absurd hnone hdetermined, ?_⟩
  · intro flow' hflow _
    rwa [honly flow' hflow]
  · intro flow' hflow _
    rwa [honly flow' hflow]
  · intro flow' hflow _
    rwa [honly flow' hflow]

/-- The CAM has no say in whether a flow is installed. -/
theorem accelerates_filterPacket (hcam : s.services.filterPacket packet raw = (status, cam)) (vlan : UInt16) :
    Accelerates { s with services := cam } random packet raw vlan ↔
      Accelerates s random packet raw vlan := by
  have hstate := (packetVlan_filterPacket s.services packet raw).2
  rw [hcam] at hstate
  refine ⟨?_, ?_⟩
  · intro h
    exact ⟨h.initialized, h.camOnline, hstate.symm.trans h.stateOnline, h.sender, h.admitted⟩
  · intro h
    exact ⟨h.initialized, h.camOnline, hstate.trans h.stateOnline, h.sender, h.admitted⟩

/-- What is installed behind the CAM. -/
theorem installed_behind_cam (hcam : s.services.filterPacket packet raw = (false, cam))
    (h : { s with services := cam }.filterPacket junk random packet raw = some (status, s')) :
    InstallsIf (Accelerates s random packet raw (UInt16.ofInt (packetVlan s.services packet raw)))
      (acceleratedFlow raw.srcMac (UInt16.ofInt (packetVlan s.services packet raw)) packet.inPort) s s' := by
  have hvlan := (packetVlan_filterPacket s.services packet raw).1
  rw [hcam] at hvlan
  have hinst := filterPacket_installed h
  dsimp only at hinst hvlan
  rw [hvlan, accelerates_filterPacket hcam] at hinst
  exact hinst

/--
**When an accelerated flow stays inside its VLAN.** Behind the CAM, exactly if the tag of the
packet is one of the port, or the port has a single VLAN for an untagged one; or if no
flow is installed at all.
-/
theorem acceleratedFlow_inside_iff (hcam : s.services.filterPacket packet raw = (false, cam))
    (h : { s with services := cam }.filterPacket junk random packet raw = some (status, s')) :
    InsideVlan s s' packet raw ↔ VlanCertain (ingressPort s.services packet) raw ∨
      ¬ Accelerates s random packet raw (uncertainVlan raw) := by
  have hinst := installed_behind_cam hcam h
  by_cases hcert : VlanCertain (ingressPort s.services packet) raw
  · refine iff_of_true ?_ (.inl hcert)
    obtain ⟨vlan, hvlan, hmember, hunique⟩ := packetVlan_certain hcert
    rw [hvlan, ofInt_toNat] at hinst
    rcases hinst with ⟨_, cookie, hflow⟩ | ⟨_, hnone⟩
    · exact insideVlan_of_singleton hflow hmember rfl (by omega) hunique
    · exact insideVlan_of_none hnone
  · obtain ⟨hlost, hundetermined⟩ := packetVlan_uncertain hcert
    rw [hlost] at hinst
    rcases hinst with ⟨haccel, cookie, hflow⟩ | ⟨hrefused, hnone⟩
    · refine iff_of_false ?_ (not_or.mpr ⟨hcert, not_not.mpr haccel⟩)
      intro hinside
      cases htag : raw.hasVlanTag with
      | true =>
          -- the tag is not one of the port
          have hmember := hinside.member _ (by rw [hflow]; exact List.mem_singleton_self _) rfl
          refine hcert ?_
          rw [VlanCertain, if_pos htag]
          rw [uncertainVlan, if_pos htag] at hmember
          exact hmember
      | false =>
          rw [hinside.determined (hundetermined htag)] at hflow
          exact absurd hflow nofun
    · exact iff_of_true (insideVlan_of_none hnone) (.inr hrefused)

/-- A frame that is sent to everyone, and is not of ARP. -/
def ipv6Hello : PacketIn where
  inPort := 1
  pktData := List.replicate 6 0xff ++ [2, 0, 0, 0, 0, 1] ++ [0x86, 0xdd]
  size_lt := by decide

/-- Its header. -/
def ipv6HelloHeader : RawPacket where
  packetType := .ipv6
  ethertype := 0x86dd
  srcMac := .ofOctets 2 0 0 0 0 1
  destMac := MacAddress.broadcast

/-- The checker, with a flow service that has its L2 table, and all the rest. -/
def checkerOf (state : SwitchState) : FlowPolicyChecker where
  initialized := true
  services := { switchState := some state }
  flowSvc := some
    { initialized := true
      initializing := false
      flowTables := [dellS48xxL2Table]
      pendingFlows := []
      nextAvailableCookieId := 1
      enqueued := [] }
  controller := { switchReady := true }

/-- A switch of one port. -/
def onePort : SwitchState := ({} : SwitchState).setSwitchFeatures [{ portNumber := 1 }]

/-- The switch when its port is tagged, and on VLAN 5. -/
def tagged5 : SwitchState where
  ports := (∅ : PortMap).insert 1
    { valid := true, tagged := true, vlanMembership := .ofList [(5 : UInt16)], port := { portNumber := 1 } }

/-- The frame with a tag of that VLAN. -/
def taggedHello : PacketIn where
  inPort := 1
  pktData := List.replicate 6 0xff ++ [2, 0, 0, 0, 0, 1] ++ [0x81, 0x00, 0x00, 0x05, 0x86, 0xdd]
  size_lt := by decide

/-- Its header. -/
def taggedHelloHeader : RawPacket := { ipv6HelloHeader with hasVlanTag := true, vlanId := 5 }

/-- A packet with the tag of the port. -/
theorem acceleratedFlow_of_tag : ∃ cam s',
    ({} : RawPacket).deserialize taggedHello.pktData = .ok (true, taggedHelloHeader) ∧
    (checkerOf tagged5).services.filterPacket taggedHello taggedHelloHeader = (false, cam) ∧
    { checkerOf tagged5 with services := cam }.filterPacket (fun _ => 0) 0 taggedHello taggedHelloHeader =
      some (true, s') ∧
    InsideVlan (checkerOf tagged5) s' taggedHello taggedHelloHeader := by
  have hcam : (checkerOf tagged5).services.filterPacket taggedHello taggedHelloHeader = (false, _) := rfl
  have h : { checkerOf tagged5 with services := ((checkerOf tagged5).services.filterPacket taggedHello
      taggedHelloHeader).2 }.filterPacket (fun _ => 0) 0 taggedHello taggedHelloHeader = some (true, _) := rfl
  exact ⟨_, _, rfl, hcam, h, (acceleratedFlow_inside_iff hcam h).mpr (.inl rfl)⟩

/-- A port without a VLAN: the CAM learns the sender on VLAN 1, and its flow is for VLAN 65535. -/
theorem acceleratedFlow_without_vlan : ∃ cam s',
    ({} : RawPacket).deserialize ipv6Hello.pktData = .ok (true, ipv6HelloHeader) ∧
    (checkerOf onePort).services.filterPacket ipv6Hello ipv6HelloHeader = (false, cam) ∧
    { checkerOf onePort with services := cam }.filterPacket (fun _ => 0) 0 ipv6Hello ipv6HelloHeader =
      some (true, s') ∧
    LearnsUnder (checkerOf onePort).services ipv6Hello ipv6HelloHeader 1 ∧
    (installedFlows (checkerOf onePort) s').map (·.criteria.vlanId) = [0xffff] ∧
    ¬ InsideVlan (checkerOf onePort) s' ipv6Hello ipv6HelloHeader := by
  refine ⟨_, _, rfl, rfl, rfl, ?_, rfl, fun h => ?_⟩
  · have hport : (onePort.getSwitchPort 1).1 = (true, { valid := true, port := { portNumber := 1 } }) := rfl
    have hlearn : LearnsUnder (checkerOf onePort).services ipv6Hello ipv6HelloHeader _ :=
      learnsUnder_of_untagged rfl rfl hport rfl rfl
    rwa [ExtTreeSet.min?_empty] at hlearn
  · exact absurd (h.determined rfl) nofun

end Inside

end IronStack.Proof

import IronStack.Flow.Service
import IronStack.Net.Flooding

/-!
# `flow_policy_checker`

The last of the packet filters. For the sender of a packet it has a flow installed,
that takes what is sent back to the port the packet came in on; then it floods the
packet.
-/

namespace IronStack

open Lib NetUtils

/-- `flow_policy_checker`, with the services that it finds in the catalog. -/
structure FlowPolicyChecker where
  initialized : Bool := false
  /-- Does the catalog have a CAM service? -/
  camOnline : Bool := true
  /-- That service, the clock, and the switch state if the catalog has one. -/
  services : CamServices := {}
  flowSvc : Option FlowService := none
  controller : PacketHal

namespace FlowPolicyChecker

/-- The flow of `accelerate_flow`, with default priority; it is not waited for. -/
def acceleratedFlow (srcMac : MacAddress) (vlanId phyPort : UInt16) : FlowService.AddFlowAutoArgs where
  criteria := { OfMatch.clear.wildcardAll with
    wildcardEthernetDest := false
    ethernetDest := srcMac
    wildcardVlanId := false
    vlanId := vlanId }
  actionList := OpenflowActionList.clear.addAction (.outputToPort false phyPort)
  reason := "l2 accelerator"
  isStatic := false
  installTimeoutMs := 0

/--
`flow_policy_checker::accelerate_flow`; `none` is an abort of the flow service. The
cookie is drawn from the counter, or is `random`.
-/
def accelerateFlow (random : UInt64) (s : FlowPolicyChecker) (srcMac : MacAddress)
    (vlanId phyPort : UInt16) : Option (Bool × FlowPolicyChecker) :=
  match s.flowSvc with
  | none => some (false, s)
  | some svc =>
      (svc.addFlowAuto s.services.now random (acceleratedFlow srcMac vlanId phyPort)).map fun result =>
        (decide (result.1 ≠ .returned noCookie), { s with flowSvc := some result.2 })

/-- `flow_policy_checker::forward_packet`; `none` is a read beyond the packet, or of a null pointer. -/
def forwardPacket (junk : Nat → UInt8) (s : FlowPolicyChecker) (packet : PacketIn) (rawPkt : RawPacket) :
    Option (Bool × FlowPolicyChecker) :=
  if rawPkt.destMac.isNil then some (false, s)
  else do
    -- broadcast or not, there was no flow for it
    let state ← s.services.switchState
    let (controller, state) ← (floodPacket junk s.controller packet rawPkt state).toOption
    return (true, { s with controller, services := { s.services with switchState := some state } })

/-- The sender's part of `filter_packet`: the VLAN is an `int`, and is passed on as a `uint16_t`. -/
def accelerateSender (random : UInt64) (s : FlowPolicyChecker) (state : SwitchState) (packet : PacketIn)
    (rawPkt : RawPacket) : Option FlowPolicyChecker :=
  if !rawPkt.srcMac.isNil && !rawPkt.srcMac.isBroadcast then
    let (vlanId, state) := getVlanFromPacket state packet rawPkt
    let s := { s with services := { s.services with switchState := some state } }
    -- that it could not be accelerated is logged
    (s.accelerateFlow random rawPkt.srcMac (UInt16.ofInt vlanId) packet.inPort).map Prod.snd
  else some s

/-- `flow_policy_checker::filter_packet`, and whether the packet is done with. -/
def filterPacket (junk : Nat → UInt8) (random : UInt64) (s : FlowPolicyChecker) (packet : PacketIn)
    (rawPkt : RawPacket) : Option (Bool × FlowPolicyChecker) :=
  if !s.initialized then some (false, s)
  else if !s.camOnline then some (false, s)
  else
    match s.services.switchState with
    | none => some (false, s)
    | some state => do
        let s ← s.accelerateSender random state packet rawPkt
        s.forwardPacket junk packet rawPkt

end FlowPolicyChecker

end IronStack

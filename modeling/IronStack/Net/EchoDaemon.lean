import IronStack.Net.Flooding
import IronStack.Net.PacketCodec

/-!
# `ironstack::echo_daemon`

It answers the echo requests to the controller, and sends requests of its own. A thread
in `ping` looks for the address of the host, registers under a sequence number, sends its
request, waits, and takes itself out again; the packet processing thread takes out the
request that a reply is for, and then notifies it. A step is one critical section, or what
a thread does between two.
-/

namespace IronStack

open Std Lib

/-- `openflow_vlan_port::is_flood_port_for_vlan`. -/
def OpenflowVlanPort.isFloodPortForVlan (p : OpenflowVlanPort) (vlanId : UInt16) : Bool :=
  p.vlanFloodPortMembership.contains vlanId

/-- `switch_state::get_flood_ports`. -/
def SwitchState.getFloodPorts (s : SwitchState) (vlanId : UInt16) : ExtTreeSet UInt16 :=
  s.ports.toList.foldl (fun result port =>
    if port.2.valid && port.2.isFloodPortForVlan vlanId then result.insert port.1 else result) ∅

/-- `echo_daemon_request`. -/
structure EchoDaemonRequest where
  status : Bool := false
  seq : UInt32 := 0
deriving DecidableEq

/-- Where a thread is in `ping`, with the number of its request. -/
inductive PingPhase where
  /-- Its request is in the queue, and not sent yet. -/
  | registered
  /-- It is about to wait, or does. -/
  | waiting
  /-- Its wait is over, and its request is still in the queue unless a reply took it. -/
  | woken
  /-- It has erased its sequence number from the queue. -/
  | leaving
  /-- It returned a time, or `-1`. -/
  | returned (answered : Bool)
deriving DecidableEq

/-- A call of `ping` that has a request. -/
structure PingCall where
  request : Nat
  dest : IpAddress
  destMac : MacAddress
  ports : ExtTreeSet UInt16
  phase : PingPhase

/-- Where the packet processing thread is in `filter_packet`. -/
inductive FilterPhase where
  | idle
  /-- It has an echo reply for the controller. -/
  | looking (seq : UInt32)
  /-- It has taken a request out of the queue. -/
  | notifying (request : Nat)
deriving DecidableEq

/-- `ironstack::echo_daemon`, with what it asks for and what it gives to other services. -/
structure EchoDaemon where
  initialized : Bool := false
  seq : UInt32 := 0
  /-- Requests are objects; they have numbers for their addresses. -/
  waitQueue : ExtTreeMap UInt32 Nat := ∅
  requests : Nat → EchoDaemonRequest := fun _ => {}
  nextRequest : Nat := 0
  /-- The threads in `ping` that look for the address of a host on a VLAN. -/
  lookups : Nat → Option (IpAddress × UInt16) := fun _ => none
  /-- Those that have a request. -/
  pings : Nat → Option PingCall := fun _ => none
  filter : FilterPhase := .idle
  /-- `get_switch_mac` of the switch state. -/
  switchMac : MacAddress := MacAddress.nil
  switchState : SwitchState := {}
  cam : Cam := {}
  controller : PacketHal

/-- What can happen next. -/
inductive EchoInput where
  | init
  | shutdown
  | ping (thread : Nat) (dest : IpAddress) (vlanId : UInt16) (timeoutMs : Int32)
  /-- It has a MAC address from the ARP service, maybe the nil address, and registers. -/
  | register (thread now : Nat) (destMac : MacAddress)
  | send (thread : Nat)
  /-- The wait of a thread is over: it is notified, or the time is up, or it wakes for no reason. -/
  | wake (thread : Nat)
  | erase (thread : Nat)
  | finish (thread : Nat)
  /-- The packet processing thread offers a packet. -/
  | packet (packet : PacketIn) (rawPkt : RawPacket)
  /-- It looks for the request that a reply is for. -/
  | takeOut
  /-- It notifies the request that it has taken out. -/
  | notify
  /-- Other services and the controller go on. -/
  | others (switchMac : MacAddress) (switchState : SwitchState) (cam : Cam) (controller : PacketHal)

namespace EchoDaemon

/-- `echo_daemon::init`. -/
def init (s : EchoDaemon) : EchoDaemon := { s with initialized := true }

/-- `echo_daemon::shutdown`: all who wait are notified, and none of them was answered. -/
def shutdown (s : EchoDaemon) : EchoDaemon :=
  if !s.initialized then s
  else { s with
    requests := fun r =>
      if s.waitQueue.toList.any (·.2 == r) then { s.requests r with status := false } else s.requests r
    waitQueue := ∅
    seq := 0
    initialized := false }

/-! ## `ping` -/

def setPing (s : EchoDaemon) (thread : Nat) (call : PingCall) : EchoDaemon :=
  { s with pings := fun i => if i = thread then some call else s.pings i }

/-- The ports that a request leaves by: where the host was seen, or all. -/
def portsToUse (s : EchoDaemon) (now : Nat) (destMac : MacAddress) (vlanId : UInt16) :
    ExtTreeSet UInt16 × EchoDaemon :=
  let (phyPort, cam) := s.cam.lookupPortFor now destMac vlanId
  if phyPort = -1 then (s.switchState.getFloodPorts vlanId, { s with cam })
  else ((∅ : ExtTreeSet UInt16).insert (UInt16.ofInt phyPort), { s with cam })

/-- `echo_daemon::ping`, up to its look-ups; a call that fails its checks returns at once. -/
def ping (s : EchoDaemon) (thread : Nat) (dest : IpAddress) (vlanId : UInt16) (timeoutMs : Int32) :
    Option EchoDaemon :=
  if (s.lookups thread).isSome || (s.pings thread).isSome then none
  else if !s.initialized then some s
  else if timeoutMs ≤ 0 then some s
  else if dest = s.switchState.switchIpAddress then some s
  else some { s with lookups := fun i => if i = thread then some (dest, vlanId) else s.lookups i }

/-- A new request object, in the queue under the next sequence number. -/
def enqueue (s : EchoDaemon) (thread : Nat) (dest : IpAddress) (destMac : MacAddress)
    (ports : ExtTreeSet UInt16) : EchoDaemon :=
  { s.setPing thread ⟨s.nextRequest, dest, destMac, ports, .registered⟩ with
    lookups := fun i => if i = thread then none else s.lookups i
    requests := fun r => if r = s.nextRequest then { seq := s.seq } else s.requests r
    waitQueue := s.waitQueue.insert s.seq s.nextRequest
    seq := s.seq + 1
    nextRequest := s.nextRequest + 1 }

/-- `ping`, from its look-ups up to its registration. -/
def register (s : EchoDaemon) (thread now : Nat) (destMac : MacAddress) : Option EchoDaemon :=
  match s.lookups thread with
  | none => none
  | some (dest, vlanId) =>
      let (ports, s) := s.portsToUse now destMac vlanId
      some (s.enqueue thread dest destMac ports)

/-- The request that `ping` sends, with its sequence number for data. It has no VLAN tag. -/
def echoRequest (s : EchoDaemon) (call : PingCall) : Codec.IcmpPacket where
  icmpPktType := 8
  code := 0
  icmpHdrRest := 0x01001601
  data := ⟨be32 (s.requests call.request).seq, 4⟩
  srcIp := s.switchState.switchIpAddress
  destIp := call.dest
  srcMac := s.switchMac
  destMac := call.destMac

/-- The thread goes on in a call of `ping`. -/
def goOn (s : EchoDaemon) (thread : Nat) (phase next : PingPhase) : Option (PingCall × EchoDaemon) :=
  match s.pings thread with
  | none => none
  | some call =>
      if call.phase = phase then some (call, s.setPing thread { call with phase := next }) else none

/-- The request goes out. It reads the addresses of the switch here, which `ping` reads at its start. -/
def send (s : EchoDaemon) (thread : Nat) : Option EchoDaemon := do
  let (call, s) ← s.goOn thread .registered .waiting
  let serializedMsg ← (s.echoRequest call).serialize.toOption
  return { s with controller := (s.controller.sendPacket serializedMsg call.ports).1 }

def wake (s : EchoDaemon) (thread : Nat) : Option EchoDaemon :=
  (s.goOn thread .waiting .woken).map Prod.snd

/-- The sequence number is erased, whoever has registered under it. -/
def erase (s : EchoDaemon) (thread : Nat) : Option EchoDaemon :=
  (s.goOn thread .woken .leaving).map fun (call, s) =>
    { s with waitQueue := s.waitQueue.erase (s.requests call.request).seq }

def finish (s : EchoDaemon) (thread : Nat) : Option EchoDaemon :=
  match s.pings thread with
  | none => none
  | some call => (s.goOn thread .leaving (.returned (s.requests call.request).status)).map Prod.snd

/-! ## `filter_packet` -/

/-- The reply to an echo request. -/
def echoReply (pkt : Codec.IcmpPacket) : Codec.IcmpPacket where
  hasVlanTag := pkt.hasVlanTag
  vlanPcp := if pkt.hasVlanTag then pkt.vlanPcp else 0
  dei := if pkt.hasVlanTag then pkt.dei else false
  vlanId := if pkt.hasVlanTag then pkt.vlanId else 1
  icmpPktType := 0
  code := 0
  icmpHdrRest := pkt.icmpHdrRest
  data := pkt.data
  srcIp := pkt.destIp
  srcMac := pkt.destMac
  destIp := pkt.srcIp
  destMac := pkt.srcMac

/-- An echo reply, with a sequence number. -/
def noteReply (s : EchoDaemon) (pkt : Codec.IcmpPacket) : Read EchoDaemon := do
  let seq ← readU32 pkt.data.memory 0
  return { s with filter := .looking seq }

/-- An echo request is answered on the port that it came by. -/
def answerRequest (s : EchoDaemon) (packet : PacketIn) (pkt : Codec.IcmpPacket) : Read EchoDaemon := do
  let serializedMsg ← (echoReply pkt).serialize
  return { s with controller := (s.controller.sendPacket serializedMsg (ExtTreeSet.ofList [packet.inPort])).1 }

/--
`echo_daemon::filter_packet`, up to the look for a request, and whether the packet is done
with. The switch state is online.
-/
def filterPacket (s : EchoDaemon) (packet : PacketIn) (rawPkt : RawPacket) : Read (Bool × EchoDaemon) :=
  if !s.initialized then .ok (false, s)
  else if rawPkt.packetType ≠ .icmp then .ok (false, s)
  else do
    let some pkt ← Codec.IcmpPacket.deserialize packet.pktData | return (false, s)
    if s.switchState.switchIpAddress.isNil || s.switchMac.isNil then return (false, s)
    else if pkt.destIp ≠ s.switchState.switchIpAddress ∨ pkt.destMac ≠ s.switchMac then return (false, s)
    else if pkt.icmpPktType = 0 ∧ pkt.code = 0 ∧ pkt.data.size = 4 then
      (s.noteReply pkt).map fun s => (true, s)
    else if pkt.icmpPktType = 8 ∧ pkt.code = 0 then
      (s.answerRequest packet pkt).map fun s => (true, s)
    else return (false, s)

/-- `filter_packet` for a reply: the request under its number is taken out, if there is one. -/
def takeOut (s : EchoDaemon) : Option EchoDaemon :=
  match s.filter with
  | .looking seq =>
      match s.waitQueue[seq]? with
      | none => some { s with filter := .idle }
      | some request => some { s with waitQueue := s.waitQueue.erase seq, filter := .notifying request }
  | _ => none

/-- The end of `filter_packet` for a reply that has taken a request out of the queue. -/
def notify (s : EchoDaemon) : Option EchoDaemon :=
  match s.filter with
  | .notifying request =>
      some { s with
        requests := fun r => if r = request then { s.requests r with status := true } else s.requests r
        filter := .idle }
  | _ => none

def step (s : EchoDaemon) : EchoInput → Option EchoDaemon
  | .init => some s.init
  | .shutdown => some s.shutdown
  | .ping thread dest vlanId timeoutMs => s.ping thread dest vlanId timeoutMs
  | .register thread now destMac => s.register thread now destMac
  | .send thread => s.send thread
  | .wake thread => s.wake thread
  | .erase thread => s.erase thread
  | .finish thread => s.finish thread
  | .packet packet rawPkt =>
      -- the thread is at one packet at a time
      if s.filter ≠ .idle then none else (s.filterPacket packet rawPkt).toOption.map Prod.snd
  | .takeOut => s.takeOut
  | .notify => s.notify
  | .others switchMac switchState cam controller => some { s with switchMac, switchState, cam, controller }

end EchoDaemon

end IronStack

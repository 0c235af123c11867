import IronStack.Net.RawPacket
import IronStack.Switch.SwitchState
import IronStack.Cam.CamTable

/-!
# `packet_in_processor`

A thread of it takes the packets that the switch sends to the controller, parses
each into the one `raw_packet` that it has, and offers it to the filters in order
of their priorities, until one of them is done with it.
-/

namespace IronStack

open Lib

/-- `of_message_packet_in`, as far as the thread and its filters read it. Its length is a word on the wire. -/
structure PacketIn where
  inPort : UInt16
  reasonNoMatch : Bool := false
  reasonAction : Bool := false
  pktData : Bytes
  size_lt : pktData.length < 2 ^ 16

/-- `packet_in_processor::priority_class`; smaller values are earlier in the callback chain. -/
inductive PriorityClass where
  | cam
  | arp
  | echoServer
  | interIronstack
  | flowPolicyChecker
  | alwaysAtLast
deriving DecidableEq, Repr

/-- The value of a priority class. -/
def PriorityClass.toNat : PriorityClass → Nat
  | .cam => 1
  | .arp => 2
  | .echoServer => 3
  | .interIronstack => 4
  | .flowPolicyChecker => 5
  | .alwaysAtLast => 6

/--
The virtual methods of `packet_filter`, for filters `Φ` that work on services of
type `σ`: a filter says whether it has consumed the packet.
-/
structure PacketFilters (Φ σ : Type) where
  getPacketInPriority : Φ → PriorityClass
  filterPacket : Φ → PacketIn → RawPacket → σ → Bool × σ

/-- `packet_in_processor`, with one thread of it and all the services. -/
structure PacketInProcessor (Φ σ : Type) where
  packetFilters : List (Φ × Nat) := []
  rawPkt : RawPacket := {}
  services : σ

/-- What can happen next. -/
inductive PacketInInput (Φ σ : Type) where
  | registerFilter (filter : Φ)
  | unregisterFilter (filter : Φ)
  | clear
  /-- Whatever else goes on changes the services. -/
  | others (services : σ)
  /-- The thread dequeues a packet, or what tells it to look at the shutdown flag. -/
  | dequeue (packet : Option PacketIn)

namespace PacketInProcessor

variable {Φ σ : Type} [DecidableEq Φ]

/-- A filter goes behind those of its own priority, and of any smaller. -/
def insertFilter (filter : Φ) (priority : Nat) : List (Φ × Nat) → List (Φ × Nat)
  | [] => [(filter, priority)]
  | it :: rest =>
      if it.2 ≤ priority then it :: insertFilter filter priority rest
      else (filter, priority) :: it :: rest

/-- The filters of a packet, up to the first that has handled it. -/
def offer (methods : PacketFilters Φ σ) (packet : PacketIn) (rawPkt : RawPacket) :
    List (Φ × Nat) → σ → Bool × σ
  | [], services => (false, services)
  | filter :: rest, services =>
      match methods.filterPacket filter.1 packet rawPkt services with
      | (true, services) => (true, services)
      | (false, services) => offer methods packet rawPkt rest services

/-- The body of the loop in `packet_processing_entrypoint`, for a packet. -/
def process (methods : PacketFilters Φ σ) (p : PacketInProcessor Φ σ) (packet : PacketIn) :
    Read (PacketInProcessor Φ σ) := do
  -- that the packet could not be parsed is logged
  let (_, rawPkt) ← p.rawPkt.deserialize packet.pktData
  return { p with rawPkt, services := (offer methods packet rawPkt p.packetFilters p.services).2 }

def step (methods : PacketFilters Φ σ) (p : PacketInProcessor Φ σ) :
    PacketInInput Φ σ → Option (PacketInProcessor Φ σ)
  | .registerFilter filter =>
      some { p with
        packetFilters :=
          insertFilter filter (methods.getPacketInPriority filter).toNat p.packetFilters }
  | .unregisterFilter filter =>
      some { p with packetFilters := p.packetFilters.eraseP (·.1 = filter) }
  | .clear => some { p with packetFilters := [] }
  | .others services => some { p with services }
  | .dequeue none => some p
  | .dequeue (some packet) => (p.process methods packet).toOption

end PacketInProcessor

/-- What `cam::filter_packet` works with. -/
structure CamServices where
  now : Nat := 0
  /-- What the clock reads for the entries of a full table. -/
  clock : MacAddress → Nat := fun _ => 0
  initialized : Bool := true
  switchState : Option SwitchState := none
  cam : Cam := {}

namespace CamServices

/-- `cam::filter_packet`, which learns where the sender is, and drops what is tagged wrong. -/
def filterPacket (s : CamServices) (packet : PacketIn) (rawPkt : RawPacket) : Bool × CamServices :=
  if !s.initialized then (false, s)
  else
    match s.switchState with
    | none => (false, s)
    | some state =>
        let ((status, vlanPort), state) := state.getSwitchPort packet.inPort
        let s := { s with switchState := some state }
        if !status then (false, s)
        else if rawPkt.hasVlanTag then
          if vlanPort.tagged && vlanPort.isMemberOfVlan rawPkt.vlanId then
            (false, { s with cam := s.cam.insert s.clock s.now rawPkt.srcMac rawPkt.vlanId packet.inPort })
          else (true, s)
        else if !vlanPort.tagged then
          -- the default VLAN is 1
          let vlanId := vlanPort.vlanMembership.min?.getD 1
          (false, { s with cam := s.cam.insert s.clock s.now rawPkt.srcMac vlanId packet.inPort })
        else (true, s)

/-- The CAM, as the only filter. -/
def methods : PacketFilters Unit CamServices where
  getPacketInPriority _ := .cam
  filterPacket _ packet rawPkt s := s.filterPacket packet rawPkt

end CamServices

end IronStack

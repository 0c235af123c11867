import IronStack.Topology.Discovery

/-!
# A network of switches

Switches whose ports are joined by cables, each with a `discovery_service`. What a
service gives to `send_packet` goes out at the port, and comes in at the other end of
the cable there, if there is one: at any time, in any order, perhaps more than once or
never.
-/

namespace IronStack

open Lib

/-- Which port is joined to which other. No cable leads back to the switch that it comes from. -/
structure Cabling (ι : Type) where
  cable : ι × UInt16 → Option (ι × UInt16)
  symm : ∀ a b, cable a = some b → cable b = some a
  irrefl : ∀ a b, cable a = some b → a.1 ≠ b.1

/-- What a switch is started with. -/
structure SwitchSetup where
  macAddr : MacAddress
  ipAddr : IpAddress
  name : String
  ports : List OpenflowPort

/-- `discovery_service::init`. -/
def DiscoveryService.init (setup : SwitchSetup) : DiscoveryService where
  switchMac := setup.macAddr
  switchIp := setup.ipAddr
  switchPorts := setup.ports
  topology := .init setup.macAddr setup.ipAddr setup.name setup.ports

/--
The services, and the packets that are on their way, with the port at which they will come in.
Packets of any size are carried: the length fields of UDP and IP are not part of them.
-/
structure DiscoveryNetwork (ι : Type) where
  nodes : ι → DiscoveryService
  inFlight : List ((ι × UInt16) × UdpPacket)

/-- What can happen next. -/
inductive NetworkInput (ι : Type) where
  /-- Something happens at a switch other than that a packet comes in. -/
  | act (node : ι) (input : DiscoveryInput)
  /-- A packet comes in. -/
  | arrive (index : Nat) (t : ClockReadings) (behind : Bytes)
  /-- A packet is lost. -/
  | lose (index : Nat)
  /-- A packet is doubled. -/
  | duplicate (index : Nat)

namespace DiscoveryNetwork

variable {ι : Type}

/-- What a service has sent that comes in elsewhere. -/
def emitted (c : Cabling ι) (node : ι) (s s' : DiscoveryService) : List ((ι × UInt16) × UdpPacket) :=
  (s'.sent.drop s.sent.length).filterMap fun out => (c.cable (node, out.1)).map fun port => (port, out.2)

variable [DecidableEq ι]

/-- A step of one service, and what it puts on the cables. -/
def atNode (c : Cabling ι) (w : DiscoveryNetwork ι) (node : ι) (input : DiscoveryInput) :
    Option (DiscoveryNetwork ι) :=
  ((w.nodes node).step input).map fun s =>
    { nodes := Function.update w.nodes node s
      inFlight := w.inFlight ++ emitted c node (w.nodes node) s }

/-- One step of the network; `none` where the input cannot happen. -/
def step (c : Cabling ι) (w : DiscoveryNetwork ι) : NetworkInput ι → Option (DiscoveryNetwork ι)
  | .act _ (.receive ..) => none
  | .act node input => w.atNode c node input
  | .arrive index t behind =>
      w.inFlight[index]?.bind fun packet =>
        { w with inFlight := w.inFlight.eraseIdx index }.atNode c packet.1.1
          (.receive t behind { packet.2 with inPort := packet.1.2 })
  | .lose index =>
      w.inFlight[index]?.map fun _ => { w with inFlight := w.inFlight.eraseIdx index }
  | .duplicate index =>
      w.inFlight[index]?.map fun packet => { w with inFlight := w.inFlight ++ [packet] }

/-- Every switch has just been started. -/
def boot (setup : ι → SwitchSetup) : DiscoveryNetwork ι where
  nodes := fun node => .init (setup node)
  inFlight := []

end DiscoveryNetwork

end IronStack

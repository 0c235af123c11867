import IronStack.Cam.CamTable
import IronStack.Flow.System
import IronStack.Switch.SwitchState

/-!
# Ports, stations and flows together

`switch_state`, `cam` and `flow_service` with the callback that ties them: when a
port goes down the flow service's callback object has the stations behind it
forgotten and the flows to it removed. A port-status message is handled in one
step, callbacks included.
-/

namespace IronStack

/-- The test for an L2 flow in `switch_port_modification_callback`. -/
def isL2Flow (criteria : OfMatch) : Bool :=
  !criteria.wildcardEthernetDest
    && !criteria.wildcardVlanId
    && criteria.wildcardInPort
    && criteria.wildcardEthernetSrc
    && criteria.wildcardVlanPcp
    && criteria.wildcardEthernetFrameType
    && criteria.wildcardIpTypeOfService
    && criteria.wildcardIpProtocol
    && criteria.wildcardIpSrcLsbCount == 32
    && criteria.wildcardIpDestLsbCount == 32
    && criteria.wildcardTcpudpSrcPort
    && criteria.wildcardTcpudpDestPort

/--
Does the callback remove this flow? The flow is live and its only action outputs to
a port with this number; whether the number counts is not looked at.
-/
def outputsToPort (port : UInt16) (e : FlowEntry) : Bool :=
  e.state.isStanding &&
    match e.description.actionList.actions with
    | [.outputToPort _ p] => p == port
    | _ => false

/-- What the callback works on, and the L2 addresses it has purged elsewhere. -/
structure PortModEffect where
  cam : Cam
  svc : FlowService
  l2AddressesToPurge : List (MacAddress × UInt16)

/--
`flow_service_port_mod_callback::switch_port_modification_callback`. The flows are
those of one `get_flows`; the purged addresses go to the ARP and the inter-ironstack
service.
-/
def switchPortModificationCallback (now : Nat) (port : OpenflowVlanPort) (cam : Cam)
    (svc : FlowService) : PortModEffect :=
  let portOnline := port.port.isUp
  if portOnline then ⟨cam, svc, []⟩
  else if !port.valid || !portOnline then
    let affected := svc.getFlows.filter (outputsToPort port.port.portNumber)
    { cam := cam.removePort port.port.portNumber
      svc := affected.foldl (fun svc e => (svc.removeFlow now e.description.cookie).2) svc
      l2AddressesToPurge :=
        (affected.filter fun e => isL2Flow e.description.criteria).map fun e =>
          (e.description.criteria.ethernetDest, e.description.criteria.vlanId) }
  else ⟨cam, svc, []⟩

/-- The three services. -/
structure SwitchWorld where
  flow : FlowWorld
  state : SwitchState := {}
  cam : Cam := {}
  /-- `port_cob` of the flow service: the number of the callback object it holds, if it made one. -/
  portCob : Option Nat := none
  /-- The number of the next callback object. -/
  nextCob : Nat := 0
  /-- The L2 addresses the other services were told to forget. -/
  purgedAddresses : List (MacAddress × UInt16) := []

/-- Operations on the CAM service, with what the clock reads for the entries of a full table. -/
inductive CamInput where
  | createCamTable (vlanId : UInt16)
  | removeCamTable (vlanId : UInt16)
  | removeAllCamTables
  | clearCamTable (vlanId : UInt16)
  | clearAllTables
  | insert (clock : MacAddress → Nat) (dlAddr : MacAddress) (vlanId phyPort : UInt16)
  | insertAll (clock : UInt16 → MacAddress → Nat) (dlAddr : MacAddress) (phyPort : UInt16)
  | lookupPortFor (dlAddress : MacAddress) (vlanId : UInt16)
  | remove (dlAddr : MacAddress) (vlanId : UInt16)
  | removePort (phyPort : UInt16)

/-- Operations on `switch_state`, but for port-status messages. -/
inductive SwitchStateInput where
  | setSwitchFeatures (physicalPorts : List OpenflowPort)
  | setSwitchConfig
  | setSwitchDescription
  | setSwitchIp (address : IpAddress)
  | setSwitchMacOverride (enabled : Bool) (mac : MacAddress)
  | setName (name : String)
  | setVlanPorts (vlanPorts : List UInt16) (vlanId : UInt16)
  | setVlanPortTagging (destPorts : List UInt16) (state : Bool)
  | setVlanFloodPorts (destPorts : List UInt16) (vlanId : UInt16)
  | getSwitchPort (port : UInt16)

/-- What can happen next. -/
inductive SwitchInput where
  | flow (i : FlowInput)
  | cam (i : CamInput)
  | state (i : SwitchStateInput)
  | portStatus (status : PortStatus)

namespace SwitchWorld

/-- The controller before anything happened, with these tables attached, all empty. -/
def boot (tables : List FlowTable) : SwitchWorld where
  flow := .boot tables

/-- Is the callback object still held? -/
def alive (w : SwitchWorld) (cob : Nat) : Bool := w.portCob == some cob

/-- `flow_service::init2`: a new callback object, registered for every VLAN there is. -/
def registerPortCob (w : SwitchWorld) : SwitchWorld :=
  { w with
    portCob := some w.nextCob
    nextCob := w.nextCob + 1
    state := w.state.getVlanIds.toList.foldl
      (fun s vlan => s.registerPortModificationCallback (· == w.nextCob) w.nextCob vlan) w.state }

/-- A step of the flow service. -/
def stepFlow (w : SwitchWorld) (i : FlowInput) : Option SwitchWorld :=
  let w' := match i with
    | .init2 => w.registerPortCob
    | _ => w
  (w.flow.step i).map fun flow => { w' with flow := flow }

/-- A step of the CAM service. -/
def stepCam (now : Nat) (c : Cam) : CamInput → Cam
  | .createCamTable vlanId => c.createCamTable vlanId
  | .removeCamTable vlanId => c.removeCamTable vlanId
  | .removeAllCamTables => c.removeAllCamTables
  | .clearCamTable vlanId => c.clearCamTable vlanId
  | .clearAllTables => c.clearAllTables
  | .insert clock dlAddr vlanId phyPort => c.insert clock now dlAddr vlanId phyPort
  | .insertAll clock dlAddr phyPort => c.insertAll clock now dlAddr phyPort
  | .lookupPortFor dlAddress vlanId => (c.lookupPortFor now dlAddress vlanId).2
  | .remove dlAddr vlanId => c.remove dlAddr vlanId
  | .removePort phyPort => c.removePort phyPort

/-- A step of `switch_state`. -/
def stepState (s : SwitchState) : SwitchStateInput → Option SwitchState
  | .setSwitchFeatures physicalPorts => some (s.setSwitchFeatures physicalPorts)
  | .setSwitchConfig => some s.setSwitchConfig
  | .setSwitchDescription => some s.setSwitchDescription
  | .setSwitchIp address => s.setSwitchIp address
  | .setSwitchMacOverride enabled mac => s.setSwitchMacOverride enabled mac
  | .setName name => s.setName name
  | .setVlanPorts vlanPorts vlanId => s.setVlanPorts (.ofList vlanPorts) vlanId
  | .setVlanPortTagging destPorts state => s.setVlanPortTagging (.ofList destPorts) state
  | .setVlanFloodPorts destPorts vlanId => s.setVlanFloodPorts (.ofList destPorts) vlanId
  | .getSwitchPort port => some (s.getSwitchPort port).2

/-- One call of the flow service's callback. -/
def callBack (port : OpenflowVlanPort) (w : SwitchWorld) : SwitchWorld :=
  let effect := switchPortModificationCallback w.flow.now port w.cam w.flow.svc
  { w with
    cam := effect.cam
    flow := { w.flow with svc := effect.svc }
    purgedAddresses := w.purgedAddresses ++ effect.l2AddressesToPurge }

/-- `update_switch_port`, with its callbacks. -/
def handlePortStatus (w : SwitchWorld) (status : PortStatus) : SwitchWorld :=
  let (port?, state) := w.state.updateSwitchPort status
  let w := { w with state := state }
  match port? with
  | none => w
  | some port => (state.callbacksFor w.alive port).foldl (fun w _ => w.callBack port) w

/-- One step; `none` where the input cannot happen, or the controller aborts. -/
def step (w : SwitchWorld) : SwitchInput → Option SwitchWorld
  | .flow i => w.stepFlow i
  | .cam i => some { w with cam := stepCam w.flow.now w.cam i }
  | .state i => (stepState w.state i).map fun state => { w with state := state }
  | .portStatus status => some (w.handlePortStatus status)

end SwitchWorld

end IronStack

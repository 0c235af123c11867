import IronStack.Switch.Port

/-!
# `switch_state`

What the controller knows about the switch: its ports, and whether enough of the
rest has arrived for the service to be initialized. Each operation is one critical
section of `lock`; the port-modification callbacks are made after it.
-/

namespace IronStack

open Std

/-- `map<uint16_t, openflow_vlan_port>`. -/
abbrev PortMap := ExtTreeMap UInt16 OpenflowVlanPort

/-- `enum ofp_port_reason`, and the values that are none of it. -/
inductive OfpPortReason where
  | add
  | delete
  | modify
  | unknown
deriving DecidableEq, Repr

/-- `of_message_port_status`. -/
structure PortStatus where
  reason : OfpPortReason
  description : OpenflowPort
deriving DecidableEq, Repr

/--
`switch_state`. A port-modification callback is held by a weak pointer, so it is
known by the number of the object it points to.
-/
structure SwitchState where
  initialized : Bool := false
  macOverrideSet : Bool := false
  switchConfigSet : Bool := false
  switchDescriptionSet : Bool := false
  switchFeaturesAndPortsSet : Bool := false
  switchIpAddress : IpAddress := IpAddress.nil
  switchName : String := ""
  ports : PortMap := ∅
  portModCallbacks : List (UInt16 × Nat) := []

namespace SwitchState

/-- `switch_state::check_init_state_unsafe`. -/
def checkInitState (s : SwitchState) : SwitchState :=
  if s.switchName.isEmpty || s.switchIpAddress == IpAddress.nil || !s.macOverrideSet
      || !s.switchConfigSet || !s.switchDescriptionSet || !s.switchFeaturesAndPortsSet then s
  else { s with initialized := true }

/-! ## The port map -/

/-- `ports[port]`: the operator makes a default port where there is none. -/
def portAt (ports : PortMap) (port : UInt16) : OpenflowVlanPort := ports[port]?.getD {}

/-- `switch_state::maybe_create_openflow_vlan_port_unsafe`. -/
def maybeCreatePort (ports : PortMap) (portNum : UInt16) : PortMap :=
  if portNum ≥ firstReservedPort then ports
  else if ports.contains portNum then ports
  else ports.insert portNum { port := { portNumber := portNum } }

/-- `switch_state::create_or_update_openflow_vlan_port_unsafe`. -/
def createOrUpdatePort (ports : PortMap) (port : OpenflowPort) : PortMap :=
  if port.portNumber ≥ firstReservedPort then ports
  else
    match ports[port.portNumber]? with
    | none => ports.insert port.portNumber { valid := true, port := port }
    | some p => ports.insert port.portNumber ((p.setOpenflowPort port).setValid true)

/-- `switch_state::remove_openflow_vlan_port_unsafe`. -/
def removePort (ports : PortMap) (portNum : UInt16) : PortMap :=
  if portNum ≥ firstReservedPort then ports
  else
    match ports[portNum]? with
    | none => ports
    | some p => ports.insert portNum (p.setValid false)

/-- The body of the loops over a set of ports: make the port if need be, then change it. -/
def changePort (f : OpenflowVlanPort → Option OpenflowVlanPort) (ports : PortMap)
    (port : UInt16) : Option PortMap :=
  let ports := maybeCreatePort ports port
  (f (portAt ports port)).map fun p => ports.insert port p

/-- Change a set of ports, in ascending order; `none` is an abort. -/
def changePorts (s : SwitchState) (f : OpenflowVlanPort → Option OpenflowVlanPort)
    (ports : ExtTreeSet UInt16) : Option SwitchState :=
  (ports.toList.foldlM (changePort f) s.ports).map fun ports => { s with ports := ports }

/-- The text of the ports in the log: `[%hu] ` for each. -/
def listedPorts (ports : ExtTreeSet UInt16) : List Char :=
  ports.toList.flatMap fun port => '[' :: Nat.toDigits 10 port.toNat ++ [']', ' ']

/-- Change a set of ports, and list them in `char buf[1024]`; `strcat` does not stop at its end. -/
def changeListedPorts (s : SwitchState) (f : OpenflowVlanPort → Option OpenflowVlanPort)
    (ports : ExtTreeSet UInt16) : Option SwitchState :=
  if (listedPorts ports).length < 1024 then s.changePorts f ports else none

/-- `switch_state::set_vlan_ports`. -/
def setVlanPorts (s : SwitchState) (vlanPorts : ExtTreeSet UInt16) (vlanId : UInt16) :
    Option SwitchState :=
  s.changeListedPorts (·.addToVlanMembership vlanId) vlanPorts

/-- `switch_state::set_vlan_port_tagging`; for a single port the set has one element. -/
def setVlanPortTagging (s : SwitchState) (destPorts : ExtTreeSet UInt16) (state : Bool) :
    Option SwitchState :=
  s.changeListedPorts (·.setVlanTagging state) destPorts

/-- `switch_state::set_vlan_flood_ports`. -/
def setVlanFloodPorts (s : SwitchState) (destPorts : ExtTreeSet UInt16) (vlanId : UInt16) :
    Option SwitchState :=
  s.changePorts (·.addAsFloodPortForVlan vlanId) destPorts

/-- `switch_state::get_switch_port`; looking may make the port. -/
def getSwitchPort (s : SwitchState) (port : UInt16) : (Bool × OpenflowVlanPort) × SwitchState :=
  let ports := maybeCreatePort s.ports port
  let p := portAt ports port
  ((p.valid, p), { s with ports := ports.insert port p })

/-- `switch_state::get_vlan_ids`. -/
def getVlanIds (s : SwitchState) : ExtTreeSet UInt16 :=
  s.ports.toList.foldl (fun acc p => p.2.vlanMembership.toList.foldl (·.insert ·) acc) ∅

/-- The valid ports of a VLAN that are tagged, or that are not. -/
def portsOfVlan (s : SwitchState) (vlanId : UInt16) (tagged : Bool) : ExtTreeSet UInt16 :=
  s.ports.toList.foldl (fun result port =>
    if port.2.valid && port.2.isMemberOfVlan vlanId && port.2.tagged == tagged then result.insert port.1
    else result) ∅

/-- `switch_state::get_untagged_ports`. -/
def getUntaggedPorts (s : SwitchState) (vlanId : UInt16) : ExtTreeSet UInt16 := s.portsOfVlan vlanId false

/-- `switch_state::get_tagged_ports`. -/
def getTaggedPorts (s : SwitchState) (vlanId : UInt16) : ExtTreeSet UInt16 := s.portsOfVlan vlanId true

/-! ## What arrives from the switch and from the configuration -/

/-- `switch_state::set_switch_features`, as far as the ports go. -/
def setSwitchFeatures (s : SwitchState) (physicalPorts : List OpenflowPort) : SwitchState :=
  { s with
    ports := physicalPorts.foldl createOrUpdatePort s.ports
    switchFeaturesAndPortsSet := true }.checkInitState

/-- `switch_state::set_switch_config`. -/
def setSwitchConfig (s : SwitchState) : SwitchState :=
  { s with switchConfigSet := true }.checkInitState

/-- `switch_state::set_switch_description`. -/
def setSwitchDescription (s : SwitchState) : SwitchState :=
  { s with switchDescriptionSet := true }.checkInitState

/-- `switch_state::set_switch_ip`; it may be set once, and not to nil. -/
def setSwitchIp (s : SwitchState) (address : IpAddress) : Option SwitchState :=
  if s.switchIpAddress ≠ IpAddress.nil ∨ address = IpAddress.nil then none
  else some { s with switchIpAddress := address }.checkInitState

/-- `switch_state::set_switch_mac_override`; it may be set once, and not to nil. -/
def setSwitchMacOverride (s : SwitchState) (enabled : Bool) (mac : MacAddress) :
    Option SwitchState :=
  if s.macOverrideSet ∨ (enabled = true ∧ mac.isNil = true) then none
  else some { s with macOverrideSet := true }.checkInitState

/-- `switch_state::set_name`; it may be set once, to a name of less than 40 characters. -/
def setName (s : SwitchState) (name : String) : Option SwitchState :=
  if s.switchName.isEmpty ∧ name.utf8ByteSize < 40 then
    some { s with switchName := name }.checkInitState
  else none

/--
`switch_state::update_switch_port` up to its callbacks: the copy of the port they
are made with, if they are made.
-/
def updateSwitchPort (s : SwitchState) (status : PortStatus) :
    Option OpenflowVlanPort × SwitchState :=
  if !s.initialized then (none, s)
  -- status messages for non-physical ports are ignored
  else if status.description.portNumber ≥ firstReservedPort then (none, s)
  else
    let n := status.description.portNumber
    let ports := maybeCreatePort s.ports n
    match status.reason with
    | .add =>
        let ports := createOrUpdatePort ports status.description
        (some (portAt ports n), { s with ports := ports })
    | .delete =>
        let ports := removePort ports n
        (some (portAt ports n), { s with ports := ports })
    | .modify =>
        let vlanPort := portAt ports n
        let originalPortUp := if vlanPort.valid then vlanPort.port.isUp else false
        let needCallbacks := originalPortUp != status.description.isUp
        let ports := createOrUpdatePort ports status.description
        (if needCallbacks then some (portAt ports n) else none, { s with ports := ports })
    | .unknown => (none, { s with ports := ports })

/-! ## Port-modification callbacks -/

/--
`switch_state::register_port_modification_callback`: drop the callbacks up to the
first that is the same, or all, whose object is gone, and add this one unless it is
there.
-/
def registerCallback (alive : Nat → Bool) (callback : Nat) (vlanId : UInt16) :
    List (UInt16 × Nat) → List (UInt16 × Nat)
  | [] => [(vlanId, callback)]
  | (v, cb) :: rest =>
      if !alive cb then registerCallback alive callback vlanId rest
      else if v = vlanId ∧ cb = callback then (v, cb) :: rest
      else (v, cb) :: registerCallback alive callback vlanId rest

/-- `switch_state::register_port_modification_callback`. -/
def registerPortModificationCallback (s : SwitchState) (alive : Nat → Bool) (callback : Nat)
    (vlanId : UInt16) : SwitchState :=
  { s with portModCallbacks := registerCallback alive callback vlanId s.portModCallbacks }

/--
`switch_state::perform_port_mod_callbacks`: the objects that are called for a port,
once for each VLAN of the port they are registered for.
-/
def callbacksFor (s : SwitchState) (alive : Nat → Bool) (port : OpenflowVlanPort) : List Nat :=
  (s.portModCallbacks.filter fun it => port.isMemberOfVlan it.1 && alive it.2).map Prod.snd

end SwitchState

end IronStack

import IronStack.OpenFlow.ActionCodec
import IronStack.Text.Addresses
import IronStack.Text.StringUtils

/-!
# `openflow_action_list::from_string`

An action list is read from pairs of a key and a value. What a pair adds depends on it
alone, except that an `enqueue_port` has its queue in the pair behind it.
-/

namespace IronStack

open Lib StringUtils

namespace OpenflowActionList

/-- `of_action_output_to_port`, as it is set up for a port number. -/
def outputTo (port : UInt16) : OfAction := .outputToPort (port == ofppController) port

/--
What a pair with another key than `enqueue_port` adds, if it can be parsed: one action, or none for a
`strip_vlan` of zero. The numbers are read by `number`, the names of hosts are looked up by `getaddrinfo`.
-/
def ofPair (getaddrinfo : Text → Option IpAddress) (number : Text → Option UInt16) (key value : Text) :
    Option (Option OfAction) :=
  if key = "out_port".toList then
    if value = "controller".toList then some (some (outputTo ofppController))
    else (number value).map fun port => some (outputTo port)
  else if key = "set_vlan".toList then (number value).map fun id => some (.setVlanId id)
  else if key = "set_vlan_pcp".toList then
    (number value).bind fun pcp => if pcp > 0xff then none else some (some (.setVlanPcp pcp.toUInt8))
  else if key = "strip_vlan".toList then
    (number value).bind fun value =>
      if value > 1 then none else some (if value = 1 then some .stripVlan else none)
  else if key = "set_dl_src".toList then
    (MacAddress.ofText value).map fun dlSrc => some (.setMacAddress true dlSrc)
  else if key = "set_dl_dest".toList then
    (MacAddress.ofText value).map fun dlDest => some (.setMacAddress false dlDest)
  else if key = "set_nw_src".toList then
    (IpAddress.ofText getaddrinfo value).map fun nwSrc => some (.setIpAddress true nwSrc)
  else if key = "set_nw_dest".toList then
    (IpAddress.ofText getaddrinfo value).map fun nwDest => some (.setIpAddress false nwDest)
  else if key = "set_ip_tos".toList then
    (number value).bind fun tos => if tos > 127 then none else some (some (.setIpTypeOfService tos.toUInt8))
  else if key = "set_src_port".toList then (number value).map fun port => some (.setTcpudpPort true port)
  else if key = "set_dest_port".toList then (number value).map fun port => some (.setTcpudpPort false port)
  -- a vendor action is not supported, and any other command is unknown
  else none

/-- The loop of `openflow_action_list::from_string`, with its result and the actions so far. -/
def fromPairs (getaddrinfo : Text → Option IpAddress) (result : Bool) (actions : List OfAction) :
    List KeyValue → Bool × List OfAction
  | [] => (result, actions)
  | (key, value) :: rest =>
      if key = "enqueue_port".toList then
        match stringToUint16 value with
        | none => fromPairs getaddrinfo false actions rest
        | some port =>
            -- the index has moved to the next pair, whatever that is
            match rest with
            | [] => (false, actions)
            | (key', value') :: rest' =>
                if key' ≠ "queue_id".toList then fromPairs getaddrinfo false actions rest'
                else
                  match stringToUint32 value' with
                  | none => fromPairs getaddrinfo false actions rest'
                  | some queueId => fromPairs getaddrinfo result (actions ++ [.enqueue port queueId]) rest'
      else
        match ofPair getaddrinfo stringToUint16 key value with
        | none => fromPairs getaddrinfo false actions rest
        | some none => fromPairs getaddrinfo result actions rest
        | some (some action) => fromPairs getaddrinfo result (actions ++ [action]) rest

/-- `openflow_action_list::from_string`, with the list that it leaves. -/
def fromString (getaddrinfo : Text → Option IpAddress) (input : Text) : Bool × OpenflowActionList :=
  let (result, actions) := fromPairs getaddrinfo true clear.actions (generateKeyValuePair input)
  (result, ⟨actions⟩)

end OpenflowActionList

end IronStack

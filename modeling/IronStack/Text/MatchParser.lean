import IronStack.OpenFlow.Match
import IronStack.Text.Addresses
import IronStack.Text.StringUtils

/-!
# `of_match::from_string`

A match is read from pairs of a key and a value. It begins as the match of everything, and
each pair sets the field of its key.
-/

namespace IronStack

open Lib StringUtils

namespace OfMatch

/-- The keys that are known. -/
inductive Key where
  | dlSrc
  | dlDest
  | inPort
  | vlanId
  | vlanPcp
  | ethertype
  | ipTos
  | ipProto
  | nwSrcLsbWildcard
  | nwDestLsbWildcard
  | nwSrc
  | nwDest
  | srcPort
  | destPort
deriving DecidableEq, Repr

namespace Key

def name : Key → Text
  | dlSrc => "dl_src".toList
  | dlDest => "dl_dest".toList
  | inPort => "in_port".toList
  | vlanId => "vlan_id".toList
  | vlanPcp => "vlan_pcp".toList
  | ethertype => "ethertype".toList
  | ipTos => "ip_tos".toList
  | ipProto => "ip_proto".toList
  | nwSrcLsbWildcard => "nw_src_lsb_wildcard".toList
  | nwDestLsbWildcard => "nw_dest_lsb_wildcard".toList
  | nwSrc => "nw_src".toList
  | nwDest => "nw_dest".toList
  | srcPort => "src_port".toList
  | destPort => "dest_port".toList

/-- The keys in the order in which they are compared. -/
def all : List Key :=
  [dlSrc, dlDest, inPort, vlanId, vlanPcp, ethertype, ipTos, ipProto, nwSrcLsbWildcard, nwDestLsbWildcard,
    nwSrc, nwDest, srcPort, destPort]

def ofName (l : Text) : Option Key := all.find? fun key => key.name = l

/--
Whether the value of the key is looked at: not if it is empty, or a wildcard, except that a
count may be.
-/
def takes : Key → Text → Bool
  | nwSrcLsbWildcard, value => value ≠ []
  | nwDestLsbWildcard, value => value ≠ []
  | _, value => value ≠ [] && value ≠ ['*']

end Key

/-- A number that is not beyond a bound, where `string_to_uint16` finds one. -/
def boundedUint16 (bound : UInt16) (value : Text) : Option UInt16 :=
  (stringToUint16 value).filter fun val => val ≤ bound

/-- What a pair of a known key does to the match, and whether its value can be parsed. -/
def setKey (getaddrinfo : Text → Option IpAddress) (m : OfMatch) (value : Text) : Key → Bool × OfMatch
  | .dlSrc =>
      let ethernetSrc := MacAddress.set value
      if ethernetSrc.toText ≠ value then (false, { m with wildcardEthernetSrc := true, ethernetSrc })
      else (true, { m with wildcardEthernetSrc := false, ethernetSrc })
  | .dlDest =>
      let ethernetDest := MacAddress.set value
      if ethernetDest.toText ≠ value then (false, { m with wildcardEthernetDest := true, ethernetDest })
      else (true, { m with wildcardEthernetDest := false, ethernetDest })
  | .inPort =>
      match stringToUint16 value with
      | none => (false, { m with wildcardInPort := true })
      | some inPort => (true, { m with wildcardInPort := false, inPort })
  | .vlanId =>
      match stringToUint16 value with
      | none => (false, { m with wildcardVlanId := true })
      | some vlanId => (true, { m with wildcardVlanId := false, vlanId })
  | .vlanPcp =>
      match boundedUint16 0xff value with
      | none => (false, { m with wildcardVlanPcp := true })
      | some val => (true, { m with wildcardVlanPcp := false, vlanPcp := val.toUInt8 })
  | .ethertype =>
      match stringToUint16 value with
      | none => (false, { m with wildcardEthernetFrameType := true })
      | some ethernetFrameType => (true, { m with wildcardEthernetFrameType := false, ethernetFrameType })
  | .ipTos =>
      match boundedUint16 0xff value with
      | none => (false, { m with wildcardIpTypeOfService := true })
      | some val => (true, { m with wildcardIpTypeOfService := false, ipTypeOfService := val.toUInt8 })
  | .ipProto =>
      match boundedUint16 0xff value with
      | none => (false, { m with wildcardIpProtocol := true })
      | some val => (true, { m with wildcardIpProtocol := false, ipProtocol := val.toUInt8 })
  | .nwSrcLsbWildcard =>
      match boundedUint16 32 value with
      | none => (false, { m with wildcardIpSrcLsbCount := 32 })
      | some val => (true, { m with wildcardIpSrcLsbCount := val.toUInt8 })
  | .nwDestLsbWildcard =>
      match boundedUint16 32 value with
      | none => (false, { m with wildcardIpDestLsbCount := 32 })
      | some val => (true, { m with wildcardIpDestLsbCount := val.toUInt8 })
  | .nwSrc =>
      -- the number of bits that are ignored stays as it is
      let ipSrcAddress := IpAddress.set getaddrinfo value
      if ipSrcAddress.toText ≠ value then (false, { m with wildcardIpSrcLsbCount := 32, ipSrcAddress })
      else (true, { m with ipSrcAddress })
  | .nwDest =>
      let ipDestAddress := IpAddress.set getaddrinfo value
      if ipDestAddress.toText ≠ value then (false, { m with wildcardIpDestLsbCount := 32, ipDestAddress })
      else (true, { m with ipDestAddress })
  | .srcPort =>
      match stringToUint16 value with
      | none => (false, { m with wildcardTcpudpSrcPort := true })
      | some tcpudpSrcPort => (true, { m with wildcardTcpudpSrcPort := false, tcpudpSrcPort })
  | .destPort =>
      match stringToUint16 value with
      | none => (false, { m with wildcardTcpudpDestPort := true })
      | some tcpudpDestPort => (true, { m with wildcardTcpudpDestPort := false, tcpudpDestPort })

/-- One pair: a setting that is not known is ignored. -/
def setPair (getaddrinfo : Text → Option IpAddress) (m : OfMatch) (kv : KeyValue) : Bool × OfMatch :=
  match Key.ofName kv.1 with
  | none => (false, m)
  | some key => if key.takes kv.2 then setKey getaddrinfo m kv.2 key else (false, m)

/-- The loop over the pairs. -/
def fromPairs (getaddrinfo : Text → Option IpAddress) (result : Bool) (m : OfMatch)
    (kvPairs : List KeyValue) : Bool × OfMatch :=
  kvPairs.foldl (fun (result, m) kv =>
    let (parsed, m) := setPair getaddrinfo m kv
    (result && parsed, m)) (result, m)

/-- `of_match::from_string`, from the match that was there before. -/
def fromString (getaddrinfo : Text → Option IpAddress) (m : OfMatch) (request : Text) : Bool × OfMatch :=
  fromPairs getaddrinfo true m.wildcardAll (generateKeyValuePair request)

end OfMatch

end IronStack

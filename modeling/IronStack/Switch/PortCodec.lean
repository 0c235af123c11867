import IronStack.Lib.Wire
import IronStack.Switch.Port

/-!
# Ports on the wire

`openflow_port::set` and the classes whose flags it sets from a word each, out of
the 48 bytes of `struct ofp_phy_port`.
-/

namespace IronStack

open Lib

/-- `raw_value & bits ? true : false`. -/
def hasBits (rawValue bits : UInt32) : Bool := rawValue &&& bits != 0

/-- `openflow_port_config::set`; the bits are those of `enum ofp_port_config`. -/
def OpenflowPortConfig.set (rawValue : UInt32) : OpenflowPortConfig where
  portDown := hasBits rawValue ((1 : UInt32) <<< 0)
  portStpDisabled := hasBits rawValue ((1 : UInt32) <<< 1)
  portDropAllPktsExceptStp := hasBits rawValue ((1 : UInt32) <<< 2)
  portDropStpPkts := hasBits rawValue ((1 : UInt32) <<< 3)
  portExcludeFromFlooding := hasBits rawValue ((1 : UInt32) <<< 4)
  portDropAllPkts := hasBits rawValue ((1 : UInt32) <<< 5)
  portPktInEventsDisabled := hasBits rawValue ((1 : UInt32) <<< 6)

/-- `of_port_state::set`; the values are those of `enum ofp_port_state`, where listening is 0. -/
def OfPortState.set (rawValue : UInt32) : OfPortState where
  portLinkDown := hasBits rawValue ((1 : UInt32) <<< 0)
  portStpListen := hasBits rawValue ((0 : UInt32) <<< 8)
  portStpLearn := hasBits rawValue ((1 : UInt32) <<< 8)
  portStpForward := hasBits rawValue ((2 : UInt32) <<< 8)
  portStpBlock := hasBits rawValue ((3 : UInt32) <<< 8)
  portStpMask := hasBits rawValue ((3 : UInt32) <<< 8)

/-- `of_port_features::set`; the bits are those of `enum ofp_port_features`. -/
def OfPortFeatures.set (rawValue : UInt32) : OfPortFeatures where
  bandwidth10mbHalfDuplex := hasBits rawValue ((1 : UInt32) <<< 0)
  bandwidth10mbFullDuplex := hasBits rawValue ((1 : UInt32) <<< 1)
  bandwidth100mbHalfDuplex := hasBits rawValue ((1 : UInt32) <<< 2)
  bandwidth100mbFullDuplex := hasBits rawValue ((1 : UInt32) <<< 3)
  bandwidth1gbHalfDuplex := hasBits rawValue ((1 : UInt32) <<< 4)
  bandwidth1gbFullDuplex := hasBits rawValue ((1 : UInt32) <<< 5)
  bandwidth10gbFullDuplex := hasBits rawValue ((1 : UInt32) <<< 6)
  mediumCopper := hasBits rawValue ((1 : UInt32) <<< 7)
  mediumFiber := hasBits rawValue ((1 : UInt32) <<< 8)
  autoNegotiation := hasBits rawValue ((1 : UInt32) <<< 9)
  pause := hasBits rawValue ((1 : UInt32) <<< 10)
  asymmetricPause := hasBits rawValue ((1 : UInt32) <<< 11)

/-- The characters of a C string, up to its terminator if there is one. -/
def ofCString (b : Bytes) : String :=
  String.ofList ((b.takeWhile (· != 0)).map fun x => Char.ofNat x.toNat)

/-- `openflow_port::set`, from a `struct ofp_phy_port` at some offset. -/
def OpenflowPort.set (input : Bytes) (off : Nat) : Read OpenflowPort := do
  let portNo ← readU16 input off
  let hwAddr ← readVec 6 input (off + 2)
  -- copied into a buffer that is one byte longer and was cleared before
  let name ← slice input (off + 8) 16
  let config ← readU32 input (off + 24)
  let state ← readU32 input (off + 28)
  let curr ← readU32 input (off + 32)
  let advertised ← readU32 input (off + 36)
  let supported ← readU32 input (off + 40)
  let peer ← readU32 input (off + 44)
  return {
    portNumber := portNo
    dlAddr := ⟨hwAddr⟩
    name := ofCString name
    config := .set config
    state := .set state
    currentFeatures := .set curr
    advertisedFeatures := .set advertised
    supportedFeatures := .set supported
    peerFeatures := .set peer }

end IronStack

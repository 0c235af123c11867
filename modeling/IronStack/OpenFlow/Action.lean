import IronStack.Common

/-!
# `of_action` and `openflow_action_list`

The class hierarchy of actions becomes one inductive type, a constructor per
derived class. The base class's `UNKNOWN` type is never that of an object: every
derived constructor sets its own.
-/

namespace IronStack

/-- `of_action` and its derived classes. -/
inductive OfAction where
  /-- `of_action_output_to_port`; the port number is ignored if `sendToController` is set. -/
  | outputToPort (sendToController : Bool) (port : UInt16)
  | enqueue (port : UInt16) (queueId : UInt32)
  | setVlanId (vlanId : UInt16)
  | setVlanPcp (vlanPcp : UInt8)
  | stripVlan
  | setMacAddress (setSrc : Bool) (newAddr : MacAddress)
  | setIpAddress (setSrc : Bool) (newAddr : IpAddress)
  | setIpTypeOfService (typeOfService : UInt8)
  | setTcpudpPort (setSrcPort : Bool) (port : UInt16)
  | vendor (vendor : UInt32) (request : List UInt8)
deriving DecidableEq, Repr

/-- `of_action::operator==`: same class and same fields, but no vendor action equals any other. -/
protected def OfAction.beq : OfAction → OfAction → Bool
  | .vendor _ _, _ => false
  | a, b => decide (a = b)

instance : BEq OfAction := ⟨OfAction.beq⟩

/-- `openflow_action_list`. -/
structure OpenflowActionList where
  actions : List OfAction
deriving DecidableEq, Repr

namespace OpenflowActionList

/-- `openflow_action_list::clear`. -/
def clear : OpenflowActionList := ⟨[]⟩

/--
`openflow_action_list::operator==`: the same number of actions, and every action
of this list occurs somewhere in the other.
-/
protected def beq (l other : OpenflowActionList) : Bool :=
  l.actions.length == other.actions.length
    && l.actions.all fun action => other.actions.any fun otherAction => action == otherAction

instance : BEq OpenflowActionList := ⟨OpenflowActionList.beq⟩

end OpenflowActionList

end IronStack

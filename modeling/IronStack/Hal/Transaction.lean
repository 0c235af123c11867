import IronStack.Flow.Entry

/-!
# Messages and transactions

`ofp_type`, the flow-mod message, and `hal_transaction`: a request together with
whether its completion is to be reported, and to whom.
-/

namespace IronStack

/-- `enum ofp_type`. -/
inductive OfpType where
  | hello | error | echoRequest | echoReply | vendor
  | featuresRequest | featuresReply | getConfigRequest | getConfigReply | setConfig
  | packetIn | flowRemoved | portStatus
  | packetOut | flowMod | portMod
  | statsRequest | statsReply
  | barrierRequest | barrierReply
  | queueGetConfigRequest | queueGetConfigReply
deriving DecidableEq, Repr

/-- `enum ofp_flow_mod_command`. -/
inductive FlowModCommand where
  | add | modify | modifyStrict | delete | deleteStrict
deriving DecidableEq, Repr

/-- `of_message_modify_flow`; the defaults are those of its `clear`. -/
structure ModifyFlow where
  flowDescription : FlowDescription
  command : FlowModCommand := .add
  idleTimeout : UInt16 := 0
  hardTimeout : UInt16 := 0
  bufferId : UInt32 := 0
  useOutPort : Bool := false
  outPort : UInt16 := 0xffff
  flagSendFlowRemovalMessage : Bool := false
  flagCheckOverlap : Bool := false
  flagEmergencyFlow : Bool := false
deriving DecidableEq, Repr

/-- The requests the flow service puts on the wire. -/
inductive FlowRequest where
  | flowMod (msg : ModifyFlow)
  /-- `of_message_stats_request_flow_stats`, for all tables and with everything wildcarded. -/
  | statsRequestFlowStats
deriving DecidableEq, Repr

/-- `get_request()->msg_type`. -/
def FlowRequest.msgType : FlowRequest → OfpType
  | .flowMod _ => .flowMod
  | .statsRequestFlowStats => .statsRequest

/-- Who a completion is reported to. -/
inductive FlowCallback where
  /-- The `blocking_hal_callback` of the call that made the transaction. -/
  | blocking
  /-- `flow_table::hal_callback` of the attached table with this index. -/
  | table (index : Nat)
deriving DecidableEq, Repr

/--
`hal_transaction`. A completion callback is mandatory when the acknowledgement
flag is set: the header says so and every caller supplies one.
-/
structure HalTransaction (ρ γ : Type) where
  request : ρ
  needsCompletionAcknowledgement : Bool
  callback : Option γ
  callback_of_acknowledgement : needsCompletionAcknowledgement = true → callback.isSome = true
deriving DecidableEq

namespace HalTransaction

variable {ρ γ : Type}

/-- `hal_transaction(request, true, callback)`. -/
def acknowledged (request : ρ) (callback : γ) : HalTransaction ρ γ :=
  ⟨request, true, some callback, fun _ => rfl⟩

/-- `hal_transaction(request, false)`. -/
def unacknowledged (request : ρ) : HalTransaction ρ γ :=
  ⟨request, false, none, fun h => absurd h (by simp)⟩

end HalTransaction

/-- What the flow service enqueues. -/
abbrev FlowTransaction := HalTransaction FlowRequest FlowCallback

end IronStack

import IronStack.OpenFlow.Match
import IronStack.OpenFlow.Action

/-!
# Flow descriptions and flow-table entries

`openflow_flow_description` says what a flow is, `openflow_flow_entry` is the
controller's record of one, with its place in the install/remove life cycle.
-/

namespace IronStack

/-- The all-ones value the flow tables use for "no cookie": `(uint64_t) -1`. -/
def noCookie : UInt64 := 0xffffffffffffffff

/-- `openflow_flow_description`. -/
structure FlowDescription where
  criteria : OfMatch
  actionList : OpenflowActionList
  cookie : UInt64
  priority : UInt16
deriving DecidableEq, Repr

/-- `openflow_flow_description::operator==`: priorities and cookies are not compared. -/
protected def FlowDescription.beq (d other : FlowDescription) : Bool :=
  d.criteria == other.criteria && d.actionList == other.actionList

instance : BEq FlowDescription := ⟨FlowDescription.beq⟩

/-- `openflow_flow_description_and_stats`. -/
structure FlowDescriptionAndStats where
  flowDescription : FlowDescription
  tableId : UInt8 := 0
  durationAliveSec : UInt32 := 0
  durationAliveNsec : UInt32 := 0
  durationToIdleTimeout : UInt16 := 0
  durationToHardTimeout : UInt16 := 0
  packetCount : UInt64 := 0
  byteCount : UInt64 := 0
deriving DecidableEq, Repr

/-- The cookie a reported flow carries. -/
abbrev FlowDescriptionAndStats.cookie (f : FlowDescriptionAndStats) : UInt64 :=
  f.flowDescription.cookie

/-- `openflow_flow_entry::flow_state`. -/
inductive FlowState where
  | unknown
  | pendingInstallation
  | active
  | pendingDeletion
  | deleted
deriving DecidableEq, Repr

/-- A standing flow is being installed or is installed; `add_flow` takes it for existing. -/
def FlowState.isStanding : FlowState → Bool
  | .pendingInstallation | .active => true
  | _ => false

/-- `openflow_flow_entry`. -/
structure FlowEntry where
  state : FlowState
  idleTimeout : UInt32
  hardTimeout : UInt32
  lastUpdated : Timer
  installReason : String
  description : FlowDescription
  /-- Private to `flow_table`: seen in the refresh under way. -/
  isUpdated : Bool
deriving DecidableEq, Repr

namespace FlowEntry

/-- `openflow_flow_entry::set_state`: the new state, and a restarted timer. -/
def setState (now : Nat) (newState : FlowState) (e : FlowEntry) : FlowEntry :=
  { e with state := newState, lastUpdated := Timer.reset now }

/-- `openflow_flow_entry::is_static`: the flow is never aged out. -/
def isStatic (e : FlowEntry) : Bool :=
  e.idleTimeout == 0 && e.hardTimeout == 0

@[simp] theorem setState_state (now : Nat) (st : FlowState) (e : FlowEntry) :
    (e.setState now st).state = st := rfl

@[simp] theorem setState_description (now : Nat) (st : FlowState) (e : FlowEntry) :
    (e.setState now st).description = e.description := rfl

@[simp] theorem setState_isUpdated (now : Nat) (st : FlowState) (e : FlowEntry) :
    (e.setState now st).isUpdated = e.isUpdated := rfl

@[simp] theorem setState_isStatic (now : Nat) (st : FlowState) (e : FlowEntry) :
    (e.setState now st).isStatic = e.isStatic := rfl

@[simp] theorem setState_lastUpdated (now : Nat) (st : FlowState) (e : FlowEntry) :
    (e.setState now st).lastUpdated = Timer.reset now := rfl

end FlowEntry

end IronStack

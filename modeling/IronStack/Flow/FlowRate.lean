import IronStack.Flow.Entry

/-!
# The rate of a flow

`openflow_flow_rate` keeps, for the bytes and for the packets of a flow, an array of
what the last updates brought, and an array of timers beside them. The flow that was
reported last and the offsets of the counters that can be reset, which no rate reads,
are left out.
-/

namespace IronStack

/-- `byte_history` and `packet_history`. -/
abbrev History := Vector UInt64 10

namespace History

/-- The loop that moves every entry of a full history down by one. -/
def shiftDown (h : History) : History :=
  Vector.ofFn fun i => if hi : i.val + 1 < 10 then h[i.val + 1] else h[i]

/-- What `update_flow` does to one of the two histories. -/
def record (h : History) (validHistories : Nat) (initial count : UInt64) : History :=
  if hvalid : validHistories < 10 then
    if validHistories = 0 then h.set 0 0
    else h.set validHistories (count - initial - h[validHistories - 1])
  else
    h.shiftDown.set 9 (count - initial - h.shiftDown[9])

end History

/-- `openflow_flow_rate`. -/
structure FlowRate where
  byteHistory : History
  packetHistory : History
  timerHistory : Vector Timer 10
  validHistories : Nat
  valid_le : validHistories ≤ 10
  initialBytes : UInt64
  initialPackets : UInt64

namespace FlowRate

/-- `openflow_flow_rate::openflow_flow_rate`, at a reading of the clock. -/
def new (now : Nat) : FlowRate where
  byteHistory := Vector.replicate 10 0
  packetHistory := Vector.replicate 10 0
  timerHistory := Vector.replicate 10 (Timer.reset now)
  validHistories := 0
  valid_le := Nat.zero_le _
  initialBytes := 0
  initialPackets := 0

/-- `openflow_flow_rate::update_flow`. It does not look at the clock. -/
def updateFlow (r : FlowRate) (newFlow : FlowDescriptionAndStats) : FlowRate where
  byteHistory := r.byteHistory.record r.validHistories r.initialBytes newFlow.byteCount
  packetHistory := r.packetHistory.record r.validHistories r.initialPackets newFlow.packetCount
  timerHistory := r.timerHistory
  validHistories := if r.validHistories < 10 then r.validHistories + 1 else r.validHistories
  valid_le := by
    have hle := r.valid_le
    split <;> omega
  initialBytes := if r.validHistories = 0 then newFlow.byteCount else r.initialBytes
  initialPackets := if r.validHistories = 0 then newFlow.packetCount else r.initialPackets

/-- The body of the two rate getters: the total of a history by the seconds between two timers. -/
def rate (r : FlowRate) (history : History) (now : Nat) : UInt64 :=
  if hvalid : r.validHistories ≤ 1 then 0
  else
    have hle := r.valid_le
    let total := (history.toList.take r.validHistories).foldl (· + ·) 0
    let oldest := r.timerHistory[0].getTimeElapsedMs now
    let newest := r.timerHistory[r.validHistories - 1].getTimeElapsedMs now
    let timeElapsedS := (oldest - newest).tdiv 1000
    if timeElapsedS = 0 then 0 else total / UInt64.ofInt timeElapsedS

/-- `openflow_flow_rate::get_byte_rate`. -/
def getByteRate (r : FlowRate) (now : Nat) : UInt64 := r.rate r.byteHistory now

/-- `openflow_flow_rate::get_packet_rate`. -/
def getPacketRate (r : FlowRate) (now : Nat) : UInt64 := r.rate r.packetHistory now

end FlowRate

end IronStack

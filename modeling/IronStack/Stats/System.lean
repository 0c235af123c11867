import IronStack.Flow.Service
import IronStack.Stats.OperationalStats

/-!
# Statistics replies

What the message loop of the HAL does with the statistics replies of the switch:
flow statistics go to the flow service and then to `operational_stats`, the other
kinds to `operational_stats` only. Both services are registered.

The replies may be fragmented, and the fragments of different replies may come in
any order. The world remembers, as a ghost, all fragments of each kind; a step is
possible only for a fragment whose reply has not ended.
-/

namespace IronStack

open Lib

/-- All fragments received, of each kind, oldest first. -/
structure ReceivedStats where
  flows : List (StatsReply FlowDescriptionAndStats)
  tables : List (StatsReply TableStats)
  ports : List (StatsReply PortStats)
  queues : List (StatsReply QueueStats)

/-- The two services that take statistics replies. -/
structure StatsWorld where
  now : Nat
  svc : FlowService
  stats : OperationalStats
  /-- Ghost: the fragments received. -/
  received : ReceivedStats

/-- What can happen next. -/
inductive StatsInput where
  | tick (ns : Nat)
  | aggregateStats (xid : UInt32) (stats : AggregateStats)
  | flowStats (msg : StatsReply FlowDescriptionAndStats)
  | tableStats (msg : StatsReply TableStats)
  | portStats (msg : StatsReply PortStats)
  | queueStats (msg : StatsReply QueueStats)

namespace StatsWorld

/-- The services before the first reply, whatever tables and statistics they have. -/
def boot (svc : FlowService) (stats : OperationalStats) : StatsWorld where
  now := 0
  svc := { svc with pendingFlows := [] }
  stats := stats.init
  received := ⟨[], [], [], []⟩

/-- `process_message_loop_entrypoint`, for `OFPT_STATS_REPLY`. -/
def step (w : StatsWorld) : StatsInput → Option StatsWorld
  | .tick ns => some { w with now := w.now + ns }
  | .aggregateStats xid stats => some { w with stats := w.stats.updateAggregateStats xid stats }
  | .flowStats msg =>
      if Fragment.Ended w.received.flows msg.tag then none
      else
        (w.svc.flowUpdateHandler w.now msg.items msg.moreToFollow).map fun svc =>
          { w with
            svc := svc
            stats := w.stats.updateFlowStats msg
            received := { w.received with flows := w.received.flows ++ [msg] } }
  | .tableStats msg =>
      if Fragment.Ended w.received.tables msg.tag then none
      else
        some { w with
          stats := w.stats.updateTableStats msg
          received := { w.received with tables := w.received.tables ++ [msg] } }
  | .portStats msg =>
      if Fragment.Ended w.received.ports msg.tag then none
      else
        some { w with
          stats := w.stats.updatePortStats msg
          received := { w.received with ports := w.received.ports ++ [msg] } }
  | .queueStats msg =>
      if Fragment.Ended w.received.queues msg.tag then none
      else
        some { w with
          stats := w.stats.updateQueueStats msg
          received := { w.received with queues := w.received.queues ++ [msg] } }

end StatsWorld

end IronStack

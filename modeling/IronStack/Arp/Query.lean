import IronStack.Common
import Std.Data.ExtTreeMap

/-!
# Blocking ARP queries

The threads in `arp::send_arp_query_blocking`, and the packet processing thread in
`arp::filter_packet` at a reply to the controller. A thread is interleaved with the
others between its critical sections. The service is initialized, and stays so.
-/

namespace IronStack

open Std

/-- `pending_query_t`, and who holds its lock. -/
structure PendingQuery where
  resultMac : MacAddress := MacAddress.nil
  status : Bool := false
  lockedBy : Option Nat := none

/-- Where a thread is in `send_arp_query_blocking`, with the record that it shares. -/
inductive QueryPhase where
  /-- It has its record, and sends the query. -/
  | registered (record : Nat)
  /-- In `wait_for`. -/
  | waiting (record : Nat)
  /-- It holds the lock of the record, whose status it found `false`. -/
  | givingUp (record : Nat)
  | returned (mac : MacAddress)

/-- A call of `send_arp_query_blocking`. -/
structure ArpQuery where
  destIp : IpAddress
  vlanId : UInt16
  phase : QueryPhase

/-- A reply in `filter_packet`, with the record that it took from the pending ones. -/
structure ArpReply where
  srcIp : IpAddress
  srcMac : MacAddress
  vlanId : UInt16
  result : Option Nat

/-- The queries of the ARP service. Records have numbers for their addresses. -/
structure ArpQueries where
  pendingQueries : ExtTreeMap IpAddress Nat := ∅
  records : Nat → PendingQuery := fun _ => {}
  nextRecord : Nat := 0
  queries : Nat → Option ArpQuery := fun _ => none
  /-- The reply at which the packet processing thread is. There is one such thread. -/
  processing : Option ArpReply := none

/-- What can happen next. -/
inductive ArpQueryInput where
  /-- A thread calls `send_arp_query_blocking`, and registers under `query_lock`. -/
  | query (thread : Nat) (destIp : IpAddress) (vlanId : UInt16)
  /-- It begins to wait. -/
  | wait (thread : Nat)
  /-- It is notified, or the time is up, or it wakes for no reason; it looks at the status. -/
  | wake (thread : Nat)
  /-- It erases the pending query of its address under `query_lock`, and returns. -/
  | erase (thread : Nat)
  /-- A reply comes; its pending query is taken out under `query_lock`. -/
  | reply (srcIp : IpAddress) (srcMac : MacAddress) (vlanId : UInt16)
  /-- The record taken out is completed under its lock, and all who wait for it are notified. -/
  | complete

namespace ArpQueries

def setQuery (s : ArpQueries) (thread : Nat) (query : ArpQuery) : ArpQueries :=
  { s with queries := fun i => if i = thread then some query else s.queries i }

def setRecord (s : ArpQueries) (number : Nat) (record : PendingQuery) : ArpQueries :=
  { s with records := fun i => if i = number then record else s.records i }

/-- Registration: the pending query of the address, or a new one. -/
def register (s : ArpQueries) (thread : Nat) (destIp : IpAddress) (vlanId : UInt16) : ArpQueries :=
  match s.pendingQueries[destIp]? with
  | none =>
      { (s.setRecord s.nextRecord {}).setQuery thread ⟨destIp, vlanId, .registered s.nextRecord⟩ with
        pendingQueries := s.pendingQueries.insert destIp s.nextRecord
        nextRecord := s.nextRecord + 1 }
  | some record => s.setQuery thread ⟨destIp, vlanId, .registered record⟩

def step (s : ArpQueries) : ArpQueryInput → Option ArpQueries
  | .query thread destIp vlanId =>
      if (s.queries thread).isSome then none else some (s.register thread destIp vlanId)
  | .wait thread =>
      match s.queries thread with
      | some ⟨destIp, vlanId, .registered record⟩ =>
          if (s.records record).lockedBy.isSome then none
          else some (s.setQuery thread ⟨destIp, vlanId, .waiting record⟩)
      | _ => none
  | .wake thread =>
      match s.queries thread with
      | some ⟨destIp, vlanId, .waiting record⟩ =>
          if (s.records record).lockedBy.isSome then none
          else if !(s.records record).status then
            some ((s.setRecord record { s.records record with lockedBy := some thread }).setQuery thread
              ⟨destIp, vlanId, .givingUp record⟩)
          else some (s.setQuery thread ⟨destIp, vlanId, .returned (s.records record).resultMac⟩)
      | _ => none
  | .erase thread =>
      match s.queries thread with
      | some ⟨destIp, vlanId, .givingUp record⟩ =>
          some { (s.setRecord record { s.records record with lockedBy := none }).setQuery thread
              ⟨destIp, vlanId, .returned MacAddress.nil⟩ with
            pendingQueries := s.pendingQueries.erase destIp }
      | _ => none
  | .reply srcIp srcMac vlanId =>
      if s.processing.isSome then none
      else some { s with
        processing := some ⟨srcIp, srcMac, vlanId, s.pendingQueries[srcIp]?⟩
        pendingQueries := s.pendingQueries.erase srcIp }
  | .complete =>
      match s.processing with
      | none => none
      | some ⟨_, _, _, none⟩ => some { s with processing := none }
      | some ⟨_, srcMac, _, some record⟩ =>
          if (s.records record).lockedBy.isSome then none
          else some { s.setRecord record
              { s.records record with status := true, resultMac := srcMac } with
            processing := none }

end ArpQueries

end IronStack

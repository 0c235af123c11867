import IronStack.Flow.Table

/-!
# One table at work

A `flow_table` shared by the threads that write the states of its entries. Every
operation holds `table_lock`, so a run of these steps is one interleaving.

The last two fields of the world are ghosts, kept from what the steps do to the
entries alone: since when an entry is deleted, and which entries a refresh missed
while their own transaction was still under way. No step reads them.
-/

namespace IronStack

/-- A table, the clock, and what the entries are owed. -/
structure TableWorld where
  /-- The `steady_clock`, in nanoseconds. -/
  now : Nat
  table : FlowTable
  /-- Ghost: when the entry under the cookie became `DELETED`. -/
  deletedAt : UInt64 → Nat
  /--
  Ghost: a refresh without the entry was applied while it was
  `PENDING_INSTALLATION`, and its own transaction did not complete since.
  -/
  owed : UInt64 → Bool

/-- What can happen to a table next. -/
inductive TableInput where
  | tick (ns : Nat)
  /-- `add_entry`, with a cookie the table does not use. -/
  | addEntry (entry : FlowEntry)
  /-- `hal_callback`: the transaction with this request completed. -/
  | complete (request : FlowRequest) (reply : Option OfpType) (status : Bool)
  | markEntryAsPendingDeletion (cookieId : UInt64)
  | markAllFlowsAsPendingDelete (includeStatic : Bool)
  /-- A flow-removed message for the cookie. -/
  | flowRemoved (cookie : UInt64)
  | updateEntries (updatedFlows : List FlowDescriptionAndStats)

namespace TableWorld

/-- An empty table. -/
def boot (t : FlowTable) : TableWorld where
  now := 0
  table := { t with flows := ∅ }
  deletedAt := fun _ => 0
  owed := fun _ => false

/-- Is the entry under the cookie in this state? -/
def stateIs (t : FlowTable) (cookie : UInt64) (st : FlowState) : Bool :=
  t.flows[cookie]?.any fun e => e.state == st

/-- The operation an input is; `none` where it cannot occur, or aborts. -/
def apply (now : Nat) (t : FlowTable) : TableInput → Option FlowTable
  | .tick _ => some t
  | .addEntry entry =>
      if entry.isUpdated || t.isCookieUsed entry.description.cookie then none
      else (t.addEntry entry).map Prod.snd
  | .complete request reply status => t.halCallback now request reply status
  | .markEntryAsPendingDeletion cookieId => some (t.markEntryAsPendingDeletion now cookieId).2
  | .markAllFlowsAsPendingDelete includeStatic =>
      some (t.markAllFlowsAsPendingDelete now includeStatic).2
  | .flowRemoved cookie =>
      -- the branch `flow_removed_handler` takes for each table
      if t.isCookieUsed cookie then some (t.markEntryAsDeleted now cookie).2 else some t
  | .updateEntries updatedFlows => some (t.updateEntries now updatedFlows).2.2

/-- Is this the completion of the transaction that installs the entry under the cookie? -/
def completesInstall (cookie : UInt64) : TableInput → Bool
  | .complete (.flowMod msg) _ _ =>
      msg.flowDescription.cookie == cookie &&
        (msg.command == .add || msg.command == .modify || msg.command == .modifyStrict)
  | _ => false

/-- Is this a refresh that does not report the cookie? -/
def refreshesWithout (cookie : UInt64) : TableInput → Bool
  | .updateEntries updatedFlows => !updatedFlows.any fun f => f.cookie == cookie
  | _ => false

/-- Time passing moves the clock, and nothing else does. -/
def clock (now : Nat) : TableInput → Nat
  | .tick ns => now + ns
  | _ => now

/-- One step of the table. -/
def step (w : TableWorld) (i : TableInput) : Option TableWorld :=
  (apply w.now w.table i).map fun t =>
    { now := clock w.now i
      table := t
      deletedAt := fun c =>
        if stateIs t c .deleted && !stateIs w.table c .deleted then w.now else w.deletedAt c
      owed := fun c =>
        (w.owed c || (refreshesWithout c i && stateIs w.table c .pendingInstallation)) &&
          !completesInstall c i }

/-- More than `DELETED_ENTRY_TIMEOUT` milliseconds have passed since the entry was deleted. -/
def Lapsed (w : TableWorld) (cookie : UInt64) : Prop :=
  FlowTable.deletedEntryTimeout * 1000000 < ((w.now - w.deletedAt cookie : Nat) : Int)

instance (w : TableWorld) (cookie : UInt64) : Decidable (w.Lapsed cookie) :=
  inferInstanceAs (Decidable (_ < _))

end TableWorld

end IronStack

import IronStack.Flow.Capacity
import IronStack.Proof.Lifecycle

/-!
# The capacity of a table

The queries count the entries that are not `DELETED`. Their loop stands still at a
`DELETED` entry that is too young to be purged, under the lock of the table: it ends
when the entry has come of age, and then without it. So a query that ends has purged
every `DELETED` entry, whatever its age was.

`add_entry` does not count at all. It takes the size of the map, in which `DELETED`
entries have a place like all others, and a table that is full of them takes no new
flow while the queries report room.
-/

namespace IronStack.Proof

open IronStack Lib FlowTable TableWorld

/-- The number of entries that are not `DELETED`. -/
def liveCount (flows : FlowMap) : Nat := flows.toList.countP fun p => p.2.state ≠ .deleted

/-- The entry has been what it is for `DELETED_ENTRY_TIMEOUT`. -/
def Reached (now : Nat) (e : FlowEntry) : Prop :=
  deletedEntryTimeout * 1000000 ≤ (e.lastUpdated.age now : Int)

instance (now : Nat) (e : FlowEntry) : Decidable (Reached now e) :=
  inferInstanceAs (Decidable (_ ≤ _))

/-- The reading that the loop compares may be too small, never too large. -/
theorem reached_of_elapsed {now : Nat} {e : FlowEntry}
    (h : deletedEntryTimeout ≤ e.lastUpdated.getTimeElapsedMs now) : Reached now e := by
  have hread : e.lastUpdated.getTimeElapsedMs now ≤ ((now - e.lastUpdated.last) / 1000000 : Nat) := by
    unfold Timer.getTimeElapsedMs
    rw [Int.bmod_def]
    split <;> omega
  unfold Reached Timer.age
  omega

/-! ## The loop -/

/-- What the loop has done so far: the entries behind it are counted, or erased. -/
structure LoopInv (t : FlowTable) (s : CapacityLoop) : Prop where
  entries : ∀ p ∈ s.ahead, t.flows[p.1]? = some p.2
  distinct : s.ahead.Pairwise fun a b => a.1 ≠ b.1
  flows : ∀ c e, s.flows[c]? = some e ↔
    t.flows[c]? = some e ∧ (e.state = .deleted → (c, e) ∈ s.ahead)
  used : s.used + UInt32.ofNat (s.ahead.countP fun p => p.2.state ≠ .deleted) =
    UInt32.ofNat (liveCount t.flows)

theorem loopInv_start (t : FlowTable) : LoopInv t t.capacityStart where
  entries p hp := Std.ExtTreeMap.mem_toList_iff_getElem?_eq_some.mp hp
  distinct := (Std.ExtTreeMap.distinct_keys_toList (t := t.flows)).imp fun hne heq =>
    hne (Std.LawfulEqOrd.compare_eq_iff_eq.mpr heq)
  flows c e := by
    refine ⟨?_, fun h => h.1⟩
    intro h
    exact ⟨h, fun _ => Std.ExtTreeMap.mem_toList_iff_getElem?_eq_some.mpr h⟩
  used := UInt32.zero_add _

theorem capacityTurn_live {clock : Nat → Nat} {s : CapacityLoop} {c : UInt64} {e : FlowEntry}
    {rest : List (UInt64 × FlowEntry)} (hahead : s.ahead = (c, e) :: rest)
    (he : e.state ≠ .deleted) :
    capacityTurn clock s = { s with ahead := rest, used := s.used + 1 } := by
  rw [capacityTurn, hahead]
  exact if_pos he

theorem capacityTurn_old {clock : Nat → Nat} {s : CapacityLoop} {c : UInt64} {e : FlowEntry}
    {rest : List (UInt64 × FlowEntry)} (hahead : s.ahead = (c, e) :: rest)
    (he : e.state = .deleted)
    (hold : deletedEntryTimeout ≤ e.lastUpdated.getTimeElapsedMs (clock s.readings)) :
    capacityTurn clock s =
      { s with ahead := rest, flows := s.flows.erase c, readings := s.readings + 1 } := by
  rw [capacityTurn, hahead]
  exact (if_neg (by simpa using he)).trans (if_pos hold)

/-- The branch that is missing: the iterator stays where it is. -/
theorem capacityTurn_young {clock : Nat → Nat} {s : CapacityLoop} {c : UInt64} {e : FlowEntry}
    {rest : List (UInt64 × FlowEntry)} (hahead : s.ahead = (c, e) :: rest)
    (he : e.state = .deleted)
    (hyoung : ¬ deletedEntryTimeout ≤ e.lastUpdated.getTimeElapsedMs (clock s.readings)) :
    capacityTurn clock s = { s with readings := s.readings + 1 } := by
  rw [capacityTurn, hahead]
  exact (if_neg (by simpa using he)).trans (if_neg hyoung)

section Turn

variable {t : FlowTable} {s : CapacityLoop} {c : UInt64} {e : FlowEntry} {rest : List (UInt64 × FlowEntry)}

theorem LoopInv.rest_entries (h : LoopInv t s) (hahead : s.ahead = (c, e) :: rest) :
    ∀ p ∈ rest, t.flows[p.1]? = some p.2 := by
  intro p hp
  refine h.entries p ?_
  rw [hahead]
  exact List.mem_cons_of_mem _ hp

theorem LoopInv.rest_distinct (h : LoopInv t s) (hahead : s.ahead = (c, e) :: rest) :
    (∀ p ∈ rest, c ≠ p.1) ∧ rest.Pairwise fun a b => a.1 ≠ b.1 := by
  have hdistinct := h.distinct
  rw [hahead] at hdistinct
  exact List.pairwise_cons.mp hdistinct

/-- An entry that is erased was `DELETED`, and has no second place further on. -/
theorem LoopInv.erase (h : LoopInv t s) (hahead : s.ahead = (c, e) :: rest) (he : e.state = .deleted) :
    LoopInv t { s with ahead := rest, flows := s.flows.erase c, readings := s.readings + 1 } := by
  obtain ⟨hne, hdistinct⟩ := h.rest_distinct hahead
  have hhead : t.flows[c]? = some e := h.entries (c, e) (by rw [hahead]; exact List.mem_cons_self)
  have hused := h.used
  rw [hahead, List.countP_cons] at hused
  refine ⟨h.rest_entries hahead, hdistinct, ?_, by simpa [he] using hused⟩
  intro c' e'
  rw [getElem?_erase]
  by_cases hc : c = c'
  · subst hc
    rw [if_pos rfl]
    refine ⟨?_, ?_⟩
    · intro hnone
      cases hnone
    · intro ⟨he', hmem⟩
      obtain rfl := Option.some.inj (hhead.symm.trans he')
      exact absurd rfl (hne _ (hmem he))
  · rw [if_neg hc, h.flows, hahead]
    simp [Ne.symm hc]

/-- An entry that is counted is not `DELETED`, and stays. -/
theorem LoopInv.count (h : LoopInv t s) (hahead : s.ahead = (c, e) :: rest) (he : e.state ≠ .deleted) :
    LoopInv t { s with ahead := rest, used := s.used + 1 } := by
  have hused := h.used
  rw [hahead, List.countP_cons] at hused
  refine ⟨h.rest_entries hahead, (h.rest_distinct hahead).2, ?_, ?_⟩
  · intro c' e'
    rw [h.flows, hahead]
    refine and_congr_right fun _ => ⟨fun hmem hdel => ?_, fun hmem hdel => ?_⟩
    · rcases List.mem_cons.mp (hmem hdel) with heq | hmem
      · exact absurd ((Prod.mk.inj heq).2 ▸ hdel) he
      · exact hmem
    · exact List.mem_cons_of_mem _ (hmem hdel)
  · rw [← hused]
    simp [he, UInt32.ofNat_add, UInt32.add_assoc, UInt32.add_comm 1]

/-- **A turn keeps the invariant**, also where it does nothing but read the clock. -/
theorem loopInv_turn (h : LoopInv t s) (clock : Nat → Nat) : LoopInv t (capacityTurn clock s) := by
  cases hahead : s.ahead with
  | nil =>
      rw [capacityTurn, hahead]
      exact h
  | cons p rest =>
      obtain ⟨c, e⟩ := p
      by_cases he : e.state = .deleted
      · by_cases hold : deletedEntryTimeout ≤ e.lastUpdated.getTimeElapsedMs (clock s.readings)
        · rw [capacityTurn_old hahead he hold]
          exact h.erase hahead he
        · rw [capacityTurn_young hahead he hold]
          exact ⟨h.entries, h.distinct, h.flows, h.used⟩
      · rw [capacityTurn_live hahead he]
        exact h.count hahead he

end Turn

theorem loopInv_capacityLoop (clock : Nat → Nat) (turns : Nat) (t : FlowTable) :
    LoopInv t (capacityLoop clock turns t) := by
  unfold capacityLoop
  induction turns with
  | zero => exact loopInv_start t
  | succ turns ih =>
      rw [Function.iterate_succ_apply']
      exact loopInv_turn ih clock

/-- **What is left when the loop is over**, whatever the clock did meanwhile: no `DELETED` entry
at all, and all of the others, counted. -/
theorem capacityLoop_over {clock : Nat → Nat} {turns : Nat} {t : FlowTable}
    (h : (capacityLoop clock turns t).ahead = []) :
    (capacityLoop clock turns t).flows = t.flows.filter (fun _ e => e.state ≠ .deleted) ∧
      (capacityLoop clock turns t).used = UInt32.ofNat (liveCount t.flows) := by
  have hinv := loopInv_capacityLoop clock turns t
  refine ⟨?_, ?_⟩
  · refine Std.ExtTreeMap.ext_getElem? fun c => ?_
    ext e
    rw [hinv.flows, h]
    simp [Std.ExtTreeMap.getElem?_filter, Option.filter_eq_some_iff]
  · simpa [h] using hinv.used

/-! ## When it is over -/

/-- With the clock at `now`, the loop can pass the entry. -/
def Passable (now : Nat) (e : FlowEntry) : Prop :=
  e.state = .deleted → deletedEntryTimeout ≤ e.lastUpdated.getTimeElapsedMs now

instance (now : Nat) (e : FlowEntry) : Decidable (Passable now e) :=
  inferInstanceAs (Decidable (_ → _))

theorem ahead_of_passable {now : Nat} {s : CapacityLoop} {p : UInt64 × FlowEntry}
    {rest : List (UInt64 × FlowEntry)} (hahead : s.ahead = p :: rest) (hp : Passable now p.2) :
    (capacityTurn (fun _ => now) s).ahead = rest := by
  obtain ⟨c, e⟩ := p
  by_cases he : e.state = .deleted
  · rw [@capacityTurn_old (fun _ => now) s c e rest hahead he (hp he)]
  · rw [capacityTurn_live hahead he]

/-- While time stands still, an entry that is too young holds up the loop for ever. -/
theorem ahead_of_not_passable {now : Nat} {s : CapacityLoop} {p : UInt64 × FlowEntry}
    {rest : List (UInt64 × FlowEntry)} (hahead : s.ahead = p :: rest) (hp : ¬ Passable now p.2) :
    (capacityTurn (fun _ => now) s).ahead = s.ahead := by
  obtain ⟨c, e⟩ := p
  obtain ⟨he, hyoung⟩ := Classical.not_imp.mp hp
  rw [@capacityTurn_young (fun _ => now) s c e rest hahead he hyoung]

/-- A loop that is over has passed every entry that was ahead. -/
theorem passable_of_over {now turns : Nat} {s : CapacityLoop}
    (hover : ((capacityTurn fun _ => now)^[turns] s).ahead = []) : ∀ p ∈ s.ahead, Passable now p.2 := by
  induction turns generalizing s with
  | zero =>
      intro p hp
      have hnil : s.ahead = [] := hover
      rw [hnil] at hp
      cases hp
  | succ turns ih =>
      rw [Function.iterate_succ_apply] at hover
      have hrest := ih hover
      cases hahead : s.ahead with
      | nil => exact fun p hp => absurd hp List.not_mem_nil
      | cons p rest =>
          by_cases hp : Passable now p.2
          · rw [ahead_of_passable hahead hp] at hrest
            exact List.forall_mem_cons.mpr ⟨hp, hrest⟩
          · rw [ahead_of_not_passable hahead hp, hahead] at hrest
            exact hrest

/-- With nothing in the way each turn passes an entry. -/
theorem over_of_passable {now n : Nat} {s : CapacityLoop} (hlen : s.ahead.length = n)
    (hpass : ∀ p ∈ s.ahead, Passable now p.2) :
    ∃ turns, ((capacityTurn fun _ => now)^[turns] s).ahead = [] := by
  induction n generalizing s with
  | zero => exact ⟨0, List.length_eq_zero_iff.mp hlen⟩
  | succ n ih =>
      obtain ⟨p, rest, hahead⟩ := List.exists_cons_of_length_eq_add_one hlen
      rw [hahead] at hpass hlen
      have hturn := ahead_of_passable hahead (hpass p List.mem_cons_self)
      have hrest : ∀ q ∈ (capacityTurn (fun _ => now) s).ahead, Passable now q.2 := by
        rw [hturn]
        exact fun q hq => hpass q (List.mem_cons_of_mem _ hq)
      obtain ⟨turns, hover⟩ := ih (by rw [hturn]; exact Nat.succ.inj hlen) hrest
      exact ⟨turns + 1, hover⟩

theorem iterate_over_iff (now : Nat) (s : CapacityLoop) :
    (∃ turns, ((capacityTurn fun _ => now)^[turns] s).ahead = []) ↔
      ∀ p ∈ s.ahead, Passable now p.2 :=
  ⟨fun ⟨_, hover⟩ => passable_of_over hover, over_of_passable rfl⟩

/-! ## The queries -/

/--
What the two queries are for: both end, purge the `DELETED` entries that have
reached their timeout when the query begins and no others, and report the number of
entries that are not `DELETED`, and what room the others leave.
-/
def QueriesRight (clock : Nat → Nat) (t : FlowTable) : Prop :=
  let purged := { t with flows := t.flows.filter fun _ e =>
    !(decide (e.state = .deleted) && decide (Reached (clock 0) e)) }
  (∃ turns used, getUsedCapacity clock turns t = some (used, purged) ∧
    used.toNat = liveCount t.flows) ∧
  ∃ turns available, getAvailableCapacity clock turns t = some (available, purged) ∧
    available.toNat = t.maxCapacity.toNat - liveCount t.flows

theorem getUsedCapacity_eq_some_iff {clock : Nat → Nat} {turns : Nat} {t : FlowTable}
    {r : UInt32 × FlowTable} :
    getUsedCapacity clock turns t = some r ↔ (capacityLoop clock turns t).ahead = [] ∧
      r = (UInt32.ofNat (liveCount t.flows),
        { t with flows := t.flows.filter fun _ e => e.state ≠ .deleted }) := by
  unfold getUsedCapacity
  cases hahead : (capacityLoop clock turns t).ahead with
  | nil =>
      obtain ⟨hflows, hused⟩ := capacityLoop_over hahead
      simp [hflows, hused, hahead, eq_comm]
  | cons p rest => simp [hahead]

theorem getAvailableCapacity_eq_some_iff {clock : Nat → Nat} {turns : Nat} {t : FlowTable}
    {r : UInt32 × FlowTable} :
    getAvailableCapacity clock turns t = some r ↔ (capacityLoop clock turns t).ahead = [] ∧
      r = (if t.maxCapacity > UInt32.ofNat (liveCount t.flows) then
          t.maxCapacity - UInt32.ofNat (liveCount t.flows) else 0,
        { t with flows := t.flows.filter fun _ e => e.state ≠ .deleted }) := by
  unfold getAvailableCapacity
  cases hahead : (capacityLoop clock turns t).ahead with
  | nil =>
      obtain ⟨hflows, hused⟩ := capacityLoop_over hahead
      simp [hflows, hused, hahead, eq_comm]
  | cons p rest => simp [hahead]

/-- The loop purges what it should if and only if every `DELETED` entry is of age. -/
theorem purged_eq_iff {flows : FlowMap} {now : Nat} :
    (flows.filter fun _ e => e.state ≠ .deleted) =
        (flows.filter fun _ e => !(decide (e.state = .deleted) && decide (Reached now e))) ↔
      ∀ p ∈ flows.toList, p.2.state = .deleted → Reached now p.2 := by
  refine ⟨?_, ?_⟩
  · intro heq ⟨c, e⟩ hmem hdel
    by_contra hyoung
    have hlookup := congrArg (fun m : FlowMap => m[c]?) heq
    have hthere := Std.ExtTreeMap.mem_toList_iff_getElem?_eq_some.mp hmem
    dsimp only at hdel hyoung
    simp [Std.ExtTreeMap.getElem?_filter, Option.filter, hthere, hdel, hyoung] at hlookup
  · intro hage
    refine Std.ExtTreeMap.ext_getElem? fun c => ?_
    rw [Std.ExtTreeMap.getElem?_filter', Std.ExtTreeMap.getElem?_filter']
    cases hthere : flows[c]? with
    | none => rfl
    | some e =>
        have hold := hage (c, e) (Std.ExtTreeMap.mem_toList_iff_getElem?_eq_some.mpr hthere)
        by_cases hdel : e.state = .deleted
        · simp [Option.filter, hdel, hold hdel]
        · simp [Option.filter, hdel]

theorem toNat_available {max : UInt32} {live : Nat} (h : live < 2 ^ 32) :
    (if max > UInt32.ofNat live then max - UInt32.ofNat live else 0).toNat = max.toNat - live := by
  have hlive : (UInt32.ofNat live).toNat = live := UInt32.toNat_ofNat_of_lt' h
  split
  · rename_i hlt
    rw [UInt32.toNat_sub_of_le _ _ (UInt32.le_of_lt hlt), hlive]
  · rename_i hle
    have hmax : max.toNat ≤ live := by
      rw [gt_iff_lt, UInt32.not_lt, UInt32.le_iff_toNat_le, hlive] at hle
      exact hle
    rw [Nat.sub_eq_zero_of_le hmax]
    rfl

/--
**When the queries are right.** If the clock stands at `now` during the query, they
are so exactly if no `DELETED` entry reads as younger than its timeout, and the other
entries can be counted in 32 bits. And however the clock goes on from `now`, they are
wrong if a `DELETED` entry is younger than its timeout.
-/
theorem queriesRight_iff (t : FlowTable) (now : Nat) :
    (QueriesRight (fun _ => now) t ↔
      (∀ p ∈ t.flows.toList, Passable now p.2) ∧ liveCount t.flows < 2 ^ 32) ∧
    ∀ clock : Nat → Nat, clock 0 = now → QueriesRight clock t →
      ∀ p ∈ t.flows.toList, p.2.state = .deleted → Reached now p.2 := by
  refine ⟨⟨?_, ?_⟩, ?_⟩
  · intro ⟨⟨turns, used, hresult, hlive⟩, _⟩
    obtain ⟨hover, heq⟩ := getUsedCapacity_eq_some_iff.mp hresult
    refine ⟨(iterate_over_iff now t.capacityStart).mp ⟨turns, hover⟩, ?_⟩
    rw [(Prod.mk.inj heq).1] at hlive
    rw [← hlive]
    exact UInt32.toNat_lt _
  · intro ⟨hpass, hlive⟩
    obtain ⟨turns, hover⟩ := (iterate_over_iff now t.capacityStart).mpr hpass
    have hpurged := purged_eq_iff.mpr fun p hp hdel => reached_of_elapsed (hpass p hp hdel)
    refine ⟨⟨turns, UInt32.ofNat (liveCount t.flows), ?_, UInt32.toNat_ofNat_of_lt' hlive⟩, turns,
      _, ?_, toNat_available hlive⟩
    · rw [getUsedCapacity_eq_some_iff, ← hpurged]
      exact ⟨hover, rfl⟩
    · rw [getAvailableCapacity_eq_some_iff, ← hpurged]
      exact ⟨hover, rfl⟩
  · intro clock hclock ⟨⟨turns, used, hresult, _⟩, _⟩
    obtain ⟨_, heq⟩ := getUsedCapacity_eq_some_iff.mp hresult
    have hflows := congrArg FlowTable.flows (Prod.mk.inj heq).2
    rw [hclock] at hflows
    exact purged_eq_iff.mp hflows.symm

/-- The ACL table with the one entry, deleted just now. -/
def freshTombstone : FlowTable :=
  { dellS48xxAclTable with flows := (∅ : FlowMap).insert 5 (buried 0 (dropEntry 5)) }

/-- The loop does not get past it. -/
theorem freshTombstone_holds_up :
    (∀ turns, getUsedCapacity (fun _ => 0) turns freshTombstone = none) ∧
      ¬ QueriesRight (fun _ => 0) freshTombstone := by
  have hmem : ((5 : UInt64), buried 0 (dropEntry 5)) ∈ freshTombstone.flows.toList :=
    Std.ExtTreeMap.mem_toList_iff_getElem?_eq_some.mpr Std.ExtTreeMap.getElem?_insert_self
  have hnever : ∀ turns, getUsedCapacity (fun _ => 0) turns freshTombstone = none := by
    intro turns
    by_contra hsome
    obtain ⟨r, hresult⟩ := Option.ne_none_iff_exists'.mp hsome
    have hover := (getUsedCapacity_eq_some_iff.mp hresult).1
    have hpass := (iterate_over_iff 0 freshTombstone.capacityStart).mp ⟨turns, hover⟩ _ hmem
    exact absurd (hpass rfl) (by decide)
  refine ⟨hnever, ?_⟩
  intro ⟨⟨turns, used, hresult, _⟩, _⟩
  rw [hnever turns] at hresult
  cases hresult

/-! ## Admission -/

/-- An `add_entry` of a new cookie goes by the room that the queries report, and changes nothing
where it fails. -/
def AdmitsRight (tr : Transition TableWorld TableInput) : Prop :=
  ∀ entry, tr.input = .addEntry entry →
    ∃ added, tr.source.table.addEntry entry = some (added, tr.target.table) ∧
      (added = true ↔ liveCount tr.source.table.flows < tr.source.table.maxCapacity.toNat) ∧
      (added = false → tr.target.table = tr.source.table)

/-- The table is full, but not of entries that count. -/
def Crowded (t : FlowTable) : Prop :=
  liveCount t.flows < t.maxCapacity.toNat ∧ t.maxCapacity.toNat ≤ t.flows.size

instance (t : FlowTable) : Decidable (Crowded t) := inferInstanceAs (Decidable (_ ∧ _))

/-- The step adds no entry to a table that `DELETED` entries fill up. -/
def AddsUncrowded (w : TableWorld) : TableInput → Prop
  | .addEntry _ => ¬ Crowded w.table
  | _ => True

instance (w : TableWorld) : (i : TableInput) → Decidable (AddsUncrowded w i)
  | .addEntry _ => inferInstanceAs (Decidable (¬ _))
  | .tick _ => .isTrue trivial
  | .complete .. => .isTrue trivial
  | .markEntryAsPendingDeletion _ => .isTrue trivial
  | .markAllFlowsAsPendingDelete _ => .isTrue trivial
  | .flowRemoved _ => .isTrue trivial
  | .updateEntries _ => .isTrue trivial

theorem liveCount_le_size (flows : FlowMap) : liveCount flows ≤ flows.size := by
  rw [← Std.ExtTreeMap.length_toList]
  exact List.countP_le_length

theorem step_addEntry {w w' : TableWorld} {entry : FlowEntry}
    (h : step w (.addEntry entry) = some w') :
    ∃ added, w.table.addEntry entry = some (added, w'.table) := by
  have happly := (step_eq h).1
  simp only [apply] at happly
  split at happly
  · cases happly
  · obtain ⟨⟨added, t'⟩, hadd, rfl⟩ := Option.map_eq_some_iff.mp happly
    exact ⟨added, hadd⟩

/-- One addition, by the size of the map: it goes by the room reported unless the table is
crowded. -/
theorem addEntry_admits_iff {t t' : FlowTable} {entry : FlowEntry} {added : Bool}
    (h : t.addEntry entry = some (added, t')) :
    (added = true ↔ liveCount t.flows < t.maxCapacity.toNat) ↔ ¬ Crowded t := by
  have hle := liveCount_le_size t.flows
  unfold Crowded
  obtain ⟨_, _, ⟨rfl, _, hfull⟩ | ⟨rfl, hroom, _⟩⟩ := addEntry_cases h
  · simp only [Bool.false_eq_true, false_iff]
    omega
  · simp only [true_iff]
    omega

theorem addEntry_unchanged {t t' : FlowTable} {entry : FlowEntry}
    (h : t.addEntry entry = some (false, t')) : t' = t := by
  obtain ⟨_, _, ⟨_, heq, _⟩ | ⟨hadded, _⟩⟩ := addEntry_cases h
  · exact heq
  · cases hadded

theorem admitsRight_step_iff {w w' : TableWorld} {i : TableInput} (h : step w i = some w') :
    AdmitsRight ⟨w, i, w'⟩ ↔ AddsUncrowded w i := by
  cases i with
  | addEntry entry =>
      obtain ⟨added, hadd⟩ := step_addEntry h
      refine ⟨?_, ?_⟩
      · intro hright
        obtain ⟨added', hadd', hadmits, _⟩ := hright entry rfl
        exact (addEntry_admits_iff hadd').mp hadmits
      · intro huncrowded entry' hentry
        obtain rfl := TableInput.addEntry.inj hentry
        refine ⟨added, hadd, (addEntry_admits_iff hadd).mpr huncrowded, ?_⟩
        rintro rfl
        exact addEntry_unchanged hadd
  | _ => exact ⟨fun _ => trivial, fun _ entry hentry => by cases hentry⟩

/-- **Admission goes by the reported room** in exactly the runs that never add an entry to a
table filled up by `DELETED` ones, whatever table they start from. -/
theorem admissions_right_iff {s w : TableWorld} {ts : List (Transition TableWorld TableInput)}
    (hr : Run step s ts w) :
    (∀ tr ∈ ts, AdmitsRight tr) ↔ ∀ tr ∈ ts, AddsUncrowded tr.source tr.input :=
  forall₂_congr fun _ htr => admitsRight_step_iff (hr.step_of_mem htr)

/-- A table for a single entry. -/
def oneEntryTable : FlowTable := ⟨dellS48xxAclCheckTableFit, 1, ∅⟩

/-- The second entry is turned down while the first one is there. -/
theorem admissions_right_full : ∃ ts w, Run step (boot oneEntryTable) ts w ∧
    w.table.flows[(6 : UInt64)]? = none ∧ ∀ tr ∈ ts, AdmitsRight tr := by
  obtain ⟨ts, w, hr, hcheck⟩ := Run.exists_of_test step (boot oneEntryTable)
    [.addEntry (dropEntry 5), .addEntry (dropEntry 6)]
    (fun ts w => w.table.flows[(6 : UInt64)]?.isNone &&
      decide (∀ tr ∈ ts, AddsUncrowded tr.source tr.input)) (by decide +kernel)
  rw [Bool.and_eq_true, decide_eq_true_eq, Option.isNone_iff_eq_none] at hcheck
  exact ⟨ts, w, hr, hcheck.1, (admissions_right_iff hr).mpr hcheck.2⟩

/-- The first entry is removed from the switch, and the second one still turned down. -/
theorem tombstone_takes_place : ∃ ts w, Run step (boot oneEntryTable) ts w ∧
    ¬ ∀ tr ∈ ts, AdmitsRight tr := by
  obtain ⟨ts, w, hr, hcheck⟩ := Run.exists_of_test step (boot oneEntryTable)
    [.addEntry (dropEntry 5), .markEntryAsPendingDeletion 5,
      .complete (.flowMod { command := .deleteStrict, flowDescription := dropFlow 5 }) none true,
      .addEntry (dropEntry 6)]
    (fun ts _ => decide (∃ tr ∈ ts, ¬ AddsUncrowded tr.source tr.input)) (by decide +kernel)
  refine ⟨ts, w, hr, ?_⟩
  intro hright
  obtain ⟨tr, htr, hcrowded⟩ := of_decide_eq_true hcheck
  exact hcrowded ((admitsRight_step_iff (hr.step_of_mem htr)).mp (hright tr htr))

end IronStack.Proof

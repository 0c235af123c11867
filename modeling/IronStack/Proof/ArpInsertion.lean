import IronStack.Proof.ArpTable

/-!
# What an insertion into the ARP table leaves to be looked up

A lookup has an expiry test of its own, and the test by which `insert` finds that
there is nothing to do has none: a pair that has expired is reported as inserted and
is dropped by the next lookup. The other case is that of the timeout in milliseconds,
a signed number, which for some positive timeouts is not positive, so that even a new
entry has expired.
-/

namespace IronStack.Proof

open IronStack Lib ArpTable Std

/-- Both lookups return the pair. -/
def Returned (t : ArpTable) (now : Nat) (m : MacAddress) (a : IpAddress) : Prop :=
  (t.lookupMacFor now a).1 = m ∧ (t.lookupIpFor now m).1 = a

/-- A slot is good for a lookup. -/
def Usable (t : ArpTable) (now : Nat) (i : UInt32) : Prop :=
  (t.slot i).persistent ∨ ¬ t.isStale now (t.slot i)

section Lookup

variable {t : ArpTable} {i : UInt32}

theorem isEntryUsable_of_valid (hvalid : (t.slot i).valid) (now : Nat) :
    (Usable t now i → t.isEntryUsable now i = (true, t)) ∧
      (¬ Usable t now i → (t.isEntryUsable now i).1 = false) := by
  refine ⟨fun h => ?_, fun h => ?_⟩
  · rw [isEntryUsable_eq, if_pos ⟨hvalid, h⟩]
  · rw [isEntryUsable_eq, if_neg fun hboth => h hboth.2]

theorem lookupMacFor_fst (h : ArpLinked t) {a : IpAddress} (ha : t.ipToIdxMapping[a]? = some i) (now : Nat) :
    (Usable t now i → (t.lookupMacFor now a).1 = (t.slot i).dlAddress) ∧
      (¬ Usable t now i → (t.lookupMacFor now a).1 = MacAddress.nil) := by
  obtain ⟨husable, hunusable⟩ := isEntryUsable_of_valid (h.ip a i ha).1 now
  refine ⟨fun hu => ?_, fun hu => ?_⟩
  · rw [lookupMacFor, ha]
    dsimp only
    rw [husable hu]
    rfl
  · rw [lookupMacFor, ha]
    dsimp only
    rw [hunusable hu]
    rfl

theorem lookupIpFor_fst (h : ArpLinked t) {m : MacAddress} (hm : t.macToIdxMapping[m]? = some i) (now : Nat) :
    (Usable t now i → (t.lookupIpFor now m).1 = (t.slot i).nwAddress) ∧
      (¬ Usable t now i → (t.lookupIpFor now m).1 = IpAddress.nil) := by
  obtain ⟨husable, hunusable⟩ := isEntryUsable_of_valid (h.mac m i hm).1 now
  refine ⟨fun hu => ?_, fun hu => ?_⟩
  · rw [lookupIpFor, hm]
    dsimp only
    rw [husable hu]
    rfl
  · rw [lookupIpFor, hm]
    dsimp only
    rw [hunusable hu]
    rfl

/-- A pair that is mapped to one slot is returned while the slot is good. -/
theorem returned_iff_usable (h : ArpLinked t) {m : MacAddress} {a : IpAddress}
    (hm : t.macToIdxMapping[m]? = some i) (ha : t.ipToIdxMapping[a]? = some i) (hnil : ¬ m.isNil)
    (now : Nat) :
    Returned t now m a ↔ Usable t now i := by
  refine ⟨fun hr => ?_, fun hu => ⟨?_, ?_⟩⟩
  · by_contra hu
    have hmac := hr.1
    rw [(lookupMacFor_fst h ha now).2 hu] at hmac
    rw [← hmac] at hnil
    exact hnil (by decide)
  · rw [(lookupMacFor_fst h ha now).1 hu, (h.mac m i hm).2]
  · rw [(lookupIpFor_fst h hm now).1 hu, (h.ip a i ha).2]

end Lookup

/-- The pair is taken for new and the timeout is positive in milliseconds, or it is in the table and
its slot is good. -/
def TakesHold (t : ArpTable) (now : Nat) (m : MacAddress) (a : IpAddress) : Prop :=
  if t.isMappingCorrect m a then ∀ i, t.macToIdxMapping[m]? = some i → Usable t now i
  else 0 < t.timeoutMs

theorem isMappingCorrect_iff {t : ArpTable} {m : MacAddress} {a : IpAddress} :
    t.isMappingCorrect m a ↔ ∃ i, t.macToIdxMapping[m]? = some i ∧ t.ipToIdxMapping[a]? = some i := by
  rw [isMappingCorrect]
  split
  · rename_i i j hm ha
    constructor
    · intro heq
      exact ⟨j, by rw [hm, eq_of_beq heq], ha⟩
    · rintro ⟨k, hk, hk'⟩
      rw [hm] at hk
      rw [ha] at hk'
      rw [Option.some.inj hk, Option.some.inj hk', beq_self_eq_true]
  · rename_i hnone
    refine ⟨fun h => absurd h Bool.false_ne_true, ?_⟩
    rintro ⟨i, hm, ha⟩
    exact (hnone i i hm ha).elim

/-- A new entry has the age zero. -/
theorem isStale_learned (t : ArpTable) (now : Nat) (m : MacAddress) (a : IpAddress) :
    t.isStale now (ArpEntry.learned now m a) ↔ t.timeoutMs ≤ 0 := by
  have hage : (ArpEntry.learned now m a).lastUpdated.getTimeElapsedMs now = 0 := by
    show Int.bmod ((now - now) / 1000000 : Nat) (2 ^ 32) = 0
    rw [Nat.sub_self]
    rfl
  rw [isStale, hage, decide_eq_true_iff, ge_iff_le]

/-- What the slots and the settings of a table are once an entry is in, however it got there. -/
theorem addEntry_added {t t' : ArpTable} (hcapacity : HasCapacity t) {fuel : Nat} {entry : ArpEntry}
    (hadd : t.addEntry fuel entry = some (true, t')) : ∃ i, i.toNat < t.arpMappings.length ∧
      ¬ (t.slot i).valid ∧ t' = withEntry t i entry := by
  rcases addEntry_slot hcapacity hadd with heq | ⟨i, hi, hfree, heq⟩
  · cases heq
  · exact ⟨i, hi, hfree, (Prod.ext_iff.mp heq).2⟩

theorem timeoutSec_removals (t : ArpTable) (m : MacAddress) (a : IpAddress) :
    ((t.removeMac m).removeIp a).timeoutSec = t.timeoutSec := by
  have hmac : (t.removeMac m).timeoutSec = t.timeoutSec := by
    rw [removeMac]
    split
    · rfl
    · rfl
  rw [removeIp]
  split
  · exact hmac
  · exact hmac

/-- A pair that has just been put into a slot is returned if the slot is good. -/
theorem returned_added {t t' : ArpTable} (h : ArpLinked t) (hcapacity : HasCapacity t) {fuel : Nat}
    {entry : ArpEntry} (hadd : t.addEntry fuel entry = some (true, t')) (hentry : entry.valid)
    (hnew : t.ipToIdxMapping[entry.nwAddress]? = none) (hnil : ¬ entry.dlAddress.isNil) (now : Nat) :
    Returned t' now entry.dlAddress entry.nwAddress ↔ entry.persistent ∨ ¬ t.isStale now entry := by
  obtain ⟨i, hi, hfree, rfl⟩ := addEntry_added hcapacity hadd
  rw [returned_iff_usable (h.withEntry hi hfree hentry hnew) (i := i) (by rw [mac_withEntry, if_pos rfl])
    (by rw [ip_withEntry, if_pos rfl]) hnil, Usable, slot_withEntry hi, if_pos rfl]
  rfl

/--
**In every state that a run reaches, an insertion that is reported as done is seen by both lookups
if and only if the pair takes hold in the table that it is inserted into.**
-/
theorem inserted_returned_iff {start : Nat} {t : ArpTable} {ts : List (Transition ArpTable Input)}
    (hr : Run ArpTable.step (new start) ts t) {m : MacAddress} {a : IpAddress}
    (hm : ¬ m.isNil) (ha : ¬ a.isNil) (hlast : a.octets[3] ≠ 1) {fuel now : Nat} {t' : ArpTable}
    (hinsert : t.insert fuel now m a = some (true, t')) :
    Returned t' now m a ↔ TakesHold t now m a := by
  obtain ⟨⟨hlinked, hcapacity⟩, _⟩ := hr.invariant Kept (kept_new start) fun _ _ _ hu hs => kept_step hu hs
  have hother : ¬ (a.octets.get (Fin.last 3) == 1) = true := fun heq => hlast (eq_of_beq heq)
  rw [ArpTable.insert, if_neg (by simp [hm, ha]), if_neg hother] at hinsert
  rw [TakesHold]
  split at hinsert
  · -- nothing is done, whatever the age of the slot
    rename_i hcorrect
    obtain rfl : t = t' := (Prod.ext_iff.mp (Option.some.inj hinsert)).2
    rw [if_pos hcorrect]
    obtain ⟨i, hmi, hai⟩ := isMappingCorrect_iff.mp hcorrect
    rw [returned_iff_usable hlinked hmi hai hm]
    refine ⟨fun hu j hj => ?_, fun hall => hall i hmi⟩
    rw [hmi] at hj
    exact Option.some.inj hj ▸ hu
  · rename_i hincorrect
    rw [if_neg hincorrect]
    have hsize := sameSize_removals t m a
    have hadded := returned_added ((hlinked.removeMac m).removeIp a) (hsize.hasCapacity hcapacity) hinsert rfl
      (removeIp_unmapped _ a) hm now
    have hstale := isStale_learned ((t.removeMac m).removeIp a) now m a
    have htimeout : ((t.removeMac m).removeIp a).timeoutMs = t.timeoutMs := by
      rw [timeoutMs, timeoutSec_removals, timeoutMs]
    rw [htimeout] at hstale
    refine hadded.trans ?_
    rw [hstale, Int.not_le]
    exact ⟨fun h => h.resolve_left Bool.false_ne_true, .inr⟩

/-! ## An expired station -/

/-- A timeout of one second, in a table that knows of the station. -/
def hastyTable : ArpTable := { learnedTable with timeoutSec := 1 }

def hastyRun : List (Transition ArpTable Input) :=
  [⟨new 0, .insert 1 0 stationMac stationIp, learnedTable⟩,
    ⟨learnedTable, .setTimeout (fun _ => 0) 1, hastyTable⟩]

theorem hastyRun_run : Run ArpTable.step (new 0) hastyRun hastyTable :=
  Run.cons learnedTable_step (Run.cons (by rw [step, setTimeout_eq]; rfl) .nil)

theorem hastyTable_insert (fuel now : Nat) :
    hastyTable.insert fuel now stationMac stationIp = some (true, hastyTable) := by
  have hcorrect : hastyTable.isMappingCorrect stationMac stationIp :=
    isMappingCorrect_iff.mpr ⟨1, ExtTreeMap.getElem?_insert_self, ExtTreeMap.getElem?_insert_self⟩
  rw [ArpTable.insert, if_neg (by decide), if_neg (by decide), if_pos hcorrect]

theorem hasty_iff : Returned hastyTable 1000000000 stationMac stationIp ↔
    TakesHold hastyTable 1000000000 stationMac stationIp :=
  inserted_returned_iff hastyRun_run (by decide) (by decide) (by decide) (hastyTable_insert 0 1000000000)

/-- After a second the station is inserted again, in vain. -/
theorem hasty_vanishes : ∃ ts t, Run ArpTable.step (new 0) ts t ∧ 0 < t.timeoutSec ∧ ∃ t' now,
    t.insert 0 now stationMac stationIp = some (true, t') ∧ ¬ Returned t' now stationMac stationIp := by
  refine ⟨hastyRun, hastyTable, hastyRun_run, by decide, hastyTable, 1000000000, hastyTable_insert 0 _, ?_⟩
  obtain ⟨⟨hlinked, _⟩, _⟩ := hastyRun_run.invariant Kept (kept_new 0) fun _ _ _ hu hs => kept_step hu hs
  have hslot : hastyTable.slot 1 = ArpEntry.learned 0 stationMac stationIp := by
    show ((new 0).setSlot 1 _).slot 1 = _
    rw [slot_setSlot (by rw [new, List.length_replicate]; decide), if_pos rfl]
  rw [returned_iff_usable hlinked (i := 1) ExtTreeMap.getElem?_insert_self ExtTreeMap.getElem?_insert_self
    (by decide), Usable, hslot]
  intro h
  rcases h with h | h
  · cases h
  · exact h (by rw [isStale, timeoutMs]; decide)

end IronStack.Proof

import IronStack.Lib.Machine
import IronStack.Proof.ArpLinks

/-!
# The indices of the ARP table

A slot that is dropped is dropped from both maps, under the addresses that it holds,
and an entry is only added to a free slot, under an IP address that is not mapped.
Gateways may share a MAC address, which is then mapped to the last of their slots;
the others are still found by their IP addresses. `clear` is the exception: it takes
both mappings of a slot away and leaves the slot valid.
-/

namespace IronStack.Proof

open IronStack Lib ArpTable Std

/--
Both maps lead to valid slots with the addresses mapped, and every valid slot is mapped by
its IP address.
-/
structure Indexed (t : ArpTable) : Prop where
  ip : ∀ (a : IpAddress) (i : UInt32), t.ipToIdxMapping[a]? = some i →
    (t.slot i).valid ∧ (t.slot i).nwAddress = a
  mac : ∀ (m : MacAddress) (i : UInt32), t.macToIdxMapping[m]? = some i →
    (t.slot i).valid ∧ (t.slot i).dlAddress = m
  reachable : ∀ i, (t.slot i).valid → ∃ a : IpAddress, t.ipToIdxMapping[a]? = some i

section Indexed

variable {t : ArpTable} {i : UInt32}

theorem Indexed.mapped (h : Indexed t) (hi : (t.slot i).valid) : Mapped t i := by
  obtain ⟨a, ha⟩ := h.reachable i hi
  rw [Mapped, (h.ip a i ha).2, ha]

theorem Indexed.linked (h : Indexed t) : ArpLinked t :=
  ⟨h.ip, h.mac, fun m i hm => h.mapped (h.mac m i hm).1⟩

/-- What the index adds to the links: every valid slot is mapped. -/
theorem ArpLinked.indexed (h : ArpLinked t) (hmapped : ∀ i, (t.slot i).valid → Mapped t i) : Indexed t :=
  ⟨h.ip, h.mac, fun i hi => ⟨_, hmapped i hi⟩⟩

theorem Indexed.congr {t' : ArpTable} (h : Indexed t) (hip : t'.ipToIdxMapping = t.ipToIdxMapping)
    (hmac : t'.macToIdxMapping = t.macToIdxMapping) (hslots : SameEntries t t') : Indexed t' := by
  refine (h.linked.congr hip hmac hslots).indexed fun i hi => ?_
  rw [(hslots i).1] at hi
  rw [Mapped, (hslots i).2.2, hip]
  exact h.mapped hi

theorem Indexed.drop (h : Indexed t) (hi : Mapped t i) : Indexed (dropSlot t i) := by
  have hvalid := h.linked.valid_of_mapped hi
  refine (h.linked.drop hi).indexed fun j hj => ?_
  rw [slot_drop hvalid] at hj
  split at hj
  · cases hj
  · rename_i hij
    exact mapped_drop hi hvalid (h.mapped hj) hij

theorem Indexed.of_dropsOne {t' : ArpTable} (h : Indexed t) (hd : DropsOne t t') : Indexed t' := by
  rcases hd with rfl | ⟨i, hi, rfl⟩
  · exact h
  · exact h.drop hi

theorem Indexed.removeMac (h : Indexed t) (m : MacAddress) : Indexed (t.removeMac m) :=
  h.of_dropsOne (dropsOne_removeMac h.linked m)

theorem Indexed.removeIp (h : Indexed t) (a : IpAddress) : Indexed (t.removeIp a) :=
  h.of_dropsOne (dropsOne_removeIp h.linked a)

theorem Indexed.looksUp {t' : ArpTable} (h : Indexed t) (hlookup : LooksUp t t') : Indexed t' := by
  obtain ⟨u, hu, rfl | ⟨now, i, rfl⟩⟩ := hlookup
  · exact h.of_dropsOne hu
  · exact (h.of_dropsOne hu).congr rfl rfl (sameEntries_countLookup u now i)

theorem Indexed.doGarbageCollection (h : Indexed t) (clock : MacAddress → Nat) :
    Indexed (t.doGarbageCollection clock) := by
  refine foldl_mappings _ (fun t p h hp => ⟨?_, fun m hm => collectSlot_mac t _ _ m _ hm⟩) h
  rw [collectSlot_eq h.linked _ hp]
  split
  · exact h.drop (h.linked.back _ _ hp)
  · exact h

/-- An entry goes to a free slot, and is mapped there. -/
theorem Indexed.addEntry (h : Indexed t) (hcapacity : HasCapacity t) {fuel : Nat} {entry : ArpEntry}
    (hentry : entry.valid) (hnew : t.ipToIdxMapping[entry.nwAddress]? = none) {r : Bool × ArpTable}
    (hr : t.addEntry fuel entry = some r) : Indexed r.2 := by
  rcases addEntry_slot hcapacity hr with rfl | ⟨i, hi, hfree, rfl⟩
  · exact h
  · refine (h.linked.withEntry hi hfree hentry hnew).indexed fun j hj => ?_
    rw [Mapped, slot_withEntry hi, ip_withEntry]
    rw [slot_withEntry hi] at hj
    by_cases hij : i = j
    · rw [if_pos hij, if_pos rfl, hij]
    · rw [if_neg hij] at hj
      have hmapped := h.mapped hj
      rw [if_neg hij, if_neg, hmapped]
      intro heq
      rw [Mapped, ← heq, hnew] at hmapped
      cases hmapped

theorem InsertedAs.indexed {fuel : Nat} {m : MacAddress} {r : Bool × ArpTable} (h : InsertedAs t fuel m r)
    (hindexed : Indexed t) (hcapacity : HasCapacity t) : Indexed r.2 := by
  cases h with
  | same heq =>
      rw [heq]
      exact hindexed
  | added hvalid hnew hadd => exact hindexed.addEntry hcapacity hvalid hnew hadd
  | @replaced entry hvalid hadd =>
      -- the removals leave the address of the entry without a mapping
      exact ((hindexed.removeMac m).removeIp _).addEntry
        ((sameSize_removals t m _).hasCapacity hcapacity) hvalid (removeIp_unmapped _ _) hadd

theorem Indexed.setMaxCapacity (h : Indexed t) (clock : MacAddress → Nat) (now : Nat) (max : UInt32) :
    Indexed (t.setMaxCapacity clock now max) := by
  rw [ArpTable.setMaxCapacity]
  split
  · have hsame : Indexed { t with maxCapacity := max } := h.congr rfl rfl (.refl t)
    exact hsame.doGarbageCollection clock
  · exact h.congr rfl rfl (sameEntries_append t _ now max)

end Indexed

/-! ## `clear` -/

section Clear

variable {t : ArpTable}

/-- Clearing maps nothing that was not mapped. -/
theorem clearSlots_unmapped {a : IpAddress} (h : t.ipToIdxMapping[a]? = none)
    (l : List (MacAddress × UInt32)) :
    (l.foldl (fun t p => t.clearSlot p.1 p.2) t).ipToIdxMapping[a]? = none := by
  refine List.foldlRecOn (motive := fun t' : ArpTable => t'.ipToIdxMapping[a]? = none) _ _ h
    fun t' ih p _ => ?_
  rw [clearSlot]
  split
  · rw [getElem?_erase, ih, ite_self]
  · exact ih

/-- A slot that is not persistent loses its mapping, and is still valid. -/
theorem clear_leaks {l : List (MacAddress × UInt32)} {m : MacAddress} {i : UInt32} (hmem : (m, i) ∈ l)
    (hslot : ¬ (t.slot i).persistent) :
    (l.foldl (fun t p => t.clearSlot p.1 p.2) t).ipToIdxMapping[(t.slot i).nwAddress]? = none := by
  -- the turn that finds the slot erases its mapping, and no later turn puts it back
  obtain ⟨l₁, l₂, rfl⟩ := List.append_of_mem hmem
  rw [List.foldl_append, List.foldl_cons]
  have hsame : (l₁.foldl (fun t p => t.clearSlot p.1 p.2) t).slot i = t.slot i := by
    rw [slot, (clear_slots t l₁).1, slot]
  refine clearSlots_unmapped ?_ l₂
  rw [clearSlot, hsame, if_pos (by simpa using hslot), getElem?_erase, if_pos rfl]

theorem clear_of_persistent (h : ∀ p ∈ t.macToIdxMapping.toList, (t.slot p.2).persistent) :
    t.clear = t := by
  refine List.foldlRecOn (motive := fun t' : ArpTable => t' = t) _ _ rfl fun t' ih p hp => ?_
  subst ih
  exact if_neg (by simp [h p hp])

end Clear

/-! ## Runs -/

/-- `clear` only finds persistent entries. -/
def ClearsNothing (t : ArpTable) : Input → Prop
  | .clear => ∀ (m : MacAddress) (i : UInt32), t.macToIdxMapping[m]? = some i → (t.slot i).persistent
  | _ => True

theorem indexed_new (now : Nat) : Indexed (new now) :=
  (linked_new now).indexed fun i hi => absurd hi (new_invalid now i)

/-- From an indexed table every operation leads to one, but for a `clear` that finds an entry to clear. -/
theorem indexed_step_iff {t t' : ArpTable} {input : Input} (hcapacity : HasCapacity t) (h : Indexed t)
    (hstep : t.step input = some t') : Indexed t' ↔ ClearsNothing t input := by
  cases input with
  | insert fuel now m a =>
      obtain ⟨r, hr, rfl⟩ := Option.map_eq_some_iff.mp hstep
      exact ⟨fun _ => trivial, fun _ => (insert_cases hr).indexed h hcapacity⟩
  | insertPersistent fuel now m a =>
      obtain ⟨r, hr, rfl⟩ := Option.map_eq_some_iff.mp hstep
      exact ⟨fun _ => trivial, fun _ => (insertPersistent_cases hr).indexed h hcapacity⟩
  | removeMac m =>
      cases hstep
      exact ⟨fun _ => trivial, fun _ => h.removeMac m⟩
  | removeIp a =>
      cases hstep
      exact ⟨fun _ => trivial, fun _ => h.removeIp a⟩
  | lookupMacFor now a =>
      cases hstep
      exact ⟨fun _ => trivial, fun _ => h.looksUp (looksUp_lookupMacFor h.linked now a)⟩
  | lookupIpFor now m =>
      cases hstep
      exact ⟨fun _ => trivial, fun _ => h.looksUp (looksUp_lookupIpFor h.linked now m)⟩
  | clear =>
      cases hstep
      refine ⟨fun hclear m i hm => ?_, fun hall => ?_⟩
      · -- the slot stays valid, so it would have to be mapped, but `clear` has erased that
        by_contra hslot
        have hvalid := (h.mac m i hm).1
        have hsame : t.clear.slot i = t.slot i := by rw [slot, clear, (clear_slots t _).1, slot]
        have hmapped := hclear.mapped (i := i) (by rw [hsame]; exact hvalid)
        have hmem := ExtTreeMap.mem_toList_iff_getElem?_eq_some.mpr hm
        rw [Mapped, hsame, clear, clear_leaks hmem hslot] at hmapped
        cases hmapped
      · rw [clear_of_persistent fun p hp => hall p.1 p.2 (ExtTreeMap.mem_toList_iff_getElem?_eq_some.mp hp)]
        exact h
  | clearAll =>
      cases hstep
      have hcleared : ArpLinked t.clearAll := linked_of_empty rfl rfl
      exact ⟨fun _ => trivial, fun _ => hcleared.indexed fun i hi => absurd hi (clearAll_invalid t i)⟩
  | setMaxCapacity clock now max =>
      cases hstep
      exact ⟨fun _ => trivial, fun _ => h.setMaxCapacity clock now max⟩
  | setTimeout clock timeout =>
      cases hstep
      rw [setTimeout_eq]
      exact ⟨fun _ => trivial, fun _ => h.congr rfl rfl (.refl t)⟩
  | doGarbageCollection clock =>
      cases hstep
      exact ⟨fun _ => trivial, fun _ => h.doGarbageCollection clock⟩

/--
**The maps index the valid slots in every state that a run reaches if and only if no
`clear` in it finds an entry that is not persistent.**
-/
theorem indexed_iff {now : Nat} {t : ArpTable} {ts : List (Transition ArpTable Input)}
    (hr : Run ArpTable.step (new now) ts t) :
    (∀ tr ∈ ts, Indexed tr.target) ↔ ∀ tr ∈ ts, ClearsNothing tr.source tr.input :=
  hr.forall_good_iff Kept Indexed (kept_new now) (indexed_new now)
    (fun _ _ _ hu hs => kept_step hu hs) (fun _ _ _ _ _ _ hv => hv)
    (fun _ _ _ hu hi hs => indexed_step_iff hu.hasCapacity hi hs)

/-! ## A cleared station -/

def stationMac : MacAddress := .ofOctets 2 0 0 0 0 7

def stationIp : IpAddress := .ofOctets 10 0 0 7

/-- The table once it has learned of a station. -/
def learnedTable : ArpTable :=
  { (new 0).setSlot 1 (ArpEntry.learned 0 stationMac stationIp) with
    lastSearchSlot := 1
    macToIdxMapping := (∅ : ExtTreeMap MacAddress UInt32).insert stationMac 1
    ipToIdxMapping := (∅ : ExtTreeMap IpAddress UInt32).insert stationIp 1 }

/-- The first entry goes to slot 1. -/
theorem new_addEntry (m : MacAddress) (a : IpAddress) (entry : ArpEntry) :
    (((new 0).removeMac m).removeIp a).addEntry 1 entry = some (true, withEntry (new 0) 1 entry) := by
  have hslot : ((new 0).slot 1).valid = false := by
    rw [slot, new, List.getElem?_replicate]
    rfl
  have hindex : (new 0).getFreeIndex 1 = some (some 1) := by
    have hloop : (new 0).freeIndexLoop 1 (((new 0).lastSearchSlot + 1) % (new 0).maxCapacity) = some 1 := by
      have hfirst : ((new 0).lastSearchSlot + 1) % (new 0).maxCapacity = 1 := rfl
      rw [hfirst, freeIndexLoop, hslot]
      rfl
    rw [getFreeIndex, if_neg (by decide), hloop, Option.map_some, hslot]
    rfl
  have hnew : ((new 0).removeMac m).removeIp a = new 0 := by
    rw [removeMac, new, ExtTreeMap.getElem?_empty, removeIp, ExtTreeMap.getElem?_empty]
  rw [hnew, addEntry, hindex]
  rfl

theorem learnedTable_step : (new 0).step (.insert 1 0 stationMac stationIp) = some learnedTable := by
  have hincorrect : ¬ (new 0).isMappingCorrect stationMac stationIp := by
    rw [isMappingCorrect, new, ExtTreeMap.getElem?_empty]
    exact Bool.false_ne_true
  rw [step, ArpTable.insert, if_neg (by decide), if_neg (by decide), if_neg hincorrect, new_addEntry]
  rfl

def clearingRun : List (Transition ArpTable Input) :=
  [⟨new 0, .insert 1 0 stationMac stationIp, learnedTable⟩, ⟨learnedTable, .clear, learnedTable.clear⟩]

theorem clearingRun_run : Run ArpTable.step (new 0) clearingRun learnedTable.clear :=
  Run.cons learnedTable_step (Run.cons rfl .nil)

theorem clearing_iff : (∀ tr ∈ clearingRun, Indexed tr.target) ↔
    ∀ tr ∈ clearingRun, ClearsNothing tr.source tr.input :=
  indexed_iff clearingRun_run

/-- The slot of the station is still valid, but no address leads to it. -/
theorem clear_leaks_slot : ∃ ts t, Run ArpTable.step (new 0) ts t ∧ ¬ Indexed t := by
  refine ⟨clearingRun, _, clearingRun_run, fun h => ?_⟩
  have hslot : learnedTable.slot 1 = ArpEntry.learned 0 stationMac stationIp := by
    show ((new 0).setSlot 1 _).slot 1 = _
    rw [slot_setSlot (by rw [new, List.length_replicate]; decide), if_pos rfl]
  have hclear : learnedTable.clear.slot 1 = learnedTable.slot 1 := by
    rw [slot, clear, (clear_slots learnedTable _).1, slot]
  have hmapped := h.mapped (i := 1) (by rw [hclear, hslot]; rfl)
  have hmem : (stationMac, (1 : UInt32)) ∈ learnedTable.macToIdxMapping.toList :=
    ExtTreeMap.mem_toList_iff_getElem?_eq_some.mpr ExtTreeMap.getElem?_insert_self
  rw [Mapped, hclear, clear, clear_leaks hmem (by rw [hslot]; decide)] at hmapped
  cases hmapped

end IronStack.Proof

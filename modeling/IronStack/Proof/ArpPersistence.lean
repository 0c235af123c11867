import IronStack.Proof.ArpAllocation
import IronStack.Proof.ArpInsertion

/-!
# Persistent entries of the ARP table

An entry is only safe in a slot that both of its addresses are mapped to and that is
marked persistent. `clear` and the expiry test of the lookups keep to that mark, but
garbage collection and the removals that an ordinary insertion makes do not, and an
entry of a gateway takes the mapping of its MAC address over.

Which operations spare an entry is told from the table before them.
-/

namespace IronStack.Proof

open IronStack Lib ArpTable Std

/-- Both addresses are mapped to one slot, which is persistent. -/
structure HeldAt (t : ArpTable) (m : MacAddress) (a : IpAddress) (i : UInt32) : Prop where
  mac : t.macToIdxMapping[m]? = some i
  ip : t.ipToIdxMapping[a]? = some i
  persistent : (t.slot i).persistent

def Held (t : ArpTable) (m : MacAddress) (a : IpAddress) : Prop := ∃ i, HeldAt t m a i

/-- The operations by which an entry may end: those that name one of its addresses to remove it or
to put another persistent entry in its place, and `clear_all`. -/
def EndsEntry (m : MacAddress) (a : IpAddress) : Input → Prop
  | .removeMac m' => m' = m
  | .removeIp a' => a' = a
  | .clearAll => True
  | .insertPersistent _ _ m' a' => m' = m ∨ a' = a
  | _ => False

/-- An IP address is not mapped to a slot that holds the MAC address. -/
def Elsewhere (t : ArpTable) (m : MacAddress) (a : IpAddress) : Prop :=
  ∀ k, t.ipToIdxMapping[a]? = some k → (t.slot k).dlAddress ≠ m

/-- The entry of a MAC address is younger than the timeout. -/
def Young (t : ArpTable) (now : Nat) (m : MacAddress) : Prop :=
  ∀ i, t.macToIdxMapping[m]? = some i → ¬ t.isStale now (t.slot i)

/-- The operation leaves the entry of a MAC address in place. -/
def Spares (m : MacAddress) (t : ArpTable) : Input → Prop
  | .insert _ _ m' a' => m'.isNil ∨ a'.isNil ∨
      if a'.octets.get (Fin.last 3) = 1 then t.ipToIdxMapping.contains a' ∨ m' ≠ m
      else t.isMappingCorrect m' a' ∨ m' ≠ m ∧ Elsewhere t m a'
  | .insertPersistent _ _ m' a' =>
      (m'.isNil || m'.isBroadcast || a'.isNil || a'.isBroadcast) ∨ Elsewhere t m a'
  | .removeIp a' => Elsewhere t m a'
  | .lookupMacFor now d => ∀ k, t.ipToIdxMapping[d]? = some k → Usable t now k ∨ (t.slot k).dlAddress ≠ m
  | .setMaxCapacity clock _ max => max < t.maxCapacity → Young t (clock m) m
  | .doGarbageCollection clock => Young t (clock m) m
  | _ => True

/-! ## What is returned whenever it is looked up -/

section Returned

variable {t : ArpTable} {m : MacAddress} {a : IpAddress} {i : UInt32}

/-- A timer that is read some whole milliseconds after it was started. -/
theorem elapsed_ms (last n : Nat) :
    (⟨last⟩ : Timer).getTimeElapsedMs (last + n * 1000000) = Int.bmod n (2 ^ 32) := by
  have hms : (last + n * 1000000 - last) / 1000000 = n := by
    rw [Nat.add_sub_cancel_left]
    exact Nat.mul_div_cancel n (Nat.succ_pos _)
  unfold Timer.getTimeElapsedMs
  rw [hms]

/-- Every entry reads as stale at some time. -/
theorem exists_stale (t : ArpTable) (e : ArpEntry) : ∃ now, t.isStale now e := by
  refine ⟨e.lastUpdated.last + 2147483647 * 1000000, ?_⟩
  have hlt := (t.timeoutSec.toInt32 * 1000).toInt_lt
  have hmax : Int.bmod (2147483647 : Nat) (2 ^ 32) = 2147483647 := by decide
  rw [isStale, elapsed_ms, hmax, decide_eq_true_iff, timeoutMs]
  omega

theorem returned_iff_held (h : ArpLinked t) (hm : ¬ m.isNil) (ha : ¬ a.isNil) :
    (∀ now, Returned t now m a) ↔ Held t m a := by
  refine ⟨fun hr => ?_, fun ⟨i, hheld⟩ now => ?_⟩
  · have hmapped : ∃ k, t.macToIdxMapping[m]? = some k ∧ t.ipToIdxMapping[a]? = some k := by
      cases hmk : t.macToIdxMapping[m]? with
      | none =>
          have hnil := (hr 0).2
          rw [lookupIpFor, hmk] at hnil
          rw [← hnil] at ha
          exact absurd rfl ha
      | some k =>
          -- the slot that is found by the MAC address holds the IP address
          refine ⟨k, rfl, ?_⟩
          have hback := h.back m k hmk
          by_cases hu : Usable t 0 k
          · rwa [← (lookupIpFor_fst h hmk 0).1 hu, (hr 0).2] at hback
          · have hnil := (hr 0).2
            rw [(lookupIpFor_fst h hmk 0).2 hu] at hnil
            rw [← hnil] at ha
            exact absurd rfl ha
    obtain ⟨k, hmk, hak⟩ := hmapped
    obtain ⟨now, hstale⟩ := exists_stale t (t.slot k)
    have husable := (returned_iff_usable h hmk hak hm now).mp (hr now)
    exact ⟨k, hmk, hak, husable.resolve_right fun hfresh => hfresh hstale⟩
  · exact (returned_iff_usable h hheld.mac hheld.ip hm now).mpr (.inl hheld.persistent)

end Returned

/-! ## Removals -/

section Removals

variable {t : ArpTable} {m m' : MacAddress} {a a' : IpAddress} {i j : UInt32}

/-- An entry is lost with the slots that hold its MAC address, and with no others. -/
theorem HeldAt.drop (hheld : HeldAt t m a i) (h : ArpLinked t) (hj : Mapped t j)
    (hne : (t.slot j).dlAddress ≠ m) : HeldAt (dropSlot t j) m a i := by
  have hij : j ≠ i := by
    intro heq
    rw [heq, (h.mac m i hheld.mac).2] at hne
    exact hne rfl
  have hip : (t.slot j).nwAddress ≠ a := by
    intro heq
    rw [Mapped, heq, hheld.ip] at hj
    exact hij (Option.some.inj hj).symm
  refine ⟨?_, ?_, ?_⟩
  · rw [dropSlot, getElem?_erase, if_neg hne, hheld.mac]
  · rw [dropSlot, getElem?_erase, if_neg hip, hheld.ip]
  · rw [slot_drop (h.valid_of_mapped hj), if_neg hij]
    exact hheld.persistent

theorem held_drop_iff (hheld : Held t m a) (h : ArpLinked t) (hj : Mapped t j) :
    Held (dropSlot t j) m a ↔ (t.slot j).dlAddress ≠ m := by
  obtain ⟨i, hi⟩ := hheld
  refine ⟨fun ⟨k, hk⟩ heq => ?_, fun hne => ⟨i, hi.drop h hj hne⟩⟩
  have hmac := hk.mac
  rw [dropSlot, getElem?_erase, if_pos heq] at hmac
  cases hmac

theorem held_removeMac (hheld : Held t m a) (h : ArpLinked t) (hne : m' ≠ m) :
    Held (t.removeMac m') m a := by
  cases hm : t.macToIdxMapping[m']? with
  | none => rwa [removeMac_of_none hm]
  | some j =>
      rw [removeMac_eq h hm, held_drop_iff hheld h (h.back m' j hm), (h.mac m' j hm).2]
      exact hne

theorem held_removeIp_iff (hheld : Held t m a) (h : ArpLinked t) :
    Held (t.removeIp a') m a ↔ Elsewhere t m a' := by
  cases ha : t.ipToIdxMapping[a']? with
  | none =>
      rw [removeIp_of_none ha]
      refine ⟨fun _ k hk => ?_, fun _ => hheld⟩
      rw [ha] at hk
      cases hk
  | some j =>
      rw [removeIp_eq h ha, held_drop_iff hheld h (h.mapped_of_ip ha)]
      refine ⟨fun hne k hk => ?_, fun hall => hall j ha⟩
      rw [ha] at hk
      rwa [← Option.some.inj hk]

/-- Where an address is mapped to is not changed by the removal of another MAC address, as far as
slots with the MAC address go. -/
theorem elsewhere_removeMac (h : ArpLinked t) (hne : m' ≠ m) :
    Elsewhere (t.removeMac m') m a' ↔ Elsewhere t m a' := by
  cases hm : t.macToIdxMapping[m']? with
  | none => rw [removeMac_of_none hm]
  | some j =>
      have hvalid := h.valid_of_mapped (h.back m' j hm)
      rw [removeMac_eq h hm]
      refine ⟨fun hall k hk => ?_, fun hall k hk => ?_⟩
      · by_cases hjk : j = k
        · rw [← hjk, (h.mac m' j hm).2]
          exact hne
        · have hsame := hall k
          rw [slot_drop hvalid, if_neg hjk] at hsame
          refine hsame ?_
          rw [dropSlot, getElem?_erase, if_neg, hk]
          intro heq
          have hback := h.back m' j hm
          rw [heq, hk] at hback
          exact hjk (Option.some.inj hback).symm
      · obtain ⟨hold, hjk⟩ := h.ip_drop hk
        rw [slot_drop hvalid, if_neg hjk]
        exact hall k hold

end Removals

/-! ## Additions -/

section Additions

variable {t : ArpTable} {m m' : MacAddress} {a a' : IpAddress} {fuel now : Nat} {entry : ArpEntry}
  {r : Bool × ArpTable}

theorem addEntry_eq (hcapacity : HasCapacity t) (hadd : t.addEntry fuel entry = some r) :
    ∃ i, i.toNat < t.arpMappings.length ∧ ¬ (t.slot i).valid ∧ r = (true, withEntry t i entry) := by
  obtain ⟨found, hfound, rfl⟩ := Option.map_eq_some_iff.mp hadd
  have hfree := free_of_getFreeIndex hfound
  cases found with
  | none =>
      -- the search does not come back without a slot
      rw [getFreeIndex, if_neg (UInt32.pos_iff_ne_zero.mp (capacity_pos hfree))] at hfound
      obtain ⟨j, hloop, hj⟩ := Option.map_eq_some_iff.mp hfound
      rw [if_neg (freeIndexLoop_free (UInt32.mod_lt _ (capacity_pos hfree)) hloop)] at hj
      cases hj
  | some i =>
      obtain ⟨hlt, hinvalid⟩ := getFreeIndex_eq hfound
      exact ⟨i, Nat.lt_of_lt_of_le hlt hcapacity, hinvalid, rfl⟩

theorem held_addEntry (hheld : Held t m a) (h : ArpLinked t) (hcapacity : HasCapacity t)
    (hadd : t.addEntry fuel entry = some r) (hne : entry.dlAddress ≠ m)
    (hnew : t.ipToIdxMapping[entry.nwAddress]? = none) : Held r.2 m a := by
  obtain ⟨i, hi, hfree, rfl⟩ := addEntry_eq hcapacity hadd
  obtain ⟨k, hk⟩ := hheld
  have hik : i ≠ k := fun heq => hfree (heq ▸ (h.mac m k hk.mac).1)
  have hip : entry.nwAddress ≠ a := by
    intro heq
    rw [heq, hk.ip] at hnew
    cases hnew
  refine ⟨k, ?_, ?_, ?_⟩
  · rw [mac_withEntry, if_neg hne, hk.mac]
  · rw [ip_withEntry, if_neg hip, hk.ip]
  · rw [slot_withEntry hi, if_neg hik]
    exact hk.persistent

/-- An entry that is not persistent takes the place of one that is. -/
theorem not_held_addEntry (hcapacity : HasCapacity t) (hadd : t.addEntry fuel entry = some r)
    (heq : entry.dlAddress = m) (hentry : ¬ entry.persistent) : ¬ Held r.2 m a := by
  obtain ⟨i, hi, _, rfl⟩ := addEntry_eq hcapacity hadd
  intro ⟨k, hk⟩
  have hmac := hk.mac
  rw [mac_withEntry, if_pos heq] at hmac
  have hpersistent := hk.persistent
  rw [← Option.some.inj hmac, slot_withEntry hi, if_pos rfl] at hpersistent
  exact hentry hpersistent

/-- An addition that the removal of both addresses makes room for. -/
theorem held_replaced_iff (entry : ArpEntry) (hheld : Held t m a) (h : Kept t)
    (hadd : ((t.removeMac entry.dlAddress).removeIp entry.nwAddress).addEntry fuel entry = some r)
    (hne : entry.dlAddress ≠ m) : Held r.2 m a ↔ Elsewhere t m entry.nwAddress := by
  have hlinked := h.linked.removeMac entry.dlAddress
  have hcapacity := (sameSize_removals t entry.dlAddress entry.nwAddress).hasCapacity h.hasCapacity
  have hremoved : Held ((t.removeMac entry.dlAddress).removeIp entry.nwAddress) m a ↔
      Elsewhere (t.removeMac entry.dlAddress) m entry.nwAddress :=
    held_removeIp_iff (held_removeMac hheld h.linked hne) hlinked
  rw [← elsewhere_removeMac h.linked hne, ← hremoved]
  refine ⟨fun ⟨k, hk⟩ => ?_, fun hheld' => ?_⟩
  · -- the new entry is in another slot, so the old one was still there before it
    obtain ⟨i, hi, hfree, rfl⟩ := addEntry_eq hcapacity hadd
    have hmac := hk.mac
    rw [mac_withEntry, if_neg hne] at hmac
    have hik : i ≠ k := fun heq => hfree (heq ▸ ((hlinked.removeIp _).mac m k hmac).1)
    have hip := hk.ip
    rw [ip_withEntry] at hip
    split at hip
    · exact absurd (Option.some.inj hip) hik
    · have hpersistent := hk.persistent
      rw [slot_withEntry hi, if_neg hik] at hpersistent
      exact ⟨k, hmac, hip, hpersistent⟩
  · exact held_addEntry hheld' (hlinked.removeIp _) hcapacity hadd hne (removeIp_unmapped _ _)

theorem held_insert_iff (hheld : Held t m a) (h : Kept t) (hr : t.insert fuel now m' a' = some r) :
    Held r.2 m a ↔ Spares m t (.insert fuel now m' a') := by
  rw [Spares]
  rw [ArpTable.insert] at hr
  split at hr
  · rename_i hnil
    rw [Bool.or_eq_true] at hnil
    cases hr
    exact ⟨fun _ => hnil.elim .inl fun ha => .inr (.inl ha), fun _ => hheld⟩
  · rename_i hnil
    rw [Bool.or_eq_true, not_or] at hnil
    have hrest : ∀ p : Prop, (m'.isNil ∨ a'.isNil ∨ p) ↔ p := by simp [hnil.1, hnil.2]
    rw [hrest]
    split at hr
    · -- a gateway
      rename_i hlast
      rw [if_pos (beq_iff_eq.mp hlast)]
      split at hr
      · rename_i hknown
        cases hr
        exact ⟨fun _ => .inl hknown, fun _ => hheld⟩
      · rename_i hnew
        have hnone : t.ipToIdxMapping[a']? = none := by
          rwa [ExtTreeMap.contains_eq_isSome_getElem?, Option.not_isSome_iff_eq_none] at hnew
        refine ⟨fun hheld' => .inr fun heq => ?_, fun hcases => ?_⟩
        · exact not_held_addEntry h.hasCapacity hr heq Bool.false_ne_true hheld'
        · exact held_addEntry hheld h.linked h.hasCapacity hr (hcases.resolve_left hnew) hnone
    · rename_i hlast
      rw [if_neg fun heq => hlast (beq_iff_eq.mpr heq)]
      split at hr
      · rename_i hcorrect
        cases hr
        exact ⟨fun _ => .inl hcorrect, fun _ => hheld⟩
      · rename_i hincorrect
        have hcapacity := (sameSize_removals t m' a').hasCapacity h.hasCapacity
        refine ⟨fun hheld' => .inr ?_, fun hcases => ?_⟩
        · have hne : m' ≠ m := fun heq => not_held_addEntry hcapacity hr heq Bool.false_ne_true hheld'
          exact ⟨hne, (held_replaced_iff (.learned now m' a') hheld h hr hne).mp hheld'⟩
        · obtain ⟨hne, helse⟩ := hcases.resolve_left hincorrect
          exact (held_replaced_iff (.learned now m' a') hheld h hr hne).mpr helse

theorem held_insertPersistent_iff (hheld : Held t m a) (h : Kept t) (hne : m' ≠ m)
    (hr : t.insertPersistent fuel now m' a' = some r) :
    Held r.2 m a ↔ Spares m t (.insertPersistent fuel now m' a') := by
  rw [Spares]
  rw [ArpTable.insertPersistent] at hr
  split at hr
  · rename_i hinvalid
    cases hr
    exact ⟨fun _ => .inl hinvalid, fun _ => hheld⟩
  · rename_i hvalid
    have hreplaced := held_replaced_iff
      { ArpEntry.learned now m' a' with persistent := true } hheld h hr hne
    exact ⟨fun hheld' => .inr (hreplaced.mp hheld'), fun hcases => hreplaced.mpr (hcases.resolve_left hvalid)⟩

end Additions

/-! ## Turns over the MAC addresses -/

section Turns

variable {t : ArpTable} {m : MacAddress} {a : IpAddress} {i : UInt32}

/-- A table in which the slot of a MAC address, if it has one, is the one it was in a table `s`. -/
structure Since (s : ArpTable) (m : MacAddress) (i : UInt32) (t : ArpTable) : Prop where
  linked : ArpLinked t
  timeout : t.timeoutSec = s.timeoutSec
  slot : t.macToIdxMapping[m]? = some i → t.slot i = s.slot i

theorem Since.isStale {s : ArpTable} (h : Since s m i t) (now : Nat) (e : ArpEntry) :
    t.isStale now e = s.isStale now e := by
  rw [ArpTable.isStale, ArpTable.isStale, timeoutMs, timeoutMs, h.timeout]

theorem since_turns (s : ArpTable) (m : MacAddress) (i : UInt32) (clock : MacAddress → Nat) :
    Turns (Since s m i) fun t p => t.collectSlot (clock p.1) p.1 p.2 := by
  intro t p h hp
  refine ⟨?_, fun m hm => collectSlot_mac t _ _ m _ hm⟩
  show Since s m i (t.collectSlot (clock p.1) p.1 p.2)
  rw [collectSlot_eq h.linked _ hp]
  split
  · have hmapped := h.linked.back _ _ hp
    refine ⟨h.linked.drop hmapped, h.timeout, fun hm => ?_⟩
    obtain ⟨hold, hne⟩ := h.linked.mac_drop hm
    rw [slot_drop (h.linked.valid_of_mapped hmapped), if_neg hne, h.slot hold]
  · exact h

def Unmapped (m : MacAddress) (t : ArpTable) : Prop := t.macToIdxMapping[m]? = none

/-- The turn for a stale entry takes the mapping of its MAC address away, and no turn puts one back. -/
theorem collect_stale (h : ArpLinked t) (clock : MacAddress → Nat) {p : MacAddress × UInt32}
    (hp : t.macToIdxMapping[p.1]? = some p.2) (hstale : t.isStale (clock p.1) (t.slot p.2)) :
    Unmapped p.1 (t.doGarbageCollection clock) := by
  refine foldl_mappings_turn (Q := Unmapped p.1) (since_turns t p.1 p.2 clock)
    ⟨h, rfl, fun _ => rfl⟩ hp (fun u hu hm => ?_) fun u q hu => ?_
  · rw [← hu.slot hm, ← hu.isStale] at hstale
    rw [Unmapped, collectSlot_eq hu.linked _ hm, if_pos hstale, dropSlot, (hu.linked.mac _ _ hm).2,
      getElem?_erase, if_pos rfl]
  · rw [Unmapped, collectSlot]
    dsimp only
    split
    · rw [getElem?_erase, hu, ite_self]
    · exact hu

theorem collect_young (hi : HeldAt t m a i) (h : ArpLinked t) {clock : MacAddress → Nat}
    (hyoung : Young t (clock m) m) : HeldAt (t.doGarbageCollection clock) m a i := by
  refine (foldl_mappings (fun u => Since t m i u ∧ HeldAt u m a i) (fun u p hu hp =>
    ⟨⟨(since_turns t m i clock u p hu.1 hp).1, ?_⟩, fun m hm => collectSlot_mac u _ _ m _ hm⟩)
    ⟨⟨h, rfl, fun _ => rfl⟩, hi⟩).2
  rw [collectSlot_eq hu.1.linked _ hp]
  split
  · rename_i hstale
    refine hu.2.drop hu.1.linked (hu.1.linked.back _ _ hp) ?_
    rw [(hu.1.linked.mac _ _ hp).2]
    -- the turn for the MAC address itself finds a young slot
    intro heq
    rw [heq, hu.2.mac] at hp
    rw [← Option.some.inj hp, hu.1.isStale, heq, hu.1.slot hu.2.mac] at hstale
    exact hyoung i hi.mac hstale
  · exact hu.2

theorem held_collect_iff (hheld : Held t m a) (h : ArpLinked t) (clock : MacAddress → Nat) :
    Held (t.doGarbageCollection clock) m a ↔ Young t (clock m) m := by
  obtain ⟨i, hi⟩ := hheld
  refine ⟨fun ⟨k, hk⟩ j hj hstale => ?_, fun hyoung => ⟨i, collect_young hi h hyoung⟩⟩
  have hnone := collect_stale h clock (p := (m, j)) hj hstale
  rw [Unmapped, hk.mac] at hnone
  cases hnone

theorem HeldAt.clearSlot (hheld : HeldAt t m a i) (h : ArpLinked t) {p : MacAddress × UInt32}
    (hp : t.macToIdxMapping[p.1]? = some p.2) : HeldAt (t.clearSlot p.1 p.2) m a i := by
  rw [ArpTable.clearSlot]
  split
  · rename_i hslot
    have hpi : p.2 ≠ i := by
      intro heq
      rw [heq, hheld.persistent] at hslot
      cases hslot
    have hmac : p.1 ≠ m := by
      intro heq
      rw [heq, hheld.mac] at hp
      exact hpi (Option.some.inj hp).symm
    have hip : (t.slot p.2).nwAddress ≠ a := by
      intro heq
      have hback := h.back _ _ hp
      rw [heq, hheld.ip] at hback
      exact hpi (Option.some.inj hback).symm
    refine ⟨?_, ?_, hheld.persistent⟩
    · rw [getElem?_erase, if_neg hmac, hheld.mac]
    · rw [getElem?_erase, if_neg hip, hheld.ip]
  · exact hheld

theorem held_clear (hheld : Held t m a) (h : ArpLinked t) : Held t.clear m a := by
  obtain ⟨i, hi⟩ := hheld
  refine ⟨i, (foldl_mappings (fun u => ArpLinked u ∧ HeldAt u m a i) (fun u p hu hp => ?_) ⟨h, hi⟩).2⟩
  exact ⟨⟨hu.1.clearSlot hp, hu.2.clearSlot hu.1 hp⟩, fun m hm => clearSlot_mac u _ m _ hm⟩

end Turns

/-! ## Lookups and settings -/

section Lookups

variable {t : ArpTable} {m : MacAddress} {a : IpAddress}

theorem held_countLookup_iff (t : ArpTable) (now : Nat) (k : UInt32) :
    Held (t.countLookup now k) m a ↔ Held t m a := by
  have hpersistent : ∀ i, ((t.countLookup now k).slot i).persistent = (t.slot i).persistent := by
    intro i
    rcases slot_countLookup t now k i with heq | heq
    · rw [heq]
    · rw [heq]
  refine ⟨fun ⟨i, hi⟩ => ⟨i, hi.mac, hi.ip, ?_⟩, fun ⟨i, hi⟩ => ⟨i, hi.mac, hi.ip, ?_⟩⟩
  · rw [← hpersistent]
    exact hi.persistent
  · rw [hpersistent]
    exact hi.persistent

/-- A lookup that finds a slot. -/
theorem held_isEntryUsable_iff (hheld : Held t m a) (h : ArpLinked t) {k : UInt32} (hk : Mapped t k)
    (now : Nat) : Held (t.isEntryUsable now k).2 m a ↔ Usable t now k ∨ (t.slot k).dlAddress ≠ m := by
  have hvalid := h.valid_of_mapped hk
  rw [isEntryUsable_eq]
  by_cases husable : Usable t now k
  · rw [if_pos ⟨hvalid, husable⟩]
    exact ⟨fun _ => .inl husable, fun _ => hheld⟩
  · rw [if_neg fun hboth => husable hboth.2, if_pos hvalid]
    exact (held_drop_iff hheld h hk).trans ⟨.inr, fun hcases => hcases.resolve_left husable⟩

theorem held_lookupMacFor_iff (hheld : Held t m a) (h : ArpLinked t) (now : Nat) (d : IpAddress) :
    Held (t.lookupMacFor now d).2 m a ↔ Spares m t (.lookupMacFor now d) := by
  rw [Spares]
  cases hd : t.ipToIdxMapping[d]? with
  | none =>
      rw [lookupMacFor, hd]
      exact ⟨fun _ k hk => absurd hk (Option.some_ne_none k).symm, fun _ => hheld⟩
  | some k =>
      have hiff := held_isEntryUsable_iff hheld h (h.mapped_of_ip hd) now
      have hlookup : Held (t.lookupMacFor now d).2 m a ↔ Held (t.isEntryUsable now k).2 m a := by
        rw [lookupMacFor, hd]
        dsimp only
        split
        · exact Iff.rfl
        · exact held_countLookup_iff _ now k
      refine (hlookup.trans hiff).trans ⟨fun hcases j hj => ?_, fun hall => hall k rfl⟩
      rwa [← Option.some.inj hj]

/-- The slot that the MAC address leads to is usable, and the others do not hold it. -/
theorem held_lookupIpFor (hheld : Held t m a) (h : ArpLinked t) (now : Nat) (d : MacAddress) :
    Held (t.lookupIpFor now d).2 m a := by
  rw [lookupIpFor]
  split
  · exact hheld
  · rename_i k hk
    have hstays : Held (t.isEntryUsable now k).2 m a := by
      refine (held_isEntryUsable_iff hheld h (h.back d k hk) now).mpr ?_
      by_cases hdm : d = m
      · obtain ⟨i, hi⟩ := hheld
        rw [hdm, hi.mac] at hk
        exact .inl (.inl (Option.some.inj hk ▸ hi.persistent))
      · rw [(h.mac d k hk).2]
        exact .inr hdm
    dsimp only
    split
    · exact hstays
    · exact (held_countLookup_iff _ now k).mpr hstays

theorem held_setMaxCapacity_iff (hheld : Held t m a) (h : ArpLinked t) (clock : MacAddress → Nat) (now : Nat)
    (max : UInt32) : Held (t.setMaxCapacity clock now max) m a ↔
      Spares m t (.setMaxCapacity clock now max) := by
  rw [Spares, ArpTable.setMaxCapacity]
  by_cases hlt : max < t.maxCapacity
  · rw [if_pos hlt]
    have hsame : ArpLinked { t with maxCapacity := max } := h.congr rfl rfl (.refl t)
    have hheld' : Held { t with maxCapacity := max } m a := by
      obtain ⟨i, hi⟩ := hheld
      exact ⟨i, hi.mac, hi.ip, hi.persistent⟩
    exact (held_collect_iff hheld' hsame clock).trans ⟨fun hyoung _ => hyoung, fun hyoung => hyoung hlt⟩
  · rw [if_neg hlt]
    refine ⟨fun _ hlt' => absurd hlt' hlt, fun _ => ?_⟩
    obtain ⟨i, hi⟩ := hheld
    refine ⟨i, hi.mac, hi.ip, ?_⟩
    rcases slot_append t (max - t.maxCapacity).toNat now max i with heq | ⟨hle, _⟩
    · rw [heq]
      exact hi.persistent
    · exact absurd (lt_length_of_valid (h.mac m i hi.mac).1) (Nat.not_lt.mpr hle)

end Lookups

/-! ## Runs -/

theorem held_step_iff {t t' : ArpTable} {m : MacAddress} {a : IpAddress} {input : Input} (h : Kept t)
    (hheld : Held t m a) (hends : ¬ EndsEntry m a input) (hstep : t.step input = some t') :
    Held t' m a ↔ Spares m t input := by
  cases input with
  | insert fuel now m' a' =>
      obtain ⟨r, hr, rfl⟩ := Option.map_eq_some_iff.mp hstep
      exact held_insert_iff hheld h hr
  | insertPersistent fuel now m' a' =>
      obtain ⟨r, hr, rfl⟩ := Option.map_eq_some_iff.mp hstep
      exact held_insertPersistent_iff hheld h (fun heq => hends (.inl heq)) hr
  | removeMac m' =>
      cases hstep
      exact ⟨fun _ => trivial, fun _ => held_removeMac hheld h.linked hends⟩
  | removeIp a' =>
      cases hstep
      exact held_removeIp_iff hheld h.linked
  | lookupMacFor now d =>
      cases hstep
      exact held_lookupMacFor_iff hheld h.linked now d
  | lookupIpFor now d =>
      cases hstep
      exact ⟨fun _ => trivial, fun _ => held_lookupIpFor hheld h.linked now d⟩
  | clear =>
      cases hstep
      exact ⟨fun _ => trivial, fun _ => held_clear hheld h.linked⟩
  | clearAll => exact absurd trivial hends
  | setMaxCapacity clock now max =>
      cases hstep
      exact held_setMaxCapacity_iff hheld h.linked clock now max
  | setTimeout clock timeout =>
      cases hstep
      rw [setTimeout_eq]
      obtain ⟨i, hi⟩ := hheld
      exact ⟨fun _ => trivial, fun _ => ⟨i, hi.mac, hi.ip, hi.persistent⟩⟩
  | doGarbageCollection clock =>
      cases hstep
      exact held_collect_iff hheld h.linked clock

/-- What a persistent insertion that is reported as done leaves. -/
theorem held_insertPersistent {t t' : ArpTable} (h : Kept t) {fuel now : Nat} {m : MacAddress} {a : IpAddress}
    (hinsert : t.insertPersistent fuel now m a = some (true, t')) :
    Held t' m a ∧ ¬ m.isNil ∧ ¬ a.isNil := by
  rw [ArpTable.insertPersistent] at hinsert
  split at hinsert
  · cases hinsert
  · rename_i hvalid
    simp only [Bool.or_eq_true, not_or] at hvalid
    have hcapacity := (sameSize_removals t m a).hasCapacity h.hasCapacity
    obtain ⟨i, hi, _, heq⟩ := addEntry_eq hcapacity hinsert
    cases heq
    refine ⟨⟨i, ?_, ?_, ?_⟩, hvalid.1.1.1, hvalid.1.2⟩
    · exact (mac_withEntry m).trans (if_pos rfl)
    · exact (ip_withEntry a).trans (if_pos rfl)
    · rw [slot_withEntry hi, if_pos rfl]

/--
**A persistent entry is returned by both lookups, and goes on to be so in the states of a run that
does not end it if and only if every step of the run spares it.**
-/
theorem persistent_returned_iff {start : Nat} {t₀ t₁ t : ArpTable}
    {before ts : List (Transition ArpTable Input)}
    (hbefore : Run ArpTable.step (new start) before t₀) {fuel now : Nat} {m : MacAddress} {a : IpAddress}
    (hinsert : t₀.insertPersistent fuel now m a = some (true, t₁)) (hr : Run ArpTable.step t₁ ts t)
    (hends : ∀ tr ∈ ts, ¬ EndsEntry m a tr.input) :
    (∀ later, Returned t₁ later m a) ∧ ((∀ tr ∈ ts, ∀ later, Returned tr.target later m a) ↔
      ∀ tr ∈ ts, Spares m tr.source tr.input) := by
  have hkept₀ := (hbefore.invariant Kept (kept_new start) fun _ _ _ hu hs => kept_step hu hs).1
  have hkept₁ : Kept t₁ := by
    refine @kept_step _ _ (.insertPersistent fuel now m a) hkept₀ ?_
    rw [step, hinsert]
    rfl
  obtain ⟨hheld, hm, ha⟩ := held_insertPersistent hkept₀ hinsert
  refine ⟨(returned_iff_held hkept₁.linked hm ha).mpr hheld, ?_⟩
  refine hr.forall_good_iff_within Kept (fun u => Held u m a)
    (fun _ input => ¬ EndsEntry m a input) hkept₁ hheld
    hends (fun _ _ _ hu hs => kept_step hu hs) (fun u i v hu _ _ hs hgood => ?_) fun u i v hu hp hw hs => ?_
  · exact (returned_iff_held (kept_step hu hs).linked hm ha).mp hgood
  · exact (returned_iff_held (kept_step hu hs).linked hm ha).trans (held_step_iff hu hp hw hs)

/-! ## A persistent station -/

def persistentEntry : ArpEntry := { ArpEntry.learned 0 stationMac stationIp with persistent := true }

def persistentTable : ArpTable := withEntry (new 0) 1 persistentEntry

theorem persistentTable_insert :
    (new 0).insertPersistent 1 0 stationMac stationIp = some (true, persistentTable) := by
  rw [ArpTable.insertPersistent, if_neg (by decide), new_addEntry]
  rfl

/-- Four hours later. -/
def collectingRun : List (Transition ArpTable Input) :=
  [⟨persistentTable, .doGarbageCollection fun _ => 14400 * 1000 * 1000000,
    persistentTable.doGarbageCollection fun _ => 14400 * 1000 * 1000000⟩]

theorem collectingRun_run : Run ArpTable.step persistentTable collectingRun
    (persistentTable.doGarbageCollection fun _ => 14400 * 1000 * 1000000) := Run.cons rfl .nil

theorem collectingRun_continues : ∀ tr ∈ collectingRun, ¬ EndsEntry stationMac stationIp tr.input := by
  intro tr htr
  rw [List.mem_singleton.mp htr]
  exact id

theorem collecting_iff : (∀ later, Returned persistentTable later stationMac stationIp) ∧
    ((∀ tr ∈ collectingRun, ∀ later, Returned tr.target later stationMac stationIp) ↔
      ∀ tr ∈ collectingRun, Spares stationMac tr.source tr.input) :=
  persistent_returned_iff (show Run ArpTable.step (new 0) [] (new 0) from .nil) persistentTable_insert
    collectingRun_run collectingRun_continues

/-- Garbage collection takes the entry away once it is as old as the timeout. -/
theorem collecting_evicts : ∃ t₁ ts t, (new 0).insertPersistent 1 0 stationMac stationIp = some (true, t₁) ∧
    Run ArpTable.step t₁ ts t ∧ (∀ tr ∈ ts, ¬ EndsEntry stationMac stationIp tr.input) ∧
      ¬ ∀ later, Returned t later stationMac stationIp := by
  have hkept : Kept persistentTable := by
    refine @kept_step _ _ (.insertPersistent 1 0 stationMac stationIp) (kept_new 0) ?_
    rw [step, persistentTable_insert]
    rfl
  obtain ⟨hheld, hm, ha⟩ := held_insertPersistent (kept_new 0) persistentTable_insert
  refine ⟨persistentTable, collectingRun, _, persistentTable_insert, collectingRun_run,
    collectingRun_continues, fun hreturned => ?_⟩
  have hcollected := (returned_iff_held (hkept.linked.doGarbageCollection _) hm ha).mp hreturned
  have hyoung := (held_collect_iff hheld hkept.linked _).mp hcollected 1
    ((mac_withEntry _).trans (if_pos rfl))
  refine hyoung ?_
  have hslot : persistentTable.slot 1 = persistentEntry :=
    (slot_withEntry (by rw [new, List.length_replicate]; decide) 1).trans (if_pos rfl)
  have helapsed := elapsed_ms 0 (14400 * 1000)
  rw [Nat.zero_add] at helapsed
  rw [hslot, isStale, show persistentEntry.lastUpdated = ⟨0⟩ from rfl, helapsed]
  decide

end IronStack.Proof

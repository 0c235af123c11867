import IronStack.Proof.ArpTable

/-!
# The search for a free slot of the ARP table

`get_free_index` goes round the slots below the capacity, from the one after the
last that it gave out, until it finds one that is not valid. The other way out of
its loop, at the index that is the capacity, is never taken, since the indices are
remainders of it. So the search comes to an end exactly if some slot below the
capacity is free, and `insert` with it: the count of MAC addresses, on which
`get_available_capacity` rests, has no part in that.
-/

namespace IronStack.Proof

open IronStack Lib ArpTable Std

/-- A slot below the capacity can be given out. -/
def HasFreeSlot (t : ArpTable) : Prop := ∃ i < t.maxCapacity, ¬ (t.slot i).valid

/-- What the search reports: a free slot that is there, or that every slot below the capacity is
taken. -/
def Reports (t : ArpTable) : Option UInt32 → Prop
  | some i => i < t.maxCapacity ∧ i.toNat < t.arpMappings.length ∧ ¬ (t.slot i).valid
  | none => ¬ HasFreeSlot t

/-- The allocation of slots, as the two functions that rely on it are to behave. -/
structure Allocates (t : ArpTable) : Prop where
  search : ∃ fuel found, t.getFreeIndex fuel = some found ∧ Reports t found
  insert : ∀ (now : Nat) (m : MacAddress) (a : IpAddress), ¬ m.isNil → ¬ a.isNil →
    ∃ fuel r, t.insert fuel now m a = some r ∧ (0 < t.getAvailableCapacity → r.1 = true)

/-! ## Once round the slots -/

section Search

variable {t : ArpTable}

/-- From any index below the capacity, every other one is some steps ahead. -/
theorem exists_steps {n i j : Nat} (hi : i < n) (hj : j < n) : ∃ k, (i + k) % n = j := by
  refine ⟨j + (n - i), ?_⟩
  have hsum : i + (j + (n - i)) = j + n := by omega
  rw [hsum, Nat.add_mod_right, Nat.mod_eq_of_lt hj]

/-- The next index of the round, where there is no overflow. -/
theorem toNat_next {i : UInt32} (hi : i < t.maxCapacity) :
    ((i + 1) % t.maxCapacity).toNat = (i.toNat + 1) % t.maxCapacity.toNat := by
  have hlt := UInt32.lt_iff_toNat_lt.mp hi
  have hmax := t.maxCapacity.toNat_lt
  rw [UInt32.toNat_mod, UInt32.toNat_add, UInt32.toNat_one, Nat.mod_eq_of_lt (a := i.toNat + 1) (by omega)]

theorem next_lt {i : UInt32} (hi : i < t.maxCapacity) : (i + 1) % t.maxCapacity < t.maxCapacity := by
  refine UInt32.mod_lt _ (UInt32.lt_iff_toNat_lt.mpr ?_)
  exact Nat.lt_of_le_of_lt (Nat.zero_le _) (UInt32.lt_iff_toNat_lt.mp hi)

/-- The loop only leaves a slot that is not valid: no index is the capacity. -/
theorem freeIndexLoop_free {fuel : Nat} {i j : UInt32} (hi : i < t.maxCapacity)
    (h : t.freeIndexLoop fuel i = some j) : ¬ (t.slot j).valid := by
  induction fuel generalizing i with
  | zero => cases h
  | succ fuel ih =>
      rw [freeIndexLoop] at h
      split at h
      · exact ih (next_lt hi) h
      · rename_i hexit
        cases h
        have hne : j ≠ t.maxCapacity := by
          intro heq
          rw [heq] at hi
          exact absurd hi (UInt32.lt_irrefl _)
        intro hvalid
        exact hexit (by simp [hvalid, hne])

theorem freeIndexLoop_terminates {i : UInt32} (hi : i < t.maxCapacity) {k : Nat} {j : UInt32}
    (hk : (i.toNat + k) % t.maxCapacity.toNat = j.toNat) (hj : ¬ (t.slot j).valid) :
    ∃ fuel found, t.freeIndexLoop fuel i = some found := by
  -- on the number of steps to the free slot, where the loop ends at the latest
  induction k generalizing i with
  | zero =>
      have heq : i = j := by
        rw [Nat.add_zero, Nat.mod_eq_of_lt (UInt32.lt_iff_toNat_lt.mp hi)] at hk
        exact UInt32.toNat_inj.mp hk
      refine ⟨1, i, ?_⟩
      rw [freeIndexLoop, if_neg (by simp [heq, hj])]
  | succ k ih =>
      have hnext : (((i + 1) % t.maxCapacity).toNat + k) % t.maxCapacity.toNat = j.toNat := by
        rw [toNat_next hi, Nat.mod_add_mod, Nat.add_assoc, Nat.add_comm 1 k, hk]
      obtain ⟨fuel, found, hfound⟩ := ih (next_lt hi) hnext
      by_cases hexit : (t.slot i).valid && i != t.maxCapacity
      · refine ⟨fuel + 1, found, ?_⟩
        rw [freeIndexLoop, if_pos hexit, hfound]
      · refine ⟨1, i, ?_⟩
        rw [freeIndexLoop, if_neg hexit]

theorem capacity_pos (h : HasFreeSlot t) : 0 < t.maxCapacity := by
  obtain ⟨i, hi, _⟩ := h
  exact UInt32.lt_iff_toNat_lt.mpr (Nat.lt_of_le_of_lt (Nat.zero_le _) (UInt32.lt_iff_toNat_lt.mp hi))

/-- Where a slot is free, the search finds one. -/
theorem getFreeIndex_of_free (h : HasFreeSlot t) : ∃ fuel i, t.getFreeIndex fuel = some (some i) := by
  have hpos := capacity_pos h
  obtain ⟨j, hj, hfree⟩ := h
  have hstart : (t.lastSearchSlot + 1) % t.maxCapacity < t.maxCapacity := UInt32.mod_lt _ hpos
  obtain ⟨k, hk⟩ := exists_steps (UInt32.lt_iff_toNat_lt.mp hstart) (UInt32.lt_iff_toNat_lt.mp hj)
  obtain ⟨fuel, i, hi⟩ := freeIndexLoop_terminates hstart hk hfree
  refine ⟨fuel, i, ?_⟩
  rw [getFreeIndex, if_neg (UInt32.pos_iff_ne_zero.mp hpos), hi, Option.map_some,
    if_neg (freeIndexLoop_free hstart hi)]

/-- Where none is, it divides by zero or goes round for ever. -/
theorem free_of_getFreeIndex {fuel : Nat} {found : Option UInt32} (h : t.getFreeIndex fuel = some found) :
    HasFreeSlot t := by
  rw [getFreeIndex] at h
  split at h
  · cases h
  · rename_i hcapacity
    have hstart := UInt32.mod_lt (t.lastSearchSlot + 1) (UInt32.pos_iff_ne_zero.mpr hcapacity)
    obtain ⟨j, hloop, _⟩ := Option.map_eq_some_iff.mp h
    exact ⟨j, freeIndexLoop_lt hstart hloop, freeIndexLoop_free hstart hloop⟩

end Search

/-! ## Insertion -/

section Insertion

variable {t : ArpTable}

/-- Taking slots away frees them, and no others are taken. -/
theorem invalidate_invalid (t : ArpTable) (j : UInt32) {i : UInt32} (h : ¬ (t.slot i).valid) :
    ¬ ((t.setSlot j { t.slot j with valid := false }).slot i).valid := by
  by_cases hj : j.toNat < t.arpMappings.length
  · rw [slot_setSlot hj]
    split
    · exact Bool.false_ne_true
    · exact h
  · rw [slot, setSlot, List.set_eq_of_length_le (Nat.le_of_not_lt hj)]
    exact h

theorem removals_free (h : HasFreeSlot t) (m : MacAddress) (a : IpAddress) :
    HasFreeSlot ((t.removeMac m).removeIp a) := by
  obtain ⟨i, hi, hfree⟩ := h
  refine ⟨i, by rwa [(sameSize_removals t m a).capacity], ?_⟩
  have hmac : ¬ ((t.removeMac m).slot i).valid := by
    rw [removeMac]
    split
    · exact hfree
    · exact invalidate_invalid t _ hfree
  rw [removeIp]
  split
  · exact hmac
  · exact invalidate_invalid _ _ hmac

theorem addEntry_of_free (h : HasFreeSlot t) (entry : ArpEntry) :
    ∃ fuel t', t.addEntry fuel entry = some (true, t') := by
  obtain ⟨fuel, i, hi⟩ := getFreeIndex_of_free h
  refine ⟨fuel, withEntry t i entry, ?_⟩
  rw [addEntry, hi]
  rfl

theorem insert_of_free (h : HasFreeSlot t) (now : Nat) {m : MacAddress} {a : IpAddress} (hm : ¬ m.isNil)
    (ha : ¬ a.isNil) : ∃ fuel t', t.insert fuel now m a = some (true, t') := by
  have hnil : ¬ (m.isNil || a.isNil) = true := by simp [hm, ha]
  by_cases hgateway : a.octets.get (Fin.last 3) == 1
  · by_cases hknown : t.ipToIdxMapping.contains a
    · refine ⟨0, t, ?_⟩
      rw [ArpTable.insert, if_neg hnil, if_pos hgateway, if_pos hknown]
    · obtain ⟨fuel, t', heq⟩ := addEntry_of_free h (ArpEntry.learned now m a)
      refine ⟨fuel, t', ?_⟩
      rw [ArpTable.insert, if_neg hnil, if_pos hgateway, if_neg hknown, heq]
  · by_cases hcorrect : t.isMappingCorrect m a
    · refine ⟨0, t, ?_⟩
      rw [ArpTable.insert, if_neg hnil, if_neg hgateway, if_pos hcorrect]
    · obtain ⟨fuel, t', heq⟩ := addEntry_of_free (removals_free h m a) (ArpEntry.learned now m a)
      refine ⟨fuel, t', ?_⟩
      rw [ArpTable.insert, if_neg hnil, if_neg hgateway, if_neg hcorrect, heq]

end Insertion

theorem allocates_iff_free {t : ArpTable} (h : HasCapacity t) : Allocates t ↔ HasFreeSlot t := by
  refine ⟨fun ⟨⟨fuel, found, hfound, _⟩, _⟩ => free_of_getFreeIndex hfound, fun hfree => ⟨?_, ?_⟩⟩
  · obtain ⟨fuel, i, hi⟩ := getFreeIndex_of_free hfree
    obtain ⟨hlt, hinvalid⟩ := getFreeIndex_eq hi
    exact ⟨fuel, some i, hi, hlt, Nat.lt_of_lt_of_le (UInt32.lt_iff_toNat_lt.mp hlt) h, hinvalid⟩
  · intro now m a hm ha
    obtain ⟨fuel, t', heq⟩ := insert_of_free hfree now hm ha
    exact ⟨fuel, (true, t'), heq, fun _ => rfl⟩

/--
**In every state that a run reaches the search and the insertions that rest on it come to an end as
they should if and only if some slot below the capacity is free there.**
-/
theorem allocates_iff {now : Nat} {t : ArpTable} {ts : List (Transition ArpTable Input)}
    (hr : Run ArpTable.step (new now) ts t) : (Allocates t ↔ HasFreeSlot t) ∧
      ((∀ tr ∈ ts, Allocates tr.target) ↔ ∀ tr ∈ ts, HasFreeSlot tr.target) := by
  obtain ⟨hlast, hkept⟩ := hr.invariant Kept (kept_new now) fun _ _ _ hu hs => kept_step hu hs
  refine ⟨allocates_iff_free hlast.hasCapacity, fun h tr htr => ?_, fun h tr htr => ?_⟩
  · exact (allocates_iff_free (hkept tr htr).2.hasCapacity).mp (h tr htr)
  · exact (allocates_iff_free (hkept tr htr).2.hasCapacity).mpr (h tr htr)

/-! ## A table without slots -/

/-- A new table that is told to hold nothing. -/
def shrunkTable : ArpTable := (new 0).setMaxCapacity (fun _ => 0) 0 0

def shrinkingRun : List (Transition ArpTable Input) :=
  [⟨new 0, .setMaxCapacity (fun _ => 0) 0 0, shrunkTable⟩]

theorem shrinkingRun_run : Run ArpTable.step (new 0) shrinkingRun shrunkTable := Run.cons rfl .nil

theorem shrinking_iff : (Allocates shrunkTable ↔ HasFreeSlot shrunkTable) ∧
    ((∀ tr ∈ shrinkingRun, Allocates tr.target) ↔ ∀ tr ∈ shrinkingRun, HasFreeSlot tr.target) :=
  allocates_iff shrinkingRun_run

/-- The search divides by the capacity, which is zero. -/
theorem shrunkTable_divides : ∃ ts t, Run ArpTable.step (new 0) ts t ∧ (∀ fuel, t.getFreeIndex fuel = none) ∧
    ¬ Allocates t := by
  have hzero : shrunkTable.maxCapacity = 0 := by
    rw [shrunkTable, setMaxCapacity, if_pos (by decide)]
    exact (sameSize_collect _ _).capacity
  have hnone : ∀ fuel, shrunkTable.getFreeIndex fuel = none := fun fuel => if_pos hzero
  refine ⟨shrinkingRun, _, shrinkingRun_run, hnone, ?_⟩
  rintro ⟨⟨fuel, found, hfound, _⟩, _⟩
  rw [hnone] at hfound
  cases hfound

end IronStack.Proof

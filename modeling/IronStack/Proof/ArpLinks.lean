import IronStack.Arp.ArpTable
import IronStack.Lib.OrdMap

/-!
# Slots and maps of the ARP table

What the two maps say of the slots in every table that the operations can produce:
an address is mapped to a valid slot that holds it, and the slot of a MAC address is
mapped by the IP address that it holds. It need not be the other way round. Gateways
may share a MAC address, which is then mapped to the last of their slots, and `clear`
leaves slots valid to which nothing is mapped.

Whatever an operation takes away, it takes away slot by slot, so what it may do to
an entry is told by the slots that it drops.
-/

namespace IronStack.Proof

open IronStack Lib ArpTable Std

/-- There is a slot for every index below the capacity. -/
def HasCapacity (t : ArpTable) : Prop := t.maxCapacity.toNat ≤ t.arpMappings.length

/-- As many slots, and as high a capacity. -/
structure SameSize (t t' : ArpTable) : Prop where
  capacity : t'.maxCapacity = t.maxCapacity
  length : t'.arpMappings.length = t.arpMappings.length

theorem SameSize.refl (t : ArpTable) : SameSize t t := ⟨rfl, rfl⟩

theorem SameSize.trans {t t' t'' : ArpTable} (h : SameSize t t') (h' : SameSize t' t'') :
    SameSize t t'' := ⟨h'.capacity.trans h.capacity, h'.length.trans h.length⟩

theorem SameSize.hasCapacity {t t' : ArpTable} (h : SameSize t t') (ht : HasCapacity t) :
    HasCapacity t' := by
  rw [HasCapacity, h.capacity, h.length]
  exact ht

theorem sameSize_setSlot (t : ArpTable) (i : UInt32) (e : ArpEntry) : SameSize t (t.setSlot i e) :=
  ⟨rfl, List.length_set ..⟩

/-- Both maps lead to valid slots with the addresses mapped, and from the MAC addresses on to the
IP addresses. -/
structure ArpLinked (t : ArpTable) : Prop where
  ip : ∀ (a : IpAddress) (i : UInt32), t.ipToIdxMapping[a]? = some i →
    (t.slot i).valid ∧ (t.slot i).nwAddress = a
  mac : ∀ (m : MacAddress) (i : UInt32), t.macToIdxMapping[m]? = some i →
    (t.slot i).valid ∧ (t.slot i).dlAddress = m
  back : ∀ (m : MacAddress) (i : UInt32), t.macToIdxMapping[m]? = some i →
    t.ipToIdxMapping[(t.slot i).nwAddress]? = some i

/-! ## Slots -/

section Slots

variable {t : ArpTable} {i j : UInt32} {e : ArpEntry}

theorem slot_setSlot (h : i.toNat < t.arpMappings.length) :
    (t.setSlot i e).slot j = if i = j then e else t.slot j := by
  rw [slot, setSlot, List.getElem?_set]
  by_cases hij : i = j
  · subst hij
    rw [if_pos rfl, if_pos h, if_pos rfl]
    rfl
  · rw [if_neg fun heq => hij (UInt32.toNat_inj.mp heq), if_neg hij, slot]

theorem lt_length_of_valid (h : (t.slot i).valid) : i.toNat < t.arpMappings.length := by
  by_contra hle
  rw [slot, List.getElem?_eq_none (Nat.le_of_not_lt hle)] at h
  cases h

/-- The same slots, as far as the maps are concerned: their validity and addresses. -/
def SameEntries (t t' : ArpTable) : Prop := ∀ i, (t'.slot i).valid = (t.slot i).valid ∧
  (t'.slot i).dlAddress = (t.slot i).dlAddress ∧ (t'.slot i).nwAddress = (t.slot i).nwAddress

theorem SameEntries.refl (t : ArpTable) : SameEntries t t := fun _ => ⟨rfl, rfl, rfl⟩

theorem ArpLinked.congr {t' : ArpTable} (h : ArpLinked t) (hip : t'.ipToIdxMapping = t.ipToIdxMapping)
    (hmac : t'.macToIdxMapping = t.macToIdxMapping) (hslots : SameEntries t t') : ArpLinked t' := by
  refine ⟨fun a i ha => ?_, fun m i hm => ?_, fun m i hm => ?_⟩
  · rw [(hslots i).1, (hslots i).2.2]
    exact h.ip a i (hip ▸ ha)
  · rw [(hslots i).1, (hslots i).2.1]
    exact h.mac m i (hmac ▸ hm)
  · rw [(hslots i).2.2, hip]
    exact h.back m i (hmac ▸ hm)

theorem slot_countLookup (t : ArpTable) (now : Nat) (i j : UInt32) :
    (t.countLookup now i).slot j = t.slot j ∨ (t.countLookup now i).slot j =
      { t.slot j with lookupCount := (t.slot j).lookupCount + 1, lastLookup := Timer.reset now } := by
  by_cases hi : i.toNat < t.arpMappings.length
  · rw [countLookup, slot_setSlot hi]
    split
    · rename_i hij
      rw [hij]
      exact .inr rfl
    · exact .inl rfl
  · have hsame : (t.countLookup now i).arpMappings = t.arpMappings :=
      List.set_eq_of_length_le (Nat.le_of_not_lt hi)
    rw [slot, hsame, ← slot]
    exact .inl rfl

theorem sameEntries_countLookup (t : ArpTable) (now : Nat) (i : UInt32) :
    SameEntries t (t.countLookup now i) := by
  intro j
  rcases slot_countLookup t now i j with heq | heq
  · rw [heq]
    exact ⟨rfl, rfl, rfl⟩
  · rw [heq]
    exact ⟨rfl, rfl, rfl⟩

/-- The slots of a higher capacity are empty, as those beyond the last one are. -/
theorem slot_append (t : ArpTable) (n now : Nat) (max : UInt32) (i : UInt32) :
    let t' := { t with maxCapacity := max
                       arpMappings := t.arpMappings ++ List.replicate n (ArpEntry.empty now) }
    t'.slot i = t.slot i ∨ t.arpMappings.length ≤ i.toNat ∧ t'.slot i = ArpEntry.empty now := by
  intro t'
  rw [slot, slot]
  by_cases hi : i.toNat < t.arpMappings.length
  · rw [List.getElem?_append_left hi]
    exact .inl rfl
  · rw [List.getElem?_append_right (Nat.le_of_not_lt hi),
      List.getElem?_eq_none (Nat.le_of_not_lt hi), List.getElem?_replicate]
    split
    · exact .inr ⟨Nat.le_of_not_lt hi, rfl⟩
    · exact .inl rfl

theorem sameEntries_append (t : ArpTable) (n now : Nat) (max : UInt32) :
    SameEntries t { t with maxCapacity := max
                           arpMappings := t.arpMappings ++ List.replicate n (ArpEntry.empty now) } := by
  intro i
  rcases slot_append t n now max i with heq | ⟨hle, heq⟩
  · rw [heq]
    exact ⟨rfl, rfl, rfl⟩
  · have hnone : t.slot i = {} := by rw [slot, List.getElem?_eq_none hle, Option.getD_none]
    rw [heq, hnone]
    exact ⟨rfl, rfl, rfl⟩

end Slots

/-! ## Dropping a slot -/

/-- A slot is freed, and what its addresses are mapped to is forgotten. -/
def dropSlot (t : ArpTable) (i : UInt32) : ArpTable :=
  { t.setSlot i { t.slot i with valid := false } with
    macToIdxMapping := t.macToIdxMapping.erase (t.slot i).dlAddress
    ipToIdxMapping := t.ipToIdxMapping.erase (t.slot i).nwAddress }

/-- The IP address of a slot is mapped to it. -/
def Mapped (t : ArpTable) (i : UInt32) : Prop := t.ipToIdxMapping[(t.slot i).nwAddress]? = some i

section Drop

variable {t : ArpTable} {i j : UInt32}

theorem sameSize_drop (t : ArpTable) (i : UInt32) : SameSize t (dropSlot t i) := ⟨rfl, List.length_set ..⟩

theorem slot_drop (hi : (t.slot i).valid) (j : UInt32) :
    (dropSlot t i).slot j = if i = j then { t.slot i with valid := false } else t.slot j :=
  slot_setSlot (lt_length_of_valid hi)

theorem ArpLinked.mapped_of_ip (h : ArpLinked t) {a : IpAddress} (ha : t.ipToIdxMapping[a]? = some i) :
    Mapped t i := by
  rw [Mapped, (h.ip a i ha).2, ha]

theorem ArpLinked.valid_of_mapped (h : ArpLinked t) (hi : Mapped t i) : (t.slot i).valid := (h.ip _ i hi).1

theorem mapped_inj (hi : Mapped t i) (hj : Mapped t j) (heq : (t.slot i).nwAddress = (t.slot j).nwAddress) :
    i = j := by
  rw [Mapped, heq, hj] at hi
  exact (Option.some.inj hi).symm

/-- The IP addresses that are mapped after a slot is dropped, none of them to it. -/
theorem ArpLinked.ip_drop (h : ArpLinked t) {a : IpAddress}
    (ha : (dropSlot t i).ipToIdxMapping[a]? = some j) :
    t.ipToIdxMapping[a]? = some j ∧ i ≠ j := by
  rw [dropSlot, getElem?_erase] at ha
  split at ha
  · cases ha
  · rename_i hne
    refine ⟨ha, fun hij => hne ?_⟩
    rw [hij]
    exact (h.ip a j ha).2

theorem ArpLinked.mac_drop (h : ArpLinked t) {m : MacAddress}
    (hm : (dropSlot t i).macToIdxMapping[m]? = some j) :
    t.macToIdxMapping[m]? = some j ∧ i ≠ j := by
  rw [dropSlot, getElem?_erase] at hm
  split at hm
  · cases hm
  · rename_i hne
    refine ⟨hm, fun hij => hne ?_⟩
    rw [hij]
    exact (h.mac m j hm).2

/-- Another slot that is mapped stays so. -/
theorem mapped_drop (hi : Mapped t i) (hvalid : (t.slot i).valid) (hj : Mapped t j) (hij : i ≠ j) :
    Mapped (dropSlot t i) j := by
  rw [Mapped, slot_drop hvalid, if_neg hij, dropSlot, getElem?_erase,
    if_neg fun heq => hij (mapped_inj hi hj heq), hj]

theorem ArpLinked.drop (h : ArpLinked t) (hi : Mapped t i) : ArpLinked (dropSlot t i) := by
  have hvalid := h.valid_of_mapped hi
  refine ⟨fun a j ha => ?_, fun m j hm => ?_, fun m j hm => ?_⟩
  · obtain ⟨ha', hij⟩ := h.ip_drop ha
    rw [slot_drop hvalid, if_neg hij]
    exact h.ip a j ha'
  · obtain ⟨hm', hij⟩ := h.mac_drop hm
    rw [slot_drop hvalid, if_neg hij]
    exact h.mac m j hm'
  · obtain ⟨hm', hij⟩ := h.mac_drop hm
    exact mapped_drop hi hvalid (h.back m j hm') hij

/-- An operation drops the entry of one slot, or nothing. -/
def DropsOne (t t' : ArpTable) : Prop := t' = t ∨ ∃ i, Mapped t i ∧ t' = dropSlot t i

theorem ArpLinked.of_dropsOne {t' : ArpTable} (h : ArpLinked t) (hd : DropsOne t t') : ArpLinked t' := by
  rcases hd with rfl | ⟨i, hi, rfl⟩
  · exact h
  · exact h.drop hi

theorem DropsOne.sameSize {t' : ArpTable} (h : DropsOne t t') : SameSize t t' := by
  rcases h with rfl | ⟨i, _, rfl⟩
  · exact .refl _
  · exact sameSize_drop t i

theorem removeMac_eq (h : ArpLinked t) {m : MacAddress} (hm : t.macToIdxMapping[m]? = some i) :
    t.removeMac m = dropSlot t i := by
  rw [removeMac, hm, dropSlot, (h.mac m i hm).2]

theorem removeIp_eq (h : ArpLinked t) {a : IpAddress} (ha : t.ipToIdxMapping[a]? = some i) :
    t.removeIp a = dropSlot t i := by
  rw [removeIp, ha, dropSlot, (h.ip a i ha).2]

theorem removeMac_of_none {m : MacAddress} (hm : t.macToIdxMapping[m]? = none) : t.removeMac m = t := by
  rw [removeMac, hm]

theorem removeIp_of_none {a : IpAddress} (ha : t.ipToIdxMapping[a]? = none) : t.removeIp a = t := by
  rw [removeIp, ha]

theorem dropsOne_removeMac (h : ArpLinked t) (m : MacAddress) : DropsOne t (t.removeMac m) := by
  cases hm : t.macToIdxMapping[m]? with
  | none => exact .inl (removeMac_of_none hm)
  | some i => exact .inr ⟨i, h.back m i hm, removeMac_eq h hm⟩

theorem dropsOne_removeIp (h : ArpLinked t) (a : IpAddress) : DropsOne t (t.removeIp a) := by
  cases ha : t.ipToIdxMapping[a]? with
  | none => exact .inl (removeIp_of_none ha)
  | some i => exact .inr ⟨i, h.mapped_of_ip ha, removeIp_eq h ha⟩

theorem ArpLinked.removeMac (h : ArpLinked t) (m : MacAddress) : ArpLinked (t.removeMac m) :=
  h.of_dropsOne (dropsOne_removeMac h m)

theorem ArpLinked.removeIp (h : ArpLinked t) (a : IpAddress) : ArpLinked (t.removeIp a) :=
  h.of_dropsOne (dropsOne_removeIp h a)

/-- An entry that can be used stays; one that is valid and cannot is dropped. -/
theorem isEntryUsable_eq (t : ArpTable) (now : Nat) (i : UInt32) :
    t.isEntryUsable now i =
      if (t.slot i).valid ∧ ((t.slot i).persistent ∨ ¬ t.isStale now (t.slot i)) then (true, t)
      else (false, if (t.slot i).valid then dropSlot t i else t) := by
  rw [isEntryUsable]
  dsimp only
  by_cases hvalid : (t.slot i).valid
  · by_cases hpersistent : (t.slot i).persistent
    · simp [hvalid, hpersistent]
    · by_cases hstale : t.isStale now (t.slot i)
      · rw [if_neg (by simp [hvalid]), if_neg hpersistent, if_pos hstale,
          if_neg (by simp [hpersistent, hstale]), if_pos hvalid]
        rfl
      · simp [hvalid, hpersistent, hstale]
  · simp [hvalid]

theorem dropsOne_isEntryUsable (hi : Mapped t i) (now : Nat) : DropsOne t (t.isEntryUsable now i).2 := by
  rw [isEntryUsable_eq]
  split
  · exact .inl rfl
  · dsimp only
    split
    · exact .inr ⟨i, hi, rfl⟩
    · exact .inl rfl

end Drop

/-! ## Turns over the MAC addresses -/

section Turns

variable {t : ArpTable} {i : UInt32}

theorem nodup_keys_toList (m : ExtTreeMap MacAddress UInt32) :
    m.toList.Pairwise fun p q => p.1 ≠ q.1 := by
  refine ExtTreeMap.distinct_keys_toList.imp ?_
  rintro p q hne heq
  rw [heq] at hne
  exact hne ReflCmp.compare_self

/-- A turn over the MAC addresses: what holds of a table goes on to hold, if the address is mapped
when its turn comes, and the other addresses stay mapped as they are. -/
def Turns (Inv : ArpTable → Prop) (f : ArpTable → MacAddress × UInt32 → ArpTable) : Prop :=
  ∀ t p, Inv t → t.macToIdxMapping[p.1]? = some p.2 →
    Inv (f t p) ∧ ∀ m ≠ p.1, (f t p).macToIdxMapping[m]? = t.macToIdxMapping[m]?

section Foldl

variable {Inv : ArpTable → Prop} {f : ArpTable → MacAddress × UInt32 → ArpTable}

theorem foldl_turns (hf : Turns Inv f) (h : Inv t) {l : List (MacAddress × UInt32)}
    (hl : ∀ p ∈ l, t.macToIdxMapping[p.1]? = some p.2) (hdistinct : l.Pairwise fun p q => p.1 ≠ q.1) :
    Inv (l.foldl f t) ∧
      ∀ m, (∀ p ∈ l, p.1 ≠ m) → (l.foldl f t).macToIdxMapping[m]? = t.macToIdxMapping[m]? := by
  -- on the mappings that are left to look at, each of which is still in the table
  induction l generalizing t with
  | nil => exact ⟨h, fun _ _ => rfl⟩
  | cons p l ih =>
      obtain ⟨hfirst, hrest⟩ := List.forall_mem_cons.mp hl
      obtain ⟨hne, hdistinct'⟩ := List.pairwise_cons.mp hdistinct
      obtain ⟨h', hsame⟩ := hf t p h hfirst
      rw [List.foldl_cons]
      obtain ⟨hinv, hothers⟩ := ih h' (fun q hq => by rw [hsame q.1 (hne q hq).symm, hrest q hq]) hdistinct'
      refine ⟨hinv, fun m hm => ?_⟩
      obtain ⟨hpm, hlm⟩ := List.forall_mem_cons.mp hm
      rw [hothers m hlm, hsame m hpm.symm]

theorem foldl_mappings (Inv : ArpTable → Prop) (hf : Turns Inv f) (h : Inv t) :
    Inv (t.macToIdxMapping.toList.foldl f t) :=
  (foldl_turns hf h (fun _ hp => ExtTreeMap.mem_toList_iff_getElem?_eq_some.mp hp) (nodup_keys_toList _)).1

/-- What the turn for one address brings about, and no turn undoes. -/
theorem foldl_mappings_turn {Q : ArpTable → Prop} (hf : Turns Inv f) (h : Inv t) {p : MacAddress × UInt32}
    (hp : t.macToIdxMapping[p.1]? = some p.2)
    (hturn : ∀ t, Inv t → t.macToIdxMapping[p.1]? = some p.2 → Q (f t p))
    (hkeep : ∀ t p, Q t → Q (f t p)) : Q (t.macToIdxMapping.toList.foldl f t) := by
  have hall : ∀ p ∈ t.macToIdxMapping.toList, t.macToIdxMapping[p.1]? = some p.2 :=
    fun _ hp => ExtTreeMap.mem_toList_iff_getElem?_eq_some.mp hp
  have hdistinct := nodup_keys_toList t.macToIdxMapping
  obtain ⟨l₁, l₂, heq⟩ := List.append_of_mem (ExtTreeMap.mem_toList_iff_getElem?_eq_some.mpr hp)
  rw [heq] at hall hdistinct ⊢
  obtain ⟨hdistinct₁, _, hbetween⟩ := List.pairwise_append.mp hdistinct
  obtain ⟨hinv, hothers⟩ := foldl_turns hf h (fun q hq => hall q (List.mem_append_left _ hq)) hdistinct₁
  rw [List.foldl_append, List.foldl_cons]
  refine List.foldlRecOn (motive := Q) _ _ (hturn _ hinv ?_) fun u hu q _ => hkeep u q hu
  rw [hothers p.1 fun q hq => hbetween q hq _ List.mem_cons_self, hp]

end Foldl

theorem collectSlot_eq (h : ArpLinked t) (now : Nat) {m : MacAddress}
    (hm : t.macToIdxMapping[m]? = some i) :
    t.collectSlot now m i = if t.isStale now (t.slot i) then dropSlot t i else t := by
  obtain ⟨_, rfl⟩ := h.mac m i hm
  rfl

/-- A turn over a MAC address leaves the others. -/
theorem collectSlot_mac (t : ArpTable) (now : Nat) (m m' : MacAddress) (i : UInt32) (hne : m' ≠ m) :
    (t.collectSlot now m i).macToIdxMapping[m']? = t.macToIdxMapping[m']? := by
  rw [collectSlot]
  dsimp only
  split
  · rw [getElem?_erase, if_neg (Ne.symm hne)]
  · rfl

theorem ArpLinked.doGarbageCollection (h : ArpLinked t) (clock : MacAddress → Nat) :
    ArpLinked (t.doGarbageCollection clock) := by
  refine foldl_mappings _ (fun t p h hp => ⟨?_, fun m hm => collectSlot_mac t _ _ m _ hm⟩) h
  rw [collectSlot_eq h _ hp]
  split
  · exact h.drop (h.back _ _ hp)
  · exact h

theorem sameSize_collect (t : ArpTable) (clock : MacAddress → Nat) :
    SameSize t (t.doGarbageCollection clock) := by
  refine List.foldlRecOn (motive := SameSize t) _ _ (.refl t) fun t' ih p _ => ih.trans ?_
  rw [collectSlot]
  dsimp only
  split
  · exact ⟨rfl, List.length_set ..⟩
  · exact .refl t'

theorem clearSlot_slots (t : ArpTable) (m : MacAddress) (i : UInt32) :
    (t.clearSlot m i).arpMappings = t.arpMappings ∧ (t.clearSlot m i).maxCapacity = t.maxCapacity := by
  rw [clearSlot]
  split
  · exact ⟨rfl, rfl⟩
  · exact ⟨rfl, rfl⟩

theorem clear_slots (t : ArpTable) (l : List (MacAddress × UInt32)) :
    (l.foldl (fun t p => t.clearSlot p.1 p.2) t).arpMappings = t.arpMappings ∧
      (l.foldl (fun t p => t.clearSlot p.1 p.2) t).maxCapacity = t.maxCapacity := by
  refine List.foldlRecOn (motive := fun t' : ArpTable => t'.arpMappings = t.arpMappings ∧
    t'.maxCapacity = t.maxCapacity) _ _ ⟨rfl, rfl⟩ fun t' ih p _ => ?_
  obtain ⟨hslots, hmax⟩ := clearSlot_slots t' p.1 p.2
  exact ⟨hslots.trans ih.1, hmax.trans ih.2⟩

theorem clearSlot_mac (t : ArpTable) (m m' : MacAddress) (i : UInt32) (hne : m' ≠ m) :
    (t.clearSlot m i).macToIdxMapping[m']? = t.macToIdxMapping[m']? := by
  rw [clearSlot]
  split
  · rw [getElem?_erase, if_neg (Ne.symm hne)]
  · rfl

theorem ArpLinked.clearSlot (h : ArpLinked t) {m : MacAddress} (hm : t.macToIdxMapping[m]? = some i) :
    ArpLinked (t.clearSlot m i) := by
  have hslot : ∀ j, (t.clearSlot m i).slot j = t.slot j := by
    intro j
    rw [slot, (clearSlot_slots t m i).1, slot]
  rw [ArpTable.clearSlot] at hslot ⊢
  split
  · rename_i hcleared
    rw [if_pos hcleared] at hslot
    have hip : ∀ {a : IpAddress} {j : UInt32}, (t.ipToIdxMapping.erase (t.slot i).nwAddress)[a]? = some j →
        t.ipToIdxMapping[a]? = some j := by
      intro a j ha
      rw [getElem?_erase] at ha
      split at ha
      · cases ha
      · exact ha
    have hmac : ∀ {m' : MacAddress} {j : UInt32}, (t.macToIdxMapping.erase m)[m']? = some j →
        t.macToIdxMapping[m']? = some j ∧ i ≠ j := by
      intro m' j hm'
      rw [getElem?_erase] at hm'
      split at hm'
      · cases hm'
      · rename_i hne
        refine ⟨hm', fun hij => hne ?_⟩
        rw [← (h.mac m i hm).2, hij]
        exact (h.mac m' j hm').2
    refine ⟨fun a j ha => ?_, fun m' j hm' => ?_, fun m' j hm' => ?_⟩
    · rw [hslot]
      exact h.ip a j (hip ha)
    · rw [hslot]
      exact h.mac m' j (hmac hm').1
    · obtain ⟨hold, hij⟩ := hmac hm'
      have hne : (t.slot i).nwAddress ≠ (t.slot j).nwAddress :=
        fun heq => hij (mapped_inj (h.back m i hm) (h.back m' j hold) heq)
      rw [hslot]
      show (t.ipToIdxMapping.erase (t.slot i).nwAddress)[(t.slot j).nwAddress]? = some j
      rw [getElem?_erase, if_neg hne]
      exact h.back m' j hold
  · exact h

theorem ArpLinked.clear (h : ArpLinked t) : ArpLinked t.clear :=
  foldl_mappings _ (fun t _ h hp => ⟨h.clearSlot hp, fun m hm => clearSlot_mac t _ m _ hm⟩) h

end Turns

/-! ## Adding an entry -/

section Add

variable {t : ArpTable}

theorem freeIndexLoop_lt {fuel : Nat} {i j : UInt32} (hi : i < t.maxCapacity)
    (h : t.freeIndexLoop fuel i = some j) : j < t.maxCapacity := by
  induction fuel generalizing i with
  | zero => cases h
  | succ fuel ih =>
      rw [freeIndexLoop] at h
      split at h
      · refine ih ?_ h
        refine UInt32.mod_lt _ (UInt32.pos_iff_ne_zero.mpr fun hz => ?_)
        rw [hz] at hi
        exact absurd hi (by simp)
      · cases h
        exact hi

theorem getFreeIndex_eq {fuel : Nat} {i : UInt32} (h : t.getFreeIndex fuel = some (some i)) :
    i < t.maxCapacity ∧ ¬ (t.slot i).valid := by
  rw [getFreeIndex] at h
  split at h
  · cases h
  · rename_i hcapacity
    obtain ⟨j, hloop, hj⟩ := Option.map_eq_some_iff.mp h
    split at hj
    · cases hj
    · rename_i hfree
      cases hj
      exact ⟨freeIndexLoop_lt (UInt32.mod_lt _ (UInt32.pos_iff_ne_zero.mpr hcapacity)) hloop, hfree⟩

/-- The table once an entry is in a slot. -/
def withEntry (t : ArpTable) (i : UInt32) (entry : ArpEntry) : ArpTable :=
  { t.setSlot i entry with
    lastSearchSlot := i
    macToIdxMapping := t.macToIdxMapping.insert entry.dlAddress i
    ipToIdxMapping := t.ipToIdxMapping.insert entry.nwAddress i }

/-- An entry goes to a free slot, or there is none. -/
theorem addEntry_slot (hcapacity : HasCapacity t) {fuel : Nat} {entry : ArpEntry} {r : Bool × ArpTable}
    (hr : t.addEntry fuel entry = some r) :
    r = (false, t) ∨ ∃ i, i.toNat < t.arpMappings.length ∧ ¬ (t.slot i).valid ∧
      r = (true, withEntry t i entry) := by
  obtain ⟨found, hfound, rfl⟩ := Option.map_eq_some_iff.mp hr
  cases found with
  | none => exact .inl rfl
  | some i =>
      obtain ⟨hlt, hfree⟩ := getFreeIndex_eq hfound
      exact .inr ⟨i, Nat.lt_of_lt_of_le hlt hcapacity, hfree, rfl⟩

section WithEntry

variable {i : UInt32} {entry : ArpEntry}

theorem slot_withEntry (hi : i.toNat < t.arpMappings.length) (j : UInt32) :
    (withEntry t i entry).slot j = if i = j then entry else t.slot j := slot_setSlot hi

theorem ip_withEntry (a : IpAddress) : (withEntry t i entry).ipToIdxMapping[a]? =
    if entry.nwAddress = a then some i else t.ipToIdxMapping[a]? := getElem?_insert ..

theorem mac_withEntry (m : MacAddress) : (withEntry t i entry).macToIdxMapping[m]? =
    if entry.dlAddress = m then some i else t.macToIdxMapping[m]? := getElem?_insert ..

/-- The slot is free, so no mapping led to it. -/
theorem ArpLinked.withEntry (h : ArpLinked t) (hi : i.toNat < t.arpMappings.length)
    (hfree : ¬ (t.slot i).valid) (hentry : entry.valid)
    (hnew : t.ipToIdxMapping[entry.nwAddress]? = none) : ArpLinked (withEntry t i entry) := by
  refine ⟨fun a j ha => ?_, fun m j hm => ?_, fun m j hm => ?_⟩
  · rw [ip_withEntry] at ha
    rw [slot_withEntry hi]
    split at ha
    · rename_i heq
      rw [if_pos (Option.some.inj ha)]
      exact ⟨hentry, heq⟩
    · have hold := h.ip a j ha
      rw [if_neg fun hij : i = j => hfree (hij ▸ hold.1)]
      exact hold
  · rw [mac_withEntry] at hm
    rw [slot_withEntry hi]
    split at hm
    · rename_i heq
      rw [if_pos (Option.some.inj hm)]
      exact ⟨hentry, heq⟩
    · have hold := h.mac m j hm
      rw [if_neg fun hij : i = j => hfree (hij ▸ hold.1)]
      exact hold
  · rw [mac_withEntry] at hm
    rw [slot_withEntry hi, ip_withEntry]
    split at hm
    · rw [if_pos (Option.some.inj hm), if_pos rfl, hm]
    · have hvalid := (h.mac m j hm).1
      have hback := h.back m j hm
      rw [if_neg fun hij : i = j => hfree (hij ▸ hvalid), if_neg, hback]
      intro heq
      rw [← heq, hnew] at hback
      cases hback

end WithEntry

theorem ArpLinked.addEntry (h : ArpLinked t) (hcapacity : HasCapacity t) {fuel : Nat} {entry : ArpEntry}
    (hentry : entry.valid) (hnew : t.ipToIdxMapping[entry.nwAddress]? = none) {r : Bool × ArpTable}
    (hr : t.addEntry fuel entry = some r) : ArpLinked r.2 := by
  rcases addEntry_slot hcapacity hr with rfl | ⟨i, hi, hfree, rfl⟩
  · exact h
  · exact h.withEntry hi hfree hentry hnew

theorem sameSize_addEntry {fuel : Nat} {entry : ArpEntry} {r : Bool × ArpTable}
    (hr : t.addEntry fuel entry = some r) : SameSize t r.2 := by
  obtain ⟨found, _, rfl⟩ := Option.map_eq_some_iff.mp hr
  cases found with
  | none => exact .refl t
  | some i => exact ⟨rfl, List.length_set ..⟩

theorem sameSize_removeMac (t : ArpTable) (m : MacAddress) : SameSize t (t.removeMac m) := by
  rw [removeMac]
  split
  · exact .refl t
  · exact ⟨rfl, List.length_set ..⟩

theorem sameSize_removeIp (t : ArpTable) (a : IpAddress) : SameSize t (t.removeIp a) := by
  rw [removeIp]
  split
  · exact .refl t
  · exact ⟨rfl, List.length_set ..⟩

theorem sameSize_removals (t : ArpTable) (m : MacAddress) (a : IpAddress) :
    SameSize t ((t.removeMac m).removeIp a) := (sameSize_removeMac t m).trans (sameSize_removeIp _ a)

/-- After the removals the IP address is not mapped. -/
theorem removeIp_unmapped (t : ArpTable) (a : IpAddress) : (t.removeIp a).ipToIdxMapping[a]? = none := by
  rw [removeIp]
  split
  · rename_i hnone
    exact hnone
  · rw [getElem?_erase, if_pos rfl]

/-- What an insertion comes to: nothing, an entry, or an entry for which others are removed. -/
inductive InsertedAs (t : ArpTable) (fuel : Nat) (m : MacAddress) (r : Bool × ArpTable) : Prop where
  | same (heq : r.2 = t)
  | added {entry : ArpEntry} (hvalid : entry.valid) (hnew : t.ipToIdxMapping[entry.nwAddress]? = none)
      (hadd : t.addEntry fuel entry = some r)
  | replaced {entry : ArpEntry} (hvalid : entry.valid)
      (hadd : ((t.removeMac m).removeIp entry.nwAddress).addEntry fuel entry = some r)

theorem insert_cases {fuel now : Nat} {m : MacAddress} {a : IpAddress} {r : Bool × ArpTable}
    (hr : t.insert fuel now m a = some r) : InsertedAs t fuel m r := by
  have hvalid : (ArpEntry.learned now m a).valid := rfl
  rw [ArpTable.insert] at hr
  split at hr
  · cases hr
    exact .same rfl
  · split at hr
    · split at hr
      · cases hr
        exact .same rfl
      · rename_i hnew
        refine .added hvalid ?_ hr
        rw [ExtTreeMap.contains_eq_isSome_getElem?, Option.not_isSome_iff_eq_none] at hnew
        exact hnew
    · split at hr
      · cases hr
        exact .same rfl
      · exact .replaced hvalid hr

theorem insertPersistent_cases {fuel now : Nat} {m : MacAddress} {a : IpAddress} {r : Bool × ArpTable}
    (hr : t.insertPersistent fuel now m a = some r) : InsertedAs t fuel m r := by
  rw [ArpTable.insertPersistent] at hr
  split at hr
  · cases hr
    exact .same rfl
  · have hvalid : ({ ArpEntry.learned now m a with persistent := true } : ArpEntry).valid := rfl
    exact .replaced hvalid hr

theorem InsertedAs.sameSize {fuel : Nat} {m : MacAddress} {r : Bool × ArpTable}
    (h : InsertedAs t fuel m r) : SameSize t r.2 := by
  cases h with
  | same heq =>
      rw [heq]
      exact .refl t
  | added _ _ hadd => exact sameSize_addEntry hadd
  | replaced _ hadd => exact (sameSize_removals t m _).trans (sameSize_addEntry hadd)

theorem InsertedAs.linked {fuel : Nat} {m : MacAddress} {r : Bool × ArpTable} (h : InsertedAs t fuel m r)
    (hlinked : ArpLinked t) (hcapacity : HasCapacity t) : ArpLinked r.2 := by
  cases h with
  | same heq =>
      rw [heq]
      exact hlinked
  | added hvalid hnew hadd => exact hlinked.addEntry hcapacity hvalid hnew hadd
  | @replaced entry hvalid hadd =>
      -- the removals leave the address of the entry without a mapping
      exact ((hlinked.removeMac m).removeIp _).addEntry
        ((sameSize_removals t m _).hasCapacity hcapacity) hvalid (removeIp_unmapped _ _) hadd

end Add

/-! ## Lookups and settings -/

section Settings

variable {t : ArpTable}

/-- A lookup drops a slot that it cannot use, and counts itself in one that it can. -/
def LooksUp (t t' : ArpTable) : Prop :=
  ∃ u, DropsOne t u ∧ (t' = u ∨ ∃ now i, t' = u.countLookup now i)

theorem looksUp_lookupMacFor (h : ArpLinked t) (now : Nat) (a : IpAddress) :
    LooksUp t (t.lookupMacFor now a).2 := by
  rw [lookupMacFor]
  split
  · exact ⟨t, .inl rfl, .inl rfl⟩
  · rename_i i hi
    refine ⟨(t.isEntryUsable now i).2, dropsOne_isEntryUsable (h.mapped_of_ip hi) now, ?_⟩
    dsimp only
    split
    · exact .inl rfl
    · exact .inr ⟨now, i, rfl⟩

theorem looksUp_lookupIpFor (h : ArpLinked t) (now : Nat) (m : MacAddress) :
    LooksUp t (t.lookupIpFor now m).2 := by
  rw [lookupIpFor]
  split
  · exact ⟨t, .inl rfl, .inl rfl⟩
  · rename_i i hi
    refine ⟨(t.isEntryUsable now i).2, dropsOne_isEntryUsable (h.back m i hi) now, ?_⟩
    dsimp only
    split
    · exact .inl rfl
    · exact .inr ⟨now, i, rfl⟩

theorem LooksUp.sameSize {t' : ArpTable} (h : LooksUp t t') : SameSize t t' := by
  obtain ⟨u, hu, rfl | ⟨now, i, rfl⟩⟩ := h
  · exact hu.sameSize
  · exact hu.sameSize.trans (sameSize_setSlot ..)

theorem LooksUp.linked {t' : ArpTable} (h : LooksUp t t') (hlinked : ArpLinked t) : ArpLinked t' := by
  obtain ⟨u, hu, rfl | ⟨now, i, rfl⟩⟩ := h
  · exact hlinked.of_dropsOne hu
  · exact (hlinked.of_dropsOne hu).congr rfl rfl (sameEntries_countLookup u now i)

theorem ArpLinked.setMaxCapacity (h : ArpLinked t) (clock : MacAddress → Nat) (now : Nat) (max : UInt32) :
    ArpLinked (t.setMaxCapacity clock now max) := by
  rw [ArpTable.setMaxCapacity]
  split
  · have hsame : ArpLinked { t with maxCapacity := max } := h.congr rfl rfl (.refl t)
    exact hsame.doGarbageCollection clock
  · exact h.congr rfl rfl (sameEntries_append t _ now max)

theorem hasCapacity_setMaxCapacity (h : HasCapacity t) (clock : MacAddress → Nat) (now : Nat)
    (max : UInt32) : HasCapacity (t.setMaxCapacity clock now max) := by
  rw [ArpTable.setMaxCapacity]
  split
  · rename_i hlt
    refine (sameSize_collect _ clock).hasCapacity ?_
    exact Nat.le_trans (Nat.le_of_lt (UInt32.lt_iff_toNat_lt.mp hlt)) h
  · rename_i hle
    have hle' : t.maxCapacity ≤ max := UInt32.not_lt.mp hle
    have hsub := UInt32.toNat_sub_of_le _ _ hle'
    have hnat := UInt32.le_iff_toNat_le.mp hle'
    show max.toNat ≤ (t.arpMappings ++ List.replicate (max - t.maxCapacity).toNat _).length
    rw [List.length_append, List.length_replicate, hsub]
    have hold : t.maxCapacity.toNat ≤ t.arpMappings.length := h
    omega

theorem setTimeout_eq (t : ArpTable) (clock : MacAddress → Nat) (timeout : UInt32) :
    t.setTimeout clock timeout = { t with timeoutSec := timeout } := if_pos (UInt32.le_refl _)

theorem clearAll_invalid (t : ArpTable) (i : UInt32) : ¬ (t.clearAll.slot i).valid := by
  intro hi
  rw [slot, clearAll, List.getElem?_map] at hi
  cases hat : t.arpMappings[i.toNat]? with
  | none =>
      rw [hat] at hi
      cases hi
  | some e =>
      rw [hat] at hi
      cases hi

/-- Nothing is mapped. -/
theorem linked_of_empty (hip : t.ipToIdxMapping = ∅) (hmac : t.macToIdxMapping = ∅) : ArpLinked t := by
  refine ⟨fun a i ha => ?_, fun m i hm => ?_, fun m i hm => ?_⟩
  · rw [hip, ExtTreeMap.getElem?_empty] at ha
    cases ha
  · rw [hmac, ExtTreeMap.getElem?_empty] at hm
    cases hm
  · rw [hmac, ExtTreeMap.getElem?_empty] at hm
    cases hm

end Settings

/-! ## Steps -/

theorem new_invalid (now : Nat) (i : UInt32) : ¬ ((new now).slot i).valid := by
  intro hi
  rw [slot, new, List.getElem?_replicate] at hi
  split at hi
  · cases hi
  · cases hi

theorem linked_new (now : Nat) : ArpLinked (new now) := linked_of_empty rfl rfl

theorem hasCapacity_new (now : Nat) : HasCapacity (new now) := by
  rw [HasCapacity, new, List.length_replicate]
  exact Nat.le_refl _

/-- What holds of every table that the operations produce. -/
structure Kept (t : ArpTable) : Prop where
  linked : ArpLinked t
  hasCapacity : HasCapacity t

theorem kept_new (now : Nat) : Kept (new now) := ⟨linked_new now, hasCapacity_new now⟩

theorem kept_step {t t' : ArpTable} {input : Input} (h : Kept t) (hstep : t.step input = some t') :
    Kept t' := by
  cases input with
  | insert fuel now m a =>
      obtain ⟨r, hr, rfl⟩ := Option.map_eq_some_iff.mp hstep
      have hcases := insert_cases hr
      exact ⟨hcases.linked h.linked h.hasCapacity, hcases.sameSize.hasCapacity h.hasCapacity⟩
  | insertPersistent fuel now m a =>
      obtain ⟨r, hr, rfl⟩ := Option.map_eq_some_iff.mp hstep
      have hcases := insertPersistent_cases hr
      exact ⟨hcases.linked h.linked h.hasCapacity, hcases.sameSize.hasCapacity h.hasCapacity⟩
  | removeMac m =>
      cases hstep
      exact ⟨h.linked.removeMac m, (sameSize_removeMac t m).hasCapacity h.hasCapacity⟩
  | removeIp a =>
      cases hstep
      exact ⟨h.linked.removeIp a, (sameSize_removeIp t a).hasCapacity h.hasCapacity⟩
  | lookupMacFor now a =>
      cases hstep
      have hlookup := looksUp_lookupMacFor h.linked now a
      exact ⟨hlookup.linked h.linked, hlookup.sameSize.hasCapacity h.hasCapacity⟩
  | lookupIpFor now m =>
      cases hstep
      have hlookup := looksUp_lookupIpFor h.linked now m
      exact ⟨hlookup.linked h.linked, hlookup.sameSize.hasCapacity h.hasCapacity⟩
  | clear =>
      cases hstep
      obtain ⟨hslots, hmax⟩ := clear_slots t t.macToIdxMapping.toList
      exact ⟨h.linked.clear, SameSize.hasCapacity ⟨hmax, congrArg List.length hslots⟩ h.hasCapacity⟩
  | clearAll =>
      cases hstep
      exact ⟨linked_of_empty rfl rfl, SameSize.hasCapacity (t := t) ⟨rfl, List.length_map ..⟩ h.hasCapacity⟩
  | setMaxCapacity clock now max =>
      cases hstep
      exact ⟨h.linked.setMaxCapacity clock now max, hasCapacity_setMaxCapacity h.hasCapacity clock now max⟩
  | setTimeout clock timeout =>
      cases hstep
      rw [setTimeout_eq]
      exact ⟨h.linked.congr rfl rfl (.refl t), h.hasCapacity⟩
  | doGarbageCollection clock =>
      cases hstep
      exact ⟨h.linked.doGarbageCollection clock, (sameSize_collect t clock).hasCapacity h.hasCapacity⟩

end IronStack.Proof

import IronStack.Cam.CamTable
import IronStack.Lib.Machine
import IronStack.Lib.OrdMap

/-!
# The CAM table

What a garbage collection takes away is told by two numbers, both of them signed and
of 32 bits: the timeout in milliseconds, which is not the timeout any more from
2147484 seconds on, and the count of the surplus entries. With a capacity that is
far above the number of entries the count wraps to a positive one, and every entry is
surplus; with entries that are far above the capacity it wraps to a negative one, and
none is.
-/

namespace IronStack.Proof

open IronStack Lib CamTable Std

/-- An entry has reached the timeout. -/
def Aged (t : CamTable) (now : Nat) (e : CamEntry) : Prop :=
  t.timeoutSec.toNat * 1000000000 ≤ e.lastUpdated.age now

/-- The entries that the first pass of a garbage collection leaves. -/
def freshEntries (t : CamTable) (clock : MacAddress → Nat) : CamMappings :=
  t.camMappings.filter fun a e => !t.isStale (clock a) e

/-- The count of surplus entries, once the stale ones are gone. -/
def surplus (t : CamTable) (clock : MacAddress → Nat) : Int :=
  Int.bmod (((freshEntries t clock).size : Int) - t.maxCapacity.toNat) (2 ^ 32)

section Collect

variable {t : CamTable} {clock : MacAddress → Nat} {a : MacAddress} {e : CamEntry}

theorem collected_eq (t : CamTable) (clock : MacAddress → Nat) : (t.doGarbageCollection clock).camMappings =
    ((freshEntries t clock).toList.take (surplus t clock).toNat).foldl (fun m p => m.erase p.1)
      (freshEntries t clock) := by
  have hsurplus : Int.bmod (Int.bmod ((t.camMappings.size : Int) - t.maxCapacity.toNat) (2 ^ 32) -
      ((t.camMappings.size : Int) - (freshEntries t clock).size)) (2 ^ 32) = surplus t clock := by
    rw [Int.bmod_sub_bmod, surplus]
    congr 1
    omega
  rw [← hsurplus]
  rfl

theorem getElem?_fresh : (freshEntries t clock)[a]? = some e ↔
    t.camMappings[a]? = some e ∧ ¬ t.isStale (clock a) e := by
  rw [freshEntries, ExtTreeMap.getElem?_filter', Option.filter_eq_some_iff]
  simp

theorem fresh_size_le (t : CamTable) (clock : MacAddress → Nat) :
    (freshEntries t clock).size ≤ t.camMappings.size := ExtTreeMap.size_filter_le_size

theorem distinct_toList (m : CamMappings) : m.toList.Pairwise fun p q => p.1 ≠ q.1 :=
  ExtTreeMap.distinct_keys_toList.imp fun hne heq => hne (LawfulEqOrd.compare_eq_iff_eq.mpr heq)

theorem collected_size (t : CamTable) (clock : MacAddress → Nat) : (t.doGarbageCollection clock).camMappings.size +
    min (surplus t clock).toNat (freshEntries t clock).size = (freshEntries t clock).size := by
  have hsize := size_foldl_erase ((distinct_toList (freshEntries t clock)).sublist
    (List.take_sublist (surplus t clock).toNat _)) fun p hp =>
      ExtTreeMap.mem_toList_iff_getElem?_eq_some.mp (List.mem_of_mem_take hp)
  rw [List.length_take, ExtTreeMap.length_toList] at hsize
  rw [collected_eq]
  exact hsize

/-- Without a surplus only the stale entries go. -/
theorem collected_of_le (h : surplus t clock ≤ 0) :
    (t.doGarbageCollection clock).camMappings = freshEntries t clock := by
  rw [collected_eq, Int.toNat_of_nonpos h]
  rfl

/-- With a surplus of all that is left everything goes. -/
theorem collected_of_ge (h : ((freshEntries t clock).size : Int) ≤ surplus t clock) :
    (t.doGarbageCollection clock).camMappings[a]? = none := by
  rw [collected_eq, getElem?_foldl_erase, List.take_of_length_le (by rw [ExtTreeMap.length_toList]; omega)]
  split
  · rfl
  · rename_i hmem
    cases hget : (freshEntries t clock)[a]? with
    | none => rfl
    | some e =>
        have hin := List.mem_map_of_mem (f := Prod.fst) (ExtTreeMap.mem_toList_iff_getElem?_eq_some.mpr hget)
        exact absurd hin hmem

theorem collected_subset (h : (t.doGarbageCollection clock).camMappings[a]? = some e) :
    t.camMappings[a]? = some e := by
  rw [collected_eq, getElem?_foldl_erase] at h
  split at h
  · cases h
  · exact (getElem?_fresh.mp h).1

end Collect

/-! ## What a collection may take -/

/-- Only entries that have reached the timeout are taken, unless the table is over its capacity. -/
def TakesAged (t : CamTable) (clock : MacAddress → Nat) (m : CamMappings) : Prop :=
  ∀ (a : MacAddress) (e : CamEntry), t.camMappings[a]? = some e → m[a]? = none →
    Aged t (clock a) e ∨ t.maxCapacity.toNat < t.camMappings.size

/--
The count of surplus entries is the one it stands for, or takes nothing that had not to go; and
what reads as stale has reached the timeout.
-/
structure Collectable (t : CamTable) (clock : MacAddress → Nat) : Prop where
  above : (freshEntries t clock).size < t.maxCapacity.toNat + 2 ^ 31
  stale : t.camMappings.size ≤ t.maxCapacity.toNat → ∀ (a : MacAddress) (e : CamEntry),
    t.camMappings[a]? = some e → t.isStale (clock a) e → Aged t (clock a) e
  below : t.camMappings.size ≤ t.maxCapacity.toNat →
    t.maxCapacity.toNat ≤ (freshEntries t clock).size + 2 ^ 31 ∨
      ∀ (a : MacAddress) (e : CamEntry), t.camMappings[a]? = some e → Aged t (clock a) e

section Collectable

variable {t : CamTable} {clock : MacAddress → Nat} {now : Nat}

/-- The three ranges of the count. -/
theorem surplus_cases (clock : MacAddress → Nat) (hsize : t.camMappings.size < 2 ^ 32) :
    t.maxCapacity.toNat + 2 ^ 31 ≤ (freshEntries t clock).size ∧ surplus t clock < 0 ∨
    ((freshEntries t clock).size < t.maxCapacity.toNat + 2 ^ 31 ∧
      t.maxCapacity.toNat ≤ (freshEntries t clock).size + 2 ^ 31 ∧
      surplus t clock = ((freshEntries t clock).size : Int) - t.maxCapacity.toNat) ∨
    (freshEntries t clock).size + 2 ^ 31 < t.maxCapacity.toNat ∧
      ((freshEntries t clock).size : Int) < surplus t clock := by
  have hfresh := fresh_size_le t clock
  have hcapacity := t.maxCapacity.toNat_lt
  rw [surplus, Int.bmod_def]
  split <;> omega

theorem bounded_iff (hsize : t.camMappings.size < 2 ^ 32) :
    (t.doGarbageCollection clock).camMappings.size ≤ t.maxCapacity.toNat ↔
      (freshEntries t clock).size < t.maxCapacity.toNat + 2 ^ 31 := by
  have hcollected := collected_size t clock
  rcases surplus_cases clock hsize with ⟨hover, hneg⟩ | ⟨hlt, hge, heq⟩ | ⟨hunder, hall⟩
  · omega
  · omega
  · omega

theorem takesAged_iff (hsize : t.camMappings.size < 2 ^ 32)
    (hle : t.camMappings.size ≤ t.maxCapacity.toNat) :
    TakesAged t clock (t.doGarbageCollection clock).camMappings ↔
      (∀ (a : MacAddress) (e : CamEntry), t.camMappings[a]? = some e → t.isStale (clock a) e → Aged t (clock a) e) ∧
        (t.maxCapacity.toNat ≤ (freshEntries t clock).size + 2 ^ 31 ∨
          ∀ (a : MacAddress) (e : CamEntry), t.camMappings[a]? = some e → Aged t (clock a) e) := by
  have hfresh := fresh_size_le t clock
  have hnot : ¬ t.maxCapacity.toNat < t.camMappings.size := Nat.not_lt.mpr hle
  rcases surplus_cases clock hsize with ⟨hover, _⟩ | ⟨_, hge, heq⟩ | ⟨hunder, hall⟩
  · omega
  · -- no surplus: the entries that go are the stale ones
    have hcollected := collected_of_le (show surplus t clock ≤ 0 by omega)
    refine ⟨fun h => ⟨fun a e he hstale => ?_, .inl hge⟩, fun h a e he hgone => .inl ?_⟩
    · refine (h a e he ?_).resolve_right hnot
      rw [hcollected, freshEntries, ExtTreeMap.getElem?_filter', he]
      simp [hstale]
    · refine h.1 a e he ?_
      by_contra hstays
      rw [hcollected, getElem?_fresh.mpr ⟨he, hstays⟩] at hgone
      cases hgone
  · -- everything is surplus
    have hcollected : ∀ a : MacAddress, (t.doGarbageCollection clock).camMappings[a]? = none :=
      fun a => collected_of_ge (by omega)
    refine ⟨fun h => ?_, fun h a e he _ => .inl ?_⟩
    · have haged : ∀ (a : MacAddress) (e : CamEntry), t.camMappings[a]? = some e → Aged t (clock a) e :=
        fun a e he => (h a e he (hcollected a)).resolve_right hnot
      exact ⟨fun a e he _ => haged a e he, .inr haged⟩
    · exact (h.2.resolve_left (by omega)) a e he

theorem collectable_iff (hsize : t.camMappings.size < 2 ^ 32) :
    ((t.doGarbageCollection clock).camMappings.size ≤ t.maxCapacity.toNat ∧
      TakesAged t clock (t.doGarbageCollection clock).camMappings) ↔ Collectable t clock := by
  rw [bounded_iff hsize]
  by_cases hle : t.camMappings.size ≤ t.maxCapacity.toNat
  · rw [takesAged_iff hsize hle]
    exact ⟨fun ⟨hlt, hstale, hbelow⟩ => ⟨hlt, fun _ => hstale, fun _ => hbelow⟩,
      fun h => ⟨h.above, h.stale hle, h.below hle⟩⟩
  · refine ⟨fun h => ⟨h.1, fun hle' => absurd hle' hle, fun hle' => absurd hle' hle⟩, fun h => ⟨h.above, ?_⟩⟩
    exact fun _ _ _ _ => .inr (Nat.lt_of_not_le hle)

/-- A timeout that fits in milliseconds is the timeout. -/
theorem timeoutMs_of_fits (h : t.timeoutSec.toNat * 1000 < 2 ^ 31) :
    t.timeoutMs = t.timeoutSec.toNat * 1000 := by
  have hsec : t.timeoutSec.toInt32.toInt = t.timeoutSec.toNat := by
    show t.timeoutSec.toBitVec.toInt = t.timeoutSec.toBitVec.toNat
    have hlt : t.timeoutSec.toBitVec.toNat * 1000 < 2 ^ 31 := h
    rw [BitVec.toInt_eq_toNat_of_lt (by omega)]
  rw [timeoutMs, Int32.toInt_mul, hsec, show (1000 : Int32).toInt = 1000 from rfl,
    Int.bmod_eq_of_le (by omega) (by omega)]

/-- An age is never read as more than it is. -/
theorem elapsed_le_age (timer : Timer) (now : Nat) :
    timer.getTimeElapsedMs now ≤ ((timer.age now / 1000000 : Nat) : Int) := by
  unfold Timer.getTimeElapsedMs Timer.age
  generalize (now - timer.last) / 1000000 = ms
  rw [Int.bmod_def]
  split <;> omega

theorem aged_of_isStale (h : t.timeoutSec.toNat * 1000 < 2 ^ 31) {e : CamEntry} (hvalid : e.valid)
    (hstale : t.isStale now e) : Aged t now e := by
  rw [isStale, hvalid, Bool.not_true, Bool.false_or, decide_eq_true_iff, timeoutMs_of_fits h] at hstale
  have hms : ((t.timeoutSec.toNat * 1000 : Nat) : Int) ≤ ((e.lastUpdated.age now / 1000000 : Nat) : Int) :=
    Int.le_trans (by exact_mod_cast hstale) (elapsed_le_age e.lastUpdated now)
  calc t.timeoutSec.toNat * 1000000000 = t.timeoutSec.toNat * 1000 * 1000000 := by rw [Nat.mul_assoc]
    _ ≤ e.lastUpdated.age now / 1000000 * 1000000 := Nat.mul_le_mul_right _ (Int.ofNat_le.mp hms)
    _ ≤ e.lastUpdated.age now := Nat.div_mul_le_self ..

/-- With settings that fit, every collection of a table within its capacity is as it should be. -/
theorem collectable_of_fits (htimeout : t.timeoutSec.toNat * 1000 < 2 ^ 31)
    (hcapacity : t.maxCapacity.toNat ≤ 2 ^ 31) (hvalid : ∀ (a : MacAddress) (e : CamEntry),
      t.camMappings[a]? = some e → e.valid) (hle : t.camMappings.size ≤ t.maxCapacity.toNat) :
    Collectable t clock := by
  have hfresh := fresh_size_le t clock
  refine ⟨by omega, fun _ a e he hstale => aged_of_isStale htimeout (hvalid a e he) hstale, fun _ => .inl ?_⟩
  omega

end Collectable

/-! ## Runs -/

/-- The table that an operation collects the garbage of, if it does so. -/
def collected (t : CamTable) : Input → Option (CamTable × (MacAddress → Nat))
  | .insert clock _ addr _ =>
      if ¬ t.camMappings.contains addr ∧ t.maxCapacity.toNat ≤ t.camMappings.size then some (t, clock) else none
  | .setMaxCapacity clock max =>
      if max ≤ t.maxCapacity then some ({ t with maxCapacity := max }, clock) else none
  | .setTimeout clock timeout =>
      if timeout < t.timeoutSec then some ({ t with timeoutSec := timeout }, clock) else none
  | .doGarbageCollection clock => some (t, clock)
  | _ => none

/-- An insertion of the address behind the port is reported as done. -/
def InsertsStation (a : MacAddress) (port : UInt16) (tr : Transition CamTable Input) : Prop :=
  ∃ clock now, tr.input = .insert clock now a port ∧ (tr.source.insert clock now a port).1 = true

/-- The entry of the address is removed: by name, with its port, or with the garbage. -/
def RemovesStation (a : MacAddress) (tr : Transition CamTable Input) : Prop :=
  match tr.input with
  | .remove a' => a' = a
  | .removePort port => ∃ e, tr.source.camMappings[a]? = some e ∧ e.phyPort = port
  | .clear => True
  | input => (collected tr.source input).isSome ∧ tr.target.camMappings[a]? = none

/-- The last successful insertion of the address put it behind the port, and the entry has not been
removed since. -/
def Stands (a : MacAddress) (port : UInt16) (ts : List (Transition CamTable Input)) : Prop :=
  Unrevoked (InsertsStation a port) (fun tr => (∃ port', InsertsStation a port' tr) ∨ RemovesStation a tr) ts

/-- Lookups return the port of the last successful insertion, as long as the entry stands. -/
def CamAnswers (t : CamTable) (ts : List (Transition CamTable Input)) : Prop :=
  ∀ (now : Nat) (a : MacAddress),
    (∀ port, Stands a port ts → (t.lookupPortFor now a).1 = port.toNat) ∧
      ((∀ port, ¬ Stands a port ts) → (t.lookupPortFor now a).1 = -1)

/-- A step leaves the table within its capacity, and takes no garbage that is none. -/
structure StepSound (tr : Transition CamTable Input) : Prop where
  bounded : tr.target.camMappings.size ≤ tr.target.maxCapacity.toNat
  takesAged : ∀ g clock, collected tr.source tr.input = some (g, clock) → TakesAged g clock tr.target.camMappings

/-- What a step collects is collectable. -/
def CollectsWell (t : CamTable) (input : Input) : Prop :=
  ∀ g clock, collected t input = some (g, clock) → Collectable g clock

/-- Every entry is valid. -/
def AllValid (t : CamTable) : Prop :=
  ∀ (a : MacAddress) (e : CamEntry), t.camMappings[a]? = some e → e.valid

section Steps

variable {t t' : CamTable} {clock : MacAddress → Nat} {now : Nat} {a : MacAddress} {port : UInt16}
  {input : Input}

/-- The table that a new entry goes to, if there is room for it. -/
def makeRoom (t : CamTable) (clock : MacAddress → Nat) : CamTable :=
  if t.camMappings.size ≥ t.maxCapacity.toNat then t.doGarbageCollection clock else t

theorem makeRoom_capacity (t : CamTable) (clock : MacAddress → Nat) :
    (makeRoom t clock).maxCapacity = t.maxCapacity := by
  rw [makeRoom]
  split
  · rfl
  · rfl

theorem makeRoom_subset {e : CamEntry} (h : (makeRoom t clock).camMappings[a]? = some e) :
    t.camMappings[a]? = some e := by
  rw [makeRoom] at h
  split at h
  · exact collected_subset h
  · exact h

/-- An insertion of a new address. -/
theorem insert_new (clock : MacAddress → Nat) (now : Nat) (port : UInt16) (h : t.camMappings[a]? = none) :
    (makeRoom t clock).camMappings.size ≥ t.maxCapacity.toNat ∧
        t.insert clock now a port = (false, makeRoom t clock) ∨
      (makeRoom t clock).camMappings.size < t.maxCapacity.toNat ∧ t.insert clock now a port =
        (true, { makeRoom t clock with
          camMappings := (makeRoom t clock).camMappings.insert a (CamEntry.learned now a port) }) := by
  have heq : t.insert clock now a port =
      if (makeRoom t clock).camMappings.size ≥ (makeRoom t clock).maxCapacity.toNat then (false, makeRoom t clock)
      else (true, { makeRoom t clock with
        camMappings := (makeRoom t clock).camMappings.insert a (CamEntry.learned now a port) }) := by
    rw [CamTable.insert, h]
    rfl
  rw [makeRoom_capacity] at heq
  by_cases hfull : (makeRoom t clock).camMappings.size ≥ t.maxCapacity.toNat
  · exact .inl ⟨hfull, heq.trans (if_pos hfull)⟩
  · exact .inr ⟨Nat.lt_of_not_le hfull, heq.trans (if_neg hfull)⟩

/-- What an insertion leaves in the map: the new entry, and of the others what it made room in. -/
theorem insert_lookup {e : CamEntry} {b : MacAddress}
    (he : (t.insert clock now a port).2.camMappings[b]? = some e) :
    b = a ∧ e.valid ∧ e.phyPort = port ∧ (t.insert clock now a port).1 = true ∨
      b ≠ a ∧ t.camMappings[b]? = some e := by
  cases hget : t.camMappings[a]? with
  | none =>
      rcases insert_new clock now port hget with ⟨_, heq⟩ | ⟨_, heq⟩
      · rw [heq] at he ⊢
        have hold := makeRoom_subset he
        refine .inr ⟨?_, hold⟩
        rintro rfl
        rw [hget] at hold
        cases hold
      · rw [heq] at he ⊢
        dsimp only at he
        rw [getElem?_insert] at he
        split at he
        · rename_i hab
          cases he
          exact .inl ⟨hab.symm, rfl, rfl, rfl⟩
        · rename_i hab
          exact .inr ⟨Ne.symm hab, makeRoom_subset he⟩
  | some e₀ =>
      rw [CamTable.insert, hget] at he ⊢
      dsimp only at he
      rw [getElem?_insert] at he
      split at he
      · rename_i hab
        cases he
        exact .inl ⟨hab.symm, rfl, rfl, rfl⟩
      · rename_i hab
        exact .inr ⟨Ne.symm hab, he⟩

/-- A lookup only counts. -/
theorem lookup_mappings (t : CamTable) (now : Nat) (a b : MacAddress) :
    (t.lookupPortFor now a).2.camMappings[b]? = t.camMappings[b]? ∨
      ∃ e, t.camMappings[b]? = some e ∧ (t.lookupPortFor now a).2.camMappings[b]? =
        some { e with lookupCount := e.lookupCount + 1, lastLookup := Timer.reset now } := by
  rw [lookupPortFor]
  split
  · exact .inl rfl
  · rename_i e he
    split
    · exact .inl rfl
    · dsimp only
      rw [getElem?_insert]
      split
      · rename_i hab
        rw [← hab]
        exact .inr ⟨e, he, rfl⟩
      · exact .inl rfl

theorem lookup_size (t : CamTable) (now : Nat) (a : MacAddress) :
    (t.lookupPortFor now a).2.camMappings.size = t.camMappings.size := by
  rw [lookupPortFor]
  split
  · rfl
  · rename_i e he
    split
    · rfl
    · have hcontains : t.camMappings.contains a := by
        rw [ExtTreeMap.contains_eq_isSome_getElem?, he]
        rfl
      dsimp only
      rw [ExtTreeMap.size_insert, if_pos hcontains]

theorem lookup_capacity (t : CamTable) (now : Nat) (a : MacAddress) :
    (t.lookupPortFor now a).2.maxCapacity = t.maxCapacity := by
  rw [lookupPortFor]
  split
  · rfl
  · split
    · rfl
    · rfl

/-- An operation that is about the settings: the entries stay, or are collected under the new ones. -/
def Resets (t : CamTable) (input : Input) (t' : CamTable) : Prop :=
  (collected t input = none ∧ t'.camMappings = t.camMappings ∧ t.maxCapacity ≤ t'.maxCapacity) ∨
    ∃ g clock, collected t input = some (g, clock) ∧ g.camMappings = t.camMappings ∧
      t' = g.doGarbageCollection clock

theorem resets_setMaxCapacity (t : CamTable) (clock : MacAddress → Nat) (max : UInt32) :
    Resets t (.setMaxCapacity clock max) (t.setMaxCapacity clock max) := by
  rw [Resets, collected, setMaxCapacity]
  by_cases hgt : max > t.maxCapacity
  · rw [if_pos hgt, if_neg (UInt32.not_le.mpr hgt)]
    exact .inl ⟨rfl, rfl, UInt32.le_of_lt hgt⟩
  · rw [if_neg hgt, if_pos (UInt32.not_lt.mp hgt)]
    exact .inr ⟨_, clock, rfl, rfl, rfl⟩

theorem resets_setTimeout (t : CamTable) (clock : MacAddress → Nat) (timeout : UInt32) :
    Resets t (.setTimeout clock timeout) (t.setTimeout clock timeout) := by
  rw [Resets, collected, setTimeout]
  by_cases hge : timeout ≥ t.timeoutSec
  · rw [if_pos hge, if_neg (UInt32.not_lt.mpr hge)]
    exact .inl ⟨rfl, rfl, UInt32.le_refl _⟩
  · rw [if_neg hge, if_pos (UInt32.not_le.mp hge)]
    exact .inr ⟨_, clock, rfl, rfl, rfl⟩

theorem resets_collect (t : CamTable) (clock : MacAddress → Nat) :
    Resets t (.doGarbageCollection clock) (t.doGarbageCollection clock) := .inr ⟨t, clock, rfl, rfl, rfl⟩

theorem Resets.subset {e : CamEntry} (h : Resets t input t') (he : t'.camMappings[a]? = some e) :
    t.camMappings[a]? = some e := by
  rcases h with ⟨_, heq, _⟩ | ⟨g, clock, _, heq, rfl⟩
  · rwa [heq] at he
  · rw [← heq]
    exact collected_subset he

theorem allValid_step (h : AllValid t) (hstep : t.step input = some t') : AllValid t' := by
  intro a e he
  cases input with
  | insert clock now b port =>
      cases hstep
      rcases insert_lookup he with ⟨_, hvalid, _⟩ | ⟨_, hold⟩
      · exact hvalid
      · exact h a e hold
  | lookupPortFor now b =>
      cases hstep
      rcases lookup_mappings t now b a with heq | ⟨e₀, he₀, heq⟩
      · rw [heq] at he
        exact h a e he
      · rw [heq] at he
        cases he
        exact h a e₀ he₀
  | remove b =>
      cases hstep
      rw [CamTable.remove] at he
      dsimp only at he
      rw [getElem?_erase] at he
      split at he
      · cases he
      · exact h a e he
  | removePort port =>
      cases hstep
      rw [removePort] at he
      dsimp only at he
      rw [ExtTreeMap.getElem?_filter', Option.filter_eq_some_iff] at he
      exact h a e he.1
  | clear =>
      cases hstep
      rw [CamTable.clear] at he
      dsimp only at he
      rw [ExtTreeMap.getElem?_empty] at he
      cases he
  | setMaxCapacity clock max =>
      cases hstep
      exact h a e ((resets_setMaxCapacity t clock max).subset he)
  | setTimeout clock timeout =>
      cases hstep
      exact h a e ((resets_setTimeout t clock timeout).subset he)
  | doGarbageCollection clock =>
      cases hstep
      exact h a e ((resets_collect t clock).subset he)

end Steps

/-! ## What is looked up -/

section Lookups

variable {t t' : CamTable} {a : MacAddress} {input : Input}

/-- The port that an address is mapped to. -/
def MapsTo (t : CamTable) (a : MacAddress) (port : UInt16) : Prop :=
  ∃ e, t.camMappings[a]? = some e ∧ e.phyPort = port

/-- What a step does to the entry of an address that it does not insert. -/
structure LeavesOrRemoves (a : MacAddress) (tr : Transition CamTable Input) : Prop where
  other : ∀ port, ¬ InsertsStation a port tr
  port : ∀ e', tr.target.camMappings[a]? = some e' → MapsTo tr.source a e'.phyPort
  gone : tr.target.camMappings[a]? = none → tr.source.camMappings[a]? = none ∨ RemovesStation a tr
  removed : RemovesStation a tr → tr.target.camMappings[a]? = none

theorem LeavesOrRemoves.mapsTo_iff {tr : Transition CamTable Input} (h : LeavesOrRemoves a tr)
    (port : UInt16) :
    MapsTo tr.target a port ↔ InsertsStation a port tr ∨
      MapsTo tr.source a port ∧ ¬ ((∃ port', InsertsStation a port' tr) ∨ RemovesStation a tr) := by
  refine ⟨fun ⟨e', he', hport⟩ => .inr ⟨hport ▸ h.port e' he', ?_⟩, fun hcases => ?_⟩
  · rintro (⟨port', hinserts⟩ | hremoves)
    · exact h.other port' hinserts
    · rw [h.removed hremoves] at he'
      cases he'
  · obtain ⟨⟨e, he, hport⟩, hno⟩ := hcases.resolve_left (h.other port)
    cases he' : tr.target.camMappings[a]? with
    | none =>
        rcases h.gone he' with hnone | hremoves
        · rw [he] at hnone
          cases hnone
        · exact absurd (.inr hremoves) hno
    | some e' =>
        obtain ⟨e₀, he₀, hsame⟩ := h.port e' he'
        rw [he] at he₀
        exact ⟨e', he', by rw [← hsame, ← Option.some.inj he₀, hport]⟩

theorem Resets.leavesOrRemoves (h : Resets t input t') (hremoves : RemovesStation a ⟨t, input, t'⟩ ↔
    (collected t input).isSome ∧ t'.camMappings[a]? = none)
    (hother : ∀ port, ¬ InsertsStation a port ⟨t, input, t'⟩) :
    LeavesOrRemoves a ⟨t, input, t'⟩ := by
  refine ⟨hother, fun e' he' => ⟨e', h.subset he', rfl⟩, fun hgone => ?_, fun hr => (hremoves.mp hr).2⟩
  rcases h with ⟨_, heq, _⟩ | ⟨g, clock, hcollected, _⟩
  · dsimp only at hgone
    rw [heq] at hgone
    exact .inl hgone
  · exact .inr (hremoves.mpr ⟨by rw [hcollected]; rfl, hgone⟩)

theorem not_inserts {input : Input} (h : ∀ clock now port, input ≠ .insert clock now a port)
    (port : UInt16) : ¬ InsertsStation a port ⟨t, input, t'⟩ := fun ⟨clock, now, heq, _⟩ => h clock now port heq

/-- The insertion of another address. -/
theorem insert_leavesOrRemoves (t : CamTable) (clock : MacAddress → Nat) (now : Nat) {b : MacAddress}
    (port : UInt16) (hne : b ≠ a) :
    LeavesOrRemoves a ⟨t, .insert clock now b port, (t.insert clock now b port).2⟩ := by
  refine ⟨not_inserts fun _ _ _ heq => ?_, fun e' he' => ?_, fun hgone => ?_, fun hr => hr.2⟩
  · cases heq
    exact hne rfl
  · rcases insert_lookup he' with ⟨heq, _⟩ | ⟨_, hold⟩
    · exact absurd heq.symm hne
    · exact ⟨e', hold, rfl⟩
  · by_cases hcollects : (collected t (.insert clock now b port)).isSome
    · exact .inr ⟨hcollects, hgone⟩
    · -- nothing is collected, so the other entries stay
      refine .inl ?_
      have hcollected : ¬ (¬ t.camMappings.contains b ∧ t.maxCapacity.toNat ≤ t.camMappings.size) := by
        intro hboth
        rw [collected, if_pos hboth] at hcollects
        exact hcollects rfl
      dsimp only at hgone
      cases hget : t.camMappings[b]? with
      | none =>
          have hroom : makeRoom t clock = t := by
            refine if_neg fun hfull => hcollected ⟨?_, hfull⟩
            rw [ExtTreeMap.contains_eq_isSome_getElem?, hget]
            exact Bool.false_ne_true
          rcases insert_new clock now port hget with ⟨_, heq⟩ | ⟨_, heq⟩
          · rwa [heq, hroom] at hgone
          · rw [heq, hroom] at hgone
            dsimp only at hgone
            rwa [getElem?_insert, if_neg hne] at hgone
      | some e₀ =>
          rw [CamTable.insert, hget] at hgone
          dsimp only at hgone
          rwa [getElem?_insert, if_neg hne] at hgone

theorem lookup_leavesOrRemoves (t : CamTable) (now : Nat) (a b : MacAddress) :
    LeavesOrRemoves a ⟨t, .lookupPortFor now b, (t.lookupPortFor now b).2⟩ := by
  have hlookup := lookup_mappings t now b a
  refine ⟨not_inserts (by simp), fun e' he' => ?_, fun hgone => ?_, fun hr => hr.2⟩
  · rcases hlookup with heq | ⟨e, he, heq⟩
    · exact ⟨e', heq ▸ he', rfl⟩
    · cases heq.symm.trans he'
      exact ⟨e, he, rfl⟩
  · rcases hlookup with heq | ⟨e, _, heq⟩
    · exact .inl (heq ▸ hgone)
    · cases heq.symm.trans hgone

theorem remove_leavesOrRemoves (t : CamTable) (a b : MacAddress) :
    LeavesOrRemoves a ⟨t, .remove b, t.remove b⟩ := by
  have hget : (t.remove b).camMappings[a]? = if b = a then none else t.camMappings[a]? := getElem?_erase ..
  by_cases hba : b = a
  · rw [if_pos hba] at hget
    refine ⟨not_inserts (by simp), fun e' he' => ?_, fun _ => .inr hba, fun _ => hget⟩
    cases hget.symm.trans he'
  · rw [if_neg hba] at hget
    exact ⟨not_inserts (by simp), fun e' he' => ⟨e', hget.symm.trans he', rfl⟩,
      fun hgone => .inl (hget.symm.trans hgone), fun hr => absurd hr hba⟩

theorem removePort_leavesOrRemoves (t : CamTable) (a : MacAddress) (p : UInt16) :
    LeavesOrRemoves a ⟨t, .removePort p, t.removePort p⟩ := by
  have hget : (t.removePort p).camMappings[a]? = t.camMappings[a]?.filter fun e => e.phyPort != p :=
    ExtTreeMap.getElem?_filter'
  refine ⟨not_inserts (by simp), fun e' he' => ?_, fun hgone => ?_, fun hr => ?_⟩
  · have hold := hget.symm.trans he'
    rw [Option.filter_eq_some_iff] at hold
    exact ⟨e', hold.1, rfl⟩
  · replace hgone := hget.symm.trans hgone
    cases he : t.camMappings[a]? with
    | none => exact .inl rfl
    | some e =>
        rw [he, Option.filter_some] at hgone
        refine .inr ⟨e, he, ?_⟩
        by_contra hne
        rw [if_pos (by simpa using hne)] at hgone
        cases hgone
  · obtain ⟨e, he, hp⟩ := hr
    refine hget.trans ?_
    rw [show t.camMappings[a]? = some e from he, Option.filter_some, if_neg (by simp [hp])]

theorem clear_leavesOrRemoves (t : CamTable) (a : MacAddress) : LeavesOrRemoves a ⟨t, .clear, t.clear⟩ := by
  have hget : t.clear.camMappings[a]? = none := ExtTreeMap.getElem?_empty
  refine ⟨not_inserts (by simp), fun e' he' => ?_, fun _ => .inr trivial, fun _ => hget⟩
  cases hget.symm.trans he'

theorem mapsTo_insert_self (t : CamTable) (clock : MacAddress → Nat) (now : Nat) (p port : UInt16) :
    MapsTo (t.insert clock now a p).2 a port ↔ p = port ∧ (t.insert clock now a p).1 = true := by
  refine ⟨fun ⟨e, he, hport⟩ => ?_, fun ⟨hport, htrue⟩ => ?_⟩
  · rcases insert_lookup he with ⟨_, _, hp, htrue⟩ | ⟨hne, _⟩
    · exact ⟨hp.symm.trans hport, htrue⟩
    · exact absurd rfl hne
  · cases hget : t.camMappings[a]? with
    | none =>
        rcases insert_new clock now p hget with ⟨_, heq⟩ | ⟨_, heq⟩
        · rw [heq] at htrue
          cases htrue
        · rw [heq]
          exact ⟨_, by rw [getElem?_insert, if_pos rfl], hport⟩
    | some e₀ =>
        rw [CamTable.insert, hget]
        exact ⟨_, by rw [getElem?_insert, if_pos rfl], hport⟩

theorem mapsTo_step (hstep : t.step input = some t') (port : UInt16) :
    MapsTo t' a port ↔ InsertsStation a port ⟨t, input, t'⟩ ∨ MapsTo t a port ∧
      ¬ ((∃ port', InsertsStation a port' ⟨t, input, t'⟩) ∨ RemovesStation a ⟨t, input, t'⟩) := by
  cases input with
  | insert clock now b p =>
      cases hstep
      by_cases hba : b = a
      · subst hba
        rw [mapsTo_insert_self]
        refine ⟨fun ⟨hport, htrue⟩ => .inl ⟨clock, now, by rw [hport], by rw [← hport]; exact htrue⟩,
          fun hcases => ?_⟩
        rcases hcases with ⟨_, _, heq, htrue⟩ | ⟨⟨e, he, _⟩, hno⟩
        · cases heq
          exact ⟨rfl, htrue⟩
        · -- an address that is known is inserted
          have htrue : (t.insert clock now b p).1 = true := by rw [CamTable.insert, he]
          exact absurd (.inl ⟨p, clock, now, rfl, htrue⟩) hno
      · exact (insert_leavesOrRemoves t clock now p hba).mapsTo_iff port
  | lookupPortFor now b =>
      cases hstep
      exact (lookup_leavesOrRemoves t now a b).mapsTo_iff port
  | remove b =>
      cases hstep
      exact (remove_leavesOrRemoves t a b).mapsTo_iff port
  | removePort p =>
      cases hstep
      exact (removePort_leavesOrRemoves t a p).mapsTo_iff port
  | clear =>
      cases hstep
      exact (clear_leavesOrRemoves t a).mapsTo_iff port
  | setMaxCapacity clock max =>
      cases hstep
      exact ((resets_setMaxCapacity t clock max).leavesOrRemoves Iff.rfl (not_inserts (by simp))).mapsTo_iff port
  | setTimeout clock timeout =>
      cases hstep
      exact ((resets_setTimeout t clock timeout).leavesOrRemoves Iff.rfl (not_inserts (by simp))).mapsTo_iff port
  | doGarbageCollection clock =>
      cases hstep
      exact ((resets_collect t clock).leavesOrRemoves Iff.rfl (not_inserts (by simp))).mapsTo_iff port

/-- What stands at the end of a run is what the table maps. -/
theorem stands_iff {ts : List (Transition CamTable Input)} (hr : Run CamTable.step {} ts t) (port : UInt16) :
    Stands a port ts ↔ MapsTo t a port := by
  induction hr with
  | nil =>
      refine ⟨fun h => absurd h not_unrevoked_nil, fun ⟨e, he, _⟩ => ?_⟩
      rw [ExtTreeMap.getElem?_empty] at he
      cases he
  | snoc _ hs ih => rw [Stands, unrevoked_concat, mapsTo_step hs port, ← ih, Stands]

theorem camAnswers {ts : List (Transition CamTable Input)} (hr : Run CamTable.step {} ts t) :
    CamAnswers t ts := by
  have hvalid : AllValid t := by
    refine (hr.invariant AllValid (fun a e he => ?_) fun _ _ _ hu hs => allValid_step hu hs).1
    rw [ExtTreeMap.getElem?_empty] at he
    cases he
  refine fun now a => ⟨fun port hstands => ?_, fun hnone => ?_⟩
  · obtain ⟨e, he, rfl⟩ := (stands_iff hr port).mp hstands
    rw [lookupPortFor, he]
    dsimp only
    rw [if_neg (by simp [hvalid a e he])]
  · cases he : t.camMappings[a]? with
    | none => rw [lookupPortFor, he]
    | some e => exact absurd ((stands_iff hr e.phyPort).mpr ⟨e, he, rfl⟩) (hnone e.phyPort)

end Lookups

/-! ## What a step leaves -/

section Sound

variable {t t' : CamTable} {input : Input}

/-- Nothing is collected. -/
theorem stepSound_of_none (hnone : collected t input = none)
    (hle : t'.camMappings.size ≤ t'.maxCapacity.toNat) :
    StepSound ⟨t, input, t'⟩ ↔ CollectsWell t input := by
  refine ⟨fun _ g clock heq => ?_, fun _ => ⟨hle, fun g clock heq => ?_⟩⟩
  · rw [hnone] at heq
    cases heq
  · replace heq : collected t input = some (g, clock) := heq
    rw [hnone] at heq
    cases heq

theorem collectsWell_iff {g : CamTable} {clock : MacAddress → Nat}
    (h : collected t input = some (g, clock)) :
    CollectsWell t input ↔ Collectable g clock := by
  refine ⟨fun hall => hall g clock h, fun hg g' clock' heq => ?_⟩
  rw [h] at heq
  cases heq
  exact hg

theorem Resets.stepSound_iff (h : Resets t input t') (hle : t.camMappings.size ≤ t.maxCapacity.toNat) :
    StepSound ⟨t, input, t'⟩ ↔ CollectsWell t input := by
  rcases h with ⟨hnone, hsame, hcapacity⟩ | ⟨g, clock, hcollected, hsame, rfl⟩
  · refine stepSound_of_none hnone ?_
    rw [hsame]
    exact Nat.le_trans hle (UInt32.le_iff_toNat_le.mp hcapacity)
  · have hsize : g.camMappings.size < 2 ^ 32 := by
      rw [hsame]
      exact Nat.lt_of_le_of_lt hle t.maxCapacity.toNat_lt
    rw [collectsWell_iff hcollected, ← collectable_iff hsize]
    refine ⟨fun hsound => ⟨hsound.bounded, hsound.takesAged g clock hcollected⟩, fun h => ⟨h.1, ?_⟩⟩
    intro g' clock' heq
    cases hcollected.symm.trans heq
    exact h.2

theorem insert_stepSound_iff (hle : t.camMappings.size ≤ t.maxCapacity.toNat) (clock : MacAddress → Nat)
    (now : Nat) (a : MacAddress) (port : UInt16) :
    StepSound ⟨t, .insert clock now a port, (t.insert clock now a port).2⟩ ↔
      CollectsWell t (.insert clock now a port) := by
  cases hget : t.camMappings[a]? with
  | some e =>
      have hcontains : t.camMappings.contains a := by
        rw [ExtTreeMap.contains_eq_isSome_getElem?, hget]
        rfl
      refine stepSound_of_none (if_neg fun h => h.1 hcontains) ?_
      rw [CamTable.insert, hget]
      dsimp only
      rwa [ExtTreeMap.size_insert, if_pos hcontains]
  | none =>
      have hcontains : ¬ t.camMappings.contains a := by
        rw [ExtTreeMap.contains_eq_isSome_getElem?, hget]
        exact Bool.false_ne_true
      by_cases hfull : t.maxCapacity.toNat ≤ t.camMappings.size
      · -- the garbage is collected, and what is sound of that is so of the insertion
        have hroom : makeRoom t clock = t.doGarbageCollection clock := if_pos hfull
        have hcollected : collected t (.insert clock now a port) = some (t, clock) := if_pos ⟨hcontains, hfull⟩
        rw [collectsWell_iff hcollected,
          ← collectable_iff (Nat.lt_of_le_of_lt hle t.maxCapacity.toNat_lt)]
        have hothers : ∀ b, b ≠ a → (t.insert clock now a port).2.camMappings[b]? =
            (t.doGarbageCollection clock).camMappings[b]? := by
          intro b hba
          rcases insert_new clock now port hget with ⟨_, heq⟩ | ⟨_, heq⟩
          · rw [heq, hroom]
          · rw [heq, hroom]
            dsimp only
            rw [getElem?_insert, if_neg (Ne.symm hba)]
        have hne : ∀ b e, t.camMappings[b]? = some e → b ≠ a := by
          rintro b e he rfl
          rw [hget] at he
          cases he
        have hbounded :
            (t.insert clock now a port).2.camMappings.size ≤ (t.insert clock now a port).2.maxCapacity.toNat ↔
              (t.doGarbageCollection clock).camMappings.size ≤ t.maxCapacity.toNat := by
          rcases insert_new clock now port hget with ⟨_, heq⟩ | ⟨hlt, heq⟩
          · rw [heq, hroom]
            exact Iff.rfl
          · rw [hroom] at hlt
            have hsize := ExtTreeMap.size_insert_le (t := (t.doGarbageCollection clock).camMappings) (k := a)
              (v := CamEntry.learned now a port)
            rw [heq, hroom]
            exact ⟨fun _ => Nat.le_of_lt hlt, fun _ => Nat.le_trans hsize hlt⟩
        refine ⟨fun hsound => ⟨hbounded.mp hsound.bounded, fun b e he hgone => ?_⟩,
          fun h => ⟨hbounded.mpr h.1, fun g clock' heq b e he hgone => ?_⟩⟩
        · refine hsound.takesAged t clock hcollected b e he ?_
          exact (hothers b (hne b e he)).trans hgone
        · cases hcollected.symm.trans heq
          exact h.2 b e he ((hothers b (hne b e he)).symm.trans hgone)
      · refine stepSound_of_none (if_neg fun h => hfull h.2) ?_
        have hroom : makeRoom t clock = t := if_neg hfull
        rcases insert_new clock now port hget with ⟨hge, _⟩ | ⟨hlt, heq⟩
        · rw [hroom] at hge
          exact absurd hge hfull
        · rw [heq, hroom]
          exact Nat.le_trans ExtTreeMap.size_insert_le (Nat.lt_of_not_le hfull)

theorem stepSound_iff (hle : t.camMappings.size ≤ t.maxCapacity.toNat) (hstep : t.step input = some t') :
    StepSound ⟨t, input, t'⟩ ↔ CollectsWell t input := by
  cases input with
  | insert clock now a port =>
      cases hstep
      exact insert_stepSound_iff hle clock now a port
  | lookupPortFor now a =>
      cases hstep
      refine stepSound_of_none rfl ?_
      rwa [lookup_size, lookup_capacity]
  | remove a =>
      cases hstep
      exact stepSound_of_none rfl (Nat.le_trans ExtTreeMap.size_erase_le hle)
  | removePort port =>
      cases hstep
      exact stepSound_of_none rfl (Nat.le_trans ExtTreeMap.size_filter_le_size hle)
  | clear =>
      cases hstep
      exact stepSound_of_none rfl (Nat.zero_le _)
  | setMaxCapacity clock max =>
      cases hstep
      exact (resets_setMaxCapacity t clock max).stepSound_iff hle
  | setTimeout clock timeout =>
      cases hstep
      exact (resets_setTimeout t clock timeout).stepSound_iff hle
  | doGarbageCollection clock =>
      cases hstep
      exact (resets_collect t clock).stepSound_iff hle

end Sound

/--
**In every run lookups answer from the last insertions that stand; and all of its steps keep to the
capacity and take only garbage if and only if all that they collect is collectable.**
-/
theorem camTable_sound_iff {t : CamTable} {ts : List (Transition CamTable Input)}
    (hr : Run CamTable.step {} ts t) :
    CamAnswers t ts ∧ ((∀ tr ∈ ts, StepSound tr) ↔ ∀ tr ∈ ts, CollectsWell tr.source tr.input) :=
  ⟨camAnswers hr, hr.forall_good_iff (fun _ => True) (fun u => u.camMappings.size ≤ u.maxCapacity.toNat)
    trivial (Nat.zero_le _) (fun _ _ _ _ _ => trivial) (fun _ _ _ _ _ _ hgood => hgood.bounded)
    fun _ _ _ _ hle hs => stepSound_iff hle hs⟩

/-! ## A table with a large capacity -/

/-- Everything is done at once. -/
def stoppedClock : MacAddress → Nat := fun _ => 0

def roomyTable : CamTable := { maxCapacity := 4294967295 }

def camEntry : CamEntry := CamEntry.learned 0 MacAddress.broadcast 3

/-- The table with one station in it. -/
def filledTable : CamTable :=
  { roomyTable with camMappings := (∅ : CamMappings).insert MacAddress.broadcast camEntry }

/-- A station is learned in a table with the largest capacity, and garbage is collected at once. -/
def roomyRun : List (Transition CamTable Input) :=
  [⟨{}, .setMaxCapacity stoppedClock 4294967295, roomyTable⟩,
    ⟨roomyTable, .insert stoppedClock 0 MacAddress.broadcast 3, filledTable⟩,
    ⟨filledTable, .doGarbageCollection stoppedClock, filledTable.doGarbageCollection stoppedClock⟩]

theorem roomyTable_insert : (roomyTable.insert stoppedClock 0 MacAddress.broadcast 3).2 = filledTable := by
  have hempty : roomyTable.camMappings[MacAddress.broadcast]? = none := ExtTreeMap.getElem?_empty
  have hsize : roomyTable.camMappings.size = 0 := ExtTreeMap.size_empty
  have hroom : makeRoom roomyTable stoppedClock = roomyTable := if_neg (by rw [hsize]; decide)
  rcases insert_new stoppedClock 0 3 hempty with ⟨hge, _⟩ | ⟨_, heq⟩
  · rw [hroom, hsize] at hge
    exact absurd hge (by decide)
  · rw [heq, hroom]
    rfl

theorem roomyRun_run : Run CamTable.step {} roomyRun (filledTable.doGarbageCollection stoppedClock) :=
  Run.cons rfl (Run.cons (congrArg some roomyTable_insert) (Run.cons rfl .nil))

theorem roomy_iff : CamAnswers (filledTable.doGarbageCollection stoppedClock) roomyRun ∧
    ((∀ tr ∈ roomyRun, StepSound tr) ↔ ∀ tr ∈ roomyRun, CollectsWell tr.source tr.input) :=
  camTable_sound_iff roomyRun_run

/-- The station is taken for surplus, where there is room for four thousand million others. -/
theorem roomy_loses : ∃ ts t, Run CamTable.step {} ts t ∧ ¬ ∀ tr ∈ ts, StepSound tr := by
  refine ⟨roomyRun, _, roomyRun_run, fun hsound => ?_⟩
  have hsize : filledTable.camMappings.size ≤ 1 := ExtTreeMap.size_insert_le
  have hfresh := fresh_size_le filledTable stoppedClock
  have hcapacity : filledTable.maxCapacity.toNat = 4294967295 := rfl
  have hsurplus : ((freshEntries filledTable stoppedClock).size : Int) ≤ surplus filledTable stoppedClock := by
    rcases surplus_cases (t := filledTable) stoppedClock (by omega) with h | h | h
    · omega
    · omega
    · exact Int.le_of_lt h.2
  have hlast := hsound
    ⟨filledTable, .doGarbageCollection stoppedClock, filledTable.doGarbageCollection stoppedClock⟩
    (List.mem_cons_of_mem _ (List.mem_cons_of_mem _ List.mem_cons_self))
  rcases hlast.takesAged filledTable stoppedClock rfl MacAddress.broadcast camEntry ExtTreeMap.getElem?_insert_self
    (collected_of_ge hsurplus) with haged | hover
  · rw [Aged, show filledTable.timeoutSec.toNat = 14400 from rfl,
      show camEntry.lastUpdated.age (stoppedClock MacAddress.broadcast) = 0 from rfl]
      at haged
    omega
  · omega

end IronStack.Proof

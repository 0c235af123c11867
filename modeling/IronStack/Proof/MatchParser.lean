import IronStack.Proof.AddressText
import IronStack.Proof.MatchFields
import Mathlib.Data.List.Nodup

/-!
# Reading a match

A match is read right if the text is a sequence of pairs as far as it is accepted, with
literals for values, and if each IP address comes with a count of its own: without one,
the address stays wildcarded. The order of pairs matters where a wildcard ends the
reading, and where an address that cannot be parsed wildcards what a count has set.
-/

namespace IronStack.Proof

open Lib StringUtils KeyValues

namespace MatchParser

open OfMatch

variable {getaddrinfo : Text → Option IpAddress}

/-! ## The two IP fields -/

inductive Side where
  | src
  | dest
deriving DecidableEq, Repr

/-- The key of the address. -/
def Side.address : Side → Key
  | .src => .nwSrc
  | .dest => .nwDest

/-- The key of the number of bits that are ignored. -/
def Side.count : Side → Key
  | .src => .nwSrcLsbWildcard
  | .dest => .nwDestLsbWildcard

/-- A field other than an IP address and its count. -/
def Plain (key : Key) : Prop := ∀ side : Side, key ≠ side.address ∧ key ≠ side.count

theorem key_cases (key : Key) :
    Plain key ∨ (∃ side : Side, key = side.address) ∨ ∃ side : Side, key = side.count := by
  cases key
  case nwSrc => exact Or.inr (Or.inl ⟨.src, rfl⟩)
  case nwDest => exact Or.inr (Or.inl ⟨.dest, rfl⟩)
  case nwSrcLsbWildcard => exact Or.inr (Or.inr ⟨.src, rfl⟩)
  case nwDestLsbWildcard => exact Or.inr (Or.inr ⟨.dest, rfl⟩)
  all_goals
    refine Or.inl fun side => ?_
    cases side <;> exact ⟨nofun, nofun⟩

theorem address_ne_count (side side' : Side) : side.address ≠ side'.count := by
  cases side <;> cases side' <;> exact nofun

/-- The number of bits that are ignored. -/
def ignored (m : OfMatch) : Side → UInt8
  | .src => m.wildcardIpSrcLsbCount
  | .dest => m.wildcardIpDestLsbCount

theorem slot_count (m : OfMatch) (side : Side) :
    slot m side.count = some (.number (ignored m side).toUInt16) := by
  cases side <;> rfl

theorem field_count (m : OfMatch) (side : Side) : field m side.count = slot m side.count := by
  cases side <;> rfl

theorem field_address (m : OfMatch) (side : Side) :
    field m side.address = if ignored m side < 32 then slot m side.address else none := by
  cases side <;> rfl

theorem field_plain {key : Key} (h : Plain key) (m : OfMatch) : field m key = slot m key := by
  cases key
  case nwSrc => exact absurd rfl (h .src).1
  case nwDest => exact absurd rfl (h .dest).1
  all_goals rfl

theorem slot_wildcardAll_plain {key : Key} (h : Plain key) (m : OfMatch) : slot m.wildcardAll key = none := by
  cases key
  case nwSrc => exact absurd rfl (h .src).1
  case nwDest => exact absurd rfl (h .dest).1
  case nwSrcLsbWildcard => exact absurd rfl (h .src).2
  case nwDestLsbWildcard => exact absurd rfl (h .dest).2
  all_goals rfl

theorem slot_wildcardAll_count (m : OfMatch) (side : Side) :
    slot m.wildcardAll side.count = some (.number 32) := by
  cases side <;> rfl

/-! ## Keys and values -/

theorem ofName_name (key : Key) : Key.ofName key.name = some key := by
  cases key <;> rfl

theorem name_of_ofName {l : Text} {key : Key} (h : Key.ofName l = some key) : key.name = l :=
  of_decide_eq_true (List.find?_some (p := fun key => decide (Key.name key = l)) h)

theorem name_injective : Function.Injective Key.name := by
  intro key key' h
  rw [← Option.some_inj, ← ofName_name key, h, ofName_name]

/-- No value is read of an empty text. -/
theorem readValue_nil (key : Key) : readValue getaddrinfo key [] = none := by
  rw [readValue]
  cases typeOf key with
  | number bound => rfl
  | mac => rfl
  | ip =>
      rw [valueOf, Option.map_eq_none_iff, Option.eq_none_iff_forall_ne_some]
      intro a ha
      have hpoint := AddressText.point_mem_toText a
      rw [← AddressText.ipOfText_eq_some.mp ha] at hpoint
      cases hpoint

/-- No value is read of a wildcard. -/
theorem readValue_wildcard (key : Key) : readValue getaddrinfo key wildcard = none := by
  rw [readValue]
  cases typeOf key with
  | number bound => rfl
  | mac => rfl
  | ip =>
      rw [valueOf, Option.map_eq_none_iff, Option.eq_none_iff_forall_ne_some]
      intro a ha
      have hpoint := AddressText.point_mem_toText a
      rw [← AddressText.ipOfText_eq_some.mp ha, wildcard, List.mem_singleton] at hpoint
      exact absurd hpoint (by decide)

theorem takes_of_ne {value : Text} (hnil : value ≠ []) (hwildcard : value ≠ wildcard) (key : Key) :
    key.takes value = true := by
  have hstar : decide (value ≠ ['*']) = true := decide_eq_true hwildcard
  have hboth : (decide (value ≠ []) && decide (value ≠ ['*'])) = true := by
    rw [decide_eq_true hnil, hstar]
    rfl
  cases key
  case nwSrcLsbWildcard => exact decide_eq_true hnil
  case nwDestLsbWildcard => exact decide_eq_true hnil
  all_goals exact hboth

theorem takes_of_readValue {key : Key} {value : Text} {x : FieldValue}
    (h : readValue getaddrinfo key value = some x) : key.takes value = true := by
  have hnil : value ≠ [] := by
    rintro rfl
    rw [readValue_nil] at h
    cases h
  have hwildcard : value ≠ wildcard := by
    rintro rfl
    rw [readValue_wildcard] at h
    cases h
  exact takes_of_ne hnil hwildcard key

/-- A pair is read if its key is known, and its value is read. -/
theorem isRead_iff {p : KeyValue} : isRead getaddrinfo p = true ↔
    ∃ key x, Key.ofName p.1 = some key ∧ readValue getaddrinfo key p.2 = some x := by
  rw [isRead]
  cases Key.ofName p.1 with
  | none =>
      refine iff_of_false Bool.false_ne_true ?_
      rintro ⟨_, _, hkey, _⟩
      cases hkey
  | some key =>
      dsimp only
      rw [Bool.and_eq_true, Option.isSome_iff_exists]
      constructor
      · rintro ⟨_, x, hx⟩
        exact ⟨key, x, rfl, hx⟩
      · rintro ⟨key', x, hkey, hx⟩
        obtain rfl := Option.some.inj hkey
        exact ⟨takes_of_readValue hx, x, hx⟩

theorem not_isRead_of_value {p : KeyValue} (h : p.2 = [] ∨ p.2 = wildcard) :
    isRead getaddrinfo p = false := by
  rw [← Bool.not_eq_true, isRead_iff]
  rintro ⟨key, x, -, hx⟩
  rcases h with h | h
  · rw [h, readValue_nil] at hx
    cases hx
  · rw [h, readValue_wildcard] at hx
    cases hx

/-- Where all that is seen can be read, all is seen. -/
theorem seen_eq_self_of_read {kv : List KeyValue} (h : ∀ p ∈ seen kv, isRead getaddrinfo p = true) :
    seen kv = kv := by
  apply seen_eq_self
  induction kv with
  | nil => exact fun p hp => by cases hp
  | cons q kv ih =>
      rw [seen] at h
      split at h
      · have hq := h (q.1, []) (List.mem_singleton.mpr rfl)
        rw [not_isRead_of_value (Or.inl rfl)] at hq
        cases hq
      · rename_i hq
        obtain ⟨-, hkv⟩ := List.forall_mem_cons.mp h
        exact List.forall_mem_cons.mpr ⟨hq, ih hkv⟩

/-! ## What a pair puts in the slots -/

theorem writes_of_read {p : KeyValue} {key : Key} {x : FieldValue} (hkey : Key.ofName p.1 = some key)
    (hx : readValue getaddrinfo key p.2 = some x) (k : Key) :
    writes getaddrinfo p k = if k = key then some (some x) else none := by
  rw [writes, hkey]
  dsimp only
  rw [takes_of_readValue hx, if_pos rfl, keyWrites_of_some hx]

/-! ## What a sequence of pairs says -/

/-- The value in a pair, if it is of the key. -/
def named (p : KeyValue) (key : Key) : Option Text := if p.1 = key.name then some p.2 else none

/-- The last value of a key. -/
def lastValue (kv : List KeyValue) (key : Key) : Option Text := lastWrite named kv key

/-- What the last value of a key is the literal of: nothing if it is a wildcard. -/
def lastLiteral (getaddrinfo : Text → Option IpAddress) (kv : List KeyValue) (key : Key) :
    Option FieldValue :=
  (lastValue kv key).bind (literalValue getaddrinfo key)

/-- The keys are known, and each value is a wildcard or a literal. -/
def WellFormed (getaddrinfo : Text → Option IpAddress) (kv : List KeyValue) : Prop :=
  ∀ p ∈ kv, ∃ key, Key.ofName p.1 = some key ∧ (p.2 = wildcard ∨ (literalValue getaddrinfo key p.2).isSome)

/-- The match is what the pairs say. -/
structure Says (getaddrinfo : Text → Option IpAddress) (kv : List KeyValue) (m : OfMatch) : Prop where
  /-- A field is on the value that is named last, and wildcarded if there is none. -/
  fields : ∀ key, (∀ side : Side, key ≠ side.count) → field m key = lastLiteral getaddrinfo kv key
  /-- An address without a count is matched exactly. -/
  exactly : ∀ side : Side, (lastLiteral getaddrinfo kv side.address).isSome → lastValue kv side.count = none →
    field m side.count = some (.number 0)
  /-- A count is as it is named. -/
  counted : ∀ (side : Side) x, lastLiteral getaddrinfo kv side.count = some x → field m side.count = some x

/-- The keys are known, and each value is a literal. -/
def AllLiteral (getaddrinfo : Text → Option IpAddress) (kv : List KeyValue) : Prop :=
  ∀ p ∈ kv, ∃ key, Key.ofName p.1 = some key ∧ (literalValue getaddrinfo key p.2).isSome

/-- The condition on a sequence whose values are all read. -/
structure Complete (getaddrinfo : Text → Option IpAddress) (kv : List KeyValue) : Prop where
  literals : AllLiteral getaddrinfo kv
  /-- An address is named if, and only if, a count is that leaves any of its bits. -/
  counts : ∀ side : Side, (lastLiteral getaddrinfo kv side.address).isSome ↔
    ∃ n < 32, lastLiteral getaddrinfo kv side.count = some (.number n)

section Literals

variable {kv : List KeyValue}

theorem named_eq_some {p : KeyValue} {key : Key} {value : Text} :
    named p key = some value ↔ p.1 = key.name ∧ p.2 = value := by
  rw [named]
  split
  · rename_i h
    rw [Option.some_inj]
    exact ⟨fun heq => ⟨h, heq⟩, fun heq => heq.2⟩
  · rename_i h
    exact ⟨nofun, fun heq => absurd heq.1 h⟩

theorem writes_of_literal {p : KeyValue} {key : Key} {x : FieldValue} (hkey : Key.ofName p.1 = some key)
    (hx : literalValue getaddrinfo key p.2 = some x) (k : Key) :
    writes getaddrinfo p k = (named p k).map (literalValue getaddrinfo k) := by
  rw [writes_of_read hkey (readValue_of_literalValue hx), named, ← name_of_ofName hkey]
  by_cases h : k = key
  · rw [if_pos h, if_pos (congrArg Key.name h.symm), h, Option.map_some, hx]
  · rw [if_neg h, if_neg (fun heq => h (name_injective heq).symm), Option.map_none]

theorem isSome_lastLiteral (h : AllLiteral getaddrinfo kv) (key : Key) :
    (lastLiteral getaddrinfo kv key).isSome ↔ (lastValue kv key).isSome := by
  rw [lastLiteral]
  cases hlast : lastValue kv key with
  | none => exact Iff.rfl
  | some value =>
      obtain ⟨p, hp, hnamed⟩ := exists_of_lastWrite hlast
      obtain ⟨hname, hvalue⟩ := named_eq_some.mp hnamed
      obtain ⟨key', hkey, hsome⟩ := h p hp
      rw [hname, ofName_name, Option.some_inj] at hkey
      rw [← hkey, hvalue] at hsome
      exact iff_of_true hsome rfl

/-- **Of literals the last of each key** is in its slot. -/
theorem slot_of_literals (h : AllLiteral getaddrinfo kv) (result : Bool) (m : OfMatch) (key : Key) :
    slot (fromPairs getaddrinfo result m kv).2 key = (lastLiteral getaddrinfo kv key).or (slot m key) := by
  have hwrites : lastWrite (writes getaddrinfo) kv key =
      (lastValue kv key).map (literalValue getaddrinfo key) := by
    apply lastWrite_map
    intro p hp
    obtain ⟨key', hkey, hsome⟩ := h p hp
    obtain ⟨x, hx⟩ := Option.isSome_iff_exists.mp hsome
    exact writes_of_literal hkey hx key
  have hsome := isSome_lastLiteral h key
  rw [slot_fromPairs, hwrites]
  rw [lastLiteral] at hsome ⊢
  cases hlast : lastValue kv key with
  | none => rfl
  | some value =>
      rw [hlast, Option.bind_some] at hsome
      obtain ⟨x, hx⟩ := Option.isSome_iff_exists.mp (hsome.mpr rfl)
      rw [Option.map_some, Option.bind_some, hx]
      rfl

/-- The address is matched on if a count leaves any of its bits. -/
theorem ignored_lt_iff (h : AllLiteral getaddrinfo kv) (result : Bool) (m : OfMatch) (side : Side) :
    ignored (fromPairs getaddrinfo result m.wildcardAll kv).2 side < 32 ↔
      ∃ n < 32, lastLiteral getaddrinfo kv side.count = some (.number n) := by
  have hslot := slot_of_literals h result m.wildcardAll side.count
  rw [slot_count, slot_wildcardAll_count] at hslot
  have hlt : ∀ n : UInt8, n < 32 ↔ n.toUInt16 < 32 := by
    intro n
    rw [UInt8.lt_iff_toNat_lt, UInt16.lt_iff_toNat_lt, UInt8.toNat_toUInt16]
    exact Iff.rfl
  rw [hlt]
  cases hlast : lastLiteral getaddrinfo kv side.count with
  | none =>
      rw [hlast, Option.none_or, Option.some_inj] at hslot
      rw [number_injective hslot]
      exact iff_of_false (by decide) (fun ⟨_, _, hnone⟩ => nomatch hnone)
  | some x =>
      rw [hlast, Option.some_or, Option.some_inj] at hslot
      rw [← hslot]
      refine ⟨fun hn => ⟨_, hn, rfl⟩, fun ⟨n, hn, heq⟩ => ?_⟩
      rw [number_injective (Option.some.inj heq)]
      exact hn

theorem slot_address (m : OfMatch) (side : Side) : (slot m side.address).isSome := by
  cases side <;> rfl

/-- **Literals say what they are read as** if each address has its count. -/
theorem says_iff (h : AllLiteral getaddrinfo kv) (result : Bool) (m : OfMatch) :
    Says getaddrinfo kv (fromPairs getaddrinfo result m.wildcardAll kv).2 ↔
      ∀ side : Side, (lastLiteral getaddrinfo kv side.address).isSome ↔
        ∃ n < 32, lastLiteral getaddrinfo kv side.count = some (.number n) := by
  have hslot := slot_of_literals h result m.wildcardAll
  refine ⟨fun hsays side => ?_, fun hcounts => ⟨fun key hkey => ?_, fun side hsome hnone => ?_,
    fun side x hx => ?_⟩⟩
  · rw [← hsays.fields side.address fun side' => address_ne_count side side', field_address,
      ← ignored_lt_iff h result m]
    split
    · rename_i hlt
      exact iff_of_true (slot_address _ side) hlt
    · rename_i hlt
      exact iff_of_false Bool.false_ne_true hlt
  · rcases key_cases key with hplain | ⟨side, rfl⟩ | ⟨side, rfl⟩
    · rw [field_plain hplain, hslot, slot_wildcardAll_plain hplain, Option.or_none]
    · have hlt := (ignored_lt_iff h result m side).trans (hcounts side).symm
      rw [field_address, hslot]
      cases hlast : lastLiteral getaddrinfo kv side.address with
      | none =>
          rw [hlast] at hlt
          exact if_neg fun h => Bool.false_ne_true (hlt.mp h)
      | some x =>
          rw [hlast] at hlt
          exact if_pos (hlt.mpr rfl)
    · exact absurd rfl (hkey side)
  · obtain ⟨n, -, hlast⟩ := (hcounts side).mp hsome
    rw [lastLiteral, hnone] at hlast
    cases hlast
  · rw [field_count, hslot, hx, Option.some_or]

end Literals

/-! ## What is written, and in what order -/

section Order

variable {kv kv' : List KeyValue} {p q : KeyValue} {k : Key} {y : Option FieldValue}

/-- A pair that changes the match of everything, in what it is matched on. -/
def Effective (getaddrinfo : Text → Option IpAddress) (p : KeyValue) : Prop :=
  ∃ key x, Key.ofName p.1 = some key ∧ readValue getaddrinfo key p.2 = some x ∧
    (Plain key ∨ ∃ side : Side, key = side.count ∧ x ≠ .number 32)

theorem writes_eq_some (h : writes getaddrinfo p k = some y) :
    ∃ key, Key.ofName p.1 = some key ∧ keyWrites getaddrinfo key p.2 k = some y := by
  rw [writes] at h
  cases hkey : Key.ofName p.1 with
  | none =>
      rw [hkey] at h
      cases h
  | some key =>
      rw [hkey] at h
      refine ⟨key, rfl, ?_⟩
      dsimp only at h
      split at h
      · exact h
      · cases h

theorem spoils_of_plain {key : Key} (h : Plain key) (value : Text) (k : Key) :
    spoils getaddrinfo key value k = if k = key then some none else none := by
  cases key
  case nwSrc => exact absurd rfl (h .src).1
  case nwDest => exact absurd rfl (h .dest).1
  case nwSrcLsbWildcard => exact absurd rfl (h .src).2
  case nwDestLsbWildcard => exact absurd rfl (h .dest).2
  all_goals rfl

theorem spoils_count (side : Side) (value : Text) (k : Key) :
    spoils getaddrinfo side.count value k = if k = side.count then some (some (.number 32)) else none := by
  cases side <;> rfl

theorem spoils_address (side : Side) (value : Text) (k : Key) : spoils getaddrinfo side.address value k =
    if k = side.address then some (some (.ip (IpAddress.set getaddrinfo value)))
    else if k = side.count then some (some (.number 32)) else none := by
  cases side <;> rfl

/-- A pair writes to the slot of its key, or it is an address that cannot be parsed, and its count is set. -/
theorem writes_cases (h : writes getaddrinfo p k = some y) : Key.ofName p.1 = some k ∨
    ∃ side : Side, Key.ofName p.1 = some side.address ∧ readValue getaddrinfo side.address p.2 = none ∧
      k = side.count ∧ y = some (.number 32) := by
  obtain ⟨key, hkey, h⟩ := writes_eq_some h
  by_cases hk : k = key
  · rw [hk]
    exact Or.inl hkey
  · cases hread : readValue getaddrinfo key p.2 with
    | some x =>
        rw [keyWrites_of_some hread, if_neg hk] at h
        cases h
    | none =>
        rw [keyWrites_of_none hread] at h
        rcases key_cases key with hplain | ⟨side, rfl⟩ | ⟨side, rfl⟩
        · rw [spoils_of_plain hplain, if_neg hk] at h
          cases h
        · rw [spoils_address, if_neg hk] at h
          split at h
          · rename_i hcount
            exact Or.inr ⟨side, hkey, hread, hcount, (Option.some.inj h).symm⟩
          · cases h
        · rw [spoils_count, if_neg hk] at h
          cases h

/-- Other pairs leave the fields wildcarded. -/
theorem writes_of_not_effective (heffective : ¬ Effective getaddrinfo p)
    (h : writes getaddrinfo p k = some y) :
    (Plain k → y = none) ∧ ∀ side : Side, k = side.count → y = some (.number 32) := by
  rcases writes_cases h with hkey | ⟨side, -, -, rfl, rfl⟩
  · obtain ⟨key, hkey', h⟩ := writes_eq_some h
    obtain rfl : k = key := Option.some.inj (hkey.symm.trans hkey')
    cases hread : readValue getaddrinfo k p.2 with
    | some x =>
        rw [keyWrites_of_some hread, if_pos rfl, Option.some_inj] at h
        refine ⟨fun hplain => ?_, fun side hside => ?_⟩
        · exact absurd ⟨k, x, hkey, hread, Or.inl hplain⟩ heffective
        · by_contra hne
          refine heffective ⟨k, x, hkey, hread, Or.inr ⟨side, hside, fun hx => hne ?_⟩⟩
          rw [← h, hx]
    | none =>
        rw [keyWrites_of_none hread] at h
        refine ⟨fun hplain => ?_, fun side hside => ?_⟩
        · rw [spoils_of_plain hplain, if_pos rfl, Option.some_inj] at h
          exact h.symm
        · rw [hside, spoils_count, if_pos rfl, Option.some_inj] at h
          exact h.symm
  · exact ⟨fun hplain => absurd rfl (hplain side).2, fun _ _ => rfl⟩

theorem field_wildcardAll_address (m : OfMatch) (side : Side) : field m.wildcardAll side.address = none := by
  cases side <;> rfl

/-- **Without a pair that is effective** the match is that of everything. -/
theorem field_of_not_effective (h : ∀ p ∈ kv, ¬ Effective getaddrinfo p) (result : Bool) (m : OfMatch)
    (k : Key) :
    field (fromPairs getaddrinfo result m.wildcardAll kv).2 k = field m.wildcardAll k := by
  have hcount : ∀ side : Side, slot (fromPairs getaddrinfo result m.wildcardAll kv).2 side.count =
      some (.number 32) := by
    intro side
    rw [slot_fromPairs]
    cases hlast : lastWrite (writes getaddrinfo) kv side.count with
    | none => exact slot_wildcardAll_count m side
    | some y =>
        obtain ⟨p, hp, hwrites⟩ := exists_of_lastWrite hlast
        exact (writes_of_not_effective (h p hp) hwrites).2 side rfl
  rcases key_cases k with hplain | ⟨side, rfl⟩ | ⟨side, rfl⟩
  · rw [field_plain hplain, field_plain hplain, slot_wildcardAll_plain hplain, slot_fromPairs]
    cases hlast : lastWrite (writes getaddrinfo) kv k with
    | none => exact slot_wildcardAll_plain hplain m
    | some y =>
        obtain ⟨p, hp, hwrites⟩ := exists_of_lastWrite hlast
        exact (writes_of_not_effective (h p hp) hwrites).1 hplain
  · have hignored := hcount side
    rw [slot_count, Option.some_inj] at hignored
    have hall : ignored (fromPairs getaddrinfo result m.wildcardAll kv).2 side = 32 := byte_injective hignored
    rw [field_wildcardAll_address, field_address, hall]
    rfl
  · rw [field_count, field_count, hcount, slot_wildcardAll_count]

/-- What is in the slots is what a match is on. -/
theorem field_congr {m m' : OfMatch} (h : ∀ k, slot m k = slot m' k) (k : Key) : field m k = field m' k := by
  rcases key_cases k with hplain | ⟨side, rfl⟩ | ⟨side, rfl⟩
  · rw [field_plain hplain, field_plain hplain, h]
  · have hcount := h side.count
    rw [slot_count, slot_count, Option.some_inj] at hcount
    have hignored : ignored m side = ignored m' side := byte_injective hcount
    rw [field_address, field_address, hignored, h]
  · rw [field_count, field_count, h]

/-- The pairs of each key are the same, in the same order. -/
def Reordered (kv kv' : List KeyValue) : Prop :=
  ∀ key, kv.filter (fun p => p.1 = key) = kv'.filter fun p => p.1 = key

theorem Reordered.perm (h : Reordered kv kv') : kv.Perm kv' := by
  rw [List.perm_iff_count]
  intro p
  have hcount : ∀ l : List KeyValue, (l.filter fun q => q.1 = p.1).count p = l.count p :=
    fun l => List.count_filter (decide_eq_true rfl)
  rw [← hcount kv, h p.1, hcount kv']

/-- **The order of other keys does not matter** where all pairs are read. -/
theorem slot_of_reordered (h : Reordered kv kv') (hread : ∀ p ∈ kv, isRead getaddrinfo p = true)
    (result : Bool) (m : OfMatch) (k : Key) :
    slot (fromPairs getaddrinfo result m kv').2 k = slot (fromPairs getaddrinfo result m kv).2 k := by
  have hown : ∀ l : List KeyValue, (∀ p ∈ l, isRead getaddrinfo p = true) →
      lastWrite (writes getaddrinfo) (l.filter fun p => p.1 = k.name) k =
        lastWrite (writes getaddrinfo) l k := by
    intro l hl
    apply lastWrite_filter
    intro p hp hname
    obtain ⟨key, x, hkey, hx⟩ := isRead_iff.mp (hl p hp)
    rw [writes_of_read hkey hx]
    refine if_neg fun hk => of_decide_eq_false hname ?_
    rw [hk, name_of_ofName hkey]
  have hread' : ∀ p ∈ kv', isRead getaddrinfo p = true := fun p hp => hread p (h.perm.mem_iff.mpr hp)
  rw [slot_fromPairs, slot_fromPairs, ← hown kv hread, ← hown kv' hread', h]

/-- The condition on a sequence for its order not to matter. -/
structure Orderless (getaddrinfo : Text → Option IpAddress) (kv : List KeyValue) : Prop where
  /-- Where there is a wildcard, at which the reading ends, nothing else has an effect. -/
  wildcards : (∃ p ∈ kv, p.2 = wildcard) → ∀ p ∈ kv, ¬ Effective getaddrinfo p
  /-- An address that cannot be parsed has no count that it takes back. -/
  addresses : ∀ side : Side, ∀ p ∈ kv, p.1 = side.address.name →
    readValue getaddrinfo side.address p.2 = none →
    ∀ q ∈ kv, q.1 = side.count.name → ¬ Effective getaddrinfo q

/-- The writes of pairs with distinct keys agree. -/
theorem agree_of_orderless (h : Orderless getaddrinfo kv) (hnodup : (kv.map Prod.fst).Nodup) (k : Key) :
    Agree (writes getaddrinfo) kv k := by
  intro p hp q hq x y hx hy
  have hinj : p.1 = q.1 → x = y := by
    intro hkey
    rw [List.inj_on_of_nodup_map hnodup hp hq hkey, hy] at hx
    exact (Option.some.inj hx).symm
  rcases writes_cases hx with hkey | ⟨side, hside, hread, rfl, rfl⟩
  · rcases writes_cases hy with hkey' | ⟨side, hside, hread, rfl, rfl⟩
    · exact hinj ((name_of_ofName hkey).symm.trans (name_of_ofName hkey'))
    · have hnot := h.addresses side q hq (name_of_ofName hside).symm hread p hp (name_of_ofName hkey).symm
      exact (writes_of_not_effective hnot hx).2 side rfl
  · rcases writes_cases hy with hkey' | ⟨side', hside', -, hcount, rfl⟩
    · have hnot := h.addresses side p hp (name_of_ofName hside).symm hread q hq (name_of_ofName hkey').symm
      exact ((writes_of_not_effective hnot hy).2 side rfl).symm
    · rfl

theorem mem_seen {p : KeyValue} (h : p ∈ seen kv) : p ∈ kv ∨ p.2 = [] := by
  induction kv with
  | nil => cases h
  | cons q kv ih =>
      rw [seen] at h
      split at h
      · rw [List.mem_singleton.mp h]
        exact Or.inr rfl
      · rcases List.mem_cons.mp h with rfl | h
        · exact Or.inl List.mem_cons_self
        · exact (ih h).imp_left (List.mem_cons_of_mem q)

theorem not_effective_of_nil {p : KeyValue} (h : p.2 = []) : ¬ Effective getaddrinfo p := by
  rintro ⟨key, x, -, hx, -⟩
  rw [h, readValue_nil] at hx
  cases hx

/-- A sequence with a wildcard is not accepted. -/
theorem all_seen_of_wildcard (h : ∃ p ∈ kv, p.2 = wildcard) : (seen kv).all (isRead getaddrinfo) = false := by
  obtain ⟨p, hp, hwildcard⟩ := h
  rw [← Bool.not_eq_true, List.all_eq_true]
  intro hall
  rw [← seen_eq_self_of_read hall] at hp
  have hread := hall p hp
  rw [not_isRead_of_value (Or.inr hwildcard)] at hread
  exact Bool.false_ne_true hread

/-- **Whether a sequence is accepted** does not depend on the order of its pairs. -/
theorem all_seen_perm (hperm : kv.Perm kv') :
    (seen kv').all (isRead getaddrinfo) = (seen kv).all (isRead getaddrinfo) := by
  by_cases hstar : ∃ p ∈ kv, p.2 = wildcard
  · obtain ⟨p, hp, hwildcard⟩ := hstar
    rw [all_seen_of_wildcard ⟨p, hp, hwildcard⟩, all_seen_of_wildcard ⟨p, hperm.mem_iff.mp hp, hwildcard⟩]
  · have hwords : ∀ p ∈ kv, p.2 ≠ wildcard := fun p hp heq => hstar ⟨p, hp, heq⟩
    rw [seen_eq_self hwords, seen_eq_self fun p hp => hwords p (hperm.mem_iff.mpr hp)]
    exact hperm.symm.all_eq

/-- The fields of the pairs that are seen. -/
theorem fields_of_orderless (h : Orderless getaddrinfo kv) (hnodup : (kv.map Prod.fst).Nodup)
    (hperm : kv.Perm kv') (m : OfMatch) (k : Key) :
    field (fromPairs getaddrinfo true m.wildcardAll (seen kv')).2 k =
      field (fromPairs getaddrinfo true m.wildcardAll (seen kv)).2 k := by
  by_cases hstar : ∃ p ∈ kv, p.2 = wildcard
  · have hwild : ∀ l : List KeyValue, (∀ p ∈ l, p ∈ kv) →
        field (fromPairs getaddrinfo true m.wildcardAll (seen l)).2 k = field m.wildcardAll k := by
      intro l hl
      apply field_of_not_effective
      intro p hp
      rcases mem_seen hp with hp | hp
      · exact h.wildcards hstar p (hl p hp)
      · exact not_effective_of_nil hp
    rw [hwild kv' fun p hp => hperm.mem_iff.mpr hp, hwild kv fun p hp => hp]
  · have hwords : ∀ p ∈ kv, p.2 ≠ wildcard := fun p hp heq => hstar ⟨p, hp, heq⟩
    rw [seen_eq_self hwords, seen_eq_self fun p hp => hwords p (hperm.mem_iff.mpr hp)]
    refine field_congr (fun k => ?_) k
    rw [slot_fromPairs, slot_fromPairs, lastWrite_perm hperm (agree_of_orderless h hnodup k)]

/-- The fields of an accepted sequence. -/
theorem fields_of_reordered (h : Reordered kv kv') (hread : (seen kv).all (isRead getaddrinfo) = true)
    (m : OfMatch) (k : Key) : field (fromPairs getaddrinfo true m.wildcardAll (seen kv')).2 k =
      field (fromPairs getaddrinfo true m.wildcardAll (seen kv)).2 k := by
  have hread' := (all_seen_perm h.perm).trans hread
  rw [List.all_eq_true] at hread hread'
  have hseen : seen kv = kv := seen_eq_self_of_read hread
  have hseen' : seen kv' = kv' := seen_eq_self_of_read hread'
  rw [hseen] at hread ⊢
  rw [hseen']
  exact field_congr (fun k => slot_of_reordered h hread true _ k) k

/-- The fields of the pairs that are seen do not depend on their order. -/
def SameFields (getaddrinfo : Text → Option IpAddress) (m : OfMatch) (kv kv' : List KeyValue) : Prop :=
  ∀ k, field (fromPairs getaddrinfo true m.wildcardAll (seen kv')).2 k =
    field (fromPairs getaddrinfo true m.wildcardAll (seen kv)).2 k

theorem effective_writes {p : KeyValue} {key : Key} {x : FieldValue} (hkey : Key.ofName p.1 = some key)
    (hx : readValue getaddrinfo key p.2 = some x) : writes getaddrinfo p key = some (some x) := by
  rw [writes_of_read hkey hx, if_pos rfl]

theorem writes_nil (key : Text) (k : Key) : writes getaddrinfo (key, []) k = none := by
  rw [writes]
  cases Key.ofName key with
  | none => rfl
  | some key => cases key <;> rfl

/-- An effective pair in front of a wildcard is lost behind it. -/
theorem wildcards_of_order (m : OfMatch) (h : ∀ kv', kv.Perm kv' → SameFields getaddrinfo m kv kv') :
    (∃ p ∈ kv, p.2 = wildcard) → ∀ p ∈ kv, ¬ Effective getaddrinfo p := by
  rintro ⟨s, hs, hwildcard⟩ p hp ⟨key, x, hkey, hx, heffective⟩
  have hword : p.2 ≠ wildcard := by
    intro heq
    rw [heq, readValue_wildcard] at hx
    cases hx
  have hne : s ≠ p := by
    rintro rfl
    exact hword hwildcard
  have hfront : kv.Perm (p :: s :: (kv.erase p).erase s) :=
    (List.perm_cons_erase hp).trans ((List.perm_cons_erase ((List.mem_erase_of_ne hne).mpr hs)).cons p)
  have hbehind : kv.Perm (s :: p :: (kv.erase p).erase s) := hfront.trans (.swap s p _)
  have hsame := (h _ hfront key).trans (h _ hbehind key).symm
  have hseen : seen (p :: s :: (kv.erase p).erase s) = [p] ++ [(s.1, [])] := by
    rw [seen, if_neg hword, seen, if_pos hwildcard]
    rfl
  have hseen' : seen (s :: p :: (kv.erase p).erase s) = [(s.1, [])] := by
    rw [seen, if_pos hwildcard]
  have hslot : slot (fromPairs getaddrinfo true m.wildcardAll ([p] ++ [(s.1, [])])).2 key = some x := by
    rw [slot_fromPairs, lastWrite_concat, writes_nil, Option.none_or, ← List.nil_append [p], lastWrite_concat,
      effective_writes hkey hx]
    rfl
  have hwild : field (fromPairs getaddrinfo true m.wildcardAll [(s.1, [])]).2 key =
      field m.wildcardAll key := by
    apply field_of_not_effective
    intro q hq
    rw [List.mem_singleton.mp hq]
    exact not_effective_of_nil rfl
  rw [hseen, hseen', hwild] at hsame
  rcases heffective with hplain | ⟨side, rfl, hne⟩
  · rw [field_plain hplain, field_plain hplain, hslot, slot_wildcardAll_plain hplain] at hsame
    cases hsame
  · rw [field_count, field_count, hslot, slot_wildcardAll_count, Option.some_inj] at hsame
    exact hne hsame

/-- A count in front of an address that cannot be parsed is taken back behind it. -/
theorem addresses_of_order (m : OfMatch) (hpairs : ∀ p ∈ kv, IsPair p)
    (h : ∀ kv', kv.Perm kv' → SameFields getaddrinfo m kv kv') (side : Side) (p : KeyValue) (hp : p ∈ kv)
    (hname : p.1 = side.address.name) (hread : readValue getaddrinfo side.address p.2 = none)
    (q : KeyValue) (hq : q ∈ kv) (hname' : q.1 = side.count.name) : ¬ Effective getaddrinfo q := by
  intro heffective
  have hstar : ∀ p ∈ kv, p.2 ≠ wildcard :=
    fun p hp heq => wildcards_of_order m h ⟨p, hp, heq⟩ q hq heffective
  obtain ⟨key, x, hkey, hx, hx32⟩ := heffective
  rw [hname', ofName_name, Option.some_inj] at hkey
  subst hkey
  have hne : q ≠ p := by
    rintro rfl
    exact address_ne_count side side (name_injective (hname.symm.trans hname'))
  obtain ⟨rest, hfront⟩ : ∃ rest, kv.Perm (rest ++ [p] ++ [q]) := by
    refine ⟨(kv.erase p).erase q, (List.perm_cons_erase hp).trans ?_⟩
    rw [List.append_assoc]
    exact ((List.perm_cons_erase ((List.mem_erase_of_ne hne).mpr hq)).cons p).trans
      (@List.perm_append_comm _ [p, q] _)
  have hbehind : kv.Perm (rest ++ [q] ++ [p]) := by
    refine hfront.trans ?_
    rw [List.append_assoc, List.append_assoc]
    exact (List.Perm.swap q p []).append_left rest
  have hsame := (h _ hfront side.count).trans (h _ hbehind side.count).symm
  have hseen : ∀ kv', kv.Perm kv' → seen kv' = kv' :=
    fun kv' hperm => seen_eq_self fun r hr => hstar r (hperm.mem_iff.mpr hr)
  have hcount : writes getaddrinfo q side.count = some (some x) :=
    effective_writes (by rw [hname', ofName_name]) hx
  have haddress : writes getaddrinfo p side.count = some (some (.number 32)) := by
    have hnil : p.2 ≠ [] := (hpairs p hp).2.elim (fun heq => absurd heq (hstar p hp)) And.left
    rw [writes, hname, ofName_name]
    dsimp only
    rw [if_pos (takes_of_ne hnil (hstar p hp) _), keyWrites_of_none hread, spoils_address,
      if_neg (address_ne_count side side).symm, if_pos rfl]
  rw [hseen _ hfront, hseen _ hbehind, field_count, field_count, slot_fromPairs, slot_fromPairs,
    lastWrite_concat, hcount, lastWrite_concat _ (rest ++ [q]) p, haddress] at hsame
  have hx : x = .number 32 := Option.some.inj hsame
  rcases hx32 with hplain | ⟨_, _, hne⟩
  · exact (hplain side).2 rfl
  · exact hne hx

end Order

/-! ## The claim -/

/-- The claim on a text, for a match that is read into. -/
structure ParsesMatch (getaddrinfo : Text → Option IpAddress) (m : OfMatch) (request : Text) : Prop where
  /-- What is accepted is a sequence of known keys with wildcards and literals, and is what the match says. -/
  sound : (fromString getaddrinfo m request).1 = true → ∃ kv, Spells request kv ∧ WellFormed getaddrinfo kv ∧
    Says getaddrinfo kv (fromString getaddrinfo m request).2
  /-- Pairs with distinct keys may change places, and what is accepted stays the same match. -/
  reordered : ∀ kv kv' request', Spells request kv → Reordered kv kv' → Spells request' kv' →
    (fromString getaddrinfo m request').1 = (fromString getaddrinfo m request).1 ∧
    ((fromString getaddrinfo m request).1 = true →
      ((fromString getaddrinfo m request').2 == (fromString getaddrinfo m request).2) = true)
  /-- Pairs whose keys are all distinct may be in any order, accepted or not. -/
  order : ∀ kv kv' request', Spells request kv → (kv.map Prod.fst).Nodup → kv.Perm kv' → Spells request' kv' →
    (fromString getaddrinfo m request').1 = (fromString getaddrinfo m request).1 ∧
    ((fromString getaddrinfo m request').2 == (fromString getaddrinfo m request).2) = true

/-- The condition on a text. -/
structure ReadStrictly (getaddrinfo : Text → Option IpAddress) (request : Text) : Prop where
  /-- If all the pairs that are split off can be read, they are the whole text, and complete. -/
  whole : (∀ p ∈ generateKeyValuePair request, isRead getaddrinfo p = true) →
    Spells request (generateKeyValuePair request) ∧ Complete getaddrinfo (generateKeyValuePair request)
  orderless : ∀ kv, Spells request kv → (kv.map Prod.fst).Nodup → Orderless getaddrinfo kv

theorem fromString_result (m : OfMatch) (request : Text) : (fromString getaddrinfo m request).1 = true ↔
    ∀ p ∈ generateKeyValuePair request, isRead getaddrinfo p = true := by
  rw [fromString, fromPairs_result, Bool.true_and, List.all_eq_true]

theorem fromString_of_spells {request : Text} {kv : List KeyValue} (h : Spells request kv) (m : OfMatch) :
    fromString getaddrinfo m request = fromPairs getaddrinfo true m.wildcardAll (seen kv) := by
  rw [fromString, generateKeyValuePair_of_spells h]

/-- What is accepted is sound if it is the whole text, and complete. -/
theorem sound_iff (m : OfMatch) (request : Text)
    (h : ∀ p ∈ generateKeyValuePair request, isRead getaddrinfo p = true) :
    (∃ kv, Spells request kv ∧ WellFormed getaddrinfo kv ∧
        Says getaddrinfo kv (fromString getaddrinfo m request).2) ↔
      Spells request (generateKeyValuePair request) ∧
        Complete getaddrinfo (generateKeyValuePair request) := by
  refine ⟨fun ⟨kv, hspells, hwell, hsays⟩ => ?_, fun ⟨hspells, hcomplete⟩ => ?_⟩
  · have hkv : generateKeyValuePair request = kv := by
      rw [generateKeyValuePair_of_spells hspells] at h ⊢
      exact seen_eq_self_of_read h
    rw [hkv] at h ⊢
    have hliterals : AllLiteral getaddrinfo kv := by
      intro p hp
      obtain ⟨key, hkey, hwildcard | hliteral⟩ := hwell p hp
      · have hread := h p hp
        rw [not_isRead_of_value (Or.inr hwildcard)] at hread
        cases hread
      · exact ⟨key, hkey, hliteral⟩
    rw [fromString, hkv] at hsays
    exact ⟨hspells, hliterals, (says_iff hliterals true m).mp hsays⟩
  · refine ⟨_, hspells, fun p hp => ?_, (says_iff hcomplete.literals true m).mpr hcomplete.counts⟩
    obtain ⟨key, hkey, hliteral⟩ := hcomplete.literals p hp
    exact ⟨key, hkey, Or.inr hliteral⟩

/-- **A match is read from its text** if what is accepted is complete, and its order does not matter. -/
theorem parsesMatch_iff (getaddrinfo : Text → Option IpAddress) (m : OfMatch) (request : Text) :
    ParsesMatch getaddrinfo m request ↔ ReadStrictly getaddrinfo request := by
  refine ⟨fun h => ⟨fun hread => ?_, fun kv hspells hnodup => ?_⟩, fun h => ⟨fun hresult => ?_, ?_, ?_⟩⟩
  · exact (sound_iff m request hread).mp (h.sound ((fromString_result m request).mpr hread))
  · have hpairs := isPair_of_spells hspells
    have hsame : ∀ kv', kv.Perm kv' → SameFields getaddrinfo m kv kv' := by
      intro kv' hperm
      have hrender := spells_render fun p hp => hpairs p (hperm.mem_iff.mpr hp)
      have hfields := (h.order kv kv' (render kv') hspells hnodup hperm hrender).2
      rw [fromString_of_spells hspells, fromString_of_spells hrender] at hfields
      exact (beq_iff_field _ _).mp hfields
    exact ⟨wildcards_of_order m hsame, addresses_of_order m hpairs hsame⟩
  · have hread := (fromString_result m request).mp hresult
    exact (sound_iff m request hread).mpr (h.whole hread)
  · intro kv kv' request' hspells hreordered hspells'
    rw [fromString_of_spells hspells, fromString_of_spells hspells', fromPairs_result, fromPairs_result,
      Bool.true_and, Bool.true_and, beq_iff_field]
    exact ⟨all_seen_perm hreordered.perm, fun hread k => fields_of_reordered hreordered hread m k⟩
  · intro kv kv' request' hspells hnodup hperm hspells'
    rw [fromString_of_spells hspells, fromString_of_spells hspells', fromPairs_result, fromPairs_result,
      Bool.true_and, Bool.true_and, beq_iff_field]
    exact ⟨all_seen_perm hperm, fun k => fields_of_orderless (h.orderless kv hspells hnodup) hnodup hperm m k⟩

/-- An address alone is accepted, and stays wildcarded. -/
theorem address_alone_fails :
    ¬ ParsesMatch (fun _ => none) OfMatch.clear "nw_src=10.0.0.1".toList := by
  intro h
  have hresult : (fromString (fun _ => none) OfMatch.clear "nw_src=10.0.0.1".toList).1 = true := by
    decide +kernel
  have hread := (fromString_result OfMatch.clear _).mp hresult
  obtain ⟨-, hcomplete⟩ := (sound_iff OfMatch.clear _ hread).mp (h.sound hresult)
  have hcounts := (hcomplete.counts .src).mp (by decide +kernel)
  obtain ⟨n, -, hlast⟩ := hcounts
  have hnone : lastLiteral (fun _ => none) (generateKeyValuePair "nw_src=10.0.0.1".toList)
      Side.src.count = none := by
    decide +kernel
  rw [hnone] at hlast
  cases hlast

end MatchParser

end IronStack.Proof

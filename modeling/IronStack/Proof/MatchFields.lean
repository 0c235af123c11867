import IronStack.Lib.Writes
import IronStack.Proof.KeyValues
import IronStack.Text.MatchParser

/-!
# The fields of a match that pairs set

Each key sets a slot of the match: a value, or nothing where the field is wildcarded. The
address and the count of an IP field are slots of their own, and the address is seen if
the count leaves any of its bits. A value that cannot be parsed leaves the wildcard, and
that of an address leaves it in the slot of the count.
-/

namespace IronStack.Proof

open Lib StringUtils KeyValues

namespace MatchParser

open OfMatch

variable {getaddrinfo : Text → Option IpAddress}

/-! ## Values -/

inductive FieldValue where
  | number (n : UInt16)
  | mac (a : MacAddress)
  | ip (a : IpAddress)
deriving DecidableEq, Repr

/-- The type of a field: an address, or a number with a bound. -/
inductive FieldType where
  | number (bound : UInt16)
  | mac
  | ip

def typeOf : Key → FieldType
  | .dlSrc | .dlDest => .mac
  | .nwSrc | .nwDest => .ip
  | .inPort | .vlanId | .ethertype | .srcPort | .destPort => .number 0xffff
  | .vlanPcp | .ipTos | .ipProto => .number 0xff
  | .nwSrcLsbWildcard | .nwDestLsbWildcard => .number 32

/-- The value of a type that a text stands for, by its numbers as they are read. -/
def valueOf (getaddrinfo : Text → Option IpAddress) (number : Text → Option UInt16) :
    FieldType → Text → Option FieldValue
  | .number bound, value => ((number value).filter fun n => n ≤ bound).map .number
  | .mac, value => (MacAddress.ofText value).map .mac
  | .ip, value => (IpAddress.ofText getaddrinfo value).map .ip

/-- The value that is read for a key. -/
def readValue (getaddrinfo : Text → Option IpAddress) (key : Key) (value : Text) : Option FieldValue :=
  valueOf getaddrinfo stringToUint16 (typeOf key) value

/-- The value that a text is the literal of, in the type of the key. -/
def literalValue (getaddrinfo : Text → Option IpAddress) (key : Key) (value : Text) : Option FieldValue :=
  valueOf getaddrinfo literal (typeOf key) value

theorem readValue_of_literalValue {key : Key} {value : Text} {x : FieldValue}
    (h : literalValue getaddrinfo key value = some x) : readValue getaddrinfo key value = some x := by
  rw [literalValue] at h
  rw [readValue]
  generalize typeOf key = type at h ⊢
  cases type with
  | number bound =>
      rw [valueOf] at h ⊢
      obtain ⟨n, hn, rfl⟩ := Option.map_eq_some_iff.mp h
      obtain ⟨hn, hle⟩ := Option.filter_eq_some_iff.mp hn
      rw [stringToUint16_of_literal hn, Option.filter_some, if_pos hle, Option.map_some]
  | mac => exact h
  | ip => exact h

/-! ## Slots -/

/-- What is in the slot of a key. -/
def slot (m : OfMatch) : Key → Option FieldValue
  | .dlSrc => if m.wildcardEthernetSrc then none else some (.mac m.ethernetSrc)
  | .dlDest => if m.wildcardEthernetDest then none else some (.mac m.ethernetDest)
  | .inPort => if m.wildcardInPort then none else some (.number m.inPort)
  | .vlanId => if m.wildcardVlanId then none else some (.number m.vlanId)
  | .vlanPcp => if m.wildcardVlanPcp then none else some (.number m.vlanPcp.toUInt16)
  | .ethertype => if m.wildcardEthernetFrameType then none else some (.number m.ethernetFrameType)
  | .ipTos => if m.wildcardIpTypeOfService then none else some (.number m.ipTypeOfService.toUInt16)
  | .ipProto => if m.wildcardIpProtocol then none else some (.number m.ipProtocol.toUInt16)
  | .nwSrcLsbWildcard => some (.number m.wildcardIpSrcLsbCount.toUInt16)
  | .nwDestLsbWildcard => some (.number m.wildcardIpDestLsbCount.toUInt16)
  | .nwSrc => some (.ip m.ipSrcAddress)
  | .nwDest => some (.ip m.ipDestAddress)
  | .srcPort => if m.wildcardTcpudpSrcPort then none else some (.number m.tcpudpSrcPort)
  | .destPort => if m.wildcardTcpudpDestPort then none else some (.number m.tcpudpDestPort)

/-- What a value that cannot be parsed leaves in a slot, if anything. -/
def spoils (getaddrinfo : Text → Option IpAddress) (key : Key) (value : Text) (k : Key) :
    Option (Option FieldValue) :=
  match key with
  | .nwSrc =>
      if k = .nwSrc then some (some (.ip (IpAddress.set getaddrinfo value)))
      else if k = .nwSrcLsbWildcard then some (some (.number 32)) else none
  | .nwDest =>
      if k = .nwDest then some (some (.ip (IpAddress.set getaddrinfo value)))
      else if k = .nwDestLsbWildcard then some (some (.number 32)) else none
  | .nwSrcLsbWildcard | .nwDestLsbWildcard => if k = key then some (some (.number 32)) else none
  | _ => if k = key then some none else none

/-- What the value of a known key puts in a slot, if anything. -/
def keyWrites (getaddrinfo : Text → Option IpAddress) (key : Key) (value : Text) (k : Key) :
    Option (Option FieldValue) :=
  match readValue getaddrinfo key value with
  | some x => if k = key then some (some x) else none
  | none => spoils getaddrinfo key value k

theorem keyWrites_of_some {key : Key} {value : Text} {x : FieldValue}
    (h : readValue getaddrinfo key value = some x) (k : Key) :
    keyWrites getaddrinfo key value k = if k = key then some (some x) else none := by
  rw [keyWrites, h]

theorem keyWrites_of_none {key : Key} {value : Text} (h : readValue getaddrinfo key value = none) (k : Key) :
    keyWrites getaddrinfo key value k = spoils getaddrinfo key value k := by
  rw [keyWrites, h]

/-- What a pair puts in a slot, if anything. -/
def writes (getaddrinfo : Text → Option IpAddress) (kv : KeyValue) (k : Key) : Option (Option FieldValue) :=
  match Key.ofName kv.1 with
  | none => none
  | some key => if key.takes kv.2 then keyWrites getaddrinfo key kv.2 k else none

/-- The setting of a key is what it puts in the slots. -/
structure Sets (getaddrinfo : Text → Option IpAddress) (m : OfMatch) (value : Text) (key : Key) : Prop where
  parsed : (setKey getaddrinfo m value key).1 = (readValue getaddrinfo key value).isSome
  slots : ∀ k, slot (setKey getaddrinfo m value key).2 k = (keyWrites getaddrinfo key value k).getD (slot m k)

theorem readValue_number {key : Key} (h : typeOf key = .number 0xffff) (value : Text) :
    readValue getaddrinfo key value = (stringToUint16 value).map .number := by
  rw [readValue, h, valueOf]
  cases stringToUint16 value with
  | none => rfl
  | some n =>
      have hle : n ≤ 0xffff := UInt16.le_iff_toNat_le.mpr (Nat.le_of_lt_succ (UInt16.toNat_lt n))
      rw [Option.filter_some, decide_eq_true hle, if_pos rfl]

theorem readValue_bounded {key : Key} {bound : UInt16} (h : typeOf key = .number bound) (value : Text) :
    readValue getaddrinfo key value = (boundedUint16 bound value).map .number := by
  rw [readValue, h, valueOf, boundedUint16]

theorem readValue_mac {key : Key} (h : typeOf key = .mac) (value : Text) :
    readValue getaddrinfo key value = if (MacAddress.set value).toText ≠ value then none
      else some (.mac (MacAddress.set value)) := by
  rw [readValue, h, valueOf, MacAddress.ofText, ite_not]
  split
  · rfl
  · rfl

theorem readValue_ip {key : Key} (h : typeOf key = .ip) (value : Text) :
    readValue getaddrinfo key value = if (IpAddress.set getaddrinfo value).toText ≠ value then none
      else some (.ip (IpAddress.set getaddrinfo value)) := by
  rw [readValue, h, valueOf, IpAddress.ofText, ite_not]
  split
  · rfl
  · rfl

theorem toUInt16_toUInt8 {bound val : UInt16} {value : Text} (hbound : bound ≤ 0xff)
    (h : boundedUint16 bound value = some val) : val.toUInt8.toUInt16 = val := by
  obtain ⟨-, hle⟩ := Option.filter_eq_some_iff.mp h
  have hval : val.toNat ≤ 255 :=
    Nat.le_trans (UInt16.le_iff_toNat_le.mp (of_decide_eq_true hle)) (UInt16.le_iff_toNat_le.mp hbound)
  apply UInt16.toNat_inj.mp
  rw [UInt8.toNat_toUInt16, UInt16.toNat_toUInt8]
  omega

/-- **Each key sets what it puts in the slots**, and nothing else. -/
theorem sets (m : OfMatch) (value : Text) (key : Key) : Sets getaddrinfo m value key := by
  cases key
  case inPort | vlanId | ethertype | srcPort | destPort =>
    refine ⟨?_, fun k => ?_⟩
    · rw [setKey, readValue_number]
      · cases stringToUint16 value with
        | none => rfl
        | some n => rfl
      · rfl
    · rw [setKey, keyWrites, readValue_number]
      · cases stringToUint16 value with
        | none => cases k <;> rfl
        | some n => cases k <;> rfl
      · rfl
  case vlanPcp | ipTos | ipProto | nwSrcLsbWildcard | nwDestLsbWildcard =>
    refine ⟨?_, fun k => ?_⟩
    · rw [setKey, readValue_bounded]
      · split
        · rename_i hval
          rw [hval]
          rfl
        · rename_i val hval
          rw [hval]
          rfl
      · rfl
    · rw [setKey, keyWrites, readValue_bounded]
      · split
        · rename_i hval
          rw [hval]
          cases k <;> rfl
        · rename_i val hval
          -- the number comes back from the eight bits it is kept in
          have hnumber := congrArg (fun n => some (FieldValue.number n)) (toUInt16_toUInt8 (by decide) hval)
          rw [hval]
          cases k <;> first | exact hnumber | rfl
      · rfl
  case dlSrc | dlDest =>
    refine ⟨?_, fun k => ?_⟩
    · rw [setKey, readValue_mac]
      · split
        · rfl
        · rfl
      · rfl
    · rw [setKey, keyWrites, readValue_mac]
      · split
        · cases k <;> rfl
        · cases k <;> rfl
      · rfl
  case nwSrc | nwDest =>
    refine ⟨?_, fun k => ?_⟩
    · rw [setKey, readValue_ip]
      · split
        · rfl
        · rfl
      · rfl
    · rw [setKey, keyWrites, readValue_ip]
      · split
        · cases k <;> rfl
        · cases k <;> rfl
      · rfl

/-! ## Pairs -/

/-- A pair of a known key whose value can be parsed. -/
def isRead (getaddrinfo : Text → Option IpAddress) (kv : KeyValue) : Bool :=
  match Key.ofName kv.1 with
  | none => false
  | some key => key.takes kv.2 && (readValue getaddrinfo key kv.2).isSome

theorem setPair_parsed (m : OfMatch) (kv : KeyValue) :
    (setPair getaddrinfo m kv).1 = isRead getaddrinfo kv := by
  rw [setPair, isRead]
  cases Key.ofName kv.1 with
  | none => rfl
  | some key =>
      dsimp only
      cases key.takes kv.2 with
      | true => exact (sets m kv.2 key).parsed
      | false => rfl

theorem slot_setPair (m : OfMatch) (kv : KeyValue) (k : Key) :
    slot (setPair getaddrinfo m kv).2 k = (writes getaddrinfo kv k).getD (slot m k) := by
  rw [setPair, writes]
  cases Key.ofName kv.1 with
  | none => rfl
  | some key =>
      dsimp only
      cases key.takes kv.2 with
      | true => exact (sets m kv.2 key).slots k
      | false => rfl

/-- **The result** says whether all pairs can be parsed. -/
theorem fromPairs_result (kv : List KeyValue) (result : Bool) (m : OfMatch) :
    (fromPairs getaddrinfo result m kv).1 = (result && kv.all (isRead getaddrinfo)) := by
  induction kv generalizing result m with
  | nil => exact (Bool.and_true result).symm
  | cons p kv ih =>
      have hstep : fromPairs getaddrinfo result m (p :: kv) = fromPairs getaddrinfo
        (result && (setPair getaddrinfo m p).1) (setPair getaddrinfo m p).2 kv := rfl
      rw [hstep, ih, setPair_parsed, List.all_cons, Bool.and_assoc]

/-- **The slots** hold what the pairs put there last. -/
theorem slot_fromPairs (kv : List KeyValue) (result : Bool) (m : OfMatch) (k : Key) :
    slot (fromPairs getaddrinfo result m kv).2 k =
      (lastWrite (writes getaddrinfo) kv k).getD (slot m k) :=
  @slot_foldl _ _ (Bool × OfMatch) _ (writes getaddrinfo) (fun state => slot state.2)
    (fun state p => (state.1 && (setPair getaddrinfo state.2 p).1, (setPair getaddrinfo state.2 p).2))
    (fun state p k => slot_setPair state.2 p k) (result, m) kv k

/-! ## Fields -/

/-- What a field is matched on, if it is not wildcarded. -/
def field (m : OfMatch) : Key → Option FieldValue
  | .nwSrc => if m.wildcardIpSrcLsbCount < 32 then some (.ip m.ipSrcAddress) else none
  | .nwDest => if m.wildcardIpDestLsbCount < 32 then some (.ip m.ipDestAddress) else none
  | key => slot m key

theorem fieldEq_iff {α : Type} [BEq α] [LawfulBEq α] {make : α → FieldValue} (hmake : Function.Injective make)
    (w w' : Bool) (a a' : α) : fieldEq w w' a a' = true ↔
      (if w then none else some (make a)) = if w' then none else some (make a') := by
  cases w with
  | true =>
      cases w' with
      | true => exact iff_of_true rfl rfl
      | false => exact iff_of_false Bool.false_ne_true nofun
  | false =>
      cases w' with
      | true => exact iff_of_false Bool.false_ne_true nofun
      | false =>
          have heq : fieldEq false false a a' = (a == a') := rfl
          rw [heq, beq_iff_eq]
          exact hmake.eq_iff.symm.trans Option.some_inj.symm

theorem number_injective : Function.Injective FieldValue.number := fun _ _ h => FieldValue.number.inj h

theorem mac_injective : Function.Injective FieldValue.mac := fun _ _ h => FieldValue.mac.inj h

theorem ip_injective : Function.Injective FieldValue.ip := fun _ _ h => FieldValue.ip.inj h

/-- A number of eight bits is told from its sixteen. -/
theorem byte_injective : Function.Injective fun n : UInt8 => FieldValue.number n.toUInt16 := by
  intro n n' h
  have hnat := congrArg UInt16.toNat (FieldValue.number.inj h)
  rwa [UInt8.toNat_toUInt16, UInt8.toNat_toUInt16, UInt8.toNat_inj] at hnat

theorem ipFieldEq_iff (n n' : UInt8) (a a' : IpAddress) : ipFieldEq n n' a a' = true ↔
    some (FieldValue.number n.toUInt16) = some (.number n'.toUInt16) ∧
      (if n < 32 then some (FieldValue.ip a) else none) = if n' < 32 then some (.ip a') else none := by
  rw [ipFieldEq, Bool.and_eq_true, beq_iff_eq, Option.some_inj, byte_injective.eq_iff]
  refine and_congr_right fun hn => ?_
  subst hn
  by_cases hlt : n < 32
  · rw [if_pos hlt, if_pos hlt, decide_eq_true hlt, Option.some_inj, ip_injective.eq_iff]
    exact beq_iff_eq
  · rw [if_neg hlt, if_neg hlt, decide_eq_false hlt]
    exact iff_of_true rfl rfl

/-- **Two matches are equal** if they are on the same fields. -/
theorem beq_iff_field (m m' : OfMatch) : (m == m') = true ↔ ∀ k, field m k = field m' k := by
  have hbeq : (m == m') = OfMatch.beq m m' := rfl
  rw [hbeq, OfMatch.beq]
  simp only [Bool.and_eq_true, and_assoc]
  rw [fieldEq_iff number_injective m.wildcardInPort, fieldEq_iff mac_injective m.wildcardEthernetSrc,
    fieldEq_iff mac_injective m.wildcardEthernetDest, fieldEq_iff number_injective m.wildcardVlanId,
    fieldEq_iff byte_injective m.wildcardVlanPcp, fieldEq_iff number_injective m.wildcardEthernetFrameType,
    fieldEq_iff byte_injective m.wildcardIpTypeOfService, fieldEq_iff byte_injective m.wildcardIpProtocol,
    ipFieldEq_iff m.wildcardIpSrcLsbCount, ipFieldEq_iff m.wildcardIpDestLsbCount,
    fieldEq_iff number_injective m.wildcardTcpudpSrcPort,
      fieldEq_iff number_injective m.wildcardTcpudpDestPort]
  refine ⟨fun h k => ?_, fun h => ?_⟩
  · obtain ⟨hin, hsrc, hdest, hvlan, hpcp, htype, htos, hproto, ⟨hsc, hs⟩, ⟨hdc, hd⟩, hsp, hdp⟩ := h
    cases k <;> assumption
  · exact ⟨h .inPort, h .dlSrc, h .dlDest, h .vlanId, h .vlanPcp, h .ethertype, h .ipTos, h .ipProto,
      ⟨h .nwSrcLsbWildcard, h .nwSrc⟩, ⟨h .nwDestLsbWildcard, h .nwDest⟩, h .srcPort, h .destPort⟩

end MatchParser

end IronStack.Proof

import IronStack.Lib.Bits
import IronStack.OpenFlow.MatchCodec

/-!
# What survives the wire of an `of_match`

The fields and the flags of an `of_match` come back as they were sent. The counts
of ignored bits do not: they are written at bits 8 and 14 of the wildcard word, but
read back by shifting it by 6, the width of a count. A source count comes back
four times too large, a destination count as 0; only the counts 0 and 32, which
has a bit of its own, are right.
-/

namespace IronStack.Proof

open IronStack Lib OfMatch

/-! ## The wildcard word -/

/-- The word of a flag that is set, or not. -/
def flagBits (flag : Bool) (bit : UInt32) : UInt32 := if flag then bit else 0

/-- The fields of the wildcard word, each with its mask. -/
def wildcardFields (m : OfMatch) : List (UInt32 × UInt32) :=
  [(flagBits m.wildcardInPort Ofpfw.inPort, Ofpfw.inPort),
    (flagBits m.wildcardEthernetSrc Ofpfw.dlSrc, Ofpfw.dlSrc),
    (flagBits m.wildcardEthernetDest Ofpfw.dlDst, Ofpfw.dlDst),
    (flagBits m.wildcardVlanId Ofpfw.dlVlan, Ofpfw.dlVlan),
    (flagBits m.wildcardVlanPcp Ofpfw.dlVlanPcp, Ofpfw.dlVlanPcp),
    (flagBits m.wildcardEthernetFrameType Ofpfw.dlType, Ofpfw.dlType),
    (flagBits m.wildcardIpTypeOfService Ofpfw.nwTos, Ofpfw.nwTos),
    (flagBits m.wildcardIpProtocol Ofpfw.nwProto, Ofpfw.nwProto),
    (lsbsToWildcard m.wildcardIpSrcLsbCount <<< Ofpfw.nwSrcShift, Ofpfw.nwSrcMask),
    (lsbsToWildcard m.wildcardIpDestLsbCount <<< Ofpfw.nwDstShift, Ofpfw.nwDstMask),
    (flagBits m.wildcardTcpudpSrcPort Ofpfw.tpSrc, Ofpfw.tpSrc),
    (flagBits m.wildcardTcpudpDestPort Ofpfw.tpDst, Ofpfw.tpDst)]

theorem flagBits_and (flag : Bool) (bit : UInt32) : flagBits flag bit &&& bit = flagBits flag bit := by
  cases flag with
  | false => exact UInt32.zero_and
  | true => exact UInt32.and_self

theorem wildcards_eq_pack (m : OfMatch) : m.wildcards = packFields (wildcardFields m) := by
  simp only [packFields, wildcardFields, List.foldl_cons, List.foldl_nil, flagBits_and]
  rfl

/-- No two fields of the wildcard word share a bit. -/
theorem wildcardFields_disjoint (m : OfMatch) :
    (wildcardFields m).Pairwise fun f g => f.2 &&& g.2 = 0 := by
  have hmasks : ((wildcardFields m).map Prod.snd).Pairwise fun a b => a &&& b = 0 := by
    change [Ofpfw.inPort, Ofpfw.dlSrc, Ofpfw.dlDst, Ofpfw.dlVlan, Ofpfw.dlVlanPcp, Ofpfw.dlType,
      Ofpfw.nwTos, Ofpfw.nwProto, Ofpfw.nwSrcMask, Ofpfw.nwDstMask, Ofpfw.tpSrc,
      Ofpfw.tpDst].Pairwise fun a b => a &&& b = 0
    decide
  exact List.pairwise_map.mp hmasks

theorem wildcards_and {m : OfMatch} {f : UInt32 × UInt32} (hf : f ∈ wildcardFields m) :
    m.wildcards &&& f.2 = f.1 &&& f.2 := by
  rw [wildcards_eq_pack, packFields_and (wildcardFields_disjoint m) hf]

/-- A flag is read back as it was written. -/
theorem hasFlag_wildcards {m : OfMatch} {flag : Bool} {bit : UInt32} (hbit : bit > 0)
    (hf : (flagBits flag bit, bit) ∈ wildcardFields m) : hasFlag m.wildcards bit = flag := by
  unfold hasFlag
  rw [wildcards_and hf, flagBits_and]
  cases flag with
  | false => rfl
  | true => exact decide_eq_true hbit

/-! ## The counts of ignored bits -/

/-- What becomes of a count between its field of the wildcard word and the match read back. -/
def recount (shift all mask bits : UInt32) (count : UInt8) : UInt8 :=
  lsbCount ((lsbsToWildcard count <<< shift) &&& mask) all mask bits

/-- A count is read from its own field alone. -/
theorem lsbCount_wildcards {m : OfMatch} {count : UInt8} {shift all mask bits : UInt32}
    (hall : mask &&& all = all) (hf : (lsbsToWildcard count <<< shift, mask) ∈ wildcardFields m) :
    lsbCount m.wildcards all mask bits = recount shift all mask bits count := by
  have hmask := wildcards_and hf
  have hall' : m.wildcards &&& all = (lsbsToWildcard count <<< shift) &&& mask &&& all := by
    rw [← hmask, UInt32.and_assoc, hall]
  unfold recount lsbCount
  rw [hall', hmask, UInt32.and_assoc (lsbsToWildcard count <<< shift) mask mask, UInt32.and_self]

/-- The source count comes back times four, the destination count as nothing, but all 32 bits
come back as 32. -/
theorem recount_values {count : UInt8} (h : count ≤ 32) :
    recount Ofpfw.nwSrcShift Ofpfw.nwSrcAll Ofpfw.nwSrcMask Ofpfw.nwSrcBits count =
        (if count = 32 then 32 else 4 * count) ∧
      recount Ofpfw.nwDstShift Ofpfw.nwDstAll Ofpfw.nwDstMask Ofpfw.nwDstBits count =
        (if count = 32 then 32 else 0) := by
  have hall : ∀ n : Fin 33,
      recount Ofpfw.nwSrcShift Ofpfw.nwSrcAll Ofpfw.nwSrcMask Ofpfw.nwSrcBits (UInt8.ofNat n) =
          (if UInt8.ofNat n = 32 then 32 else 4 * UInt8.ofNat n) ∧
        recount Ofpfw.nwDstShift Ofpfw.nwDstAll Ofpfw.nwDstMask Ofpfw.nwDstBits (UInt8.ofNat n) =
          (if UInt8.ofNat n = 32 then 32 else 0) := by
    decide
  have hlt : count.toNat < 33 := Nat.lt_succ_of_le (UInt8.le_iff_toNat_le.mp h)
  simpa using hall ⟨count.toNat, hlt⟩

/-! ## The round trip -/

theorem length_serialize (m : OfMatch) : m.serialize.length = wireSize := by
  simp [serialize, wireSize]

/-- The match read back, for one that was written. -/
def reread (m : OfMatch) : OfMatch :=
  { m with
    wildcardIpSrcLsbCount := recount Ofpfw.nwSrcShift Ofpfw.nwSrcAll Ofpfw.nwSrcMask
      Ofpfw.nwSrcBits m.wildcardIpSrcLsbCount
    wildcardIpDestLsbCount := recount Ofpfw.nwDstShift Ofpfw.nwDstAll Ofpfw.nwDstMask
      Ofpfw.nwDstBits m.wildcardIpDestLsbCount }

/-- Every field and every flag is read as it was written; the counts are read anew. -/
theorem deserialize_serialize (m : OfMatch) : deserialize m.serialize = .ok (some (reread m)) := by
  have hsrc : lsbCount m.wildcards Ofpfw.nwSrcAll Ofpfw.nwSrcMask Ofpfw.nwSrcBits =
      recount Ofpfw.nwSrcShift Ofpfw.nwSrcAll Ofpfw.nwSrcMask Ofpfw.nwSrcBits
        m.wildcardIpSrcLsbCount :=
    lsbCount_wildcards (by decide) (by simp [wildcardFields])
  have hdst : lsbCount m.wildcards Ofpfw.nwDstAll Ofpfw.nwDstMask Ofpfw.nwDstBits =
      recount Ofpfw.nwDstShift Ofpfw.nwDstAll Ofpfw.nwDstMask Ofpfw.nwDstBits
        m.wildcardIpDestLsbCount :=
    lsbCount_wildcards (by decide) (by simp [wildcardFields])
  have hflag : ∀ flag bit, bit > 0 → (flagBits flag bit, bit) ∈ wildcardFields m →
      hasFlag m.wildcards bit = flag := fun _ _ => hasFlag_wildcards
  unfold deserialize
  rw [if_neg (by rw [length_serialize]; exact Nat.lt_irrefl _)]
  simp (disch := simp) only [serialize, readU8_append_right, readU16_append_right,
    readVec_append_right, readU32_be32, readU16_be16, readU16_be16_self, readVec_toList, readU8_cons,
    List.cons_append, List.nil_append, readU8_cons_succ, readU16_cons_succ, readVec_cons_succ,
    length_be16, length_be32, Vector.length_toList, Nat.reduceSub, Nat.sub_self, ok_bind, hsrc, hdst]
  rw [hflag m.wildcardInPort _ (by decide) (by simp [wildcardFields]),
    hflag m.wildcardEthernetSrc _ (by decide) (by simp [wildcardFields]),
    hflag m.wildcardEthernetDest _ (by decide) (by simp [wildcardFields]),
    hflag m.wildcardVlanId _ (by decide) (by simp [wildcardFields]),
    hflag m.wildcardVlanPcp _ (by decide) (by simp [wildcardFields]),
    hflag m.wildcardEthernetFrameType _ (by decide) (by simp [wildcardFields]),
    hflag m.wildcardIpTypeOfService _ (by decide) (by simp [wildcardFields]),
    hflag m.wildcardIpProtocol _ (by decide) (by simp [wildcardFields]),
    hflag m.wildcardTcpudpSrcPort _ (by decide) (by simp [wildcardFields]),
    hflag m.wildcardTcpudpDestPort _ (by decide) (by simp [wildcardFields])]
  rfl

/-- Four times a count is the count again only if it is 0. -/
theorem four_mul_eq_iff {count : UInt8} (h : count ≤ 32) : 4 * count = count ↔ count = 0 := by
  have hle : count.toNat ≤ 32 := UInt8.le_iff_toNat_le.mp h
  have hmul : (4 * count).toNat = 4 * count.toNat := by
    rw [UInt8.toNat_mul]
    exact Nat.mod_eq_of_lt (show 4 * count.toNat < 2 ^ 8 by omega)
  rw [← UInt8.toNat_inj, hmul, ← UInt8.toNat_inj (b := 0)]
  change 4 * count.toNat = count.toNat ↔ count.toNat = 0
  omega

theorem reread_eq_iff {m : OfMatch} (hsrc : m.wildcardIpSrcLsbCount ≤ 32)
    (hdst : m.wildcardIpDestLsbCount ≤ 32) :
    reread m = m ↔ (m.wildcardIpSrcLsbCount = 0 ∨ m.wildcardIpSrcLsbCount = 32) ∧
      (m.wildcardIpDestLsbCount = 0 ∨ m.wildcardIpDestLsbCount = 32) := by
  have hsame : reread m = m ↔
      (reread m).wildcardIpSrcLsbCount = m.wildcardIpSrcLsbCount ∧
        (reread m).wildcardIpDestLsbCount = m.wildcardIpDestLsbCount := by
    refine ⟨fun h => by rw [h]; exact ⟨rfl, rfl⟩, ?_⟩
    intro ⟨hs, hd⟩
    cases m
    simp only [reread, OfMatch.mk.injEq, true_and, and_true] at hs hd ⊢
    exact ⟨hs, hd⟩
  rw [hsame]
  refine and_congr ?_ ?_
  · rw [show (reread m).wildcardIpSrcLsbCount = _ from (recount_values hsrc).1]
    by_cases h32 : m.wildcardIpSrcLsbCount = 32
    · simp [h32]
    · rw [if_neg h32, four_mul_eq_iff hsrc]
      simp [h32]
  · rw [show (reread m).wildcardIpDestLsbCount = _ from (recount_values hdst).2]
    by_cases h32 : m.wildcardIpDestLsbCount = 32
    · simp [h32]
    · rw [if_neg h32]
      simp [h32, eq_comm]

/--
**The round trip of an `of_match`.** A match with counts of at most 32 is written
in 40 bytes, and read back as it was exactly when each of its counts is 0 or 32.
-/
theorem match_round_trip_iff {m : OfMatch} (hsrc : m.wildcardIpSrcLsbCount ≤ 32)
    (hdst : m.wildcardIpDestLsbCount ≤ 32) :
    m.serialize.length = 40 ∧ (deserialize m.serialize = .ok (some m) ↔
      (m.wildcardIpSrcLsbCount = 0 ∨ m.wildcardIpSrcLsbCount = 32) ∧
        (m.wildcardIpDestLsbCount = 0 ∨ m.wildcardIpDestLsbCount = 32)) := by
  refine ⟨length_serialize m, ?_⟩
  rw [deserialize_serialize, ← reread_eq_iff hsrc hdst, Except.ok.injEq, Option.some.injEq]

/-- The match that wildcards everything survives. -/
theorem wildcardAll_round_trip :
    deserialize (OfMatch.clear.wildcardAll).serialize = .ok (some OfMatch.clear.wildcardAll) :=
  (match_round_trip_iff (by decide) (by decide)).2.mpr (by decide)

/-- A match on a source network of 24 bits. -/
def sourceNetwork : OfMatch := { OfMatch.clear with wildcardIpSrcLsbCount := 8 }

/-- It is read back as one that ignores 32 bits. -/
theorem sourceNetwork_widened : deserialize sourceNetwork.serialize ≠ .ok (some sourceNetwork) := by
  rw [deserialize_serialize]
  intro h
  have hm : reread sourceNetwork = sourceNetwork := Option.some.inj (Except.ok.inj h)
  have hcount : (reread sourceNetwork).wildcardIpSrcLsbCount = 8 := by
    rw [hm]
    rfl
  exact absurd hcount (by decide)

end IronStack.Proof

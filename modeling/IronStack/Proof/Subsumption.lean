import IronStack.Lib.Bits
import IronStack.OpenFlow.Subset

/-!
# Subsumption of matches, and what the code makes of it

One match subsumes another when it accepts every packet the other accepts. Field
by field this comes to a comparison of wildcards and values, and for an address,
of which only the high bits count, to a comparison of two prefixes.

`operator<` has the fields right and the addresses wrong, in two ways. It compares
as many bits as the narrower match looks at, where those of the wider one would
do, and it counts them from the low end of each octet, where the ignored bits are
the low bits of the address as a whole. And where the other match looks at more
bits it compares nothing at all, and lets the address pass.
-/

namespace IronStack.Proof

open IronStack Lib OfMatch

/-! ## What a match means -/

/-- The twelve fields of a packet that OpenFlow 1.0 matches on. -/
structure PacketHeader where
  inPort : UInt16
  ethernetSrc : MacAddress
  ethernetDest : MacAddress
  vlanId : UInt16
  vlanPcp : UInt8
  ethernetFrameType : UInt16
  ipTypeOfService : UInt8
  ipProtocol : UInt8
  ipSrcAddress : IpAddress
  ipDestAddress : IpAddress
  tcpudpSrcPort : UInt16
  tcpudpDestPort : UInt16

/-- A field accepts a value: it is wildcarded, or has that value. -/
def Accepts {α : Type} (wildcard : Bool) (field value : α) : Prop := wildcard = true ∨ field = value

/-- An address as a number. -/
def addressValue (a : IpAddress) : Nat := ofBE a.octets.toList

/-- An address field accepts an address: they agree on all but the ignored low bits. -/
def IpAccepts (count : UInt8) (field address : IpAddress) : Prop :=
  SamePrefix count.toNat (addressValue field) (addressValue address)

instance (count : UInt8) (field address : IpAddress) : Decidable (IpAccepts count field address) :=
  inferInstanceAs (Decidable (SamePrefix _ _ _))

/-- A match accepts a packet, addresses aside. -/
structure MatchesBesidesIp (m : OfMatch) (p : PacketHeader) : Prop where
  inPort : Accepts m.wildcardInPort m.inPort p.inPort
  ethernetSrc : Accepts m.wildcardEthernetSrc m.ethernetSrc p.ethernetSrc
  ethernetDest : Accepts m.wildcardEthernetDest m.ethernetDest p.ethernetDest
  vlanId : Accepts m.wildcardVlanId m.vlanId p.vlanId
  vlanPcp : Accepts m.wildcardVlanPcp m.vlanPcp p.vlanPcp
  ethernetFrameType :
    Accepts m.wildcardEthernetFrameType m.ethernetFrameType p.ethernetFrameType
  ipTypeOfService : Accepts m.wildcardIpTypeOfService m.ipTypeOfService p.ipTypeOfService
  ipProtocol : Accepts m.wildcardIpProtocol m.ipProtocol p.ipProtocol
  tcpudpSrcPort : Accepts m.wildcardTcpudpSrcPort m.tcpudpSrcPort p.tcpudpSrcPort
  tcpudpDestPort : Accepts m.wildcardTcpudpDestPort m.tcpudpDestPort p.tcpudpDestPort

/-- A match accepts a packet. -/
structure Matches (m : OfMatch) (p : PacketHeader) : Prop where
  besides : MatchesBesidesIp m p
  src : IpAccepts m.wildcardIpSrcLsbCount m.ipSrcAddress p.ipSrcAddress
  dest : IpAccepts m.wildcardIpDestLsbCount m.ipDestAddress p.ipDestAddress

/-- Every packet that `a` accepts, `b` accepts. -/
def Subsumed (a b : OfMatch) : Prop := ∀ p, Matches a p → Matches b p

/-! ## Field by field -/

/-- Over a type with two values, the clause of `operator<` for a field is what it should be. -/
theorem forall_accepts_iff {α : Type} [DecidableEq α] [Nontrivial α] {w w' : Bool} {v v' : α} :
    (∀ x, Accepts w v x → Accepts w' v' x) ↔ fieldSubset w w' v v' = true := by
  have hclause : fieldSubset w w' v v' = true ↔ w' = true ∨ (w = false ∧ v = v') := by
    cases w <;> cases w' <;> simp [fieldSubset]
  rw [hclause]
  refine ⟨?_, ?_⟩
  · intro h
    cases hw' : w' with
    | true => exact Or.inl rfl
    | false =>
        refine Or.inr ?_
        have hvalue : ∀ x, Accepts w v x → v' = x := fun x hx => by simpa [Accepts, hw'] using h x hx
        cases hw : w with
        | false => exact ⟨rfl, (hvalue v (Or.inr rfl)).symm⟩
        | true =>
            -- a wildcard accepts a second value
            obtain ⟨x, hx⟩ := exists_ne v'
            exact absurd (hvalue x (Or.inl hw)).symm hx
  · intro h x hx
    rcases h with hw' | ⟨hw, rfl⟩
    · exact Or.inl hw'
    · exact Or.inr (hx.resolve_left (by simp [hw]))

theorem addressValue_lt (a : IpAddress) : addressValue a < 2 ^ 32 := by
  have h := ofBE_lt a.octets.toList
  rw [Vector.length_toList] at h
  exact h

/-- Every number of 32 bits is an address. -/
theorem exists_address {x : Nat} (hx : x < 2 ^ 32) : ∃ a, addressValue a = x :=
  ⟨⟨⟨(toBE 4 x).toArray, by simp⟩⟩, ofBE_toBE hx⟩

/-- When one address field covers another. -/
theorem forall_ipAccepts_iff {n n' : UInt8} {a a' : IpAddress} (hn : n ≤ 32) :
    (∀ x, IpAccepts n a x → IpAccepts n' a' x) ↔ n ≤ n' ∧ IpAccepts n' a' a := by
  rw [UInt8.le_iff_toNat_le]
  unfold IpAccepts
  rw [← forall_samePrefix_iff (addressValue_lt a) (UInt8.le_iff_toNat_le.mp hn)]
  refine ⟨?_, fun h x => h _ (addressValue_lt x)⟩
  intro h x hx
  obtain ⟨y, rfl⟩ := exists_address hx
  exact h y

/-- The packet with the values of a match in its fields. -/
def ownHeader (m : OfMatch) : PacketHeader where
  inPort := m.inPort
  ethernetSrc := m.ethernetSrc
  ethernetDest := m.ethernetDest
  vlanId := m.vlanId
  vlanPcp := m.vlanPcp
  ethernetFrameType := m.ethernetFrameType
  ipTypeOfService := m.ipTypeOfService
  ipProtocol := m.ipProtocol
  ipSrcAddress := m.ipSrcAddress
  ipDestAddress := m.ipDestAddress
  tcpudpSrcPort := m.tcpudpSrcPort
  tcpudpDestPort := m.tcpudpDestPort

theorem matchesBesidesIp_own (m : OfMatch) : MatchesBesidesIp m (ownHeader m) :=
  ⟨Or.inr rfl, Or.inr rfl, Or.inr rfl, Or.inr rfl, Or.inr rfl, Or.inr rfl, Or.inr rfl, Or.inr rfl,
    Or.inr rfl, Or.inr rfl⟩

instance : Nontrivial MacAddress := ⟨MacAddress.nil, MacAddress.broadcast, by decide⟩

instance nontrivialUInt16 : Nontrivial UInt16 := ⟨0, 1, by decide⟩

instance nontrivialUInt8 : Nontrivial UInt8 := ⟨0, 1, by decide⟩

/-- Addresses aside, `operator<` decides subsumption. -/
theorem forall_matchesBesidesIp_iff {a b : OfMatch} :
    (∀ p, MatchesBesidesIp a p → MatchesBesidesIp b p) ↔
      (a.linkSubset b && a.portSubset b) = true := by
  simp only [linkSubset, portSubset, Bool.and_eq_true, ← forall_accepts_iff]
  refine ⟨?_, ?_⟩
  · intro h
    have own := matchesBesidesIp_own a
    -- one field varies, the others keep the values of `a`
    refine ⟨⟨⟨⟨⟨⟨⟨⟨?_, ?_⟩, ?_⟩, ?_⟩, ?_⟩, ?_⟩, ?_⟩, ?_⟩, ?_, ?_⟩ <;> intro x hx
    · exact (h { ownHeader a with inPort := x } { own with inPort := hx }).inPort
    · exact (h { ownHeader a with ethernetSrc := x } { own with ethernetSrc := hx }).ethernetSrc
    · exact (h { ownHeader a with ethernetDest := x } { own with ethernetDest := hx }).ethernetDest
    · exact (h { ownHeader a with vlanId := x } { own with vlanId := hx }).vlanId
    · exact (h { ownHeader a with vlanPcp := x } { own with vlanPcp := hx }).vlanPcp
    · exact (h { ownHeader a with ethernetFrameType := x }
        { own with ethernetFrameType := hx }).ethernetFrameType
    · exact (h { ownHeader a with ipTypeOfService := x }
        { own with ipTypeOfService := hx }).ipTypeOfService
    · exact (h { ownHeader a with ipProtocol := x } { own with ipProtocol := hx }).ipProtocol
    · exact (h { ownHeader a with tcpudpSrcPort := x } { own with tcpudpSrcPort := hx }).tcpudpSrcPort
    · exact (h { ownHeader a with tcpudpDestPort := x }
        { own with tcpudpDestPort := hx }).tcpudpDestPort
  · intro h p hp
    obtain ⟨⟨⟨⟨⟨⟨⟨⟨h1, h2⟩, h3⟩, h4⟩, h5⟩, h6⟩, h7⟩, h8⟩, h9, h10⟩ := h
    exact ⟨h1 _ hp.inPort, h2 _ hp.ethernetSrc, h3 _ hp.ethernetDest, h4 _ hp.vlanId,
      h5 _ hp.vlanPcp, h6 _ hp.ethernetFrameType, h7 _ hp.ipTypeOfService, h8 _ hp.ipProtocol,
      h9 _ hp.tcpudpSrcPort, h10 _ hp.tcpudpDestPort⟩

theorem subsumed_iff {a b : OfMatch} (hsrc : a.wildcardIpSrcLsbCount ≤ 32)
    (hdest : a.wildcardIpDestLsbCount ≤ 32) :
    Subsumed a b ↔ (a.linkSubset b && a.portSubset b) = true ∧
      (a.wildcardIpSrcLsbCount ≤ b.wildcardIpSrcLsbCount ∧
        IpAccepts b.wildcardIpSrcLsbCount b.ipSrcAddress a.ipSrcAddress) ∧
      (a.wildcardIpDestLsbCount ≤ b.wildcardIpDestLsbCount ∧
        IpAccepts b.wildcardIpDestLsbCount b.ipDestAddress a.ipDestAddress) := by
  rw [← forall_matchesBesidesIp_iff, ← forall_ipAccepts_iff hsrc, ← forall_ipAccepts_iff hdest]
  refine ⟨?_, ?_⟩
  · intro h
    have own : Matches a (ownHeader a) := ⟨matchesBesidesIp_own a, .refl _ _, .refl _ _⟩
    refine ⟨?_, ?_, ?_⟩
    · intro p hp
      -- the packet with these fields and the addresses of `a`
      have hbesides : MatchesBesidesIp b
          { p with ipSrcAddress := a.ipSrcAddress, ipDestAddress := a.ipDestAddress } :=
        (h { p with ipSrcAddress := a.ipSrcAddress, ipDestAddress := a.ipDestAddress }
          ⟨{ hp with }, .refl _ _, .refl _ _⟩).besides
      exact { hbesides with }
    · intro x hx
      exact (h { ownHeader a with ipSrcAddress := x } ⟨{ own.besides with }, hx, own.dest⟩).src
    · intro x hx
      exact (h { ownHeader a with ipDestAddress := x } ⟨{ own.besides with }, own.src, hx⟩).dest
  · intro ⟨hbesides, hs, hd⟩ p hp
    exact ⟨hbesides p hp.besides, hs _ hp.src, hd _ hp.dest⟩

/-! ## What the code compares of an address -/

/-- The bit of an address that the loop reads. -/
def lowBit (a : IpAddress) (counter : Nat) : UInt8 :=
  a.octets.toList.getD (counter / 8) 0 &&& ((1 : UInt8) <<< UInt8.ofNat (counter % 8))

/-- The bits the loop compares are the same: as many as the first match looks at, from the low end
of each octet. -/
def SameLowBits (count : UInt8) (a a' : IpAddress) : Prop :=
  ∀ counter, counter < 32 - count.toNat → lowBit a counter = lowBit a' counter

instance (count : UInt8) (a a' : IpAddress) : Decidable (SameLowBits count a a') :=
  inferInstanceAs (Decidable (∀ counter, counter < 32 - count.toNat → _))

theorem addressBit_eq (a : IpAddress) {counter : Nat} (h : counter < 32) :
    addressBit a.octets.toList counter = .ok (lowBit a counter) := by
  have hlt : counter / 8 < a.octets.toList.length := by
    rw [Vector.length_toList]
    omega
  unfold addressBit lowBit
  rw [readU8_of_lt hlt, ok_bind, List.getD_eq_getElem?_getD, List.getElem?_eq_getElem hlt]
  rfl

theorem sameBits_eq (a a' : IpAddress) {counters : List Nat} (h : ∀ c ∈ counters, c < 32) :
    sameBits a.octets.toList a'.octets.toList counters =
      .ok (decide (∀ c ∈ counters, lowBit a c = lowBit a' c)) := by
  induction counters with
  | nil => rfl
  | cons c counters ih =>
      have hc := h c List.mem_cons_self
      rw [sameBits, addressBit_eq a hc, addressBit_eq a' hc, ok_bind, ok_bind,
        ih fun c' hc' => h c' (List.mem_cons_of_mem _ hc')]
      by_cases heq : lowBit a c = lowBit a' c
      · simp [heq]
      · simp [heq]

theorem ipSubset_eq {n n' : UInt8} (hn : n ≤ 32) (a a' : IpAddress) :
    ipSubset n n' a a' = .ok (decide (n ≤ n' → SameLowBits n a a')) := by
  have hsize : (32 - n : UInt8).toNat = 32 - n.toNat := by
    rw [UInt8.toNat_sub_of_le _ _ hn]
    rfl
  unfold ipSubset
  by_cases hle : n ≤ n'
  · rw [if_pos hle]
    dsimp only
    rw [sameBits_eq a a' (fun c hc => by
      rw [List.mem_range, hsize] at hc
      omega)]
    simp only [List.mem_range, hsize, SameLowBits, hle, forall_const]
  · rw [if_neg hle]
    simp [hle]

/-- `operator<` in full. -/
theorem subset_eq {a b : OfMatch} (hsrc : a.wildcardIpSrcLsbCount ≤ 32)
    (hdest : a.wildcardIpDestLsbCount ≤ 32) :
    a.subset b = .ok (a.linkSubset b && a.portSubset b &&
      decide (a.wildcardIpSrcLsbCount ≤ b.wildcardIpSrcLsbCount →
        SameLowBits a.wildcardIpSrcLsbCount a.ipSrcAddress b.ipSrcAddress) &&
      decide (a.wildcardIpDestLsbCount ≤ b.wildcardIpDestLsbCount →
        SameLowBits a.wildcardIpDestLsbCount a.ipDestAddress b.ipDestAddress)) := by
  unfold OfMatch.subset
  rw [ipSubset_eq hsrc, ipSubset_eq hdest]
  generalize decide (a.wildcardIpSrcLsbCount ≤ b.wildcardIpSrcLsbCount →
    SameLowBits a.wildcardIpSrcLsbCount a.ipSrcAddress b.ipSrcAddress) = src
  generalize decide (a.wildcardIpDestLsbCount ≤ b.wildcardIpDestLsbCount →
    SameLowBits a.wildcardIpDestLsbCount a.ipDestAddress b.ipDestAddress) = dest
  cases a.linkSubset b <;> cases a.portSubset b <;> cases src <;> cases dest <;> rfl

/-! ## The verdicts on an address field -/

section Verdicts

variable (n n' : UInt8) (a a' : IpAddress)

/-- The other match looks at no more bits, and both the high bits and those compared agree. -/
def AddressAgrees : Prop := n ≤ n' ∧ IpAccepts n' a' a ∧ SameLowBits n a a'

/-- The other match looks at no more bits, and neither the high bits nor those compared agree. -/
def AddressDiffers : Prop := n ≤ n' ∧ ¬ IpAccepts n' a' a ∧ ¬ SameLowBits n a a'

/-- The other match looks at more bits, or at others than agree. -/
def AddressPasses : Prop := n' < n ∨ (¬ IpAccepts n' a' a ∧ SameLowBits n a a')

/-- The high bits agree, but those compared do not. -/
def AddressFails : Prop := n ≤ n' ∧ IpAccepts n' a' a ∧ ¬ SameLowBits n a a'

end Verdicts

/-- A verdict on the source addresses of two matches. -/
def AtSrc (verdict : UInt8 → UInt8 → IpAddress → IpAddress → Prop) (a b : OfMatch) : Prop :=
  verdict a.wildcardIpSrcLsbCount b.wildcardIpSrcLsbCount a.ipSrcAddress b.ipSrcAddress

/-- A verdict on the destination addresses of two matches. -/
def AtDest (verdict : UInt8 → UInt8 → IpAddress → IpAddress → Prop) (a b : OfMatch) : Prop :=
  verdict a.wildcardIpDestLsbCount b.wildcardIpDestLsbCount a.ipDestAddress b.ipDestAddress

/--
Where `operator<` is right: where a field other than the addresses tells the two
matches apart anyway; where an address rightly does; where neither address does, and
rightly; and where one address is wrongly passed and the other wrongly failed.
-/
def SubsetGuard (a b : OfMatch) : Prop :=
  (∃ p, Matches a p ∧ ¬ MatchesBesidesIp b p) ∨
    AtSrc AddressDiffers a b ∨ AtDest AddressDiffers a b ∨
    (AtSrc AddressAgrees a b ∧ AtDest AddressAgrees a b) ∨
    (AtSrc AddressPasses a b ∧ AtDest AddressFails a b) ∨
    (AtSrc AddressFails a b ∧ AtDest AddressPasses a b)

/-- A field other than the addresses tells two matches apart exactly if `operator<` says so. -/
theorem apart_iff {a b : OfMatch} :
    (∃ p, Matches a p ∧ ¬ MatchesBesidesIp b p) ↔
      ¬ (a.linkSubset b && a.portSubset b) = true := by
  rw [← forall_matchesBesidesIp_iff]
  refine ⟨?_, ?_⟩
  · intro ⟨p, hp, hnot⟩ hall
    exact hnot (hall p hp.besides)
  · intro hnot
    by_contra hno
    refine hnot fun p hp => ?_
    by_contra hb
    refine hno ⟨{ p with ipSrcAddress := a.ipSrcAddress, ipDestAddress := a.ipDestAddress },
      ⟨{ hp with }, .refl _ _, .refl _ _⟩, fun h => hb { h with }⟩

/-- The verdicts of the code and of the meaning agree, by what each says of either address. -/
theorem verdicts_agree_iff (N P Q L P' Q' L' : Prop) :
    ((N ∧ (P → L) ∧ (P' → L')) ↔ (N ∧ (P ∧ Q) ∧ P' ∧ Q')) ↔
      (¬ N ∨ (P ∧ ¬ Q ∧ ¬ L) ∨ (P' ∧ ¬ Q' ∧ ¬ L') ∨ ((P ∧ Q ∧ L) ∧ P' ∧ Q' ∧ L') ∨
        ((¬ P ∨ (¬ Q ∧ L)) ∧ P' ∧ Q' ∧ ¬ L') ∨ ((P ∧ Q ∧ ¬ L) ∧ (¬ P' ∨ (¬ Q' ∧ L')))) := by
  grind

/--
**When `operator<` is subsumption.** On matches with counts of at most 32 it
returns, and it says that `a` is a subset of `b` exactly when every packet `a`
accepts is one `b` accepts, if and only if `SubsetGuard` holds of them.
-/
theorem subset_iff_subsumed_iff {a b : OfMatch} (hsrc : a.wildcardIpSrcLsbCount ≤ 32)
    (hdest : a.wildcardIpDestLsbCount ≤ 32) :
    ∃ result, a.subset b = .ok result ∧
      ((result = true ↔ Subsumed a b) ↔ SubsetGuard a b) := by
  refine ⟨_, subset_eq hsrc hdest, ?_⟩
  rw [subsumed_iff hsrc hdest]
  unfold SubsetGuard AtSrc AtDest AddressDiffers AddressAgrees AddressPasses AddressFails
  rw [apart_iff, ← UInt8.not_le, ← UInt8.not_le, ← verdicts_agree_iff, Bool.and_eq_true,
    Bool.and_eq_true, decide_eq_true_eq, decide_eq_true_eq, and_assoc]

/-- A match on one packet is subsumed by the match on all, and the code says so. -/
theorem subset_of_wildcardAll : ∃ result, OfMatch.clear.subset OfMatch.clear.wildcardAll = .ok result ∧
    (result = true ↔ Subsumed OfMatch.clear OfMatch.clear.wildcardAll) := by
  obtain ⟨result, heq, hiff⟩ := subset_iff_subsumed_iff (a := OfMatch.clear)
    (b := OfMatch.clear.wildcardAll) (by decide) (by decide)
  refine ⟨result, heq, hiff.mpr ?_⟩
  have hagrees : AddressAgrees 0 32 IpAddress.nil IpAddress.nil :=
    ⟨by decide, .refl _ _, fun _ _ => rfl⟩
  exact Or.inr (Or.inr (Or.inr (Or.inl ⟨hagrees, hagrees⟩)))

/-- A source address, with some low bits ignored. -/
def fromNetwork (count : UInt8) (octets : Vector UInt8 4) : OfMatch :=
  { OfMatch.clear with wildcardIpSrcLsbCount := count, ipSrcAddress := ⟨octets⟩ }

/--
Packets from anywhere are taken for a subset of those from 10.0.0.0/24, and those
from 10.0.0.1 are not.
-/
theorem subset_misjudges :
    ((fromNetwork 32 #v[0, 0, 0, 0]).subset (fromNetwork 8 #v[10, 0, 0, 0]) = .ok true ∧
      ¬ Subsumed (fromNetwork 32 #v[0, 0, 0, 0]) (fromNetwork 8 #v[10, 0, 0, 0])) ∧
    ((fromNetwork 0 #v[10, 0, 0, 1]).subset (fromNetwork 8 #v[10, 0, 0, 0]) = .ok false ∧
      Subsumed (fromNetwork 0 #v[10, 0, 0, 1]) (fromNetwork 8 #v[10, 0, 0, 0])) := by
  refine ⟨⟨by decide +kernel, ?_⟩, by decide +kernel, ?_⟩
  · rw [subsumed_iff (by decide) (by decide)]
    intro h
    exact absurd h.2.1.1 (by decide)
  · rw [subsumed_iff (by decide) (by decide)]
    exact ⟨by decide, ⟨by decide, by decide⟩, by decide, .refl _ _⟩

end IronStack.Proof

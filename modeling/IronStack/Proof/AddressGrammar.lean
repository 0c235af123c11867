import IronStack.Proof.AddressText

/-!
# The texts that are addresses

Of what is read, only the text of an address is accepted, in the spelling in which it
is written: an octet of a MAC address has two digits, a part of an IP address no sign
and no zero in front. So the validators accept a language, which is given here by
itself, and the printed addresses are all of it but for the capitals of a MAC address.
-/

namespace IronStack.Proof.AddressText

open Lib

/-! ## MAC addresses -/

section Mac

open IronStack.MacAddress

/-- The character is the hexadecimal digit of a number, small or capital. -/
def HexDigit (c : Char) (n : Nat) : Prop := n < 16 ∧ (c = n.digitChar ∨ c = n.digitChar.toUpper)

/-- Two hexadecimal digits and the octet that they stand for. -/
def HexGroup (group : Text) (octet : UInt8) : Prop :=
  ∃ c d high low, group = [c, d] ∧ HexDigit c high ∧ HexDigit d low ∧ octet.toNat = 16 * high + low

/-- Six such groups with colons between them. -/
def HexGroups (l : Text) (octets : Vector UInt8 6) : Prop :=
  ∃ groups : Vector Text 6, l = [':'].intercalate groups.toList ∧
    ∀ i (h : i < 6), HexGroup groups[i] octets[i]

theorem digit_of_hexDigit {c : Char} {n : Nat} (h : HexDigit c n) : digit c = some (UInt8.ofNat n) := by
  obtain ⟨hn, rfl | rfl⟩ := h
  · exact digit_digitChar n hn
  · interval_cases n <;> rfl

/-- A digit of the code lies in one of three ranges. -/
theorem hexDigit_of_digit {c : Char} {x : UInt8} (h : digit c = some x) : HexDigit c x.toNat := by
  have hrange : ∀ low high : Char, low ≤ c → c ≤ high → ∃ k ≤ high.toNat - low.toNat,
      c.toNat - low.toNat = k ∧ c = Char.ofNat (low.toNat + k) := by
    intro low high hlow hhigh
    have hlow' : low.toNat ≤ c.toNat := UInt32.le_iff_toNat_le.mp hlow
    have hhigh' : c.toNat ≤ high.toNat := UInt32.le_iff_toNat_le.mp hhigh
    refine ⟨c.toNat - low.toNat, by omega, rfl, ?_⟩
    rw [Nat.add_sub_cancel' hlow', Char.ofNat_toNat]
  unfold digit at h
  split at h
  · rename_i hc
    obtain ⟨k, hk, hval, hchar⟩ := hrange '0' '9' hc.1 hc.2
    obtain rfl := Option.some.inj h
    rw [hval, hchar]
    change k ≤ 9 at hk
    interval_cases k <;> exact ⟨by decide, .inl rfl⟩
  · split at h
    · rename_i hc
      obtain ⟨k, hk, hval, hchar⟩ := hrange 'A' 'F' hc.1 hc.2
      obtain rfl := Option.some.inj h
      rw [hval, hchar]
      change k ≤ 5 at hk
      interval_cases k <;> exact ⟨by decide, .inr rfl⟩
    · split at h
      · rename_i hc
        obtain ⟨k, hk, hval, hchar⟩ := hrange 'a' 'f' hc.1 hc.2
        obtain rfl := Option.some.inj h
        rw [hval, hchar]
        change k ≤ 5 at hk
        interval_cases k <;> exact ⟨by decide, .inl rfl⟩
      · cases h

/-- Two digits, shifted together. -/
theorem toNat_twoDigits {x y : UInt8} (hx : x.toNat < 16) (hy : y.toNat < 16) :
    (((0 : UInt8) <<< 4 ||| x) <<< 4 ||| y).toNat = 16 * x.toNat + y.toNat := by
  have h := octet_eq (UInt8.ofNat (16 * x.toNat + y.toNat))
  have hoctet : (UInt8.ofNat (16 * x.toNat + y.toNat)).toNat = 16 * x.toNat + y.toNat := by
    rw [UInt8.toNat_ofNat']
    omega
  have hhigh : (16 * x.toNat + y.toNat) / 16 = x.toNat := by omega
  have hlow : (16 * x.toNat + y.toNat) % 16 = y.toNat := by omega
  rw [hoctet, hhigh, hlow, UInt8.ofNat_toNat, UInt8.ofNat_toNat] at h
  rw [h, hoctet]

variable {counter : Nat} {addr : Vector UInt8 6} {found : UInt8 × Vector UInt8 6} {l : Text}

/-- The loop at the two digits of a group. -/
theorem setOctets_digits (h : counter % 3 = 0) (addr : Vector UInt8 6) (c d : Char) (rest : Text) :
    setOctets counter 0 addr (c :: d :: rest) =
      (digit c).bind fun x => (digit d).bind fun y =>
        setOctets (counter + 2) (((0 : UInt8) <<< 4 ||| x) <<< 4 ||| y) addr rest := by
  have hfirst : ¬ (counter + 1) % 3 = 0 := by omega
  have hsecond : ¬ (counter + 1 + 1) % 3 = 0 := by omega
  rw [setOctets, if_neg hfirst]
  cases digit c with
  | none => rfl
  | some x =>
      dsimp only
      rw [setOctets, if_neg hsecond, Option.bind_some]
      cases digit d with
      | none => rfl
      | some y => rfl

theorem setOctets_hexGroup (h : counter % 3 = 0) (addr : Vector UInt8 6) {group : Text} {octet : UInt8}
    (hgroup : HexGroup group octet) (rest : Text) :
    setOctets counter 0 addr (group ++ rest) = setOctets (counter + 2) octet addr rest := by
  obtain ⟨c, d, high, low, rfl, hc, hd, hoctet⟩ := hgroup
  have hx : (UInt8.ofNat high).toNat = high := by
    have hlt := hc.1
    rw [UInt8.toNat_ofNat']
    omega
  have hy : (UInt8.ofNat low).toNat = low := by
    have hlt := hd.1
    rw [UInt8.toNat_ofNat']
    omega
  have hvalue : ((0 : UInt8) <<< 4 ||| UInt8.ofNat high) <<< 4 ||| UInt8.ofNat low = octet := by
    apply UInt8.toNat_inj.mp
    rw [toNat_twoDigits (hx.trans_lt hc.1) (hy.trans_lt hd.1), hx, hy, hoctet]
  rw [List.cons_append, List.cons_append, List.nil_append, setOctets_digits h, digit_of_hexDigit hc,
    digit_of_hexDigit hd, Option.bind_some, Option.bind_some, hvalue]

/-- Where the loop gets past the digits of a group, they were some. -/
theorem exists_group (h : counter % 3 = 0) (hlen : 2 ≤ l.length)
    (hset : setOctets counter 0 addr l = some found) :
    ∃ group octet rest, l = group ++ rest ∧ HexGroup group octet ∧ l.length = rest.length + 2 ∧
      setOctets (counter + 2) octet addr rest = some found := by
  match l, hlen with
  | c :: d :: rest, _ =>
      rw [setOctets_digits h] at hset
      obtain ⟨x, hx, hset⟩ := Option.bind_eq_some_iff.mp hset
      obtain ⟨y, hy, hset⟩ := Option.bind_eq_some_iff.mp hset
      have hc := hexDigit_of_digit hx
      have hd := hexDigit_of_digit hy
      have hgroup : HexGroup [c, d] _ := ⟨c, d, x.toNat, y.toNat, rfl, hc, hd, toNat_twoDigits hc.1 hd.1⟩
      exact ⟨[c, d], _, rest, rfl, hgroup, rfl, hset⟩

/-- Where it gets past the separator, it was a colon. -/
theorem exists_colon {octet : UInt8} (h : counter % 3 = 2) (hlen : 1 ≤ l.length)
    (hset : setOctets counter octet addr l = some found) :
    ∃ rest, l = ':' :: rest ∧
      setOctets (counter + 1) 0 (addr.setIfInBounds ((counter + 1) / 3 - 1) octet) rest = some found := by
  match l, hlen with
  | c :: rest, _ =>
      have hthird : (counter + 1) % 3 = 0 := by omega
      rw [setOctets, if_pos hthird] at hset
      split at hset
      · cases hset
      · rename_i hcolon
        obtain rfl := not_not.mp hcolon
        exact ⟨rest, rfl, hset⟩

/-- A group and the colon behind it. -/
theorem exists_group_colon (h : counter % 3 = 0) (hlen : 3 ≤ l.length)
    (hset : setOctets counter 0 addr l = some found) :
    ∃ group octet rest, l = group ++ ':' :: rest ∧ HexGroup group octet ∧ l.length = rest.length + 3 ∧
      setOctets (counter + 3) 0 (addr.setIfInBounds ((counter + 3) / 3 - 1) octet) rest = some found := by
  obtain ⟨group, octet, rest, rfl, hgroup, hrest, hcolon⟩ := exists_group h (by omega) hset
  obtain ⟨rest', rfl, hnext⟩ := exists_colon (by omega) (by omega) hcolon
  exact ⟨group, octet, rest', rfl, hgroup, hrest, hnext⟩

theorem hexGroups_iff {octets : Vector UInt8 6} : HexGroups l octets ↔
    ∃ g₀ g₁ g₂ g₃ g₄ g₅, l = g₀ ++ ':' :: (g₁ ++ ':' :: (g₂ ++ ':' :: (g₃ ++ ':' :: (g₄ ++ ':' :: g₅)))) ∧
      HexGroup g₀ (octets.get 0) ∧ HexGroup g₁ (octets.get 1) ∧ HexGroup g₂ (octets.get 2) ∧
      HexGroup g₃ (octets.get 3) ∧ HexGroup g₄ (octets.get 4) ∧ HexGroup g₅ (octets.get 5) := by
  constructor
  · rintro ⟨groups, rfl, h⟩
    obtain ⟨g₀, g₁, g₂, g₃, g₄, g₅, rfl⟩ := exists_six groups
    refine ⟨g₀, g₁, g₂, g₃, g₄, g₅, ?_, h 0 (by omega), h 1 (by omega), h 2 (by omega),
      h 3 (by omega), h 4 (by omega), h 5 (by omega)⟩
    simp [List.intercalate, List.intersperse]
  · rintro ⟨g₀, g₁, g₂, g₃, g₄, g₅, rfl, h₀, h₁, h₂, h₃, h₄, h₅⟩
    refine ⟨#v[g₀, g₁, g₂, g₃, g₄, g₅], by simp [List.intercalate, List.intersperse], ?_⟩
    intro i hi
    obtain rfl | rfl | rfl | rfl | rfl | rfl : i = 0 ∨ i = 1 ∨ i = 2 ∨ i = 3 ∨ i = 4 ∨ i = 5 := by
      omega
    · exact h₀
    · exact h₁
    · exact h₂
    · exact h₃
    · exact h₄
    · exact h₅

theorem hexGroup_length {group : Text} {octet : UInt8} (h : HexGroup group octet) : group.length = 2 := by
  obtain ⟨c, d, _, _, rfl, -⟩ := h
  rfl

/-- **Six groups with colons between them are the octets**, whatever the address was before. -/
theorem overwrite_hexGroups (before : MacAddress) {octets : Vector UInt8 6} (h : HexGroups l octets) :
    before.overwrite l = ⟨octets⟩ := by
  obtain ⟨g₀, g₁, g₂, g₃, g₄, g₅, rfl, (h₀ : HexGroup g₀ octets[0]), (h₁ : HexGroup g₁ octets[1]),
    (h₂ : HexGroup g₂ octets[2]), (h₃ : HexGroup g₃ octets[3]), (h₄ : HexGroup g₄ octets[4]),
    (h₅ : HexGroup g₅ octets[5])⟩ := hexGroups_iff.mp h
  have hlen : (g₀ ++ ':' :: (g₁ ++ ':' :: (g₂ ++ ':' :: (g₃ ++ ':' :: (g₄ ++ ':' :: g₅))))).length = 17 := by
    simp only [List.length_append, List.length_cons, hexGroup_length h₀, hexGroup_length h₁,
      hexGroup_length h₂, hexGroup_length h₃, hexGroup_length h₄, hexGroup_length h₅]
  have hfifteen : 15 % 3 = 0 := rfl
  have hlast := setOctets_hexGroup hfifteen
    (((((before.addr.setIfInBounds 0 octets[0]).setIfInBounds 1 octets[1]).setIfInBounds 2
      octets[2]).setIfInBounds 3 octets[3]).setIfInBounds 4 octets[4]) h₅ []
  rw [List.append_nil] at hlast
  rw [MacAddress.overwrite, if_neg (not_not_intro hlen), setOctets_hexGroup rfl _ h₀, setOctets_colon rfl,
    setOctets_hexGroup rfl _ h₁, setOctets_colon rfl, setOctets_hexGroup rfl _ h₂, setOctets_colon rfl,
    setOctets_hexGroup rfl _ h₃, setOctets_colon rfl, setOctets_hexGroup rfl _ h₄, setOctets_colon rfl]
  simp only [Nat.reduceAdd, Nat.reduceDiv, Nat.reduceSub, hlast, setOctets]
  refine congrArg MacAddress.mk ?_
  ext i hi
  obtain rfl | rfl | rfl | rfl | rfl | rfl : i = 0 ∨ i = 1 ∨ i = 2 ∨ i = 3 ∨ i = 4 ∨ i = 5 := by
    omega
  · simp
  · simp
  · simp
  · simp
  · simp
  · simp

/-- **Any other text is the nil address.** -/
theorem overwrite_of_not_hexGroups (before : MacAddress) (h : ∀ octets, ¬ HexGroups l octets) :
    before.overwrite l = nil := by
  unfold MacAddress.overwrite
  split
  · rfl
  · rename_i hlen
    have hlen := not_not.mp hlen
    split
    · rfl
    · rename_i octet addr hset
      obtain ⟨g₀, x₀, l₁, rfl, h₀, hl₁, hset₁⟩ := exists_group_colon rfl (by omega) hset
      obtain ⟨g₁, x₁, l₂, rfl, h₁, hl₂, hset₂⟩ := exists_group_colon rfl (by omega) hset₁
      obtain ⟨g₂, x₂, l₃, rfl, h₂, hl₃, hset₃⟩ := exists_group_colon rfl (by omega) hset₂
      obtain ⟨g₃, x₃, l₄, rfl, h₃, hl₄, hset₄⟩ := exists_group_colon rfl (by omega) hset₃
      obtain ⟨g₄, x₄, l₅, rfl, h₄, hl₅, hset₅⟩ := exists_group_colon rfl (by omega) hset₄
      obtain ⟨g₅, x₅, l₆, rfl, h₅, hl₆, -⟩ := exists_group rfl (by omega) hset₅
      obtain rfl : l₆ = [] := List.length_eq_zero_iff.mp (by omega)
      refine absurd (hexGroups_iff.mpr ?_) (h #v[x₀, x₁, x₂, x₃, x₄, x₅])
      refine ⟨g₀, g₁, g₂, g₃, g₄, g₅, ?_, h₀, h₁, h₂, h₃, h₄, h₅⟩
      rw [List.append_nil]

theorem hexGroup_hexOctet (x : UInt8) : HexGroup (hexOctet x) x := by
  have hx := UInt8.toNat_lt x
  exact ⟨_, _, x.toNat / 16, x.toNat % 16, rfl, ⟨by omega, .inl rfl⟩, ⟨by omega, .inl rfl⟩, by omega⟩

theorem hexGroups_toText (a : MacAddress) : HexGroups a.toText a.addr := by
  refine ⟨a.addr.map hexOctet, by rw [Vector.toList_map, toText], fun i hi => ?_⟩
  rw [Vector.getElem_map]
  exact hexGroup_hexOctet _

end Mac

/-! ## IP addresses and ports -/

section Ip

open IronStack.IpAddress

/-- A part of an address: a numeral with no zero in front, and its number. -/
def DecimalPart (bound : Nat) (l : Text) (n : Nat) : Prop := Canonical l ∧ numberOf l = n ∧ n ≤ bound

/-- Four parts with points between them. -/
def DottedQuad (l : Text) (a : IpAddress) : Prop :=
  ∃ parts : Vector Text 4, l = ['.'].intercalate parts.toList ∧
    ∀ i (h : i < 4), DecimalPart 255 parts[i] a.octets[i].toNat

/-- An address, a colon and a port. -/
def QuadAndPort (l : Text) (p : IpPort) : Prop :=
  ∃ quad port, l = quad ++ ':' :: port ∧ DottedQuad quad p.address ∧ DecimalPart 65535 port p.port.toNat

theorem decimalPart_iff {bound n : Nat} {l : Text} (h : n ≤ bound) :
    DecimalPart bound l n ↔ l = Nat.toDigits 10 n := by
  rw [eq_toDigits_iff]
  exact ⟨fun hpart => ⟨hpart.1, hpart.2.1⟩, fun hdigits => ⟨hdigits.1, hdigits.2, h⟩⟩

/-- The printed address is the only such text. -/
theorem dottedQuad_iff {l : Text} {a : IpAddress} : DottedQuad l a ↔ l = a.toText := by
  have hpart : ∀ (x : UInt8) (part : Text),
      DecimalPart 255 part x.toNat ↔ part = Nat.toDigits 10 x.toNat := by
    intro x part
    have hx := UInt8.toNat_lt x
    exact decimalPart_iff (by omega)
  constructor
  · rintro ⟨parts, rfl, h⟩
    rw [IpAddress.toText]
    refine congrArg _ (List.ext_getElem (by simp) fun i hi _ => ?_)
    rw [Vector.length_toList] at hi
    rw [List.getElem_map, Vector.getElem_toList, Vector.getElem_toList]
    exact (hpart _ _).mp (h i hi)
  · rintro rfl
    refine ⟨a.octets.map fun octet => Nat.toDigits 10 octet.toNat, ?_, fun i hi => ?_⟩
    · rw [Vector.toList_map, IpAddress.toText]
    · rw [Vector.getElem_map]
      exact (hpart _ _).mpr rfl

theorem quadAndPort_iff {l : Text} {p : IpPort} : QuadAndPort l p ↔ l = p.toText := by
  have hp := UInt16.toNat_lt p.port
  have hpart : ∀ port, DecimalPart 65535 port p.port.toNat ↔ port = Nat.toDigits 10 p.port.toNat :=
    fun _ => decimalPart_iff (by omega)
  constructor
  · rintro ⟨quad, port, rfl, hquad, hport⟩
    rw [dottedQuad_iff.mp hquad, (hpart port).mp hport, IpPort.toText]
  · rintro rfl
    exact ⟨_, _, rfl, dottedQuad_iff.mpr rfl, (hpart _).mpr rfl⟩

/-- **The validator of addresses** accepts what is written of one. -/
theorem validateNumericIp_eq_some {l : Text} (hnul : nul ∉ l) {a : IpAddress} :
    validateNumericIp l = some a ↔ l = a.toText := by
  constructor
  · intro h
    unfold validateNumericIp at h
    rw [cStr_of_not_mem hnul] at h
    split at h
    · cases h
    · split at h
      · cases h
      · split at h
        · cases h
        · dsimp only at h
          split at h
          · cases h
          · rename_i htext
            obtain rfl := Option.some.inj h
            exact (not_not.mp htext).symm
  · rintro rfl
    exact validateNumericIp_toText a

theorem scanNumbers_toText (x₀ x₁ x₂ x₃ : UInt8) (port : UInt16) :
    IpPort.scanNumbers (IpPort.toText ⟨⟨#v[x₀, x₁, x₂, x₃]⟩, port⟩) =
      some ((x₀.toNat : Int), (x₁.toNat : Int), (x₂.toNat : Int), (x₃.toNat : Int), (port.toNat : Int)) := by
  have hx := UInt8.toNat_lt x₃
  have hport := UInt16.toNat_lt port
  have htail := scanInt_toDigits (n := port.toNat) (by omega) (ends_nil _)
  rw [List.append_nil] at htail
  rw [IpPort.toText, ipText_octets, IpPort.scanNumbers]
  simp only [List.append_assoc, List.cons_append, List.nil_append]
  rw [scanOctet_toDigits]
  simp only [Option.bind_eq_bind, Option.bind_some]
  rw [scanOctet_toDigits]
  simp only [Option.bind_some]
  rw [scanOctet_toDigits]
  simp only [Option.bind_some]
  rw [scanInt_toDigits (by omega) (ends_cons rfl _)]
  simp only [Option.bind_some, htail]
  rfl

/-- **The validator of addresses with a port** accepts what is written of one. -/
theorem validateIpPort_eq_some {l : Text} (hnul : nul ∉ l) {p : IpPort} :
    IpPort.validateIpPort l = some p ↔ l = p.toText := by
  constructor
  · intro h
    unfold IpPort.validateIpPort at h
    rw [cStr_of_not_mem hnul] at h
    split at h
    · cases h
    · split at h
      · cases h
      · dsimp only at h
        split at h
        · cases h
        · rename_i htext
          obtain rfl := Option.some.inj h
          exact not_not.mp htext
  · rintro rfl
    have hcStr := cStr_of_not_mem hnul
    obtain ⟨address, port⟩ := p
    obtain ⟨x₀, x₁, x₂, x₃, rfl⟩ := exists_octets address
    have h₀ := UInt8.toNat_lt x₀
    have h₁ := UInt8.toNat_lt x₁
    have h₂ := UInt8.toNat_lt x₂
    have h₃ := UInt8.toNat_lt x₃
    have hport := UInt16.toNat_lt port
    rw [IpPort.validateIpPort, hcStr, scanNumbers_toText]
    dsimp only
    rw [if_neg (by omega)]
    simp only [Int.toNat_natCast, UInt8.ofNat_toNat, UInt16.ofNat_toNat]
    rw [if_neg (not_not_intro rfl)]

/-- **The readers of addresses accept the texts of addresses and no others.** A MAC address is six
groups of two hexadecimal digits, and nil where it is anything else. The validators take a dotted quad,
and one with a port, as they are written; addresses that are printed are read back. -/
theorem accepts_iff (l : Text) (hnul : nul ∉ l) :
    (∀ before octets, HexGroups l octets → MacAddress.overwrite before l = ⟨octets⟩) ∧
      (∀ before, (∀ octets, ¬ HexGroups l octets) → MacAddress.overwrite before l = MacAddress.nil) ∧
      (∀ before a : MacAddress, before.overwrite a.toText = a) ∧
      (∀ a, validateNumericIp l = some a ↔ DottedQuad l a) ∧
      (∀ p, IpPort.validateIpPort l = some p ↔ QuadAndPort l p) ∧
      ∀ a : IpAddress, validateNumericIp a.toText = some a := by
  refine ⟨fun before octets h => overwrite_hexGroups before h,
    fun before h => overwrite_of_not_hexGroups before h,
    fun before a => overwrite_hexGroups before (hexGroups_toText a), fun a => ?_, fun p => ?_,
    validateNumericIp_toText⟩
  · rw [validateNumericIp_eq_some hnul, dottedQuad_iff]
  · rw [validateIpPort_eq_some hnul, quadAndPort_iff]

theorem accepts_loopback : IpPort.validateIpPort "127.0.0.1:80".toList = some ⟨⟨#v[127, 0, 0, 1]⟩, 80⟩ := by
  obtain ⟨-, -, -, -, hport, -⟩ := accepts_iff "127.0.0.1:80".toList (by decide)
  exact (hport _).mpr (quadAndPort_iff.mpr (by decide))

end Ip

end IronStack.Proof.AddressText

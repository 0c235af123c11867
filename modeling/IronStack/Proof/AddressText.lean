import IronStack.Text.Addresses

/-!
# Addresses, written and read back

An address comes back from its text. So a text is accepted, where the address that is
read is compared with it, if it is the text of one: a name that is looked up is not.
-/

namespace IronStack.Proof

open Lib

namespace AddressText

/-! ## MAC addresses -/

section Mac

open IronStack.MacAddress

theorem digit_digitChar : ∀ n < 16, digit n.digitChar = some (UInt8.ofNat n) := by decide

theorem octet_eq (x : UInt8) : ((0 : UInt8) <<< 4 ||| UInt8.ofNat (x.toNat / 16)) <<< 4 |||
    UInt8.ofNat (x.toNat % 16) = x := by
  have hx := UInt8.toNat_lt x
  have hhigh : ((0 : UInt8) <<< 4 ||| UInt8.ofNat (x.toNat / 16)).toNat = x.toNat / 16 := by
    have hzero : ((0 : UInt8) <<< 4 : UInt8) = 0 := rfl
    rw [hzero, UInt8.zero_or, UInt8.toNat_ofNat']
    omega
  apply UInt8.toNat_inj.mp
  rw [UInt8.toNat_or, UInt8.toNat_shiftLeft, hhigh, UInt8.toNat_ofNat',
    Nat.mod_eq_of_lt (by omega : x.toNat % 16 < 2 ^ 8)]
  have hshift : (x.toNat / 16) <<< ((4 : UInt8).toNat % 8) % 2 ^ 8 = (x.toNat / 16) <<< 4 := by
    have hlt : (x.toNat / 16) <<< 4 < 2 ^ 8 := by
      rw [Nat.shiftLeft_eq]
      omega
    exact Nat.mod_eq_of_lt hlt
  rw [hshift, ← Nat.shiftLeft_add_eq_or_of_lt (by omega : x.toNat % 16 < 2 ^ 4), Nat.shiftLeft_eq]
  omega

/-- The colon behind an octet. -/
theorem setOctets_colon {counter : Nat} (h : counter % 3 = 2) (addr : Vector UInt8 6) (x : UInt8)
    (rest : Text) :
    setOctets counter x addr (':' :: rest) =
      setOctets (counter + 1) 0 (addr.setIfInBounds ((counter + 1) / 3 - 1) x) rest := by
  have hthird : (counter + 1) % 3 = 0 := by omega
  rw [setOctets, if_pos hthird, if_neg (not_not_intro rfl)]

theorem exists_six {α : Type} (v : Vector α 6) :
    ∃ x₀ x₁ x₂ x₃ x₄ x₅, v = #v[x₀, x₁, x₂, x₃, x₄, x₅] := by
  refine ⟨v[0], v[1], v[2], v[3], v[4], v[5], ?_⟩
  ext i hi
  obtain rfl | rfl | rfl | rfl | rfl | rfl : i = 0 ∨ i = 1 ∨ i = 2 ∨ i = 3 ∨ i = 4 ∨ i = 5 := by
    omega
  · rfl
  · rfl
  · rfl
  · rfl
  · rfl
  · rfl

end Mac

/-! ## IP addresses -/

section Ip

open IronStack.IpAddress

variable {getaddrinfo : Text → Option IpAddress}

theorem ends_point (rest : Text) : Ends Char.isDigit ('.' :: rest) := ends_cons rfl rest

theorem scanOctet_toDigits (x : UInt8) (rest : Text) :
    scanOctet (Nat.toDigits 10 x.toNat ++ '.' :: rest) = some ((x.toNat : Int), rest) := by
  have hx := UInt8.toNat_lt x
  rw [scanOctet, scanInt_toDigits (by omega) (ends_point rest)]
  rfl

theorem exists_octets (a : IpAddress) : ∃ x₀ x₁ x₂ x₃, a = ⟨#v[x₀, x₁, x₂, x₃]⟩ := by
  obtain ⟨octets⟩ := a
  refine ⟨octets[0], octets[1], octets[2], octets[3], congrArg IpAddress.mk ?_⟩
  ext i hi
  obtain rfl | rfl | rfl | rfl : i = 0 ∨ i = 1 ∨ i = 2 ∨ i = 3 := by omega
  · rfl
  · rfl
  · rfl
  · rfl

/-- The text of an address is its octets in decimal, with points between them. -/
theorem ipText_octets (x₀ x₁ x₂ x₃ : UInt8) : toText ⟨#v[x₀, x₁, x₂, x₃]⟩ =
    Nat.toDigits 10 x₀.toNat ++ '.' :: (Nat.toDigits 10 x₁.toNat ++ '.' :: (Nat.toDigits 10 x₂.toNat ++
      '.' :: (Nat.toDigits 10 x₃.toNat ++ []))) := by
  simp [toText, List.intercalate, List.intersperse]

theorem point_mem_toText (a : IpAddress) : '.' ∈ a.toText := by
  obtain ⟨x₀, x₁, x₂, x₃, rfl⟩ := exists_octets a
  rw [ipText_octets]
  exact List.mem_append_right _ List.mem_cons_self

theorem digits_length (x : UInt8) :
    0 < (Nat.toDigits 10 x.toNat).length ∧ (Nat.toDigits 10 x.toNat).length ≤ 3 := by
  have hx := UInt8.toNat_lt x
  refine ⟨List.length_pos_iff.mpr Nat.toDigits_ne_nil, ?_⟩
  exact Nat.toDigits_length 10 x.toNat 3 (by omega) (by omega)

theorem ipText_length (a : IpAddress) : 0 < a.toText.length ∧ a.toText.length ≤ 15 := by
  obtain ⟨x₀, x₁, x₂, x₃, rfl⟩ := exists_octets a
  have h₀ := digits_length x₀
  have h₁ := digits_length x₁
  have h₂ := digits_length x₂
  have h₃ := digits_length x₃
  rw [ipText_octets]
  simp only [List.length_append, List.length_cons, List.length_nil]
  omega

theorem isDigit_ne_nul {c : Char} (h : c.isDigit = true) : c ≠ nul := by
  rintro rfl
  cases h

/-- What is written of an address has no NUL in it. -/
theorem nul_not_mem_ipText (a : IpAddress) : nul ∉ a.toText := by
  obtain ⟨x₀, x₁, x₂, x₃, rfl⟩ := exists_octets a
  have hdigits : ∀ x : UInt8, nul ∉ Nat.toDigits 10 x.toNat :=
    fun x hx => isDigit_ne_nul (Nat.isDigit_of_mem_toDigits (by omega) (by omega) hx) rfl
  have hpoint : nul ≠ '.' := by decide
  rw [ipText_octets]
  simp only [List.mem_append, List.mem_cons, List.not_mem_nil, hdigits, hpoint, or_self, not_false_eq_true]

/-- **A numeric address comes back from its text.** -/
theorem validateNumericIp_toText (a : IpAddress) : validateNumericIp a.toText = some a := by
  have hlen := ipText_length a
  have hsize : intSize a.toText = a.toText.length := intSize_of_lt (by omega)
  have hcStr : cStr a.toText = a.toText := cStr_of_not_mem (nul_not_mem_ipText a)
  obtain ⟨x₀, x₁, x₂, x₃, rfl⟩ := exists_octets a
  have hscan : scanOctets (toText ⟨#v[x₀, x₁, x₂, x₃]⟩) =
      some ((x₀.toNat : Int), (x₁.toNat : Int), (x₂.toNat : Int), (x₃.toNat : Int)) := by
    have hx := UInt8.toNat_lt x₃
    rw [ipText_octets, scanOctets, scanOctet_toDigits]
    simp only [Option.bind_eq_bind, Option.bind_some]
    rw [scanOctet_toDigits]
    simp only [Option.bind_some]
    rw [scanOctet_toDigits]
    simp only [Option.bind_some]
    rw [scanInt_toDigits (by omega) (ends_nil _)]
    rfl
  have h₀ := UInt8.toNat_lt x₀
  have h₁ := UInt8.toNat_lt x₁
  have h₂ := UInt8.toNat_lt x₂
  have h₃ := UInt8.toNat_lt x₃
  rw [validateNumericIp, hsize, if_neg (by omega), hcStr, hscan]
  dsimp only
  rw [if_neg (by omega)]
  simp only [Int.toNat_natCast, UInt8.ofNat_toNat]
  rw [if_neg (not_not_intro rfl)]

theorem ipSet_of_valid {l : Text} {a : IpAddress} (h : validateNumericIp l = some a) :
    IpAddress.set getaddrinfo l = a := by
  rw [IpAddress.set, h]

/-- The texts that are taken for addresses, whatever names there are. -/
theorem ipOfText_eq_some {l : Text} {a : IpAddress} :
    IpAddress.ofText getaddrinfo l = some a ↔ l = a.toText := by
  have hset : ∀ b : IpAddress, IpAddress.set getaddrinfo b.toText = b :=
    fun b => ipSet_of_valid (validateNumericIp_toText b)
  rw [IpAddress.ofText]
  split
  · rename_i h
    rw [Option.some_inj]
    refine ⟨fun heq => ?_, fun heq => ?_⟩
    · rw [← heq, h]
    · rw [heq, hset]
  · rename_i h
    refine ⟨nofun, fun heq => absurd ?_ h⟩
    rw [heq, hset]

end Ip

end AddressText

end IronStack.Proof

import IronStack.Common
import IronStack.Lib.Scan

/-!
# Addresses as text

How `mac_address` and `ip_address` are read, and how they are written. A name that is no
numeric address is looked up, which is up to the network.
-/

namespace IronStack

open Lib

namespace MacAddress

/-- The value of a character in an octet. -/
def digit (c : Char) : Option UInt8 :=
  if '0' ≤ c ∧ c ≤ '9' then some (UInt8.ofNat (c.toNat - '0'.toNat))
  else if 'A' ≤ c ∧ c ≤ 'F' then some (UInt8.ofNat (c.toNat - 'A'.toNat + 10))
  else if 'a' ≤ c ∧ c ≤ 'f' then some (UInt8.ofNat (c.toNat - 'a'.toNat + 10))
  else none

/-- The loop of `mac_address::set`: the octet it is at, and the octets before it. -/
def setOctets (counter : Nat) (currentOctet : UInt8) (addr : Vector UInt8 6) :
    Text → Option (UInt8 × Vector UInt8 6)
  | [] => some (currentOctet, addr)
  | c :: rest =>
      if (counter + 1) % 3 = 0 then
        if c ≠ ':' then none
        else setOctets (counter + 1) 0 (addr.setIfInBounds ((counter + 1) / 3 - 1) currentOctet) rest
      else
        match digit c with
        | none => none
        | some d => setOctets (counter + 1) ((currentOctet <<< 4) ||| d) addr rest

/--
`mac_address::set`: the octets of the address that is there are overwritten one by one, and
it is the nil address where the text is none.
-/
def overwrite (before : MacAddress) (addrIn : Text) : MacAddress :=
  if addrIn.length ≠ 17 then nil
  else
    match setOctets 0 0 before.addr addrIn with
    | none => nil
    | some (currentOctet, addr) => ⟨addr.setIfInBounds 5 currentOctet⟩

/-- `mac_address::set` on an address that has just been made. -/
def set (addrIn : Text) : MacAddress := nil.overwrite addrIn

/-- An octet as `%02x` writes it. -/
def hexOctet (octet : UInt8) : Text := [(octet.toNat / 16).digitChar, (octet.toNat % 16).digitChar]

/-- `mac_address::to_string` -/
def toText (a : MacAddress) : Text := [':'].intercalate (a.addr.toList.map hexOctet)

/-- The address that a text is the text of. -/
def ofText (l : Text) : Option MacAddress := if (set l).toText = l then some (set l) else none

end MacAddress

namespace IpAddress

/-- `ip_address::to_string` -/
def toText (a : IpAddress) : Text :=
  ['.'].intercalate (a.octets.toList.map fun octet => Nat.toDigits 10 octet.toNat)

/-- A number and a point behind it. -/
def scanOctet (l : Text) : Option (Int × Text) :=
  match scanInt l with
  | some (value, '.' :: rest) => some (value, rest)
  | _ => none

/-- The four numbers that `sscanf` finds for `%d.%d.%d.%d`. -/
def scanOctets (input : Text) : Option (Int × Int × Int × Int) := do
  let (value₀, rest) ← scanOctet input
  let (value₁, rest) ← scanOctet rest
  let (value₂, rest) ← scanOctet rest
  let (value₃, _) ← scanInt rest
  return (value₀, value₁, value₂, value₃)

/-- `ip_address::validate_numeric_ip`, with the address where there is one. -/
def validateNumericIp (input : Text) : Option IpAddress :=
  if intSize input = 0 ∨ intSize input > 16 then none
  else
    match scanOctets (cStr input) with
    | none => none
    | some (value₀, value₁, value₂, value₃) =>
        if value₀ < 0 ∨ value₀ > 255 ∨ value₁ < 0 ∨ value₁ > 255 ∨ value₂ < 0 ∨ value₂ > 255 ∨ value₃ < 0 ∨
            value₃ > 255 then none
        else
          let address : IpAddress := ⟨#v[UInt8.ofNat value₀.toNat, UInt8.ofNat value₁.toNat,
            UInt8.ofNat value₂.toNat, UInt8.ofNat value₃.toNat]⟩
          if address.toText ≠ cStr input then none else some address

/-- `ip_address::set`: the address of a name is what `getaddrinfo` finds. -/
def set (getaddrinfo : Text → Option IpAddress) (input : Text) : IpAddress :=
  match validateNumericIp input with
  | some address => address
  | none => if input = [] then nil else (getaddrinfo input).getD nil

/-- The address that a text is the text of. -/
def ofText (getaddrinfo : Text → Option IpAddress) (l : Text) : Option IpAddress :=
  if (set getaddrinfo l).toText = l then some (set getaddrinfo l) else none

end IpAddress

/-- `ip_port` -/
structure IpPort where
  address : IpAddress
  port : UInt16
deriving DecidableEq, Repr

namespace IpPort

/-- `ip_port::to_string` -/
def toText (p : IpPort) : Text := p.address.toText ++ ':' :: Nat.toDigits 10 p.port.toNat

/-- The five numbers that `sscanf` finds for `%d.%d.%d.%d:%d`. -/
def scanNumbers (input : Text) : Option (Int × Int × Int × Int × Int) := do
  let (value₀, rest) ← IpAddress.scanOctet input
  let (value₁, rest) ← IpAddress.scanOctet rest
  let (value₂, rest) ← IpAddress.scanOctet rest
  let (value₃, rest) ← scanInt rest
  match rest with
  | ':' :: rest =>
      let (value₄, _) ← scanInt rest
      return (value₀, value₁, value₂, value₃, value₄)
  | _ => none

/-- `ip_port::validate_ip_port`, with the address and the port where there are some. -/
def validateIpPort (input : Text) : Option IpPort :=
  match scanNumbers (cStr input) with
  | none => none
  | some (value₀, value₁, value₂, value₃, value₄) =>
      if value₀ < 0 ∨ value₀ > 255 ∨ value₁ < 0 ∨ value₁ > 255 ∨ value₂ < 0 ∨ value₂ > 255 ∨ value₃ < 0 ∨
          value₃ > 255 ∨ value₄ < 0 ∨ value₄ > 65535 then none
      else
        let found : IpPort :=
          { address := ⟨#v[UInt8.ofNat value₀.toNat, UInt8.ofNat value₁.toNat,
              UInt8.ofNat value₂.toNat, UInt8.ofNat value₃.toNat]⟩
            port := UInt16.ofNat value₄.toNat }
        if cStr input ≠ found.toText then none else some found

end IpPort

end IronStack

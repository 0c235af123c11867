import Mathlib.Tactic.Linarith

/-!
# Addresses and timers

The value types every service of the controller shares: `mac_address`,
`ip_address` and `timer`. Octets are kept as fixed-size vectors because both the
codecs and the ordering used by the CAM map look at single bytes.
-/

namespace IronStack

open Std

/-- `mac_address`: six octets, in network order. -/
structure MacAddress where
  addr : Vector UInt8 6
deriving DecidableEq, Repr

namespace MacAddress

/-- `mac_address::operator<` compares the octets first to last. -/
instance : Ord MacAddress := ⟨compareOn (fun a => a.addr.toList)⟩

instance : TransOrd MacAddress :=
  inferInstanceAs (TransCmp (compareOn (fun a : MacAddress => a.addr.toList)))

instance : LawfulEqOrd MacAddress where
  eq_of_compare {a b} h := by
    have h' : a.addr.toList = b.addr.toList := LawfulEqCmp.eq_of_compare h
    cases a
    cases b
    exact congrArg MacAddress.mk (Vector.toList_inj.mp h')

def ofOctets (a b c d e f : UInt8) : MacAddress := ⟨#v[a, b, c, d, e, f]⟩

def nil : MacAddress := ⟨Vector.replicate 6 0⟩

def broadcast : MacAddress := ⟨Vector.replicate 6 0xff⟩

def isNil (a : MacAddress) : Bool := a == nil

def isBroadcast (a : MacAddress) : Bool := a == broadcast

end MacAddress

/-- `ip_address`: four octets, in network order. -/
structure IpAddress where
  octets : Vector UInt8 4
deriving DecidableEq, Repr

namespace IpAddress

/-- `ip_address::operator<` compares the octets as one little-endian word: the last one first. -/
instance : Ord IpAddress := ⟨compareOn (fun a => a.octets.toList.reverse)⟩

instance : TransOrd IpAddress :=
  inferInstanceAs (TransCmp (compareOn (fun a : IpAddress => a.octets.toList.reverse)))

instance : LawfulEqOrd IpAddress where
  eq_of_compare {a b} h := by
    have h' : a.octets.toList.reverse = b.octets.toList.reverse := LawfulEqCmp.eq_of_compare h
    cases a
    cases b
    exact congrArg IpAddress.mk (Vector.toList_inj.mp (List.reverse_inj.mp h'))

def ofOctets (a b c d : UInt8) : IpAddress := ⟨#v[a, b, c, d]⟩

end IpAddress

/-- `ip_address::clear`. -/
def IpAddress.nil : IpAddress := ⟨Vector.replicate 4 0⟩

/-- `ip_address::is_nil`. -/
def IpAddress.isNil (a : IpAddress) : Bool := a == IpAddress.nil

/-- `ip_address::is_broadcast`: any address that ends in 255. -/
def IpAddress.isBroadcast (a : IpAddress) : Bool := a.octets.get (Fin.last 3) == 255

/--
`timer`: the `steady_clock` reading, in nanoseconds, at which it was last
started. The deadline the class also carries plays no part in any service.
-/
structure Timer where
  last : Nat
deriving DecidableEq, Repr

/-- `timer::start`, `timer::clear` and `timer::reset` all restart the timer. -/
def Timer.reset (now : Nat) : Timer := ⟨now⟩

/--
`timer::get_time_elapsed_ms`: whole milliseconds, narrowed to a 32-bit `int`. A
timer left alone for 2^31 ms therefore reads as negative.
-/
def Timer.getTimeElapsedMs (now : Nat) (t : Timer) : Int :=
  Int.bmod ((now - t.last) / 1000000 : Nat) (2 ^ 32)

/-- The true time since the timer was started, in nanoseconds. -/
def Timer.age (now : Nat) (t : Timer) : Nat := now - t.last

end IronStack

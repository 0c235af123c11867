import Mathlib.Tactic.Positivity
import Mathlib.Tactic.Ring

/-!
# Reading and writing records of bytes

A record on the wire is a list of bytes, its numbers most significant byte first.
A reader takes numbers and slices out of a buffer at given offsets. Reading past
the end of the buffer is a **fault**, which is not an answer: a reader that checks
what it was given says no by returning a value, and one that forgets to check, or
gives up altogether, faults.
-/

namespace IronStack.Lib

abbrev Bytes := List UInt8

/-- How a reader can go wrong. -/
inductive Fault where
  /-- It read at or beyond the end of its buffer. -/
  | outOfBounds
  /-- It aborted. -/
  | aborted
deriving DecidableEq, Repr

/-- What a reader comes to. -/
abbrev Read (α : Type) := Except Fault α

/-! ## Numbers -/

/-- The `n` low bytes of a number, most significant first. -/
def toBE : Nat → Nat → Bytes
  | 0, _ => []
  | n + 1, v => UInt8.ofNat (v / 256 ^ n) :: toBE n v

/-- The number that bytes spell, most significant first. -/
def ofBE (l : Bytes) : Nat := l.foldl (fun acc x => acc * 256 + x.toNat) 0

@[simp] theorem length_toBE (n v : Nat) : (toBE n v).length = n := by
  induction n with
  | zero => rfl
  | succ n ih => rw [toBE, List.length_cons, ih]

theorem foldl_toBE (n v acc : Nat) :
    (toBE n v).foldl (fun acc x => acc * 256 + x.toNat) acc = acc * 256 ^ n + v % 256 ^ n := by
  induction n generalizing acc with
  | zero => simp [toBE, Nat.mod_one]
  | succ n ih =>
      have hmod : v % 256 ^ (n + 1) = v % 256 ^ n + 256 ^ n * (v / 256 ^ n % 256) := by
        rw [Nat.pow_succ, Nat.mod_mul]
      rw [toBE, List.foldl_cons, ih, UInt8.toNat_ofNat', hmod]
      ring

/-- **Writing a number and reading it back.** -/
theorem ofBE_toBE {n v : Nat} (h : v < 256 ^ n) : ofBE (toBE n v) = v := by
  rw [ofBE, foldl_toBE, Nat.zero_mul, Nat.zero_add, Nat.mod_eq_of_lt h]

theorem ofBE_lt (l : Bytes) : ofBE l < 256 ^ l.length := by
  have key : ∀ (l : Bytes) (acc : Nat),
      l.foldl (fun acc x => acc * 256 + x.toNat) acc < (acc + 1) * 256 ^ l.length := by
    intro l
    induction l with
    | nil => intro acc; simp
    | cons x l ih =>
        intro acc
        rw [List.foldl_cons, List.length_cons, Nat.pow_succ]
        have hx := UInt8.toNat_lt x
        calc l.foldl (fun acc x => acc * 256 + x.toNat) (acc * 256 + x.toNat)
            < (acc * 256 + x.toNat + 1) * 256 ^ l.length := ih _
          _ ≤ ((acc + 1) * 256) * 256 ^ l.length := Nat.mul_le_mul_right _ (by omega)
          _ = (acc + 1) * (256 ^ l.length * 256) := by ring
  have h := key l 0
  rwa [Nat.zero_add, Nat.one_mul] at h

theorem foldl_ofBE (l : Bytes) (acc : Nat) :
    l.foldl (fun acc x => acc * 256 + x.toNat) acc = acc * 256 ^ l.length + ofBE l := by
  induction l generalizing acc with
  | nil => simp [ofBE]
  | cons x l ih =>
      have hx : ofBE (x :: l) = x.toNat * 256 ^ l.length + ofBE l := by
        rw [ofBE, List.foldl_cons, ih, Nat.zero_mul, Nat.zero_add]
      rw [List.foldl_cons, ih, hx, List.length_cons]
      ring

/-- **Reading a number and writing it back.** -/
theorem toBE_ofBE (l : Bytes) : toBE l.length (ofBE l) = l := by
  -- with any number in front, of which the low bytes are not
  have key : ∀ (l : Bytes) (acc : Nat), toBE l.length (acc * 256 ^ l.length + ofBE l) = l := by
    intro l
    induction l with
    | nil => intro acc; rfl
    | cons x l ih =>
        intro acc
        have hlt := ofBE_lt l
        have hx : ofBE (x :: l) = x.toNat * 256 ^ l.length + ofBE l := by
          rw [ofBE, List.foldl_cons, foldl_ofBE, Nat.zero_mul, Nat.zero_add]
        have hsum : acc * 256 ^ (x :: l).length + ofBE (x :: l) =
            (acc * 256 + x.toNat) * 256 ^ l.length + ofBE l := by
          rw [hx, List.length_cons]
          ring
        have hhigh : ((acc * 256 + x.toNat) * 256 ^ l.length + ofBE l) / 256 ^ l.length =
            acc * 256 + x.toNat := by
          rw [Nat.mul_comm, Nat.mul_add_div (by positivity), Nat.div_eq_of_lt hlt, Nat.add_zero]
        have hbyte : UInt8.ofNat (acc * 256 + x.toNat) = x := by
          have hlt := UInt8.toNat_lt x
          apply UInt8.toNat_inj.mp
          rw [UInt8.toNat_ofNat']
          omega
        rw [hsum, List.length_cons, toBE, hhigh, hbyte, ih]
  have h := key l 0
  rwa [Nat.zero_mul, Nat.zero_add] at h

def be16 (v : UInt16) : Bytes := toBE 2 v.toNat
def be32 (v : UInt32) : Bytes := toBE 4 v.toNat
def be64 (v : UInt64) : Bytes := toBE 8 v.toNat

@[simp] theorem length_be16 (v : UInt16) : (be16 v).length = 2 := length_toBE ..
@[simp] theorem length_be32 (v : UInt32) : (be32 v).length = 4 := length_toBE ..
@[simp] theorem length_be64 (v : UInt64) : (be64 v).length = 8 := length_toBE ..

/-- Eight bytes that spell a number are the ones it is written as. -/
theorem eq_be64_iff {l : Bytes} {v : UInt64} (h : l.length = 8) : UInt64.ofNat (ofBE l) = v ↔ l = be64 v := by
  have hlt : ofBE l < 2 ^ 64 := by
    have hlt := ofBE_lt l
    rwa [h] at hlt
  have hv := UInt64.toNat_lt v
  refine ⟨?_, ?_⟩
  · intro hof
    have hnat : v.toNat = ofBE l := by
      rw [← hof, UInt64.toNat_ofNat', Nat.mod_eq_of_lt hlt]
    rw [be64, hnat, ← h, toBE_ofBE]
  · intro heq
    rw [heq, be64, ofBE_toBE hv, UInt64.ofNat_toNat]

/-! ## Reading -/

/-- The `n` bytes from an offset on. -/
def slice (b : Bytes) (off n : Nat) : Read Bytes :=
  if off + n ≤ b.length then .ok ((b.drop off).take n) else .error .outOfBounds

def readU8 (b : Bytes) (off : Nat) : Read UInt8 :=
  (slice b off 1).map fun l => UInt8.ofNat (ofBE l)

def readU16 (b : Bytes) (off : Nat) : Read UInt16 :=
  (slice b off 2).map fun l => UInt16.ofNat (ofBE l)

def readU32 (b : Bytes) (off : Nat) : Read UInt32 :=
  (slice b off 4).map fun l => UInt32.ofNat (ofBE l)

def readU64 (b : Bytes) (off : Nat) : Read UInt64 :=
  (slice b off 8).map fun l => UInt64.ofNat (ofBE l)

/-- A fixed number of bytes, as a vector. -/
def readVec (n : Nat) (b : Bytes) (off : Nat) : Read (Vector UInt8 n) :=
  (slice b off n).map fun l => Vector.ofFn fun i => l.getD i 0

theorem slice_ok {b : Bytes} {off n : Nat} (h : off + n ≤ b.length) :
    slice b off n = .ok ((b.drop off).take n) := if_pos h

theorem slice_eq_ok {b l : Bytes} {off n : Nat} (h : slice b off n = .ok l) :
    off + n ≤ b.length ∧ l = (b.drop off).take n ∧ l.length = n := by
  rw [slice] at h
  split at h
  · rename_i hle
    cases h
    refine ⟨hle, rfl, ?_⟩
    rw [List.length_take, List.length_drop]
    omega
  · cases h

theorem slice_error {b : Bytes} {off n : Nat} (h : b.length < off + n) :
    slice b off n = .error .outOfBounds := if_neg (Nat.not_le.mpr h)

theorem readU8_of_lt {b : Bytes} {off : Nat} (h : off < b.length) : readU8 b off = .ok b[off] := by
  have hone : (b.drop off).take 1 = [b[off]] := by
    rw [List.drop_eq_getElem_cons h]
    rfl
  rw [readU8, slice_ok h, hone]
  simp [Except.map, ofBE]

/-! A number can be read wherever there are bytes enough for it, and nowhere else. -/

theorem exists_readU8 {b : Bytes} {off : Nat} (h : off + 1 ≤ b.length) :
    ∃ v, readU8 b off = .ok v := by
  rw [readU8, slice_ok h]
  exact ⟨_, rfl⟩

theorem exists_readU16 {b : Bytes} {off : Nat} (h : off + 2 ≤ b.length) :
    ∃ v, readU16 b off = .ok v := by
  rw [readU16, slice_ok h]
  exact ⟨_, rfl⟩

theorem exists_readU32 {b : Bytes} {off : Nat} (h : off + 4 ≤ b.length) :
    ∃ v, readU32 b off = .ok v := by
  rw [readU32, slice_ok h]
  exact ⟨_, rfl⟩

theorem exists_readVec {n : Nat} {b : Bytes} {off : Nat} (h : off + n ≤ b.length) :
    ∃ v, readVec n b off = .ok v := by
  rw [readVec, slice_ok h]
  exact ⟨_, rfl⟩

theorem readU8_error {b : Bytes} {off : Nat} (h : b.length < off + 1) :
    readU8 b off = .error .outOfBounds := by
  rw [readU8, slice_error h]
  rfl

theorem readU16_error {b : Bytes} {off : Nat} (h : b.length < off + 2) :
    readU16 b off = .error .outOfBounds := by
  rw [readU16, slice_error h]
  rfl

theorem readU32_error {b : Bytes} {off : Nat} (h : b.length < off + 4) :
    readU32 b off = .error .outOfBounds := by
  rw [readU32, slice_error h]
  rfl

theorem readVec_error {n : Nat} {b : Bytes} {off : Nat} (h : b.length < off + n) :
    readVec n b off = .error .outOfBounds := by
  rw [readVec, slice_error h]
  rfl

/-- Bytes start with the number that is read there. -/
theorem exists_eq_be16_append {b : Bytes} (h : 2 ≤ b.length) : ∃ v rest, b = be16 v ++ rest := by
  match b, h with
  | x :: y :: rest, _ =>
      have hx := UInt8.toNat_lt x
      have hy := UInt8.toNat_lt y
      refine ⟨UInt16.ofNat (x.toNat * 256 + y.toNat), rest, ?_⟩
      have hv : (UInt16.ofNat (x.toNat * 256 + y.toNat)).toNat = x.toNat * 256 + y.toNat := by
        rw [UInt16.toNat_ofNat']
        omega
      have hhigh : UInt8.ofNat ((x.toNat * 256 + y.toNat) / 256) = x := by
        rw [show (x.toNat * 256 + y.toNat) / 256 = x.toNat by omega, UInt8.ofNat_toNat]
      have hlow : UInt8.ofNat (x.toNat * 256 + y.toNat) = y := by
        apply UInt8.toNat_inj.mp
        rw [UInt8.toNat_ofNat']
        omega
      rw [be16, hv]
      simp [toBE, hhigh, hlow]

theorem exists_eq_be32_append {b : Bytes} (h : 4 ≤ b.length) : ∃ v rest, b = be32 v ++ rest := by
  have hlen : (b.take 4).length = 4 := List.length_take_of_le h
  have hlt := ofBE_lt (b.take 4)
  have hspell := toBE_ofBE (b.take 4)
  rw [hlen] at hlt hspell
  refine ⟨UInt32.ofNat (ofBE (b.take 4)), b.drop 4, ?_⟩
  have hbytes : be32 (UInt32.ofNat (ofBE (b.take 4))) = b.take 4 := by
    rw [be32, UInt32.toNat_ofNat', Nat.mod_eq_of_lt (show ofBE (b.take 4) < 2 ^ 32 by omega), hspell]
  rw [hbytes, List.take_append_drop]

/-- Reading behind a prefix. -/
theorem slice_append_right {l r : Bytes} {off n : Nat} (h : l.length ≤ off) :
    slice (l ++ r) off n = slice r (off - l.length) n := by
  unfold slice
  rw [List.length_append, List.drop_append, List.drop_eq_nil_of_le h, List.nil_append]
  by_cases hle : off + n ≤ l.length + r.length
  · rw [if_pos hle, if_pos (by omega)]
  · rw [if_neg hle, if_neg (by omega)]

/-- Reading inside a prefix. -/
theorem slice_append_of_le {l r : Bytes} {off n : Nat} (h : off + n ≤ l.length) :
    slice (l ++ r) off n = slice l off n := by
  rw [slice_ok h, slice_ok (by rw [List.length_append]; omega), List.drop_append_of_le_length (by omega),
    List.take_append_of_le_length (by rw [List.length_drop]; omega)]

theorem readU16_append_of_le {l r : Bytes} {off : Nat} (h : off + 2 ≤ l.length) :
    readU16 (l ++ r) off = readU16 l off := by
  rw [readU16, readU16, slice_append_of_le h]

/-! Reading within the first bytes. -/

theorem slice_take {b : Bytes} {k off n : Nat} (h : off + n ≤ k) (hk : k ≤ b.length) :
    slice (b.take k) off n = slice b off n := by
  have happend := @slice_append_of_le (b.take k) (b.drop k) off n (by rw [List.length_take_of_le hk]; exact h)
  rw [List.take_append_drop] at happend
  exact happend.symm

theorem readU8_take {b : Bytes} {k off : Nat} (h : off + 1 ≤ k) (hk : k ≤ b.length) :
    readU8 (b.take k) off = readU8 b off := by
  rw [readU8, readU8, slice_take h hk]

theorem readU16_take {b : Bytes} {k off : Nat} (h : off + 2 ≤ k) (hk : k ≤ b.length) :
    readU16 (b.take k) off = readU16 b off := by
  rw [readU16, readU16, slice_take h hk]

theorem readU32_take {b : Bytes} {k off : Nat} (h : off + 4 ≤ k) (hk : k ≤ b.length) :
    readU32 (b.take k) off = readU32 b off := by
  rw [readU32, readU32, slice_take h hk]

theorem readU64_take {b : Bytes} {k off : Nat} (h : off + 8 ≤ k) (hk : k ≤ b.length) :
    readU64 (b.take k) off = readU64 b off := by
  rw [readU64, readU64, slice_take h hk]

theorem readVec_take {m : Nat} {b : Bytes} {k off : Nat} (h : off + m ≤ k) (hk : k ≤ b.length) :
    readVec m (b.take k) off = readVec m b off := by
  rw [readVec, readVec, slice_take h hk]

/-! Reading behind the first bytes. -/

theorem slice_drop {b : Bytes} {k : Nat} (hk : k ≤ b.length) (off n : Nat) :
    slice (b.drop k) off n = slice b (k + off) n := by
  have happend := @slice_append_right (b.take k) (b.drop k) (k + off) n (by rw [List.length_take]; omega)
  rw [List.take_append_drop, List.length_take_of_le hk, Nat.add_sub_cancel_left] at happend
  exact happend.symm

theorem readU16_drop {b : Bytes} {k : Nat} (hk : k ≤ b.length) (off : Nat) :
    readU16 (b.drop k) off = readU16 b (k + off) := by
  rw [readU16, readU16, slice_drop hk]

/-- Reading a prefix. -/
theorem slice_append_left (l r : Bytes) : slice (l ++ r) 0 l.length = .ok l := by
  rw [slice_ok (by simp)]
  simp

@[simp] theorem ok_bind {α β : Type} (a : α) (f : α → Read β) : (Except.ok a : Read α) >>= f = f a :=
  rfl

@[simp] theorem pure_eq_ok {α : Type} (a : α) : (pure a : Read α) = .ok a := rfl

@[simp] theorem error_bind {α β : Type} (e : Fault) (f : α → Read β) :
    (Except.error e : Read α) >>= f = .error e := rfl

/-- A reader that goes on after another: what it came to, what the other had come to. -/
theorem bind_eq_ok {α β : Type} {x : Read α} {f : α → Read β} {b : β} :
    x >>= f = .ok b ↔ ∃ a, x = .ok a ∧ f a = .ok b := by
  cases x with
  | error e => simp
  | ok a => simp

theorem map_eq_ok {α β : Type} {x : Read α} {f : α → β} {b : β} :
    x.map f = .ok b ↔ ∃ a, x = .ok a ∧ f a = b := by
  cases x with
  | error e => simp [Except.map]
  | ok a => simp [Except.map]

theorem map_eq_error {α β : Type} {x : Read α} {f : α → β} {e : Fault} :
    x.map f = .error e ↔ x = .error e := by
  cases x with
  | error e => simp [Except.map]
  | ok a => simp [Except.map]

/-- What a reader returned, from what it was turned into. -/
theorem map_eq_some {α β : Type} {x : Read (Option α)} {f : α → β} {b : β} :
    x.map (Option.map f) = .ok (some b) ↔ ∃ a, x = .ok (some a) ∧ f a = b := by
  cases x with
  | error e => simp [Except.map]
  | ok a => simp [Except.map]

/-- Reading behind the first byte. -/
theorem slice_cons (x : UInt8) (r : Bytes) (off n : Nat) :
    slice (x :: r) (off + 1) n = slice r off n := by
  have h := slice_append_right (l := [x]) (r := r) (n := n) (Nat.le_add_left 1 off)
  simpa using h

@[simp] theorem readU8_cons_succ (x : UInt8) (r : Bytes) (off : Nat) :
    readU8 (x :: r) (off + 1) = readU8 r off := by
  rw [readU8, readU8, slice_cons]

@[simp] theorem readU16_cons_succ (x : UInt8) (r : Bytes) (off : Nat) :
    readU16 (x :: r) (off + 1) = readU16 r off := by
  rw [readU16, readU16, slice_cons]

@[simp] theorem readU32_cons_succ (x : UInt8) (r : Bytes) (off : Nat) :
    readU32 (x :: r) (off + 1) = readU32 r off := by
  rw [readU32, readU32, slice_cons]

@[simp] theorem readVec_cons_succ {n : Nat} (x : UInt8) (r : Bytes) (off : Nat) :
    readVec n (x :: r) (off + 1) = readVec n r off := by
  rw [readVec, readVec, slice_cons]

theorem readU8_append_right {l r : Bytes} {off : Nat} (h : l.length ≤ off) :
    readU8 (l ++ r) off = readU8 r (off - l.length) := by
  rw [readU8, readU8, slice_append_right h]

theorem readU16_append_right {l r : Bytes} {off : Nat} (h : l.length ≤ off) :
    readU16 (l ++ r) off = readU16 r (off - l.length) := by
  rw [readU16, readU16, slice_append_right h]

theorem readU32_append_right {l r : Bytes} {off : Nat} (h : l.length ≤ off) :
    readU32 (l ++ r) off = readU32 r (off - l.length) := by
  rw [readU32, readU32, slice_append_right h]

theorem readU64_append_right {l r : Bytes} {off : Nat} (h : l.length ≤ off) :
    readU64 (l ++ r) off = readU64 r (off - l.length) := by
  rw [readU64, readU64, slice_append_right h]

theorem readVec_append_right {n : Nat} {l r : Bytes} {off : Nat} (h : l.length ≤ off) :
    readVec n (l ++ r) off = readVec n r (off - l.length) := by
  rw [readVec, readVec, slice_append_right h]

@[simp] theorem readU8_cons (x : UInt8) (r : Bytes) : readU8 (x :: r) 0 = .ok x := by
  have h : slice (x :: r) 0 1 = .ok [x] := slice_append_left [x] r
  rw [readU8, h]
  simp [Except.map, ofBE]

@[simp] theorem readU16_be16 (v : UInt16) (r : Bytes) : readU16 (be16 v ++ r) 0 = .ok v := by
  have h : slice (be16 v ++ r) 0 2 = .ok (be16 v) := by
    simpa using slice_append_left (be16 v) r
  rw [readU16, h, be16, Except.map, ofBE_toBE (UInt16.toNat_lt v)]
  simp

@[simp] theorem readU16_be16_self (v : UInt16) : readU16 (be16 v) 0 = .ok v := by
  simpa using readU16_be16 v []

@[simp] theorem readU32_be32 (v : UInt32) (r : Bytes) : readU32 (be32 v ++ r) 0 = .ok v := by
  have h : slice (be32 v ++ r) 0 4 = .ok (be32 v) := by
    simpa using slice_append_left (be32 v) r
  rw [readU32, h, be32, Except.map, ofBE_toBE (UInt32.toNat_lt v)]
  simp

@[simp] theorem readU64_be64 (v : UInt64) (r : Bytes) : readU64 (be64 v ++ r) 0 = .ok v := by
  have h : slice (be64 v ++ r) 0 8 = .ok (be64 v) := by
    simpa using slice_append_left (be64 v) r
  rw [readU64, h, be64, Except.map, ofBE_toBE (UInt64.toNat_lt v)]
  simp

/-- **An array of words is read back word by word.** -/
theorem readU64_flatMap {words : List UInt64} {i : Nat} {word : UInt64} (h : words[i]? = some word) :
    readU64 (words.flatMap be64) (8 * i) = .ok word := by
  induction words generalizing i with
  | nil => cases h
  | cons first words ih =>
      rw [List.flatMap_cons]
      cases i with
      | zero =>
          cases h
          exact readU64_be64 _ _
      | succ i =>
          have hlen : (be64 first).length ≤ 8 * (i + 1) := by
            rw [length_be64]
            omega
          have hoff : 8 * (i + 1) - (be64 first).length = 8 * i := by
            rw [length_be64]
            omega
          rw [readU64_append_right hlen, hoff]
          exact ih h

@[simp] theorem readVec_toList {n : Nat} (v : Vector UInt8 n) (r : Bytes) :
    readVec n (v.toList ++ r) 0 = .ok v := by
  have h : slice (v.toList ++ r) 0 n = .ok v.toList := by
    simpa using slice_append_left v.toList r
  rw [readVec, h, Except.map]
  refine congrArg Except.ok ?_
  ext i hi
  simp

@[simp] theorem readVec_toList_self {n : Nat} (v : Vector UInt8 n) : readVec n v.toList 0 = .ok v := by
  simpa using readVec_toList v []

/-! ## Writing again what was read -/

theorem be16_of_readU16 {b : Bytes} {off : Nat} {v : UInt16} (h : readU16 b off = .ok v) :
    be16 v = (b.drop off).take 2 := by
  rw [readU16] at h
  obtain ⟨l, hslice, rfl⟩ := map_eq_ok.mp h
  rw [slice] at hslice
  split at hslice
  · rename_i hle
    have hlen : ((b.drop off).take 2).length = 2 := by
      rw [List.length_take, List.length_drop]
      omega
    obtain rfl := Except.ok.inj hslice
    have hlt : ofBE ((b.drop off).take 2) < 2 ^ 16 := by
      have hlt := ofBE_lt ((b.drop off).take 2)
      rwa [hlen] at hlt
    have hback := toBE_ofBE ((b.drop off).take 2)
    rw [hlen] at hback
    rw [be16, UInt16.toNat_ofNat', Nat.mod_eq_of_lt hlt, hback]
  · cases hslice

theorem singleton_of_readU8 {b : Bytes} {off : Nat} {v : UInt8} (h : readU8 b off = .ok v) :
    [v] = (b.drop off).take 1 := by
  have hlt : off < b.length := by
    by_contra hle
    rw [readU8_error (by omega)] at h
    cases h
  rw [readU8_of_lt hlt] at h
  rw [← Except.ok.inj h, List.drop_eq_getElem_cons hlt]
  rfl

theorem toList_of_readVec {n : Nat} {b : Bytes} {off : Nat} {v : Vector UInt8 n}
    (h : readVec n b off = .ok v) : v.toList = (b.drop off).take n := by
  rw [readVec] at h
  obtain ⟨l, hslice, rfl⟩ := map_eq_ok.mp h
  rw [slice] at hslice
  split at hslice
  · rename_i hle
    obtain rfl := Except.ok.inj hslice
    have hlen : ((b.drop off).take n).length = n := by
      rw [List.length_take, List.length_drop]
      omega
    apply List.ext_getElem
    · simp [hlen]
    · intro i hi hi'
      simp only [Vector.getElem_toList, Vector.getElem_ofFn, List.getD_eq_getElem?_getD,
        List.getElem?_eq_getElem hi', Option.getD_some]
  · cases hslice

/-- Bytes that follow on bytes. -/
theorem take_drop_append_take_drop (b : Bytes) (off m n : Nat) :
    (b.drop off).take m ++ (b.drop (off + m)).take n = (b.drop off).take (m + n) := by
  rw [List.take_add, List.drop_drop]

/-! ## Readers that answer -/

/-- A reader comes to an answer. -/
def Answers {α : Type} (r : Read α) : Prop := ∃ a, r = .ok a

section Answers

variable {α β : Type}

theorem answers_ok (a : α) : Answers (.ok a) := ⟨a, rfl⟩

theorem answers_iff {r : Read α} : Answers r ↔ ¬ ∃ e, r = .error e := by
  cases r with
  | error e => simp [Answers]
  | ok a => simp [Answers]

theorem not_answers_error (e : Fault) : ¬ Answers (.error e : Read α) :=
  fun h => answers_iff.mp h ⟨e, rfl⟩

/-- A reader that answers, whatever another one made of the bytes before it. -/
theorem Answers.bind {x : Read α} {f : α → Read β} (h : Answers x) (hf : ∀ a, Answers (f a)) :
    Answers (x >>= f) := by
  obtain ⟨a, rfl⟩ := h
  exact hf a

theorem Answers.of_bind {x : Read α} {f : α → Read β} (h : Answers (x >>= f)) :
    ∃ a, x = .ok a ∧ Answers (f a) := by
  obtain ⟨b, hb⟩ := h
  obtain ⟨a, ha, hf⟩ := bind_eq_ok.mp hb
  exact ⟨a, ha, b, hf⟩

theorem answers_map_iff {x : Read α} {f : α → β} : Answers (x.map f) ↔ Answers x := by
  cases x with
  | error e => exact ⟨fun ⟨_, h⟩ => (by cases h), fun ⟨_, h⟩ => (by cases h)⟩
  | ok a => exact ⟨fun _ => answers_ok a, fun _ => answers_ok (f a)⟩

theorem answers_bind_iff {x : Read α} {f : α → Read β} :
    Answers (x >>= f) ↔ ∃ a, x = .ok a ∧ Answers (f a) := by
  refine ⟨Answers.of_bind, ?_⟩
  intro ⟨a, ha, hf⟩
  rwa [ha, ok_bind]

theorem Answers.bind_some {x : Read α} {f : α → Read (Option β)} (h : Answers x)
    (hf : ∀ a, ∃ b, f a = .ok (some b)) : ∃ b, x >>= f = .ok (some b) := by
  obtain ⟨a, rfl⟩ := h
  exact hf a

/-- A reader that faults, if no reader before it does. -/
theorem Answers.bind_error {x : Read α} {f : α → Read β} {e : Fault} (h : Answers x)
    (hf : ∀ a, f a = .error e) : x >>= f = .error e := by
  obtain ⟨a, rfl⟩ := h
  exact hf a

/-- A choice of readers answers if each does where it is chosen. -/
theorem Answers.ite {p : Prop} [Decidable p] {x y : Read α} (hx : p → Answers x)
    (hy : ¬ p → Answers y) : Answers (if p then x else y) := by
  split
  · exact hx ‹_›
  · exact hy ‹_›

theorem answers_slice {b : Bytes} {off n : Nat} (h : off + n ≤ b.length) :
    Answers (slice b off n) := ⟨_, slice_ok h⟩

theorem answers_readU8 {b : Bytes} {off : Nat} (h : off + 1 ≤ b.length) : Answers (readU8 b off) :=
  exists_readU8 h

theorem answers_readU16 {b : Bytes} {off : Nat} (h : off + 2 ≤ b.length) :
    Answers (readU16 b off) := exists_readU16 h

theorem answers_readU32 {b : Bytes} {off : Nat} (h : off + 4 ≤ b.length) :
    Answers (readU32 b off) := exists_readU32 h

theorem answers_readU64 {b : Bytes} {off : Nat} (h : off + 8 ≤ b.length) :
    Answers (readU64 b off) := by
  rw [readU64, slice_ok h]
  exact ⟨_, rfl⟩

theorem answers_readVec {n : Nat} {b : Bytes} {off : Nat} (h : off + n ≤ b.length) :
    Answers (readVec n b off) := exists_readVec h

theorem le_of_readU16 {b : Bytes} {off : Nat} {v : UInt16} (h : readU16 b off = .ok v) :
    off + 2 ≤ b.length := by
  by_contra hlt
  rw [readU16_error (by omega)] at h
  cases h

/-- A reader with nothing wrong but its bounds. -/
def InBoundsOrOver (r : Read α) : Prop := r = .error .outOfBounds ∨ Answers r

theorem inBoundsOrOver_slice (b : Bytes) (off n : Nat) : InBoundsOrOver (slice b off n) := by
  unfold slice
  split
  · exact .inr (answers_ok _)
  · exact .inl rfl

theorem InBoundsOrOver.map {r : Read α} (h : InBoundsOrOver r) (f : α → β) : InBoundsOrOver (r.map f) := by
  rcases h with rfl | ⟨a, rfl⟩
  · exact .inl rfl
  · exact .inr (answers_ok _)

theorem inBoundsOrOver_readU8 (b : Bytes) (off : Nat) : InBoundsOrOver (readU8 b off) :=
  (inBoundsOrOver_slice b off 1).map _

theorem inBoundsOrOver_readU16 (b : Bytes) (off : Nat) : InBoundsOrOver (readU16 b off) :=
  (inBoundsOrOver_slice b off 2).map _

theorem inBoundsOrOver_readVec (n : Nat) (b : Bytes) (off : Nat) : InBoundsOrOver (readVec n b off) :=
  (inBoundsOrOver_slice b off n).map _

/-- A reader that reads past the end, behind others that may do so before it. -/
theorem InBoundsOrOver.bind_over {x : Read α} {f : α → Read β} (h : InBoundsOrOver x)
    (hf : ∀ a, f a = .error .outOfBounds) : x >>= f = .error .outOfBounds := by
  rcases h with rfl | ⟨a, rfl⟩
  · rfl
  · exact hf a

end Answers

end IronStack.Lib

import IronStack.RateMeter

/-!
# What a rate meter counts

The number of samples starts at zero, and `add_sample` only ever counts further from
another number, so that no sample counts, and no rate is anything but that of an empty
meter.

Samples are read newest first here.
-/

namespace IronStack.Proof.RateMeter

open IronStack

variable {α : Type}

/-- The meter after some samples came, the newest one first, each with the time at which it came. -/
def after [AddCommMonoid α] (window : UInt32) : List (Nat × α) → RateMeter α
  | [] => .new window
  | (now, sample) :: past => (after window past).addSample now sample

/-- The samples that a meter is meant to retain. -/
def retained (window : UInt32) (past : List (Nat × α)) : List (Nat × α) := past.take window.toNat

/-- The sum of samples. -/
def total [AddCommMonoid α] (entries : List (Nat × α)) : α := (entries.map Prod.snd).sum

/-- The samples that are no older than some seconds, in milliseconds. -/
def recent (now seconds : Nat) (entries : List (Nat × α)) : List (Nat × α) :=
  entries.filter fun entry => (now - entry.1) / 1000000 ≤ seconds * 1000

/-- The milliseconds between the oldest and the newest sample. -/
def spanMs (entries : List (Nat × α)) : Nat :=
  ((entries.map Prod.fst).headD 0 - (entries.map Prod.fst).getLastD 0) / 1000000

/-- The meter counts the samples of its window, and its rates are those of them. -/
structure Counts [AddCommMonoid α] [Mul α] [Div α] [NatCast α] (window : UInt32) (past : List (Nat × α))
    (m : RateMeter α) : Prop where
  number : m.samples.toNat = min past.length window.toNat
  newest : m.counted.Perm (retained window past)
  recent : ∀ (now : Nat) (seconds : UInt32), seconds ≠ 0 →
    m.getRate now seconds = total (recent now seconds.toNat (retained window past)) / (seconds.toNat : α)
  overall : ∀ now, m.getRate now 0 = if spanMs (retained window past) = 0 then 0
    else total (retained window past) / (spanMs (retained window past) : α) * ((1000 : Nat) : α)

/-! ## What is counted -/

section Counted

variable [AddCommMonoid α] {window : UInt32}

/-- No sample is ever counted. -/
theorem samples_after (past : List (Nat × α)) : (after window past).samples = 0 := by
  induction past with
  | nil => rfl
  | cons call past ih => exact RateMeter.addSample_samples ih

/-- So the cells that count are none. -/
theorem counted_after (past : List (Nat × α)) : (after window past).counted = [] := by
  rw [RateMeter.counted, samples_after]
  rfl

end Counted

/-! ## The counts -/

section Counts

variable [AddCommMonoid α] [Mul α] [Div α] [NatCast α] {window : UInt32}

/-- **Every rate is that of an empty meter.** -/
theorem getRate_after (past : List (Nat × α)) (now : Nat) (seconds : UInt32) :
    (after window past).getRate now seconds = if seconds = 0 then 0 else 0 / (seconds.toNat : α) := by
  unfold RateMeter.getRate
  rw [counted_after]
  rfl

/-- That is right if nothing came. -/
theorem counts_nil : Counts window ([] : List (Nat × α)) (after window []) := by
  have hnone : retained window ([] : List (Nat × α)) = [] := List.take_nil
  refine ⟨(Nat.zero_min _).symm, ?_, ?_, ?_⟩
  · rw [counted_after, hnone]
  · intro now seconds hseconds
    rw [getRate_after, if_neg hseconds, hnone]
    rfl
  · intro now
    have hspan : spanMs ([] : List (Nat × α)) = 0 := by simp [spanMs]
    rw [getRate_after, hnone, if_pos rfl, if_pos hspan]

/-- **A rate meter counts what came** exactly if nothing came. -/
theorem counts_iff (hw : window ≠ 0) (past : List (Nat × α)) :
    Counts window past (after window past) ↔ past = [] := by
  refine ⟨?_, ?_⟩
  · intro h
    have hnumber := h.number
    have hpos : window.toNat ≠ 0 := fun h => hw (UInt32.toNat_inj.mp h)
    rw [samples_after] at hnumber
    have hlen : past.length = 0 := by
      change 0 = _ at hnumber
      omega
    exact List.length_eq_zero_iff.mp hlen
  · rintro rfl
    exact counts_nil

/-- A new meter with a window of three. -/
theorem newMeter_counts : Counts 3 ([] : List (Nat × Nat)) (after 3 []) ↔ ([] : List (Nat × Nat)) = [] :=
  counts_iff (by decide) []

/-- One sample in a window of three is not counted. -/
theorem oneSample_lost : ¬ Counts 3 [(5000000000, 7)] (after 3 [(5000000000, (7 : Nat))]) := by
  intro h
  cases h.number

end Counts

end IronStack.Proof.RateMeter

import Mathlib.Algebra.BigOperators.Group.List.Basic

/-!
# Rate meters

`rate_meter<T>` keeps the samples of a window in two circular arrays, one with the
samples and one with the readings of the clock, in nanoseconds, at which they came.
A fresh reading is the epoch of the clock.
-/

namespace IronStack

/-- `rate_meter<T>`, with arrays of the size that it says. -/
structure RateMeter (α : Type) where
  sampleHistory : List α
  historyTime : List Nat
  cumulative : α
  samples : UInt32
  maxSamples : UInt32
  samplePtr : UInt32
  firstSampleTime : Nat
  length_samples : sampleHistory.length = maxSamples.toNat
  length_times : historyTime.length = maxSamples.toNat

namespace RateMeter

variable {α : Type}

/-- `rate_meter::set_history`, which leaves the time of the first sample as it is. -/
def setHistory [Zero α] (firstSampleTime : Nat) (maxSamples : UInt32) : RateMeter α where
  sampleHistory := List.replicate maxSamples.toNat 0
  historyTime := List.replicate maxSamples.toNat 0
  cumulative := 0
  samples := 0
  maxSamples := maxSamples
  samplePtr := 0
  firstSampleTime := firstSampleTime
  length_samples := List.length_replicate
  length_times := List.length_replicate

/-- `rate_meter::rate_meter`. -/
def new [Zero α] (maxSamples : UInt32) : RateMeter α := setHistory 0 maxSamples

/-- `rate_meter::reset`, which leaves the times as they are. -/
def reset [Zero α] (m : RateMeter α) : RateMeter α :=
  { m with
    sampleHistory := List.replicate m.maxSamples.toNat 0
    cumulative := 0
    samples := 0
    samplePtr := 0
    length_samples := List.length_replicate }

/--
`rate_meter::add_sample`. As long as there are no samples, the time of the first one is
set, from the cell that comes next, and the samples are not counted.
-/
def addSample [Add α] (m : RateMeter α) (now : Nat) (sample : α) : RateMeter α :=
  if m.maxSamples = 0 then m
  else
    let historyTime := m.historyTime.set m.samplePtr.toNat now
    let samplePtr := (m.samplePtr + 1) % m.maxSamples
    { m with
      sampleHistory := m.sampleHistory.set m.samplePtr.toNat sample
      historyTime := historyTime
      samplePtr := samplePtr
      firstSampleTime :=
        if m.samples = 0 then historyTime.getD samplePtr.toNat 0 else m.firstSampleTime
      samples :=
        if m.samples = 0 then m.samples
        else if m.samples < m.maxSamples then m.samples + 1 else m.maxSamples
      cumulative := m.cumulative + sample
      length_samples := List.length_set.trans m.length_samples
      length_times := List.length_set.trans m.length_times }

section AddSample

variable [Add α] {m : RateMeter α} {now : Nat} {sample : α}

/-- A meter without samples stays without. -/
theorem addSample_samples (h : m.samples = 0) : (m.addSample now sample).samples = 0 := by
  unfold addSample
  split
  · exact h
  · exact (if_pos h).trans h

end AddSample

/-- The cells that `get_rate` goes through. -/
def counted (m : RateMeter α) : List (Nat × α) :=
  (m.historyTime.zip m.sampleHistory).take m.samples.toNat

/-- The earliest and the latest time, as `get_rate` finds them: none is both at the epoch. -/
def span : List Nat → Nat × Nat
  | [] => (0, 0)
  | time :: times =>
      times.foldl (fun (earliest, latest) time =>
        if time < earliest then (time, latest)
        else if time > latest then (earliest, time) else (earliest, latest)) (time, time)

/-- `rate_meter::get_rate`. The milliseconds of the history are computed in 32 bits. -/
def getRate [AddCommMonoid α] [Mul α] [Div α] [NatCast α] (m : RateMeter α) (now : Nat)
    (historySec : UInt32) : α :=
  if historySec = 0 then
    let total := (m.counted.map Prod.snd).sum
    let (earliest, latest) := span (m.counted.map Prod.fst)
    let differenceMs := UInt32.ofNat ((latest - earliest) / 1000000)
    if differenceMs = 0 then 0 else (total / (differenceMs.toNat : α)) * ((1000 : Nat) : α)
  else
    let recent := m.counted.filter fun entry => (now - entry.1) / 1000000 ≤ (historySec * 1000).toNat
    (recent.map Prod.snd).sum / (historySec.toNat : α)

end RateMeter

end IronStack

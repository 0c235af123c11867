import IronStack.Flow.FlowRate
import IronStack.Lib.Window

/-!
# What a flow's rates are rates of

An update takes the first count and the entry before off the new count. That is the
difference from the count before only as long as nothing has been counted up to there:
otherwise the entries alternate between two sums. And as no timer is started again after
the construction, no time ever passes between the oldest and the newest entry, and every
rate is zero.

Histories are read newest first here.
-/

namespace IronStack.Proof.FlowRate

open IronStack Lib

/-- The entries of a history that count, newest first. -/
def retained (h : History) (validHistories : Nat) : List UInt64 :=
  (h.toList.take validHistories).reverse

/-- An update, and when it came, in nanoseconds. -/
structure Update where
  now : Nat
  flow : FlowDescriptionAndStats

def Update.bytes (u : Update) : UInt64 := u.flow.byteCount
def Update.packets (u : Update) : UInt64 := u.flow.packetCount

/-- The flow's rates after some updates, the newest one first. -/
def after (created : Nat) : List Update → FlowRate
  | [] => .new created
  | u :: past => (after created past).updateFlow u.flow

/-- The counts that updates bring, as numbers. -/
def counts (count : Update → UInt64) (past : List Update) : List Nat :=
  past.map fun u => (count u).toNat

/-- Time goes on, and no count goes down. -/
def Nondecreasing (past : List Update) : Prop :=
  past.Pairwise fun newer older =>
    older.now ≤ newer.now ∧ older.bytes ≤ newer.bytes ∧ older.packets ≤ newer.packets

/-- The whole seconds between the oldest and the newest of the last ten updates. -/
def seconds (past : List Update) : Nat :=
  let times := (past.take 10).map Update.now
  (times.headD 0 - times.getLastD 0) / 1000000 / 1000

/-- What the counter gained over the last ten updates. -/
def gained (count : Update → UInt64) (past : List Update) : Nat :=
  (counts count past).headD 0 - countBefore 10 (counts count past)

/-- A history and its rate are what they are meant to be. -/
structure Tells (count : Update → UInt64) (past : List Update) (entries : List UInt64)
    (rate : Nat → UInt64) : Prop where
  each : entries.map UInt64.toNat = (differences (counts count past)).take 10
  total : (entries.map UInt64.toNat).sum = gained count past
  rate : ∀ now, (rate now).toNat = if seconds past = 0 then 0 else gained count past / seconds past

/-- Both are. -/
structure Faithful (created : Nat) (past : List Update) : Prop where
  bytes : Tells Update.bytes past
    (retained (after created past).byteHistory (after created past).validHistories)
    (after created past).getByteRate
  packets : Tells Update.packets past
    (retained (after created past).packetHistory (after created past).validHistories)
    (after created past).getPacketRate

/-- The updates before the last two all brought the same count, and less than one was
gained for each second, if there was any. -/
structure Idle (count : Update → UInt64) (past : List Update) : Prop where
  same : ∀ u ∈ past.drop 2, ∀ first ∈ past.getLast?, count u = count first
  slow : seconds past = 0 ∨ gained count past < seconds past

/-! ## The entries -/

/-- The entry that the newest of some counts gets. -/
def entry (initial : UInt64) : List UInt64 → UInt64
  | [] => 0
  | count :: older => count - initial - entry initial older

/-- The entries that all of them get. -/
def entries (initial : UInt64) : List UInt64 → List UInt64
  | [] => []
  | count :: older => entry initial (count :: older) :: entries initial older

theorem headD_entries (initial : UInt64) (past : List UInt64) :
    (entries initial past).headD 0 = entry initial past := by
  cases past with
  | nil => rfl
  | cons count older => rfl

theorem length_retained {h : History} {valid : Nat} (hle : valid ≤ 10) :
    (retained h valid).length = valid := by
  rw [retained, List.length_reverse, List.length_take, Vector.length_toList]
  omega

/-- The newest of the entries that count. -/
theorem headD_retained {h : History} {valid : Nat} (hle : valid ≤ 10) (hpos : valid ≠ 0) :
    (retained h valid).headD 0 = h[valid - 1] := by
  have hlen : h.toList.length = 10 := Vector.length_toList
  have hlast : valid - 1 < h.toList.length := by omega
  rw [retained, List.headD_eq_head?_getD, List.head?_reverse, List.getLast?_take, if_neg hpos,
    List.getElem?_eq_getElem hlast]
  rfl

theorem getElem_shiftDown {h : History} {i : Nat} (hi : i + 1 < 10) : h.shiftDown[i] = h[i + 1] := by
  simp [History.shiftDown, hi]

theorem toList_shiftDown_set (h : History) (x : UInt64) :
    (h.shiftDown.set 9 x).toList = h.toList.drop 1 ++ [x] := by
  have hlen : h.toList.length = 10 := Vector.length_toList
  refine List.ext_getElem ?_ ?_
  · simp [hlen]
  · intro i hi hi'
    rw [Vector.length_toList] at hi
    rw [Vector.getElem_toList, Vector.getElem_set]
    by_cases hlast : i = 9
    · subst hlast
      simp [hlen]
    · have hnext : i + 1 < 10 := by omega
      have hbefore : i < (h.toList.drop 1).length := by
        rw [List.length_drop]
        omega
      rw [if_neg (Ne.symm hlast), List.getElem_append_left hbefore, List.getElem_drop,
        getElem_shiftDown hnext, Vector.getElem_toList]
      simp only [Nat.add_comm]

/-- **A history takes an entry**, and lets go of the oldest one if it is full. -/
theorem retained_record {h : History} {valid : Nat} {initial count : UInt64} (hle : valid ≤ 10)
    (hpos : valid ≠ 0) :
    retained (h.record valid initial count) (if valid < 10 then valid + 1 else valid) =
      ((count - initial - (retained h valid).headD 0) :: retained h valid).take 10 := by
  have hlen : h.toList.length = 10 := Vector.length_toList
  rw [headD_retained hle hpos]
  by_cases hroom : valid < 10
  · have hshort : (retained h valid).length + 1 ≤ 10 := by
      rw [length_retained hle]
      omega
    rw [if_pos hroom, History.record, dif_pos hroom, if_neg hpos, List.take_of_length_le hshort,
      retained, Vector.toList_set, List.take_succ_eq_append_getElem (by simpa [hlen] using hroom),
      List.getElem_set_self, List.take_set_of_le (Nat.le_refl _), List.reverse_append]
    rfl
  · have hfull : valid = 10 := by omega
    subst hfull
    rw [if_neg hroom, History.record, dif_neg hroom, retained, retained, toList_shiftDown_set,
      List.take_of_length_le (by simp [hlen]), List.take_of_length_le (Nat.le_of_eq hlen),
      List.reverse_append, List.take_succ_cons, List.take_reverse, hlen]
    simp [History.shiftDown]

/-! ## Runs -/

/-- The state after some updates, in terms of what they brought. -/
structure Follows (created : Nat) (past : List Update) (r : FlowRate) : Prop where
  valid : r.validHistories = min past.length 10
  bytes : retained r.byteHistory r.validHistories = (entries r.initialBytes (past.map Update.bytes)).take 10
  packets : retained r.packetHistory r.validHistories =
    (entries r.initialPackets (past.map Update.packets)).take 10
  initialBytes : ∀ first ∈ past.getLast?, r.initialBytes = first.bytes
  initialPackets : ∀ first ∈ past.getLast?, r.initialPackets = first.packets
  timers : r.timerHistory = Vector.replicate 10 (Timer.reset created)

/-- The first entry of a history. -/
theorem retained_record_first (h : History) (initial count : UInt64) :
    retained (h.record 0 initial count) 1 = [0] := by
  have hlen : h.toList.length = 10 := Vector.length_toList
  have hpos : 0 < (h.toList.set 0 0).length := by
    rw [List.length_set]
    omega
  rw [History.record, dif_pos (by omega), if_pos rfl, retained, Vector.toList_set, List.take_one,
    List.head?_eq_getElem?, List.getElem?_eq_getElem hpos, List.getElem_set_self]
  rfl

/-- One of the histories takes what an update brings. -/
theorem retained_step {h : History} {valid : Nat} {initial count : UInt64} {past : List UInt64}
    (hvalid : valid = min past.length 10) (hpos : past ≠ [])
    (hh : retained h valid = (entries initial past).take 10) :
    retained (h.record valid initial count) (if valid < 10 then valid + 1 else valid) =
      (entries initial (count :: past)).take 10 := by
  have hlen : past.length ≠ 0 := fun h => hpos (List.length_eq_zero_iff.mp h)
  have hhead : ((entries initial past).take 10).headD 0 = entry initial past := by
    rw [← headD_entries]
    cases entries initial past <;> rfl
  rw [retained_record (by omega) (by omega), hh, hhead, entries, entry, List.take_succ_cons,
    List.take_succ_cons, List.take_take]
  rfl

/-- The first update sets the counts that all entries are taken from. -/
theorem follows_first (created : Nat) (u : Update) : Follows created [u] (after created [u]) where
  valid := rfl
  bytes := by
    refine (retained_record_first _ 0 u.bytes).trans ?_
    change [0] = [u.bytes - u.bytes - 0]
    rw [UInt64.sub_self, UInt64.sub_zero]
  packets := by
    refine (retained_record_first _ 0 u.packets).trans ?_
    change [0] = [u.packets - u.packets - 0]
    rw [UInt64.sub_self, UInt64.sub_zero]
  initialBytes := by
    intro first hfirst
    cases hfirst
    rfl
  initialPackets := by
    intro first hfirst
    cases hfirst
    rfl
  timers := rfl

theorem Follows.step {created : Nat} {past : List Update} {r : FlowRate} (h : Follows created past r)
    (hpos : past ≠ []) (u : Update) : Follows created (u :: past) (r.updateFlow u.flow) := by
  have hlen : past.length ≠ 0 := fun h => hpos (List.length_eq_zero_iff.mp h)
  have hold : r.validHistories ≠ 0 := by
    rw [h.valid]
    omega
  have hbytes : (r.updateFlow u.flow).initialBytes = r.initialBytes := if_neg hold
  have hpackets : (r.updateFlow u.flow).initialPackets = r.initialPackets := if_neg hold
  have hlast : (u :: past).getLast? = past.getLast? := List.getLast?_cons_of_ne_nil hpos
  refine ⟨?_, ?_, ?_, ?_, ?_, h.timers⟩
  · have hvalid := h.valid
    change (if r.validHistories < 10 then r.validHistories + 1 else r.validHistories) = _
    rw [List.length_cons]
    split <;> omega
  · rw [hbytes]
    refine retained_step ?_ (by simpa using hpos) h.bytes
    rw [List.length_map]
    exact h.valid
  · rw [hpackets]
    refine retained_step ?_ (by simpa using hpos) h.packets
    rw [List.length_map]
    exact h.valid
  · rw [hbytes, hlast]
    exact h.initialBytes
  · rw [hpackets, hlast]
    exact h.initialPackets

/-- **What a run of updates leaves behind**, whatever they bring. -/
theorem follows_after (created : Nat) (past : List Update) : Follows created past (after created past) := by
  induction past with
  | nil =>
      refine ⟨rfl, rfl, rfl, ?_, ?_, rfl⟩
      · intro first hfirst
        cases hfirst
      · intro first hfirst
        cases hfirst
  | cons u past ih =>
      cases past with
      | nil => exact follows_first created u
      | cons v past => exact ih.step (List.cons_ne_nil v past) u

/-! ## Rates -/

/-- All timers were started together, and none of them again. -/
theorem rate_eq_zero {created : Nat} {r : FlowRate}
    (h : r.timerHistory = Vector.replicate 10 (Timer.reset created)) (history : History) (now : Nat) :
    r.rate history now = 0 := by
  unfold FlowRate.rate
  split
  · rfl
  · simp [h]

/-- A rate of zero is right if there is nothing to divide, or less than what it is divided by. -/
theorem zero_eq_rate_iff {gained seconds : Nat} :
    0 = (if seconds = 0 then 0 else gained / seconds) ↔ seconds = 0 ∨ gained < seconds := by
  by_cases hzero : seconds = 0
  · simp [hzero]
  · rw [if_neg hzero, eq_comm, Nat.div_eq_zero_iff]

/-! ## Where the entries are differences -/

/-- Two counts that are told apart by their difference. -/
theorem toNat_eq_sub_iff {e a b : UInt64} (h : b ≤ a) : e.toNat = a.toNat - b.toNat ↔ e = a - b := by
  rw [← UInt64.toNat_sub_of_le _ _ h, UInt64.toNat_inj]

/-- As long as all counts are the first one, nothing is taken off, and nothing is gained. -/
theorem entries_of_same {initial : UInt64} {cs : List UInt64} (h : ∀ c ∈ cs, c = initial) :
    entry initial cs = 0 ∧ (entries initial cs).map UInt64.toNat = differences (cs.map UInt64.toNat) := by
  induction cs with
  | nil => exact ⟨rfl, rfl⟩
  | cons c cs ih =>
      obtain ⟨hc, hcs⟩ := List.forall_mem_cons.mp h
      obtain ⟨hentry, hentries⟩ := ih hcs
      have hnew : entry initial (c :: cs) = 0 := by
        rw [entry, hentry, hc, UInt64.sub_self, UInt64.sub_zero]
      have hhead : (cs.map UInt64.toNat).headD c.toNat = c.toNat := by
        cases cs with
        | nil => rfl
        | cons d cs =>
            rw [List.map_cons, List.headD_cons, hc, hcs d List.mem_cons_self]
      refine ⟨hnew, ?_⟩
      rw [entries, hnew, List.map_cons, List.map_cons, differences, hentries, hhead, Nat.sub_self]
      rfl

/-- The counts are at least the first one. -/
theorem first_le {initial : UInt64} {cs : List UInt64}
    (hmono : cs.Pairwise fun newer older => older ≤ newer) (hlast : ∀ first ∈ cs.getLast?, initial = first) :
    ∀ c ∈ cs, initial ≤ c := by
  intro c hc
  rcases List.eq_nil_or_concat cs with rfl | ⟨newer, first, rfl⟩
  · cases hc
  · rw [List.concat_eq_append] at hc hmono hlast
    have hfirst : initial = first := hlast first (by simp)
    rw [hfirst]
    rcases List.mem_append.mp hc with hc | hc
    · exact (List.pairwise_append.mp hmono).2.2 c hc first List.mem_cons_self
    · rw [List.mem_singleton.mp hc]
      exact UInt64.le_refl _

/-- The last two entries are differences if all counts before are the first one. -/
theorem entries_of_drop {initial : UInt64} {cs : List UInt64}
    (hmono : cs.Pairwise fun newer older => older ≤ newer) (hlast : ∀ first ∈ cs.getLast?, initial = first)
    (h : ∀ c ∈ cs.drop 2, c = initial) :
    (entries initial cs).map UInt64.toNat = differences (cs.map UInt64.toNat) := by
  match cs with
  | [] => rfl
  | [c] =>
      have hc : initial = c := hlast c rfl
      exact (entries_of_same (by simp [hc])).2
  | w :: z :: older =>
      have holder : ∀ c ∈ older, c = initial := h
      obtain ⟨hentry, hentries⟩ := entries_of_same holder
      have hwz : z ≤ w := (List.pairwise_cons.mp hmono).1 z List.mem_cons_self
      have hzi : initial ≤ z := first_le hmono hlast z (List.mem_cons_of_mem _ List.mem_cons_self)
      have hbefore : (older.map UInt64.toNat).headD z.toNat = initial.toNat := by
        cases older with
        | nil => exact congrArg UInt64.toNat (hlast z rfl).symm
        | cons y older =>
            rw [List.map_cons, List.headD_cons, holder y List.mem_cons_self]
      have hz : entry initial (z :: older) = z - initial := by
        rw [entry, hentry, UInt64.sub_zero]
      have hw : entry initial (w :: z :: older) = w - z := by
        rw [entry, hz]
        grind
      rw [entries, hw, entries, hz, List.map_cons, List.map_cons, hentries, List.map_cons, List.map_cons,
        differences, differences, hbefore, List.headD_cons, (toNat_eq_sub_iff hwz).mpr rfl,
        (toNat_eq_sub_iff hzi).mpr rfl]

/-- **Two differences in a row** are right only if all counts before them are the first one. -/
theorem drop_of_entries {initial : UInt64} {cs : List UInt64}
    (hmono : cs.Pairwise fun newer older => older ≤ newer) (hlast : ∀ first ∈ cs.getLast?, initial = first)
    (h : ((entries initial cs).map UInt64.toNat).take 2 = (differences (cs.map UInt64.toNat)).take 2) :
    ∀ c ∈ cs.drop 2, c = initial := by
  have hfirst := first_le hmono hlast
  match cs with
  | [] | [c] | [w, z] => intro c hc; cases hc
  | w :: z :: y :: rest =>
      obtain ⟨hw, htail⟩ := List.pairwise_cons.mp hmono
      obtain ⟨hz, htail⟩ := List.pairwise_cons.mp htail
      have holder := (List.pairwise_cons.mp htail).1
      -- the second newest entry says what the one before it is, and the newest does
      obtain ⟨hnewest, hsecond⟩ : (entry initial (w :: z :: y :: rest)).toNat = w.toNat - z.toNat ∧
          (entry initial (z :: y :: rest)).toNat = z.toNat - y.toNat := by
        simpa [entries, differences] using h
      rw [toNat_eq_sub_iff (hw z List.mem_cons_self)] at hnewest
      rw [toNat_eq_sub_iff (hz y List.mem_cons_self)] at hsecond
      have hy : y = initial := by
        rw [entry, hsecond] at hnewest
        grind
      intro c hc
      rcases List.mem_cons.mp hc with rfl | hc
      · exact hy
      · have hle : c ≤ y := holder c hc
        have hge : initial ≤ c := hfirst c (by simp [hc])
        rw [hy] at hle
        exact UInt64.le_antisymm hle hge

/-! ## Where a history and its rate are right -/

variable {count : Update → UInt64} {past : List Update} {initial : UInt64}

theorem differences_iff_same (hmono : past.Pairwise fun newer older => count older ≤ count newer)
    (hinitial : ∀ first ∈ past.getLast?, initial = count first) :
    ((entries initial (past.map count)).take 10).map UInt64.toNat =
      (differences (counts count past)).take 10 ↔
      ∀ u ∈ past.drop 2, ∀ first ∈ past.getLast?, count u = count first := by
  have hmono' : (past.map count).Pairwise fun newer older => older ≤ newer := List.pairwise_map.mpr hmono
  have hlast : ∀ c ∈ (past.map count).getLast?, initial = c := by
    intro c hc
    rw [List.getLast?_map] at hc
    obtain ⟨first, hfirst, rfl⟩ := Option.map_eq_some_iff.mp hc
    exact hinitial first hfirst
  have hcounts : (past.map count).map UInt64.toNat = counts count past := List.map_map
  refine ⟨?_, ?_⟩
  · intro h u hu first hfirst
    rw [← hinitial first hfirst]
    refine drop_of_entries hmono' hlast ?_ (count u) ?_
    · have htwo := congrArg (List.take 2) h
      rw [← List.map_take, List.take_take, List.take_take] at htwo
      rw [hcounts, ← List.map_take]
      exact htwo
    · rw [← List.map_drop]
      exact List.mem_map_of_mem hu
  · intro h
    rw [List.map_take, entries_of_drop hmono' hlast ?_, hcounts]
    intro c hc
    rw [← List.map_drop] at hc
    obtain ⟨u, hu, rfl⟩ := List.mem_map.mp hc
    obtain ⟨first, hfirst⟩ : ∃ first, past.getLast? = some first := by
      cases hp : past.getLast? with
      | some first => exact ⟨first, rfl⟩
      | none =>
          rw [List.getLast?_eq_none_iff.mp hp] at hu
          cases hu
    rw [h u hu first hfirst, hinitial first hfirst]

theorem tells_iff (hmono : past.Pairwise fun newer older => count older ≤ count newer)
    (hinitial : ∀ first ∈ past.getLast?, initial = count first) {es : List UInt64} {rate : Nat → UInt64}
    (hes : es = (entries initial (past.map count)).take 10) (hrate : ∀ now, rate now = 0) :
    Tells count past es rate ↔ Idle count past := by
  have hsame := differences_iff_same hmono hinitial
  have hdesc : (counts count past).Pairwise (· ≥ ·) := List.pairwise_map.mpr hmono
  refine ⟨?_, ?_⟩
  · intro h
    refine ⟨hsame.mp (hes ▸ h.each), ?_⟩
    have hzero := h.rate 0
    rw [hrate] at hzero
    exact zero_eq_rate_iff.mp hzero
  · intro h
    have heach : es.map UInt64.toNat = (differences (counts count past)).take 10 := hes ▸ hsame.mpr h.same
    refine ⟨heach, ?_, ?_⟩
    · rw [heach]
      exact sum_take_differences 10 hdesc
    · intro now
      rw [hrate]
      exact zero_eq_rate_iff.mpr h.slow

/--
**The histories of a flow and its rates are right** exactly if, of the bytes and of the
packets, all updates but the last two brought the same count, and less than one was
gained for each second that the retained updates span, if they span a second.
-/
theorem faithful_iff (created : Nat) {past : List Update} (h : Nondecreasing past) :
    Faithful created past ↔ Idle Update.bytes past ∧ Idle Update.packets past := by
  have hf := follows_after created past
  have hbytes := tells_iff (h.imp fun hle => hle.2.1) hf.initialBytes hf.bytes
    (rate_eq_zero hf.timers (after created past).byteHistory)
  have hpackets := tells_iff (h.imp fun hle => hle.2.2) hf.initialPackets hf.packets
    (rate_eq_zero hf.timers (after created past).packetHistory)
  refine ⟨?_, ?_⟩
  · intro h
    exact ⟨hbytes.mp h.bytes, hpackets.mp h.packets⟩
  · intro ⟨hb, hp⟩
    exact ⟨hbytes.mpr hb, hpackets.mpr hp⟩

/-- An update after some seconds. -/
def update (seconds : Nat) (bytes packets : UInt64) : Update where
  now := seconds * 1000000000
  flow := {
    flowDescription := ⟨OfMatch.clear, OpenflowActionList.clear, 0, 0⟩
    byteCount := bytes
    packetCount := packets }

/-- A flow that starts after two updates have found nothing, and sends a few bytes in ten seconds. -/
theorem idleFlow_iff :
    Faithful 0 [update 20 15 1, update 10 0 0, update 0 0 0] ↔
      Idle Update.bytes [update 20 15 1, update 10 0 0, update 0 0 0] ∧
        Idle Update.packets [update 20 15 1, update 10 0 0, update 0 0 0] :=
  faithful_iff 0 (by unfold Nondecreasing; decide)

/-- A hundred bytes for each of four seconds: the last entry says two hundred, and the rate is zero. -/
theorem steadyFlow_fails : ¬ Faithful 0 [update 3 300 3, update 2 200 2, update 1 100 1, update 0 0 0] := by
  intro h
  have hrate := h.bytes.rate 3000000000
  revert hrate
  decide +kernel

example :
    retained (after 0 [update 3 300 3, update 2 200 2, update 1 100 1, update 0 0 0]).byteHistory 4 =
      [200, 100, 100, 0] := by
  decide +kernel

end IronStack.Proof.FlowRate

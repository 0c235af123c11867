import IronStack.Proof.FlowMod
import IronStack.Proof.Service
import Mathlib.Data.List.Induction

/-!
# The cookies the service issues

After the first download of the switch's flows, the cookie counter stands at one
more than the largest reported cookie, and every flow added from then on draws
the next one. The arithmetic is 64 bit and the all-ones value is reserved, so the
scheme has two seams. A reported all-ones cookie wraps the counter to 0, and the
search for the maximum starts over behind it. And when the counter itself
arrives at the all-ones value, a random number is issued *and* left in the
counter, so the next call issues it again.

Away from the seams the issued cookies are the consecutive numbers behind the
maximum, and the theorem at the end says exactly how far that carries.
-/

namespace IronStack.Proof

open IronStack FlowTable FlowService

/-! ## Calls -/

/-- A call that draws a cookie. -/
inductive CookieCall where
  /-- `flow_table::get_next_available_cookie_id`. -/
  | next (random : UInt64)
  /-- `flow_service::add_flow_auto`. -/
  | addFlowAuto (now : Nat) (random : UInt64) (a : AddFlowAutoArgs)

/-- What the random source would return if the call came to ask. -/
def CookieCall.random : CookieCall → UInt64
  | .next random => random
  | .addFlowAuto _ random _ => random

/-- The service after the call; `none` if it aborted. -/
def CookieCall.run (svc : FlowService) : CookieCall → Option FlowService
  | .next random => some (svc.getNextAvailableCookieId random).2
  | .addFlowAuto now random a => (svc.addFlowAuto now random a).map Prod.snd

/-- The cookies drawn by one call after the other, up to the first that aborts. -/
def issue (svc : FlowService) : List CookieCall → List UInt64
  | [] => []
  | call :: calls =>
      (svc.getNextAvailableCookieId call.random).1 ::
        match call.run svc with
        | none => []
        | some svc' => issue svc' calls

/-- The calls that are made: none comes behind one that aborts. -/
def made (svc : FlowService) (calls : List CookieCall) : List CookieCall :=
  calls.take (issue svc calls).length

/-- If the call adds a flow, a flow-mod can be written with its actions. -/
def CookieCall.Serializes : CookieCall → Prop
  | .next _ => True
  | .addFlowAuto _ _ a => Serializable a.actionList

/-- The cookies are all different, none is reserved, and none was reported. -/
structure Fresh (reported : List FlowDescriptionAndStats) (cookies : List UInt64) : Prop where
  distinct : cookies.Nodup
  unreserved : ∀ c ∈ cookies, c ≠ 0 ∧ c ≠ noCookie
  unreported : ∀ c ∈ cookies, ∀ f ∈ reported, f.cookie ≠ c

/-! ## The counter alone -/

/-- The cookies a counter issues for these random numbers. -/
def draw : UInt64 → List UInt64 → List UInt64
  | _, [] => []
  | k, random :: randoms =>
      if k = noCookie then random :: draw random randoms else k :: draw (k + 1) randoms

theorem getNextAvailableCookieId_draw (svc : FlowService) (random : UInt64)
    (randoms : List UInt64) :
    draw svc.nextAvailableCookieId (random :: randoms) =
      (svc.getNextAvailableCookieId random).1 ::
        draw (svc.getNextAvailableCookieId random).2.nextAvailableCookieId randoms := by
  unfold getNextAvailableCookieId
  rw [draw]
  split <;> rfl

/-- A call leaves the counter where drawing its cookie left it. -/
theorem run_counter {svc svc' : FlowService} {call : CookieCall} (h : call.run svc = some svc') :
    svc'.nextAvailableCookieId =
      (svc.getNextAvailableCookieId call.random).2.nextAvailableCookieId := by
  cases call with
  | next random =>
      obtain rfl := Option.some.inj h
      rfl
  | addFlowAuto now random a =>
      obtain ⟨⟨result, svc''⟩, hadd, rfl⟩ := Option.map_eq_some_iff.mp h
      exact addFlow_counter hadd

/-- Such a call only aborts on a reserved cookie. -/
theorem run_aborts {svc : FlowService} {call : CookieCall} (hcall : call.Serializes)
    (h : call.run svc = none) :
    (svc.getNextAvailableCookieId call.random).1 = 0 ∨
      (svc.getNextAvailableCookieId call.random).1 = noCookie := by
  cases call with
  | next random => exact absurd h (by simp [CookieCall.run])
  | addFlowAuto now random a =>
      rcases addFlow_aborts (Option.map_eq_none_iff.mp h) with hreserved | ⟨_, hserialize⟩
      · exact hreserved
      · obtain ⟨bytes, hbytes⟩ := (exists_serialize_flowMod_iff { addRequest (a.withCookie
          (svc.getNextAvailableCookieId random).1) with version := 1, msgSize := 0, xid := 0 }).mpr hcall
        exact absurd hbytes (hserialize bytes)

/-- The calls made issue what the counter draws. -/
theorem issue_eq_draw (svc : FlowService) (calls : List CookieCall) :
    issue svc calls = draw svc.nextAvailableCookieId ((made svc calls).map (·.random)) := by
  unfold made
  induction calls generalizing svc with
  | nil => rfl
  | cons call calls ih =>
      rw [issue]
      cases hrun : call.run svc with
      | none =>
          rw [List.length_singleton, List.take_succ_cons, List.take_zero, List.map_cons,
            getNextAvailableCookieId_draw]
          rfl
      | some svc' =>
          dsimp only
          rw [List.length_cons, List.take_succ_cons, List.map_cons, getNextAvailableCookieId_draw,
            ← run_counter hrun, ← ih svc']

/-- All calls are made, or the last of those made drew a reserved cookie. -/
theorem made_cases (svc : FlowService) {calls : List CookieCall}
    (hcalls : ∀ call ∈ calls, call.Serializes) :
    made svc calls = calls ∨ ∃ c ∈ issue svc calls, c = 0 ∨ c = noCookie := by
  unfold made
  induction calls generalizing svc with
  | nil => exact Or.inl rfl
  | cons call calls ih =>
      rw [issue]
      cases hrun : call.run svc with
      | none =>
          exact Or.inr ⟨_, List.mem_singleton_self _, run_aborts (hcalls call List.mem_cons_self) hrun⟩
      | some svc' =>
          dsimp only
          rw [List.length_cons, List.take_succ_cons]
          rcases ih svc' (fun c hc => hcalls c (List.mem_cons_of_mem _ hc)) with hall | ⟨c, hc, hres⟩
          · exact Or.inl (congrArg _ hall)
          · exact Or.inr ⟨c, List.mem_cons_of_mem _ hc, hres⟩

theorem made_eq_nil_iff {svc : FlowService} {calls : List CookieCall} :
    made svc calls = [] ↔ calls = [] := by
  cases calls with
  | nil => exact ⟨fun _ => rfl, fun _ => rfl⟩
  | cons call calls =>
      rw [made, issue, List.length_cons, List.take_succ_cons]
      exact ⟨fun h => absurd h (by simp), fun h => absurd h (by simp)⟩

/-- The cookies drawn for some calls contain those drawn for the first of them. -/
theorem draw_take_prefix (k : UInt64) (randoms : List UInt64) (n : Nat) :
    draw k (randoms.take n) <+: draw k randoms := by
  induction randoms generalizing k n with
  | nil =>
      rw [List.take_nil]
  | cons random randoms ih =>
      cases n with
      | zero => exact List.nil_prefix
      | succ n =>
          rw [List.take_succ_cons, draw, draw]
          split
          · exact List.cons_prefix_cons.mpr ⟨rfl, ih _ n⟩
          · exact List.cons_prefix_cons.mpr ⟨rfl, ih _ n⟩

/-- Whether the cookies issued are fresh is a matter of the counter and the random numbers. -/
theorem fresh_issue_iff (reported : List FlowDescriptionAndStats) (svc : FlowService)
    {calls : List CookieCall} (hcalls : ∀ call ∈ calls, call.Serializes) :
    Fresh reported (issue svc calls) ↔
      Fresh reported (draw svc.nextAvailableCookieId (calls.map (·.random))) := by
  have hdraw := issue_eq_draw svc calls
  rcases made_cases svc hcalls with hall | ⟨c, hc, hres⟩
  · rw [hdraw, hall]
  · -- both contain the reserved cookie the calls stopped at
    have hpre : issue svc calls <+: draw svc.nextAvailableCookieId (calls.map (·.random)) := by
      rw [hdraw, made, List.map_take]
      exact draw_take_prefix _ _ _
    refine ⟨?_, ?_⟩
    · intro h
      exact absurd hres (not_or.mpr (h.unreserved c hc))
    · intro h
      exact absurd hres (not_or.mpr (h.unreserved c (hpre.subset hc)))

/-! ## Drawing consecutive cookies -/

theorem toNat_succ {k : UInt64} (h : k.toNat + 1 < 2 ^ 64) :
    k ≠ noCookie ∧ (k + 1).toNat = k.toNat + 1 := by
  refine ⟨?_, ?_⟩
  · intro heq
    subst heq
    exact absurd h (by decide)
  · rw [UInt64.toNat_add, UInt64.toNat_one, Nat.mod_eq_of_lt h]

theorem draw_append (k : UInt64) (rs rs' : List UInt64) (h : k.toNat + rs.length < 2 ^ 64) :
    draw k (rs ++ rs') = draw k rs ++ draw (k + UInt64.ofNat rs.length) rs' := by
  induction rs generalizing k with
  | nil => simp [draw]
  | cons r rs ih =>
      rw [List.length_cons] at h
      obtain ⟨hk, hk1⟩ := toNat_succ (k := k) (by omega)
      rw [List.cons_append, draw, draw, if_neg hk, if_neg hk, ih (k + 1) (by omega),
        List.length_cons, UInt64.add_assoc, UInt64.ofNat_add, UInt64.add_comm 1]
      rfl

/-- As long as the counter does not reach the all-ones value, it issues consecutive numbers. -/
theorem mem_draw {k c : UInt64} {rs : List UInt64} (h : k.toNat + rs.length < 2 ^ 64) :
    c ∈ draw k rs ↔ k.toNat ≤ c.toNat ∧ c.toNat < k.toNat + rs.length := by
  induction rs generalizing k with
  | nil =>
      simp only [draw, List.not_mem_nil, List.length_nil, false_iff]
      omega
  | cons r rs ih =>
      rw [List.length_cons] at h
      obtain ⟨hk, hk1⟩ := toNat_succ (k := k) (by omega)
      rw [draw, if_neg hk, List.mem_cons, ih (by omega), hk1, List.length_cons,
        ← UInt64.toNat_inj]
      omega

theorem nodup_draw {k : UInt64} {rs : List UInt64} (h : k.toNat + rs.length < 2 ^ 64) :
    (draw k rs).Nodup := by
  induction rs generalizing k with
  | nil => exact List.nodup_nil
  | cons r rs ih =>
      rw [List.length_cons] at h
      obtain ⟨hk, hk1⟩ := toNat_succ (k := k) (by omega)
      rw [draw, if_neg hk, List.nodup_cons, mem_draw (by omega), hk1]
      exact ⟨by omega, ih (by omega)⟩

/-- The counter reaches the all-ones value, and what the random source returns goes through. -/
theorem draw_fallback {k r : UInt64} {rs rs' : List UInt64} (h : k.toNat + rs.length + 1 = 2 ^ 64) :
    draw k (rs ++ r :: rs') = draw k rs ++ r :: draw r rs' := by
  have hend : k + UInt64.ofNat rs.length = noCookie := by
    rw [← UInt64.toNat_inj, UInt64.toNat_add, UInt64.toNat_ofNat', Nat.add_mod_mod,
      Nat.mod_eq_of_lt (by omega)]
    have : noCookie.toNat = 2 ^ 64 - 1 := rfl
    omega
  rw [draw_append k rs _ (by omega), hend, draw, if_pos rfl]

/-- No reported cookie lies in `[low, high)`. -/
def Unreported (reported : List FlowDescriptionAndStats) (low high : Nat) : Prop :=
  ∀ f ∈ reported, ¬ (low ≤ f.cookie.toNat ∧ f.cookie.toNat < high)

theorem fresh_of_short {reported : List FlowDescriptionAndStats} {k : UInt64} {rs : List UInt64}
    (h : k.toNat + rs.length < 2 ^ 64) (hne : rs ≠ []) :
    Fresh reported (draw k rs) ↔
      k ≠ 0 ∧ Unreported reported k.toNat (k.toNat + rs.length) := by
  have hlen : 0 < rs.length := List.length_pos_iff.mpr hne
  refine ⟨?_, ?_⟩
  · intro hf
    refine ⟨(hf.unreserved k ((mem_draw h).mpr ⟨le_refl _, by omega⟩)).1, ?_⟩
    intro f hmem hrange
    exact hf.unreported f.cookie ((mem_draw h).mpr hrange) f hmem rfl
  · intro ⟨hk, hun⟩
    have hk0 : k.toNat ≠ 0 := fun h0 => hk (UInt64.toNat_inj.mp h0)
    refine ⟨nodup_draw h, fun c hc => ?_, fun c hc f hmem hfc => ?_⟩
    · obtain ⟨hlo, hhi⟩ := (mem_draw h).mp hc
      refine ⟨?_, ?_⟩
      · intro heq
        subst heq
        exact hk0 (Nat.le_zero.mp hlo)
      · intro heq
        subst heq
        have : noCookie.toNat = 2 ^ 64 - 1 := rfl
        omega
    · subst hfc
      exact hun f hmem ((mem_draw h).mp hc)

theorem not_fresh_of_long {reported : List FlowDescriptionAndStats} {k r r' : UInt64}
    {rs rs' : List UInt64} (h : k.toNat + rs.length + 1 = 2 ^ 64) :
    ¬ Fresh reported (draw k (rs ++ r :: r' :: rs')) := by
  intro hf
  rw [draw_fallback h] at hf
  have hmem : r ∈ draw k rs ++ r :: draw r (r' :: rs') := by simp
  have hr := (hf.unreserved r hmem).2
  -- the number is still in the counter when the next call comes
  have hdup := (List.nodup_append.mp hf.distinct).2.1
  rw [draw, if_neg hr] at hdup
  exact absurd hdup (by simp)

theorem fresh_of_last {reported : List FlowDescriptionAndStats} {k r : UInt64} {rs : List UInt64}
    (h : k.toNat + rs.length + 1 = 2 ^ 64) :
    Fresh reported (draw k (rs ++ [r])) ↔
      k ≠ 0 ∧ Unreported reported k.toNat (2 ^ 64 - 1) ∧
        r ≠ 0 ∧ r.toNat < k.toNat ∧ ∀ f ∈ reported, f.cookie ≠ r := by
  have hlen : k.toNat + rs.length < 2 ^ 64 := by omega
  have hend : k.toNat + rs.length = 2 ^ 64 - 1 := by omega
  have hmax : noCookie.toNat = 2 ^ 64 - 1 := rfl
  have hr64 := UInt64.toNat_lt r
  rw [draw_fallback h, draw]
  refine ⟨?_, ?_⟩
  · intro hf
    have hpre : Fresh reported (draw k rs) :=
      ⟨(List.nodup_append.mp hf.distinct).1,
        fun c hc => hf.unreserved c (List.mem_append_left _ hc),
        fun c hc => hf.unreported c (List.mem_append_left _ hc)⟩
    have hlast : r ∈ draw k rs ++ [r] := by simp
    obtain ⟨hr0, hr1⟩ := hf.unreserved r hlast
    have hrlt : r.toNat < k.toNat := by
      -- otherwise the number was issued before, or is the all-ones value
      by_contra hge
      have hne : r.toNat ≠ noCookie.toNat := fun hc => hr1 (UInt64.toNat_inj.mp hc)
      have hmem : r ∈ draw k rs := (mem_draw hlen).mpr (by omega)
      exact (List.nodup_append.mp hf.distinct).2.2 r hmem r (by simp) rfl
    have hk : k ≠ 0 := by
      intro heq
      subst heq
      exact absurd hrlt (by simp)
    refine ⟨hk, ?_, hr0, hrlt, hf.unreported r hlast⟩
    intro f hmem hrange
    exact hpre.unreported f.cookie ((mem_draw hlen).mpr (by omega)) f hmem rfl
  · intro ⟨hk, hun, hr0, hrlt, hrun⟩
    have hpre : Fresh reported (draw k rs) := by
      by_cases hne : rs = []
      · subst hne
        exact ⟨List.nodup_nil, by simp [draw], by simp [draw]⟩
      · rw [fresh_of_short hlen hne, hend]
        exact ⟨hk, hun⟩
    have hnot : r ∉ draw k rs := by
      rw [mem_draw hlen]
      omega
    refine ⟨?_, ?_, ?_⟩
    · rw [List.nodup_append]
      refine ⟨hpre.distinct, by simp, fun c hc c' hc' => ?_⟩
      rw [List.mem_singleton.mp hc']
      intro heq
      subst heq
      exact hnot hc
    · intro c hc
      rcases List.mem_append.mp hc with hc | hc
      · exact hpre.unreserved c hc
      · rw [List.mem_singleton.mp hc]
        refine ⟨hr0, ?_⟩
        intro heq
        subst heq
        omega
    · intro c hc
      rcases List.mem_append.mp hc with hc | hc
      · exact hpre.unreported c hc
      · rw [List.mem_singleton.mp hc]
        exact hrun

/-! ## Where the counter starts -/

/-- The cookies reported after the last all-ones one; all of them if there is none. -/
def reportedLate (reported : List FlowDescriptionAndStats) : List FlowDescriptionAndStats :=
  (reported.reverse.takeWhile (·.cookie != noCookie)).reverse

/-- The largest of them, 0 if there is none. -/
def largestLate (reported : List FlowDescriptionAndStats) : Nat :=
  ((reportedLate reported).map (·.cookie.toNat)).foldl max 0

/-- The list does not end with an all-ones cookie. -/
def EndsWell (reported : List FlowDescriptionAndStats) : Prop :=
  ∀ f ∈ reported.getLast?, f.cookie ≠ noCookie

theorem reportedLate_snoc_of_ne {l : List FlowDescriptionAndStats} {f : FlowDescriptionAndStats}
    (h : f.cookie ≠ noCookie) : reportedLate (l ++ [f]) = reportedLate l ++ [f] := by
  simp [reportedLate, h]

theorem reportedLate_of_not_endsWell {l : List FlowDescriptionAndStats} (h : ¬ EndsWell l) :
    reportedLate l = [] := by
  unfold EndsWell at h
  push Not at h
  obtain ⟨f, hf, hc⟩ := h
  obtain ⟨l', rfl⟩ := List.getLast?_eq_some_iff.mp hf
  simp [reportedLate, hc]

theorem largestLate_snoc_of_ne {l : List FlowDescriptionAndStats} {f : FlowDescriptionAndStats}
    (h : f.cookie ≠ noCookie) : largestLate (l ++ [f]) = max (largestLate l) f.cookie.toNat := by
  rw [largestLate, reportedLate_snoc_of_ne h, List.map_append, List.foldl_append]
  rfl

/-- The counter starts behind the largest late cookie, or at 0 if the list ends with all-ones. -/
theorem nextFreeId_toNat (reported : List FlowDescriptionAndStats) :
    (EndsWell reported → largestLate reported + 1 < 2 ^ 64 ∧
      (nextFreeId reported).toNat = largestLate reported + 1) ∧
    (¬ EndsWell reported → nextFreeId reported = 0) := by
  induction reported using List.reverseRecOn with
  | nil => exact ⟨fun _ => ⟨by decide, rfl⟩, fun h => absurd (by simp [EndsWell]) h⟩
  | append_singleton l f ih =>
      have hfold : nextFreeId (l ++ [f]) =
          if f.cookie ≥ nextFreeId l then f.cookie + 1 else nextFreeId l := by
        simp [nextFreeId]
      have hends : EndsWell (l ++ [f]) ↔ f.cookie ≠ noCookie := by simp [EndsWell]
      rw [hends, hfold]
      refine ⟨?_, ?_⟩
      · intro hf
        have hflt : f.cookie.toNat + 1 < 2 ^ 64 := by
          have := UInt64.toNat_lt f.cookie
          have hne : f.cookie.toNat ≠ noCookie.toNat := fun hc => hf (UInt64.toNat_inj.mp hc)
          have : noCookie.toNat = 2 ^ 64 - 1 := rfl
          omega
        have hsucc := (toNat_succ hflt).2
        rw [largestLate_snoc_of_ne hf]
        by_cases hl : EndsWell l
        · obtain ⟨hlt, hnext⟩ := ih.1 hl
          by_cases hge : f.cookie ≥ nextFreeId l
          · have hge' := UInt64.le_iff_toNat_le.mp hge
            rw [if_pos hge, hsucc]
            omega
          · have hlt' := UInt64.lt_iff_toNat_lt.mp (UInt64.not_le.mp hge)
            rw [if_neg hge, hnext]
            omega
        · -- the counter wrapped before, so the search starts over with `f`
          have hlate : largestLate l = 0 := by
            rw [largestLate, reportedLate_of_not_endsWell hl]
            rfl
          rw [ih.2 hl, if_pos (UInt64.le_iff_toNat_le.mpr (Nat.zero_le _)), hsucc, hlate]
          omega
      · intro hf
        have hf : f.cookie = noCookie := not_not.mp hf
        rw [hf, if_pos]
        · rfl
        · rw [ge_iff_le, UInt64.le_iff_toNat_le]
          have := UInt64.toNat_lt (nextFreeId l)
          have : noCookie.toNat = 2 ^ 64 - 1 := rfl
          omega

/-! ## The cookies issued after the first download -/

/--
The calls stay away from both seams. With `m` the largest cookie reported after
the last all-ones one, they draw from `m + 1` on: either they stop before the
all-ones value, or only the last of them asks the random source, and gets a
number that is neither reserved, nor reported, nor issued before.
-/
def StaysClear (reported : List FlowDescriptionAndStats) (calls : List CookieCall) : Prop :=
  EndsWell reported ∧
    ((largestLate reported + calls.length ≤ 2 ^ 64 - 2 ∧
        Unreported reported (largestLate reported + 1)
          (largestLate reported + 1 + calls.length)) ∨
      (largestLate reported + calls.length = 2 ^ 64 - 1 ∧
        Unreported reported (largestLate reported + 1) (2 ^ 64 - 1) ∧
        ∀ call ∈ calls.getLast?, call.random ≠ 0 ∧
          call.random.toNat ≤ largestLate reported ∧ ∀ f ∈ reported, f.cookie ≠ call.random))

/-- `flow_update_handler` sets the counter when it ends the first download. -/
theorem flowUpdateHandler_counter {now : Nat} {svc svc' : FlowService}
    {flowStats : List FlowDescriptionAndStats} (hoff : svc.initialized = false)
    (hstarting : svc.initializing = true)
    (h : svc.flowUpdateHandler now flowStats false = some svc') :
    svc'.nextAvailableCookieId = nextFreeId (svc.pendingFlows ++ flowStats) := by
  rw [flowUpdateHandler_last] at h
  split at h
  · exact absurd h (by simp)
  · obtain rfl := Option.some.inj h
    have hboth : (!svc.initialized && svc.initializing) = true := by rw [hoff, hstarting]; rfl
    exact if_pos hboth

/-- A nonempty list of calls, from a counter at `m + 1`. -/
theorem fresh_draw_iff {reported : List FlowDescriptionAndStats} {k : UInt64} {m : Nat}
    (hk : k.toNat = m + 1) {calls : List CookieCall} (hne : calls ≠ []) :
    Fresh reported (draw k (calls.map (·.random))) ↔
      ((m + calls.length ≤ 2 ^ 64 - 2 ∧ Unreported reported (m + 1) (m + 1 + calls.length)) ∨
        (m + calls.length = 2 ^ 64 - 1 ∧ Unreported reported (m + 1) (2 ^ 64 - 1) ∧
          ∀ call ∈ calls.getLast?, call.random ≠ 0 ∧ call.random.toNat ≤ m ∧
            ∀ f ∈ reported, f.cookie ≠ call.random)) := by
  have hlen : 0 < calls.length := List.length_pos_iff.mpr hne
  have hk0 : k ≠ 0 := by
    intro heq
    subst heq
    exact absurd hk (by simp)
  have hk64 := UInt64.toNat_lt k
  rcases Nat.lt_trichotomy (m + calls.length) (2 ^ 64 - 1) with hshort | hlast | hlong
  · -- no call finds the counter at the all-ones value
    rw [fresh_of_short (by rw [List.length_map]; omega) (by simpa using hne), List.length_map, hk]
    refine ⟨?_, ?_⟩
    · exact fun h => Or.inl ⟨by omega, h.2⟩
    · intro h
      rcases h with ⟨_, h⟩ | ⟨h, _⟩
      · exact ⟨hk0, h⟩
      · omega
  · -- only the last call finds the counter at the all-ones value
    obtain ⟨before, call, rfl⟩ := (List.eq_nil_or_concat' calls).resolve_left hne
    rw [List.length_append, List.length_singleton] at hlast
    rw [List.map_append, List.map_singleton, fresh_of_last (by rw [List.length_map]; omega), hk]
    simp only [List.getLast?_concat, Option.mem_some_iff, forall_eq', List.length_append,
      List.length_singleton]
    refine ⟨?_, ?_⟩
    · intro ⟨_, hun, hr0, hrlt, hr⟩
      exact Or.inr ⟨by omega, hun, hr0, by omega, hr⟩
    · intro h
      rcases h with ⟨h, _⟩ | ⟨_, hun, hr0, hrle, hr⟩
      · omega
      · exact ⟨hk0, hun, hr0, by omega, hr⟩
  · refine ⟨?_, ?_⟩
    · intro hf
      -- two calls or more find the counter there
      obtain ⟨before, rest, hsplit, hbefore⟩ : ∃ before rest, calls = before ++ rest ∧
          before.length = 2 ^ 64 - 2 - m :=
        ⟨calls.take (2 ^ 64 - 2 - m), calls.drop (2 ^ 64 - 2 - m),
          (List.take_append_drop ..).symm, by rw [List.length_take]; omega⟩
      subst hsplit
      rw [List.length_append] at hlong
      match rest with
      | [] => rw [List.length_nil] at hlong; omega
      | [_] => rw [List.length_singleton] at hlong; omega
      | call :: call' :: rest =>
          rw [List.map_append] at hf
          exact absurd hf (not_fresh_of_long (by rw [List.length_map]; omega))
    · intro h
      rcases h with ⟨h, _⟩ | ⟨h, _⟩
      · omega
      · omega

/-- Behind a download the counter draws fresh cookies for the calls that stay clear. -/
theorem fresh_download_iff (reported : List FlowDescriptionAndStats) (calls : List CookieCall) :
    Fresh reported (draw (nextFreeId reported) (calls.map (·.random))) ↔
      calls = [] ∨ StaysClear reported calls := by
  obtain ⟨hwell, hill⟩ := nextFreeId_toNat reported
  by_cases hne : calls = []
  · subst hne
    exact ⟨fun _ => Or.inl rfl, fun _ => ⟨List.nodup_nil, by simp [draw], by simp [draw]⟩⟩
  · by_cases hends : EndsWell reported
    · rw [fresh_draw_iff (hwell hends).2 hne]
      exact ⟨fun h => Or.inr ⟨hends, h⟩, fun h => (h.resolve_left hne).2⟩
    · refine ⟨?_, ?_⟩
      · intro hf
        -- the counter wrapped, so the first cookie is 0
        rw [hill hends] at hf
        cases calls with
        | nil => exact absurd rfl hne
        | cons call calls =>
            refine absurd rfl (hf.unreserved 0 ?_).1
            rw [List.map_cons, draw, if_neg (by decide)]
            exact List.mem_cons_self
      · intro h
        rcases h with h | ⟨h, _⟩
        · exact absurd h hne
        · exact absurd h hends

/--
**When the issued cookies are fresh.** After the first download of the switch's
flows, the cookies a sequence of calls issues are pairwise distinct, not
reserved and not reported exactly when the calls stay clear of the places where
the counter wraps or falls back to random numbers. A call with actions that cannot be
written may end the process, and then the calls up to it count.
-/
theorem cookies_fresh_iff {now : Nat} {svc svc' svc₀ : FlowService}
    {flowStats : List FlowDescriptionAndStats} (hoff : svc.initialized = false)
    (hstarting : svc.initializing = true)
    (hdownload : svc.flowUpdateHandler now flowStats false = some svc')
    (hcounter : svc₀.nextAvailableCookieId = svc'.nextAvailableCookieId)
    (calls : List CookieCall) :
    ((∀ call ∈ calls, call.Serializes) →
      (Fresh (svc.pendingFlows ++ flowStats) (issue svc₀ calls) ↔
        calls = [] ∨ StaysClear (svc.pendingFlows ++ flowStats) calls)) ∧
    (Fresh (svc.pendingFlows ++ flowStats) (issue svc₀ calls) ↔
      calls = [] ∨ StaysClear (svc.pendingFlows ++ flowStats) (made svc₀ calls)) := by
  have hstart : svc₀.nextAvailableCookieId = nextFreeId (svc.pendingFlows ++ flowStats) := by
    rw [hcounter, flowUpdateHandler_counter hoff hstarting hdownload]
  refine ⟨?_, ?_⟩
  · intro hcalls
    rw [fresh_issue_iff _ _ hcalls, hstart, fresh_download_iff]
  · rw [issue_eq_draw, hstart, fresh_download_iff, made_eq_nil_iff]

/-- A flow the switch reports, of which only the cookie matters here. -/
def reportedFlow (cookie : UInt64) : FlowDescriptionAndStats where
  flowDescription := ⟨OfMatch.clear, OpenflowActionList.clear, cookie, 100⟩

/-- The service while its first download is under way. -/
def downloading : FlowService where
  initialized := false
  initializing := true
  flowTables := [dellS48xxAclTable]
  pendingFlows := []
  nextAvailableCookieId := 1
  enqueued := []

/-- Behind a download of the cookies 7 and 5 come 8, 9 and 10. -/
theorem cookies_fresh_behind_seven :
    ∃ svc', downloading.flowUpdateHandler 0 [reportedFlow 7, reportedFlow 5] false = some svc' ∧
      Fresh [reportedFlow 7, reportedFlow 5] (issue svc' [.next 0, .next 0, .next 0]) := by
  have hsome : (downloading.flowUpdateHandler 0 [reportedFlow 7, reportedFlow 5] false).isSome := by
    decide +kernel
  obtain ⟨svc', h⟩ := Option.isSome_iff_exists.mp hsome
  have hcalls : ∀ call ∈ [CookieCall.next 0, .next 0, .next 0], call.Serializes := by
    simp [CookieCall.Serializes]
  refine ⟨svc', h,
    ((cookies_fresh_iff rfl rfl h rfl _).1 hcalls).mpr (Or.inr ⟨?_, Or.inl ⟨?_, ?_⟩⟩)⟩
  · intro f hf
    obtain rfl : reportedFlow 5 = f := Option.some.inj hf
    decide
  · decide
  · unfold Unreported
    decide

/-- Behind a download that ends with the all-ones cookie comes the cookie 0. -/
theorem cookies_wrap_behind_all_ones :
    ∃ svc', downloading.flowUpdateHandler 0 [reportedFlow 3, reportedFlow noCookie] false =
        some svc' ∧
      ¬ Fresh [reportedFlow 3, reportedFlow noCookie] (issue svc' [.next 0]) := by
  have hsome : (downloading.flowUpdateHandler 0
      [reportedFlow 3, reportedFlow noCookie] false).isSome := by decide +kernel
  obtain ⟨svc', h⟩ := Option.isSome_iff_exists.mp hsome
  refine ⟨svc', h, fun hf => ?_⟩
  rw [fresh_issue_iff _ _ (by simp [CookieCall.Serializes]), flowUpdateHandler_counter rfl rfl h] at hf
  exact (hf.unreserved 0 (by decide)).1 rfl

end IronStack.Proof

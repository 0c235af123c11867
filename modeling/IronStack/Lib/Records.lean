import IronStack.Lib.Wire

/-!
# Records one behind the other

A loop that takes records off a buffer at a cursor. At each turn the record there
says by how much the cursor moves, is turned down, which ends the loop without a
result, or faults. What the loop comes to is read off the cursors it visits.
-/

namespace IronStack.Lib

/-- A loop over records: it goes on while `more` holds of the cursor, which `one` moves forward. -/
structure RecordLoop (α : Type) where
  more : Nat → Bool
  one : Nat → Read (Option (α × Nat))
  limit : Nat
  /-- It stops before its limit. -/
  lt_limit : ∀ {off}, more off = true → off < limit
  /-- A record takes up room. -/
  moves : ∀ {off item n}, one off = .ok (some (item, n)) → 0 < n

namespace RecordLoop

variable {α : Type} {l : RecordLoop α}

/-- The records from a cursor on, and the cursor behind them; `none` if one was turned down. -/
def run (l : RecordLoop α) (off : Nat) : Read (Option (List α × Nat)) :=
  if _hmore : l.more off then
    match _hone : l.one off with
    | .error e => .error e
    | .ok none => .ok none
    | .ok (some (item, n)) => (l.run (off + n)).map (Option.map fun r => (item :: r.1, r.2))
  else .ok (some ([], off))
termination_by l.limit - off
decreasing_by
  have hlt := l.lt_limit _hmore
  have hpos := l.moves _hone
  omega

theorem run_of_not_more {off : Nat} (h : l.more off = false) : l.run off = .ok (some ([], off)) := by
  rw [run, dif_neg (by simp [h])]

theorem run_of_error {off : Nat} {e : Fault} (h : l.more off) (hone : l.one off = .error e) :
    l.run off = .error e := by
  rw [run, dif_pos h]
  split
  · rename_i heq
    rw [hone] at heq
    cases heq
    rfl
  · rename_i heq
    rw [hone] at heq
    cases heq
  · rename_i heq
    rw [hone] at heq
    cases heq

theorem run_of_none {off : Nat} (h : l.more off) (hone : l.one off = .ok none) :
    l.run off = .ok none := by
  rw [run, dif_pos h]
  split
  · rename_i heq
    rw [hone] at heq
    cases heq
  · rfl
  · rename_i heq
    rw [hone] at heq
    cases heq

theorem run_of_some {off n : Nat} {item : α} (h : l.more off)
    (hone : l.one off = .ok (some (item, n))) :
    l.run off = (l.run (off + n)).map (Option.map fun r => (item :: r.1, r.2)) := by
  rw [run, dif_pos h]
  split
  · rename_i heq
    rw [hone] at heq
    cases heq
  · rename_i heq
    rw [hone] at heq
    cases heq
  · rename_i heq
    rw [hone] at heq
    cases heq
    rfl

/-- The loop takes these items off the buffer on its way from one cursor to another. -/
inductive Reads (l : RecordLoop α) : Nat → List α → Nat → Prop
  | nil {off} : Reads l off [] off
  | cons {off n item items off'} (hmore : l.more off) (hone : l.one off = .ok (some (item, n)))
      (htail : Reads l (off + n) items off') : Reads l off (item :: items) off'

/-- **What the loop returns** is what it read, up to where it stopped. -/
theorem run_eq_some_iff {off off' : Nat} {items : List α} :
    l.run off = .ok (some (items, off')) ↔ l.Reads off items off' ∧ l.more off' = false := by
  refine ⟨?_, ?_⟩
  · intro h
    induction hk : l.limit - off using Nat.strongRecOn generalizing off items with
    | _ k ih =>
      cases hmore : l.more off with
      | false =>
          rw [run_of_not_more hmore] at h
          cases h
          exact ⟨.nil, hmore⟩
      | true =>
          cases hone : l.one off with
          | error e =>
              rw [run_of_error hmore hone] at h
              cases h
          | ok r =>
              cases r with
              | none =>
                  rw [run_of_none hmore hone] at h
                  cases h
              | some r =>
                  obtain ⟨item, n⟩ := r
                  rw [run_of_some hmore hone] at h
                  cases hrun : l.run (off + n) with
                  | error e =>
                      rw [hrun] at h
                      cases h
                  | ok r =>
                      cases r with
                      | none =>
                          rw [hrun] at h
                          cases h
                      | some r =>
                          rw [hrun] at h
                          cases h
                          have hlt := l.lt_limit hmore
                          have hpos := l.moves hone
                          obtain ⟨htail, hend⟩ := ih _ (by omega) hrun rfl
                          exact ⟨.cons hmore hone htail, hend⟩
  · intro ⟨hreads, hend⟩
    induction hreads with
    | nil => exact run_of_not_more hend
    | cons hmore hone _ ih =>
        rw [run_of_some hmore hone, ih hend]
        rfl

/-- The cursors of the loop. -/
def Reaches (l : RecordLoop α) (off off' : Nat) : Prop := ∃ items, l.Reads off items off'

theorem Reaches.start {off : Nat} : l.Reaches off off := ⟨[], .nil⟩

theorem Reaches.next {off n off' : Nat} {item : α} (hmore : l.more off)
    (hone : l.one off = .ok (some (item, n))) (h : l.Reaches (off + n) off') : l.Reaches off off' := by
  obtain ⟨items, h⟩ := h
  exact ⟨item :: items, .cons hmore hone h⟩

theorem Reaches.snoc {off off' n : Nat} {item : α} (h : l.Reaches off off') (hmore : l.more off')
    (hone : l.one off' = .ok (some (item, n))) : l.Reaches off (off' + n) := by
  obtain ⟨items, hreads⟩ := h
  induction hreads with
  | nil => exact .next hmore hone .start
  | cons hmore' hone' _ ih => exact .next hmore' hone' (ih hmore hone)

/-- A cursor where nothing goes wrong: the record there does not fault, and the loop ends well. -/
def SoundAt (l : RecordLoop α) (Good : Nat → Prop) (off : Nat) : Prop :=
  if l.more off then ∀ e, l.one off ≠ .error e else Good off

theorem not_soundAt_of_error {Good : Nat → Prop} {off : Nat} {e : Fault} (h : l.more off)
    (hone : l.one off = .error e) : ¬ l.SoundAt Good off := by
  intro hsound
  rw [SoundAt, if_pos h] at hsound
  exact hsound e hone

theorem not_soundAt_of_end {Good : Nat → Prop} {off : Nat} (h : l.more off = false)
    (hbad : ¬ Good off) : ¬ l.SoundAt Good off := by
  rwa [SoundAt, if_neg (by simp [h])]

/-- The loop comes to an answer, and ends well if it is a yes. -/
def Sound (l : RecordLoop α) (Good : Nat → Prop) (off : Nat) : Prop :=
  l.run off = .ok none ∨ ∃ items off', l.run off = .ok (some (items, off')) ∧ Good off'

theorem sound_of_not_more {Good : Nat → Prop} {off : Nat} (h : l.more off = false) :
    l.Sound Good off ↔ Good off := by
  refine ⟨?_, fun hgood => .inr ⟨[], off, run_of_not_more h, hgood⟩⟩
  intro hs
  rcases hs with hnone | ⟨items, off', hrun, hgood⟩
  · rw [run_of_not_more h] at hnone
    cases hnone
  · rw [run_of_not_more h] at hrun
    cases hrun
    exact hgood

theorem sound_of_some {Good : Nat → Prop} {off n : Nat} {item : α} (h : l.more off)
    (hone : l.one off = .ok (some (item, n))) : l.Sound Good off ↔ l.Sound Good (off + n) := by
  unfold Sound
  rw [run_of_some h hone]
  cases hrun : l.run (off + n) with
  | error e => simp [Except.map]
  | ok r =>
      cases r with
      | none => simp [Except.map]
      | some r =>
          obtain ⟨items, off'⟩ := r
          simp [Except.map]

/-- **A loop is sound if every cursor it visits is.** -/
theorem sound_iff {Good : Nat → Prop} {off : Nat} :
    l.Sound Good off ↔ ∀ off', l.Reaches off off' → l.SoundAt Good off' := by
  -- on what is left behind the cursor, which every record makes less
  induction hk : l.limit - off using Nat.strongRecOn generalizing off with
  | _ k ih =>
    cases hmore : l.more off with
    | false =>
        rw [sound_of_not_more hmore]
        refine ⟨?_, ?_⟩
        · intro hgood off' hreach
          obtain ⟨items, hreads⟩ := hreach
          cases hreads with
          | nil => rwa [SoundAt, if_neg (by simp [hmore])]
          | cons hmore' _ _ => simp [hmore] at hmore'
        · intro h
          have hat := h off .start
          rwa [SoundAt, if_neg (by simp [hmore])] at hat
    | true =>
        cases hone : l.one off with
        | error e =>
            refine ⟨?_, ?_⟩
            · intro h
              rcases h with hnone | ⟨items, off', hrun, _⟩
              · rw [run_of_error hmore hone] at hnone
                cases hnone
              · rw [run_of_error hmore hone] at hrun
                cases hrun
            · intro h
              have hat := h off .start
              rw [SoundAt, if_pos hmore] at hat
              exact absurd hone (hat e)
        | ok r =>
            have hhere : l.SoundAt Good off := by
              rw [SoundAt, if_pos hmore]
              intro e he
              rw [hone] at he
              cases he
            cases r with
            | none =>
                refine ⟨?_, fun _ => .inl (run_of_none hmore hone)⟩
                intro _ off' hreach
                obtain ⟨items, hreads⟩ := hreach
                cases hreads with
                | nil => exact hhere
                | cons _ hone' _ =>
                    rw [hone] at hone'
                    cases hone'
            | some r =>
                obtain ⟨item, n⟩ := r
                have hlt := l.lt_limit hmore
                have hpos := l.moves hone
                rw [sound_of_some hmore hone, ih _ (by omega) rfl]
                refine ⟨?_, ?_⟩
                · intro h off' hreach
                  obtain ⟨items, hreads⟩ := hreach
                  -- the cursor is here, or where it comes to behind this record
                  cases hreads with
                  | nil => exact hhere
                  | cons _ hone' htail =>
                      rw [hone] at hone'
                      cases hone'
                      exact h off' ⟨_, htail⟩
                · intro h off' hreach
                  exact h off' (.next hmore hone hreach)

/-- **When a loop faults**: at one of its cursors. -/
theorem run_error_iff {off : Nat} :
    (∃ e, l.run off = .error e) ↔
      ∃ off', l.Reaches off off' ∧ l.more off' = true ∧ ∃ e, l.one off' = .error e := by
  refine ⟨?_, ?_⟩
  · intro ⟨e, he⟩
    by_contra hno
    have hsound : l.Sound (fun _ => True) off := by
      refine sound_iff.mpr fun off' hreach => ?_
      unfold SoundAt
      split
      · rename_i hmore
        exact fun e' he' => hno ⟨off', hreach, hmore, e', he'⟩
      · trivial
    rcases hsound with hnone | ⟨_, _, hsome, _⟩
    · rw [hnone] at he
      cases he
    · rw [hsome] at he
      cases he
  · intro ⟨off', hreach, hmore, e, he⟩
    cases hrun : l.run off with
    | error e' => exact ⟨e', rfl⟩
    | ok r =>
        have hsound : l.Sound (fun _ => True) off := by
          cases r with
          | none => exact .inl hrun
          | some r => exact .inr ⟨r.1, r.2, hrun, trivial⟩
        exact absurd (sound_iff.mp hsound off' hreach) (not_soundAt_of_error hmore he)

/-- **When a loop returns its records**: if it comes to its end. -/
theorem run_some_iff {off : Nat} :
    (∃ r, l.run off = .ok (some r)) ↔ ∃ off', l.Reaches off off' ∧ l.more off' = false := by
  refine ⟨?_, ?_⟩
  · intro ⟨⟨items, off'⟩, hrun⟩
    obtain ⟨hreads, hend⟩ := run_eq_some_iff.mp hrun
    exact ⟨off', ⟨items, hreads⟩, hend⟩
  · intro ⟨off', ⟨items, hreads⟩, hend⟩
    exact ⟨(items, off'), run_eq_some_iff.mpr ⟨hreads, hend⟩⟩

end RecordLoop

/-! ## Records that are counted -/

section Counted

variable {α σ : Type} {loop : Nat → Nat → σ → Read σ} {turn : Nat → Read α} {next : σ → α → σ} {size : Nat}

/-- A loop over a number of records of one size, that takes each into what it has so far. -/
structure CountedLoop (loop : Nat → Nat → σ → Read σ) (turn : Nat → Read α) (next : σ → α → σ)
    (size : Nat) : Prop where
  zero : ∀ off s, loop 0 off s = .ok s
  succ : ∀ n off s, loop (n + 1) off s = turn off >>= fun a => loop n (off + size) (next s a)

/-- **When such a loop answers**: every record on the way does. -/
theorem CountedLoop.answers_iff (h : CountedLoop loop turn next size) (n off : Nat) (s : σ) :
    Answers (loop n off s) ↔ ∀ k < n, Answers (turn (off + k * size)) := by
  induction n generalizing off s with
  | zero =>
      rw [h.zero]
      exact ⟨fun _ k hk => absurd hk (Nat.not_lt_zero k), fun _ => answers_ok s⟩
  | succ n ih =>
      rw [h.succ, answers_bind_iff]
      refine ⟨?_, ?_⟩
      · intro ⟨a, ha, hrest⟩ k hk
        cases k with
        | zero =>
            rw [Nat.zero_mul, Nat.add_zero]
            exact ⟨a, ha⟩
        | succ k =>
            have hat := (ih _ _).mp hrest k (by omega)
            rwa [Nat.add_assoc, Nat.add_comm size, ← Nat.succ_mul] at hat
      · intro h
        obtain ⟨a, ha⟩ := h 0 (Nat.succ_pos n)
        rw [Nat.zero_mul, Nat.add_zero] at ha
        refine ⟨a, ha, (ih _ _).mpr ?_⟩
        intro k hk
        have hat := h (k + 1) (by omega)
        rwa [Nat.succ_mul, Nat.add_comm (k * size), ← Nat.add_assoc] at hat

end Counted

end IronStack.Lib

import Mathlib.Data.List.Basic

/-!
# Putting fragmented messages together

Messages arrive in fragments, each tagged with the message it belongs to, and all
but the last of a message announcing more. This file is about receivers that only
have room for one message at a time: one that ignores the tags, and one that
remembers the tag of the message it is on. Both are right about what they hold as
long as no fragment arrives while another message is open.

A history is the list of the fragments received so far, oldest first.
-/

namespace IronStack.Lib

/-- One fragment of a message. -/
structure Fragment (κ α : Type*) where
  tag : κ
  items : List α
  moreToFollow : Bool
deriving DecidableEq

namespace Fragment

variable {κ α : Type*} {h : List (Fragment κ α)} {f : Fragment κ α} {k : κ}

/-- The last fragment of the message has arrived. -/
def Ended (h : List (Fragment κ α)) (k : κ) : Prop :=
  ∃ f ∈ h, f.tag = k ∧ f.moreToFollow = false

/-- No other message is open when the fragment arrives. -/
def InSequence (h : List (Fragment κ α)) (f : Fragment κ α) : Prop :=
  ∀ g ∈ h, g.tag ≠ f.tag → Ended h g.tag

variable [DecidableEq κ]

instance (h : List (Fragment κ α)) (k : κ) : Decidable (Ended h k) :=
  inferInstanceAs (Decidable (∃ f ∈ h, f.tag = k ∧ f.moreToFollow = false))

instance (h : List (Fragment κ α)) (f : Fragment κ α) : Decidable (InSequence h f) :=
  inferInstanceAs (Decidable (∀ g ∈ h, g.tag ≠ f.tag → Ended h g.tag))

/-- What has arrived of a message: its fragments, in order, put together. -/
def gathered (h : List (Fragment κ α)) (k : κ) : List α :=
  (h.filter fun f => f.tag = k).flatMap (·.items)

/-- The message a fragment completes, if it is the last. -/
def whole? (h : List (Fragment κ α)) (f : Fragment κ α) : Option (List α) :=
  if f.moreToFollow then none else some (gathered (h ++ [f]) f.tag)

omit [DecidableEq κ] in
theorem ended_snoc : Ended (h ++ [f]) k ↔ Ended h k ∨ (f.tag = k ∧ f.moreToFollow = false) := by
  simp only [Ended, List.mem_append, List.mem_singleton, or_and_right, exists_or, exists_eq_left]

theorem gathered_snoc_same (h : List (Fragment κ α)) (f : Fragment κ α) :
    gathered (h ++ [f]) f.tag = gathered h f.tag ++ f.items := by
  simp [gathered, List.filter_append]

theorem gathered_of_absent (hk : ∀ g ∈ h, g.tag ≠ k) : gathered h k = [] := by
  have hnone : h.filter (fun f => f.tag = k) = [] := List.filter_eq_nil_iff.mpr (by simpa using hk)
  rw [gathered, hnone]
  rfl

/-- The message may be open, and no other is. -/
structure OnlyOpen (h : List (Fragment κ α)) (k : κ) : Prop where
  notEnded : ¬ Ended h k
  others : ∀ g ∈ h, g.tag ≠ k → Ended h g.tag

omit [DecidableEq κ] in
/-- While more is to follow, the message of the last fragment is the only one open. -/
theorem OnlyOpen.eq_of_more (hopen : ¬ Ended h f.tag) (hmore : f.moreToFollow = true)
    (hk : OnlyOpen (h ++ [f]) k) : k = f.tag := by
  by_contra hne
  have hended := hk.others f (by simp) fun heq => hne heq.symm
  rcases ended_snoc.mp hended with hold | ⟨_, hlast⟩
  · exact hopen hold
  · rw [hmore] at hlast
    exact absurd hlast (by simp)

omit [DecidableEq κ] in
/-- After the last fragment of a message nothing has arrived of any message still open. -/
theorem OnlyOpen.absent_of_last (hseq : InSequence h f) (hlast : f.moreToFollow = false)
    (hk : ¬ Ended (h ++ [f]) k) : ∀ g ∈ h ++ [f], g.tag ≠ k := by
  have hne : f.tag ≠ k := fun heq => hk (ended_snoc.mpr (Or.inr ⟨heq, hlast⟩))
  intro g hg heq
  rcases List.mem_append.mp hg with hold | hnew
  · have hended := hseq g hold fun htag => hne (htag.symm.trans heq)
    exact hk (ended_snoc.mpr (Or.inl (heq ▸ hended)))
  · rw [List.mem_singleton.mp hnew] at heq
    exact hne heq

/-! ## A buffer without a tag -/

/-- The buffer holds what has arrived of the one message that is open. -/
def Buffered (h : List (Fragment κ α)) (buffer : List α) : Prop :=
  ∀ k, OnlyOpen h k → buffer = gathered h k

theorem buffered_nil : Buffered ([] : List (Fragment κ α)) [] := fun _ _ => rfl

namespace Buffered

variable {buffer : List α}

/-- With the fragment appended the buffer holds its message. -/
theorem append_eq (hb : Buffered h buffer) (hopen : ¬ Ended h f.tag) (hseq : InSequence h f) :
    buffer ++ f.items = gathered (h ++ [f]) f.tag := by
  rw [gathered_snoc_same, hb f.tag ⟨hopen, hseq⟩]

theorem more (hb : Buffered h buffer) (hopen : ¬ Ended h f.tag) (hseq : InSequence h f)
    (hmore : f.moreToFollow = true) : Buffered (h ++ [f]) (buffer ++ f.items) := by
  intro k hk
  rw [hk.eq_of_more hopen hmore]
  exact hb.append_eq hopen hseq

theorem last (hseq : InSequence h f) (hlast : f.moreToFollow = false) :
    Buffered (h ++ [f]) [] := by
  intro k hk
  exact (gathered_of_absent (OnlyOpen.absent_of_last hseq hlast hk.notEnded)).symm

end Buffered

/-! ## A buffer with a tag -/

/-- The receiver knows whether a message is open, which, and what has arrived of it. -/
structure Tagged (h : List (Fragment κ α)) (completed : Bool) (tag : κ) (buffer : List α) :
    Prop where
  idle : completed = true → ∀ g ∈ h, Ended h g.tag
  busy : completed = false → OnlyOpen h tag ∧ (∃ g ∈ h, g.tag = tag) ∧ buffer = gathered h tag

theorem tagged_nil (tag : κ) (buffer : List α) :
    Tagged ([] : List (Fragment κ α)) true tag buffer :=
  ⟨fun _ g hg => absurd hg (by simp), fun hc => absurd hc (by simp)⟩

namespace Tagged

variable {completed : Bool} {tag : κ} {buffer : List α}

/-- A fragment that finds the receiver idle is the first of its message. -/
theorem first_eq (ht : Tagged h completed tag buffer) (hopen : ¬ Ended h f.tag)
    (hidle : completed = true) : f.items = gathered (h ++ [f]) f.tag := by
  have habsent : ∀ g ∈ h, g.tag ≠ f.tag := fun g hg heq => hopen (heq ▸ ht.idle hidle g hg)
  rw [gathered_snoc_same, gathered_of_absent habsent]
  rfl

/-- A fragment that finds the receiver busy belongs to the message it is on. -/
theorem tag_eq (ht : Tagged h completed tag buffer) (hseq : InSequence h f)
    (hbusy : completed = false) : f.tag = tag := by
  obtain ⟨hopen, ⟨g, hg, rfl⟩, _⟩ := ht.busy hbusy
  by_contra hne
  exact hopen.notEnded (hseq g hg fun heq => hne heq.symm)

theorem next_eq (ht : Tagged h completed tag buffer) (hseq : InSequence h f)
    (hbusy : completed = false) : buffer ++ f.items = gathered (h ++ [f]) f.tag := by
  rw [gathered_snoc_same, ht.tag_eq hseq hbusy, ← (ht.busy hbusy).2.2]

/-- The receiver after a fragment, holding its message. -/
theorem snoc (hopen : ¬ Ended h f.tag) (hseq : InSequence h f) :
    Tagged (h ++ [f]) (!f.moreToFollow) f.tag (gathered (h ++ [f]) f.tag) where
  idle hc g hg := by
    rw [Bool.not_eq_true'] at hc
    by_contra hg'
    exact OnlyOpen.absent_of_last hseq hc hg' g hg rfl
  busy hc := by
    have hmore : f.moreToFollow = true := by simpa using hc
    have hopen' : ¬ Ended (h ++ [f]) f.tag := by
      rw [ended_snoc, hmore]
      simpa using hopen
    refine ⟨⟨hopen', fun g hg hne => ?_⟩, ⟨f, by simp, rfl⟩, rfl⟩
    rcases List.mem_append.mp hg with hold | hnew
    · exact ended_snoc.mpr (Or.inl (hseq g hold hne))
    · exact absurd (by rw [List.mem_singleton.mp hnew]) hne

end Tagged

end Fragment

end IronStack.Lib

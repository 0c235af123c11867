import Mathlib.Order.Bounds.Defs
import IronStack.Proof.AutobufBounds

/-!
# Shrinking a buffer

What is left after a shrink should be the pages that the content takes. It is what there was
before: the pages of the content are compared with those of the region the wrong way round,
and the content never takes more.
-/

namespace IronStack.Proof

open IronStack Lib WriteableAutobuf

namespace Shrink

/-- The content is as before, and takes all the pages that there are. -/
def Tight (buf : WriteableAutobuf) (r : Read WriteableAutobuf) : Prop :=
  ∃ shrunk, r = .ok shrunk ∧ shrunk.content = buf.content ∧
    IsLeast {reserve | 4096 ∣ reserve ∧ shrunk.contentSize ≤ reserve} shrunk.bufSize

theorem isLeast_pages (size : Nat) :
    IsLeast {reserve | 4096 ∣ reserve ∧ size ≤ reserve} (pages size * 4096) := by
  refine ⟨⟨Nat.dvd_mul_left _ _, ?_⟩, ?_⟩
  · unfold pages
    split
    · omega
    · omega
  · rintro reserve ⟨⟨number, rfl⟩, hle⟩
    unfold pages
    split
    · omega
    · omega

/-- **A buffer is shrunk to the pages that it needs** exactly if it has no others. -/
theorem shrink_tight_iff (buf : BoundedAutobuf) (howns : buf.ownsMemory = true) :
    Tight buf.toWriteableAutobuf (buf.shrink true) ↔
      buf.contentSize = 0 ∨ buf.bufSize = pages buf.contentSize * 4096 := by
  by_cases hzero : buf.contentSize = 0
  · have hreset : buf.shrink true = .ok {} := by
      rw [shrink, if_neg (not_not_intro howns), if_pos hzero]
      exact AutobufBounds.reset_ok buf.bounded
    have hnone : buf.content = [] := by
      rw [OwnedAutobuf.content, hzero, List.take_zero]
    refine ⟨fun _ => .inl hzero, fun _ => ⟨{}, hreset, hnone.symm, ?_⟩⟩
    exact isLeast_pages 0
  · have hkept := AutobufBounds.shrink_of_bounded true buf.bounded howns hzero
    rw [or_iff_right hzero]
    refine ⟨?_, ?_⟩
    · rintro ⟨shrunk, hshrunk, _, hleast⟩
      cases hkept.symm.trans hshrunk
      exact hleast.unique (isLeast_pages buf.contentSize)
    · intro htight
      refine ⟨buf.toWriteableAutobuf, hkept, rfl, ?_⟩
      rw [htight]
      exact isLeast_pages buf.contentSize

/-- So many pages with one byte of content. -/
def onePageUsed (number : UInt16) : BoundedAutobuf where
  writeableBuf := List.replicate ((number.toNat + 1) * 4096) 0
  bufSize := (number.toNat + 1) * 4096
  contentSize := 1
  pointer := .region
  bounded := by
    have hlt := UInt16.toNat_lt number
    refine ⟨?_, ?_, ?_, nofun, nofun⟩
    · dsimp only
      rw [List.length_replicate]
      omega
    · exact List.length_replicate.symm
    · dsimp only
      omega

/-- One page is enough for a byte, and stays. -/
theorem onePageUsed_tight : Tight (onePageUsed 0).toWriteableAutobuf ((onePageUsed 0).shrink true) :=
  (shrink_tight_iff (onePageUsed 0) rfl).mpr (.inr rfl)

/-- Two pages stay as well. -/
theorem twoPages_kept :
    ¬ ∀ buf : BoundedAutobuf, buf.ownsMemory = true → Tight buf.toWriteableAutobuf (buf.shrink true) := by
  intro h
  obtain ⟨shrunk, hshrunk, _, hleast⟩ := h (onePageUsed 1) rfl
  cases (AutobufBounds.shrink_of_bounded true (onePageUsed 1).bounded rfl nofun).symm.trans hshrunk
  have hle : (onePageUsed 1).bufSize ≤ 4096 := hleast.2 ⟨Nat.dvd_refl _, by decide⟩
  exact absurd hle (by decide)

end Shrink

end IronStack.Proof

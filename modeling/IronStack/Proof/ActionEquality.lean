import IronStack.OpenFlow.Action
import Mathlib.Data.List.Duplicate
import Mathlib.Data.List.Perm.Subperm

/-!
# The equality of action lists

`openflow_action_list::operator==` looks for each action of this list somewhere in
the other one, and for no action twice in two places. So it compares sets of
actions under an equal length: a list that repeats an action is equal to one that
has another action in its place, and not the other way round. A vendor action is
equal to nothing, so a list that holds one is not equal to itself.

Lists without either are compared as they should be, with whatever they are
compared.
-/

namespace IronStack.Proof

open IronStack

/-! ## Actions -/

/-- `of_action_vendor`. -/
def IsVendor (a : OfAction) : Prop := ∃ id request, a = .vendor id request

theorem action_beq_iff (a b : OfAction) : (a == b) = true ↔ ¬ IsVendor a ∧ a = b := by
  cases a with
  | vendor id request =>
      have hvendor : IsVendor (.vendor id request) := ⟨id, request, rfl⟩
      simp [BEq.beq, OfAction.beq, hvendor]
  | _ => simp [BEq.beq, OfAction.beq, IsVendor]

/-! ## Lists -/

/-- What the comparison finds out: this list has no vendor action, is as long as the other one
and has no action that the other one lacks. -/
theorem actionList_beq_iff (l other : OpenflowActionList) :
    (l == other) = true ↔
      (∀ a ∈ l.actions, ¬ IsVendor a) ∧ l.actions.length = other.actions.length ∧
        l.actions ⊆ other.actions := by
  have hunfold : (l == other) = true ↔ l.actions.length = other.actions.length ∧
      ∀ a ∈ l.actions, ∃ b ∈ other.actions, (a == b) = true := by
    simp [BEq.beq, OpenflowActionList.beq]
  rw [hunfold]
  refine ⟨?_, ?_⟩
  · intro ⟨hlen, hfound⟩
    refine ⟨?_, hlen, ?_⟩
    · intro a ha
      obtain ⟨b, _, hb⟩ := hfound a ha
      exact ((action_beq_iff a b).mp hb).1
    · intro a ha
      obtain ⟨b, hmem, hb⟩ := hfound a ha
      rw [((action_beq_iff a b).mp hb).2]
      exact hmem
  · intro ⟨hvendor, hlen, hsub⟩
    exact ⟨hlen, fun a ha => ⟨a, hsub ha, (action_beq_iff a a).mpr ⟨hvendor a ha, rfl⟩⟩⟩

theorem actionList_beq_self_iff (l : OpenflowActionList) :
    (l == l) = true ↔ ∀ a ∈ l.actions, ¬ IsVendor a := by
  rw [actionList_beq_iff]
  exact ⟨fun h => h.1, fun h => ⟨h, rfl, List.Subset.refl _⟩⟩

/-- Equality is transitive whatever the lists are. -/
theorem actionList_beq_trans {l other third : OpenflowActionList}
    (h : (l == other) = true) (h' : (other == third) = true) : (l == third) = true := by
  rw [actionList_beq_iff] at *
  exact ⟨h.1, h.2.1.trans h'.2.1, List.Subset.trans h.2.2 h'.2.2⟩

/-- The same actions as often: equal, unless a vendor action is among them. -/
theorem actionList_beq_of_perm {l other : OpenflowActionList}
    (hvendor : ∀ a ∈ l.actions, ¬ IsVendor a) (h : l.actions.Perm other.actions) :
    (l == other) = true :=
  (actionList_beq_iff l other).mpr ⟨hvendor, h.length_eq, h.subset⟩

/-- A list that has no action twice is equal only to its rearrangements: as many actions, each
of which finds its own place in the other list, leave no place free. -/
theorem actionList_perm_of_beq {l other : OpenflowActionList} (hnodup : l.actions.Nodup)
    (h : (l == other) = true) : l.actions.Perm other.actions := by
  obtain ⟨_, hlen, hsub⟩ := (actionList_beq_iff l other).mp h
  exact (List.subperm_of_subset hnodup hsub).perm_of_length_le hlen.ge

/-! ## A repeated action hides another one -/

/-- One place of an action that occurs twice, and the rest of the list, where it still occurs. -/
theorem exists_split_of_duplicate {a : OfAction} {l : List OfAction} (h : l.Duplicate a) :
    ∃ pre post, l = pre ++ a :: post ∧ a ∈ pre ++ post := by
  induction h with
  | @cons_mem l hmem => exact ⟨[], l, rfl, hmem⟩
  | @cons_duplicate b l _ ih =>
      obtain ⟨pre, post, hsplit, hmem⟩ := ih
      exact ⟨b :: pre, post, by rw [hsplit, List.cons_append], List.mem_cons_of_mem b hmem⟩

theorem exists_other_action (a : OfAction) : ∃ b, ¬ IsVendor b ∧ b ≠ a := by
  by_cases ha : a = .stripVlan
  · exact ⟨.setVlanId 1, by simp [IsVendor], by simp [ha]⟩
  · exact ⟨.stripVlan, by simp [IsVendor], fun h => ha h.symm⟩

/--
One of two equal actions of a list is replaced by another action: the comparison
still finds everything it looks for.
-/
theorem exists_beq_not_perm {l : OpenflowActionList} (hvendor : ∀ a ∈ l.actions, ¬ IsVendor a)
    (hdup : ¬ l.actions.Nodup) :
    ∃ other, (∀ a ∈ other.actions, ¬ IsVendor a) ∧ (l == other) = true ∧
      ¬ l.actions.Perm other.actions := by
  obtain ⟨a, htwice⟩ := List.exists_duplicate_iff_not_nodup.mpr hdup
  obtain ⟨pre, post, hsplit, hstill⟩ := exists_split_of_duplicate htwice
  obtain ⟨b, hb, hne⟩ := exists_other_action a
  rw [hsplit] at hvendor
  refine ⟨⟨pre ++ b :: post⟩, ?_, ?_, ?_⟩
  · intro c hc
    rcases List.mem_append.mp hc with hc | hc
    · exact hvendor c (List.mem_append_left _ hc)
    · rcases List.mem_cons.mp hc with rfl | hc
      · exact hb
      · exact hvendor c (List.mem_append_right _ (List.mem_cons_of_mem _ hc))
  · rw [actionList_beq_iff, hsplit]
    refine ⟨hvendor, by simp, ?_⟩
    intro c hc
    simp only [List.mem_append, List.mem_cons] at hc hstill ⊢
    rcases hc with hc | rfl | hc
    · exact .inl hc
    · exact hstill.imp id .inr
    · exact .inr (.inr hc)
  · intro hperm
    rw [hsplit, List.perm_append_left_iff] at hperm
    -- what is left is one action against one
    have hone : [a].Perm [b] := (List.perm_append_right_iff post).mp hperm
    exact hne (List.singleton_perm_singleton.mp hone).symm

/-! ## The claim -/

/-- What an equality owes a list, whatever the other lists are. -/
structure ComparesFairly (l : OpenflowActionList) : Prop where
  refl : (l == l) = true
  symm : ∀ other, (l == other) = true → (other == l) = true
  trans : ∀ other third, (l == other) = true → (other == third) = true → (l == third) = true
  /-- Equal are the lists with the same actions, each as often. -/
  multiset : ∀ other, (l == other) = true ↔ l.actions.Perm other.actions

/-- A list is compared as it should be if and only if it has no vendor action and no action
twice. -/
theorem actionList_equality_iff (l : OpenflowActionList) :
    ComparesFairly l ↔ (∀ a ∈ l.actions, ¬ IsVendor a) ∧ l.actions.Nodup := by
  refine ⟨?_, ?_⟩
  · intro h
    have hvendor := (actionList_beq_self_iff l).mp h.refl
    refine ⟨hvendor, ?_⟩
    by_contra hdup
    obtain ⟨other, _, heq, hperm⟩ := exists_beq_not_perm hvendor hdup
    exact hperm ((h.multiset other).mp heq)
  · intro ⟨hvendor, hnodup⟩
    refine ⟨(actionList_beq_self_iff l).mpr hvendor, ?_, fun _ _ => actionList_beq_trans, ?_⟩
    · intro other heq
      have hperm := actionList_perm_of_beq hnodup heq
      exact actionList_beq_of_perm (fun a ha => hvendor a (hperm.mem_iff.mpr ha)) hperm.symm
    · intro other
      exact ⟨actionList_perm_of_beq hnodup, actionList_beq_of_perm hvendor⟩

/-- Two outputs to port 1 are equal to an output to port 1 and one to port 2, which is not equal
to them; and a vendor action is not equal to itself. -/
theorem repeated_output_equal :
    (OpenflowActionList.mk [.outputToPort false 1, .outputToPort false 1] ==
        ⟨[.outputToPort false 1, .outputToPort false 2]⟩) = true ∧
      (OpenflowActionList.mk [.outputToPort false 1, .outputToPort false 2] ==
        ⟨[.outputToPort false 1, .outputToPort false 1]⟩) = false ∧
      (OpenflowActionList.mk [.vendor 0 []] == ⟨[.vendor 0 []]⟩) = false ∧
      ¬ ∀ l, ComparesFairly l := by
  refine ⟨rfl, rfl, rfl, ?_⟩
  intro h
  exact Bool.noConfusion ((h ⟨[.vendor 0 []]⟩).refl : (false : Bool) = true)

end IronStack.Proof

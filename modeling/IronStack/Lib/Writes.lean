import Mathlib.Data.List.Basic
import Mathlib.Data.List.Induction
import Mathlib.Data.List.Perm.Basic

/-!
# The last write to a slot

Commands write to the slots of a state, each to those that it names. After a sequence of
commands a slot holds what was written to it last. Where the writes to a slot agree, their
order does not matter.
-/

namespace IronStack.Lib

variable {κ ν σ α : Type*}

/-- What the commands of a list write to a slot last. -/
def lastWrite (writes : α → κ → Option ν) (l : List α) (k : κ) : Option ν :=
  l.reverse.findSome? fun a => writes a k

variable {writes : α → κ → Option ν} {l l' : List α} {k : κ} {x : ν}

theorem lastWrite_concat (writes : α → κ → Option ν) (l : List α) (a : α) (k : κ) :
    lastWrite writes (l ++ [a]) k = (writes a k).or (lastWrite writes l k) := by
  rw [lastWrite, List.reverse_append, List.reverse_singleton, List.singleton_append, List.findSome?_cons]
  cases writes a k with
  | none => rfl
  | some x => rfl

/-- **A slot holds what was written to it last**, or what it held before. -/
theorem slot_foldl {slot : σ → κ → ν} {step : σ → α → σ}
    (hstep : ∀ s a k, slot (step s a) k = (writes a k).getD (slot s k)) (s : σ) (l : List α) (k : κ) :
    slot (l.foldl step s) k = (lastWrite writes l k).getD (slot s k) := by
  induction l using List.reverseRecOn with
  | nil => rfl
  | append_singleton l a ih =>
      rw [List.foldl_concat, hstep, lastWrite_concat, ih]
      cases writes a k with
      | none => rfl
      | some x => rfl

/-- What is written may be what is written elsewhere, looked at in another way. -/
theorem lastWrite_map {β : Type*} {writes' : α → κ → Option β} {f : β → ν}
    (h : ∀ a ∈ l, writes a k = (writes' a k).map f) :
      lastWrite writes l k = (lastWrite writes' l k).map f := by
  induction l using List.reverseRecOn with
  | nil => rfl
  | append_singleton l a ih =>
      rw [lastWrite_concat, lastWrite_concat, h a (List.mem_append_right l (List.mem_singleton.mpr rfl)),
        ih fun b hb => h b (List.mem_append_left [a] hb)]
      cases writes' a k with
      | none => rfl
      | some x => rfl

/-- Commands that write elsewhere may be left out. -/
theorem lastWrite_filter {p : α → Bool} (h : ∀ a ∈ l, p a = false → writes a k = none) :
    lastWrite writes (l.filter p) k = lastWrite writes l k := by
  induction l using List.reverseRecOn with
  | nil => rfl
  | append_singleton l a ih =>
      have hl := ih fun b hb => h b (List.mem_append_left [a] hb)
      rw [List.filter_append, lastWrite_concat]
      cases ha : p a with
      | true => rw [List.filter_singleton, ha, cond_true, lastWrite_concat, hl]
      | false =>
          rw [List.filter_singleton, ha, cond_false, List.append_nil, hl,
            h a (List.mem_append_right l (List.mem_singleton.mpr rfl)) ha, Option.none_or]

theorem lastWrite_eq_none : lastWrite writes l k = none ↔ ∀ a ∈ l, writes a k = none := by
  rw [lastWrite, List.findSome?_eq_none_iff]
  exact ⟨fun h a ha => h a (List.mem_reverse.mpr ha), fun h a ha => h a (List.mem_reverse.mp ha)⟩

theorem exists_of_lastWrite (h : lastWrite writes l k = some x) : ∃ a ∈ l, writes a k = some x := by
  obtain ⟨a, ha, hx⟩ := List.exists_of_findSome?_eq_some h
  exact ⟨a, List.mem_reverse.mp ha, hx⟩

/-- The commands of the list write the same to the slot, as far as they write to it. -/
def Agree (writes : α → κ → Option ν) (l : List α) (k : κ) : Prop :=
  ∀ a ∈ l, ∀ b ∈ l, ∀ x y, writes a k = some x → writes b k = some y → x = y

theorem lastWrite_of_agree (h : Agree writes l k) :
    lastWrite writes l k = some x ↔ ∃ a ∈ l, writes a k = some x := by
  refine ⟨exists_of_lastWrite, fun ⟨a, ha, hx⟩ => ?_⟩
  cases hlast : lastWrite writes l k with
  | none =>
      rw [lastWrite_eq_none.mp hlast a ha] at hx
      cases hx
  | some y =>
      obtain ⟨b, hb, hy⟩ := exists_of_lastWrite hlast
      rw [h a ha b hb x y hx hy]

/-- **The order of writes that agree does not matter.** -/
theorem lastWrite_perm (hperm : l.Perm l') (h : Agree writes l k) :
    lastWrite writes l k = lastWrite writes l' k := by
  have h' : Agree writes l' k := fun a ha b hb => h a (hperm.mem_iff.mpr ha) b (hperm.mem_iff.mpr hb)
  apply Option.ext
  intro x
  rw [lastWrite_of_agree h, lastWrite_of_agree h']
  refine ⟨fun ⟨a, ha, hx⟩ => ⟨a, hperm.mem_iff.mp ha, hx⟩, fun ⟨a, ha, hx⟩ => ⟨a, hperm.mem_iff.mpr ha, hx⟩⟩

end IronStack.Lib

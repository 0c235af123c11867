import Mathlib.Data.List.Nodup
import Mathlib.Data.List.Perm.Subperm
import Mathlib.Order.Bounds.Basic
import Mathlib.Tactic.Linarith

/-!
# Ordered maps

Lookups in an `ExtTreeMap` whose comparison is lawful, with the keys compared by
`=`; what a list of upserts leaves under a key; and the largest of a list
computed by a running maximum.
-/

namespace IronStack.Lib

section Map

open Std

variable {κ ν : Type} [Ord κ] [TransOrd κ] [LawfulEqOrd κ]

omit [TransOrd κ] in
theorem eq_of_compare_eq {a b : κ} (h : compare a b = .eq) : a = b :=
  LawfulEqCmp.eq_of_compare h

variable [DecidableEq κ]

theorem getElem?_insert (m : ExtTreeMap κ ν) (k a : κ) (v : ν) :
    (m.insert k v)[a]? = if k = a then some v else m[a]? := by
  rw [ExtTreeMap.getElem?_insert]
  by_cases h : k = a
  · subst h
    rw [if_pos ReflCmp.compare_self, if_pos rfl]
  · rw [if_neg (fun hc => h (eq_of_compare_eq hc)), if_neg h]

theorem getElem?_erase (m : ExtTreeMap κ ν) (k a : κ) :
    (m.erase k)[a]? = if k = a then none else m[a]? := by
  rw [ExtTreeMap.getElem?_erase]
  by_cases h : k = a
  · subst h
    rw [if_pos ReflCmp.compare_self, if_pos rfl]
  · rw [if_neg (fun hc => h (eq_of_compare_eq hc)), if_neg h]

/-- Overwriting the value at a key with a function of it. -/
theorem getElem?_insert_map (m : ExtTreeMap κ ν) {k : κ} {v : ν} (f : ν → ν) (a : κ)
    (h : m[k]? = some v) :
    (m.insert k (f v))[a]? = if a = k then m[a]?.map f else m[a]? := by
  rw [getElem?_insert]
  by_cases hka : k = a
  · subst hka
    rw [if_pos rfl, if_pos rfl, h]
    rfl
  · rw [if_neg hka, if_neg (Ne.symm hka)]

/-- Change the value at a key with `f`, or put `d` there if the key is new. -/
def upsert (m : ExtTreeMap κ ν) (k : κ) (f : ν → ν) (d : ν) : ExtTreeMap κ ν :=
  m.insert k ((m[k]?.map f).getD d)

theorem getElem?_upsert (m : ExtTreeMap κ ν) (k a : κ) (f : ν → ν) (d : ν) :
    (upsert m k f d)[a]? = if k = a then some ((m[a]?.map f).getD d) else m[a]? := by
  rw [upsert, getElem?_insert]
  by_cases h : k = a
  · subst h
    rfl
  · rw [if_neg h, if_neg h]

/--
**What a list of upserts leaves under a key.** When `f` is idempotent and fixes
the fresh values, only the first element with the key counts.
-/
theorem getElem?_foldl_upsert {α : Type} (key : α → κ) (f : ν → ν) (g : α → ν)
    (hf : ∀ v, f (f v) = f v) (hg : ∀ a, f (g a) = g a) (l : List α) (m : ExtTreeMap κ ν)
    (c : κ) :
    (l.foldl (fun m a => upsert m (key a) f (g a)) m)[c]? =
      (l.find? fun a => key a = c).elim m[c]? fun a => some ((m[c]?.map f).getD (g a)) := by
  induction l generalizing m with
  | nil => rfl
  | cons a l ih =>
      rw [List.foldl_cons, ih, getElem?_upsert]
      by_cases hk : key a = c
      · rw [if_pos hk, List.find?_cons_of_pos (by simpa using hk)]
        -- a later element with the same key changes nothing
        cases l.find? (fun a => key a = c) with
        | none => rfl
        | some b =>
            cases m[c]? with
            | none => simp [hg]
            | some v => simp [hf]
      · rw [if_neg hk, List.find?_cons_of_neg (by simpa using hk)]

omit [DecidableEq κ] in
/-- The set of the keys of some elements of a list. -/
theorem mem_foldl_insert {α : Type} (p : α → Bool) (key : α → κ) (l : List α) (t : ExtTreeSet κ) (k : κ) :
    k ∈ l.foldl (fun t a => if p a then t.insert (key a) else t) t ↔
      k ∈ t ∨ ∃ a ∈ l, p a = true ∧ key a = k := by
  induction l generalizing t with
  | nil => simp
  | cons a l ih =>
      rw [List.foldl_cons, ih]
      by_cases hp : p a = true
      · rw [if_pos hp, ExtTreeSet.mem_insert]
        simp only [LawfulEqOrd.compare_eq_iff_eq, List.mem_cons, exists_eq_or_imp, hp, true_and]
        rw [or_comm (a := key a = k), or_assoc]
      · rw [if_neg hp]
        simp only [List.mem_cons, exists_eq_or_imp, hp, false_and, false_or, Bool.false_eq_true]

/-! ## A map without some of its entries -/

section EraseAll

theorem getElem?_foldl_erase (l : List (κ × ν)) (m : ExtTreeMap κ ν) (a : κ) :
    (l.foldl (fun m p => m.erase p.1) m)[a]? = if a ∈ l.map Prod.fst then none else m[a]? := by
  induction l generalizing m with
  | nil => rfl
  | cons p l ih =>
      rw [List.foldl_cons, ih, getElem?_erase, List.map_cons]
      by_cases ha : a ∈ l.map Prod.fst
      · rw [if_pos ha, if_pos (List.mem_cons_of_mem _ ha)]
      · rw [if_neg ha]
        by_cases hp : p.1 = a
        · rw [if_pos hp, if_pos (by simp [hp])]
        · rw [if_neg hp, if_neg (by simp [ha, Ne.symm hp])]

theorem size_foldl_erase {l : List (κ × ν)} (hl : l.Pairwise fun p q => p.1 ≠ q.1) {m : ExtTreeMap κ ν}
    (hmem : ∀ p ∈ l, m[p.1]? = some p.2) : (l.foldl (fun m p => m.erase p.1) m).size + l.length = m.size := by
  induction l generalizing m with
  | nil => rfl
  | cons p l ih =>
      obtain ⟨hne, hl⟩ := List.pairwise_cons.mp hl
      obtain ⟨hp, hmem⟩ := List.forall_mem_cons.mp hmem
      have hcontains : p.1 ∈ m := by
        rw [ExtTreeMap.mem_iff_isSome_getElem?, hp]
        rfl
      have hpos : m.size ≠ 0 := by
        intro hzero
        rw [ExtTreeMap.eq_empty_iff_size_eq_zero.mpr hzero] at hcontains
        exact ExtTreeMap.not_mem_empty hcontains
      have hrest := ih (m := m.erase p.1) hl fun q hq => by
        rw [getElem?_erase, if_neg (hne q hq), hmem q hq]
      rw [ExtTreeMap.size_erase, if_pos (ExtTreeMap.mem_iff_contains.mp hcontains)] at hrest
      rw [List.foldl_cons, List.length_cons]
      omega

end EraseAll

/-! ## A map put together from the list of another -/

section Rebuild

variable {μ : Type} (f : ν → μ)

omit [DecidableEq κ] in
theorem getElem?_foldl_insert_of_ne {l : List (κ × ν)} {k : κ} (h : ∀ e ∈ l, e.1 ≠ k) (t : ExtTreeMap κ μ) :
    (l.foldl (fun t e => t.insert e.1 (f e.2)) t)[k]? = t[k]? := by
  classical
  induction l generalizing t with
  | nil => rfl
  | cons e l ih =>
      rw [List.foldl_cons, ih (fun e' he' => h e' (List.mem_cons_of_mem _ he')), getElem?_insert,
        if_neg (h e List.mem_cons_self)]

omit [DecidableEq κ] in
theorem getElem?_foldl_insert_of_mem {l : List (κ × ν)} (hl : l.Pairwise fun a b => a.1 ≠ b.1) {k : κ} {v : ν}
    (h : (k, v) ∈ l) (t : ExtTreeMap κ μ) :
    (l.foldl (fun t e => t.insert e.1 (f e.2)) t)[k]? = some (f v) := by
  classical
  induction l generalizing t with
  | nil => cases h
  | cons e l ih =>
      obtain ⟨hne, hl⟩ := List.pairwise_cons.mp hl
      rw [List.foldl_cons]
      rcases List.mem_cons.mp h with rfl | h
      · rw [getElem?_foldl_insert_of_ne f (fun e' he' => (hne e' he').symm), getElem?_insert, if_pos rfl]
      · exact ih hl h _

omit [DecidableEq κ] in
/-- **A map is put together again from its entries**, with the values changed on the way. -/
theorem getElem?_foldl_insert_toList (m : ExtTreeMap κ ν) (k : κ) :
    (m.toList.foldl (fun t e => t.insert e.1 (f e.2)) (∅ : ExtTreeMap κ μ))[k]? = m[k]?.map f := by
  have hdistinct : m.toList.Pairwise fun a b => a.1 ≠ b.1 := by
    refine (ExtTreeMap.distinct_keys_toList (t := m)).imp fun hne heq => hne ?_
    exact LawfulEqOrd.compare_eq_iff_eq.mpr heq
  cases hk : m[k]? with
  | some v =>
      exact getElem?_foldl_insert_of_mem f hdistinct
        (ExtTreeMap.mem_toList_iff_getElem?_eq_some.mpr hk) _
  | none =>
      have hne : ∀ e ∈ m.toList, e.1 ≠ k := by
        intro e he heq
        have hsome := ExtTreeMap.mem_toList_iff_getElem?_eq_some.mp (show (e.1, e.2) ∈ m.toList from he)
        rw [heq, hk] at hsome
        cases hsome
      rw [getElem?_foldl_insert_of_ne f hne, ExtTreeMap.getElem?_empty]
      rfl

end Rebuild

/-- A map has no more entries than there are keys of 16 bits. -/
theorem length_toList_le {ν : Type} (m : ExtTreeMap UInt16 ν) : m.toList.length ≤ 65536 := by
  have hkeys : (m.toList.map Prod.fst).Nodup := by
    rw [ExtTreeMap.map_fst_toList_eq_keys]
    exact ExtTreeMap.nodup_keys
  have hnumbers : ((m.toList.map Prod.fst).map UInt16.toNat).Nodup :=
    hkeys.map fun _ _ => UInt16.toNat_inj.mp
  have hsub : ((m.toList.map Prod.fst).map UInt16.toNat) ⊆ List.range 65536 := by
    intro n hn
    obtain ⟨key, _, rfl⟩ := List.mem_map.mp hn
    exact List.mem_range.mpr key.toNat_lt
  have hle := (hnumbers.subperm hsub).length_le
  rwa [List.length_range, List.length_map, List.length_map] at hle

end Map

section Largest

variable {α β : Type} [LinearOrder β]

/-- One turn of a running maximum of `f` over the elements satisfying `p`: was one found yet, and
the largest so far. -/
def keepLargest (p : α → Bool) (f : α → β) (acc : Bool × β) (a : α) : Bool × β :=
  if p a then
    if !acc.1 then (true, f a)
    else if f a > acc.2 then (acc.1, f a)
    else acc
  else acc

/-- Once something was found, the running maximum is the greatest of it and what follows. -/
theorem foldl_keepLargest_found (p : α → Bool) (f : α → β) (l : List α) (b : β) :
    IsGreatest {c | c = b ∨ ∃ a ∈ l, p a = true ∧ f a = c}
      (l.foldl (keepLargest p f) (true, b)).2 := by
  induction l generalizing b with
  | nil =>
      refine ⟨by simp, ?_⟩
      intro c hc
      have hcb : c = b := by simpa using hc
      exact hcb.le
  | cons a l ih =>
      rw [List.foldl_cons]
      by_cases hnew : p a = true ∧ b < f a
      · have hstep : keepLargest p f (true, b) a = (true, f a) := by
          simp [keepLargest, hnew]
        rw [hstep]
        obtain ⟨hmem, hle⟩ := ih (f a)
        refine ⟨?_, ?_⟩
        · rcases hmem with h | ⟨a', ha', h⟩
          · exact Or.inr ⟨a, by simp, hnew.1, h.symm⟩
          · exact Or.inr ⟨a', List.mem_cons_of_mem _ ha', h⟩
        · intro c hc
          rcases hc with rfl | ⟨a', ha', hp', rfl⟩
          · exact hnew.2.le.trans (hle (Or.inl rfl))
          · rcases List.mem_cons.mp ha' with rfl | ha'
            · exact hle (Or.inl rfl)
            · exact hle (Or.inr ⟨a', ha', hp', rfl⟩)
      · have hstep : keepLargest p f (true, b) a = (true, b) := by
          by_cases hp : p a = true
          · have hlt : ¬ b < f a := fun h => hnew ⟨hp, h⟩
            simp [keepLargest, hp, hlt]
          · simp [keepLargest, hp]
        rw [hstep]
        obtain ⟨hmem, hle⟩ := ih b
        refine ⟨?_, ?_⟩
        · rcases hmem with h | ⟨a', ha', h⟩
          · exact Or.inl h
          · exact Or.inr ⟨a', List.mem_cons_of_mem _ ha', h⟩
        · intro c hc
          rcases hc with rfl | ⟨a', ha', hp', rfl⟩
          · exact hle (Or.inl rfl)
          · rcases List.mem_cons.mp ha' with rfl | ha'
            · -- an element that did not beat `b`
              have hab : f a' ≤ b := le_of_not_gt fun h => hnew ⟨hp', h⟩
              exact hab.trans (hle (Or.inl rfl))
            · exact hle (Or.inr ⟨a', ha', hp', rfl⟩)

theorem foldl_keepLargest_of_none {p : α → Bool} {l : List α} (h : ∀ a ∈ l, p a = false)
    (f : α → β) (acc : Bool × β) : l.foldl (keepLargest p f) acc = acc := by
  induction l with
  | nil => rfl
  | cons a l ih =>
      have hstep : keepLargest p f acc a = acc := by
        simp [keepLargest, h a (List.mem_cons_self ..)]
      rw [List.foldl_cons, hstep]
      exact ih fun a' ha' => h a' (List.mem_cons_of_mem _ ha')

/-- **A running maximum finds the greatest value of `f` on the elements satisfying `p`.** -/
theorem foldl_keepLargest (p : α → Bool) (f : α → β) (l : List α) (b : β)
    (h : ∃ a ∈ l, p a = true) :
    IsGreatest {c | ∃ a ∈ l, p a = true ∧ f a = c}
      (l.foldl (keepLargest p f) (false, b)).2 := by
  induction l with
  | nil => exact absurd h (by simp)
  | cons a l ih =>
      rw [List.foldl_cons]
      by_cases hp : p a = true
      · have hstep : keepLargest p f (false, b) a = (true, f a) := by
          simp [keepLargest, hp]
        rw [hstep]
        have hset : {c | ∃ a' ∈ a :: l, p a' = true ∧ f a' = c}
            = {c | c = f a ∨ ∃ a' ∈ l, p a' = true ∧ f a' = c} := by
          ext c
          simp only [List.mem_cons, exists_eq_or_imp, hp, true_and, Set.mem_ofPred_eq,
            eq_comm (a := f a)]
        rw [hset]
        exact foldl_keepLargest_found p f l (f a)
      · have hstep : keepLargest p f (false, b) a = (false, b) := by
          simp [keepLargest, hp]
        rw [hstep]
        have h' : ∃ a ∈ l, p a = true := by
          obtain ⟨a', ha', hp'⟩ := h
          rcases List.mem_cons.mp ha' with rfl | ha'
          · exact absurd hp' hp
          · exact ⟨a', ha', hp'⟩
        have hset : {c | ∃ a' ∈ a :: l, p a' = true ∧ f a' = c}
            = {c | ∃ a' ∈ l, p a' = true ∧ f a' = c} := by
          ext c
          simp only [List.mem_cons, exists_eq_or_imp, hp, Bool.false_eq_true, false_and, false_or,
            Set.mem_ofPred_eq]
        rw [hset]
        exact ih h'

end Largest

end IronStack.Lib

import IronStack.Proof.KeyValues
import IronStack.Text.ActionParser

/-!
# Reading an action list

The items of a sequence of pairs are its pairs, except that an `enqueue_port` and the
`queue_id` right behind it are one item. An item is well-formed if its numbers are
literals, and complete. The loop takes its turns at the items of the sequence, with two
differences. What it reads of a number may be the beginning of another text, or wrapped
around. And behind an `enqueue_port` with a number it passes over the next pair, whatever
that is.
-/

namespace IronStack.Proof

open Lib StringUtils KeyValues

namespace ActionParser

open IronStack.OpenflowActionList

variable {getaddrinfo : Text → Option IpAddress}

abbrev enqueuePort : Text := "enqueue_port".toList

abbrev queueId : Text := "queue_id".toList

/-- What an `enqueue_port` and the pair behind it stand for, by the numbers as they are read. -/
def enqueueItem (number : Text → Option UInt16) (number32 : Text → Option UInt32) (value : Text) :
    List KeyValue → Option (Option OfAction)
  | [] => none
  | (key', value') :: _ =>
      if key' = queueId then
        (number value).bind fun port => (number32 value').map fun queue => some (.enqueue port queue)
      else none

/--
What is at the front of a sequence, by the numbers as they are read: an action or none, if
it is well-formed.
-/
def frontItem (getaddrinfo : Text → Option IpAddress) (number : Text → Option UInt16)
    (number32 : Text → Option UInt32) : List KeyValue → Option (Option OfAction)
  | [] => none
  | (key, value) :: rest =>
      if key = enqueuePort then enqueueItem number number32 value rest
      else ofPair getaddrinfo number key value

section Front

variable {number : Text → Option UInt16} {number32 : Text → Option UInt32} {p q : KeyValue}

/-- A `queue_id` is nothing on its own. -/
theorem frontItem_queueId (h : p.1 = queueId) (rest : List KeyValue) :
    frontItem getaddrinfo number number32 (p :: rest) = none := by
  obtain ⟨key, value⟩ := p
  obtain rfl : key = queueId := h
  rfl

/-- An `enqueue_port` needs its queue. -/
theorem frontItem_incomplete (hkey : p.1 = enqueuePort) (hqueue : q.1 ≠ queueId) (rest : List KeyValue) :
    frontItem getaddrinfo number number32 (p :: q :: rest) = none := by
  rw [frontItem, if_pos hkey]
  exact if_neg hqueue

end Front

/-! ## Items -/

/-- Where the items of a sequence are. -/
def itemsAt : List KeyValue → List (List KeyValue)
  | [] => []
  | [p] => [[p]]
  | p :: q :: rest =>
      (p :: q :: rest) :: if p.1 = enqueuePort ∧ q.1 = queueId then itemsAt rest else itemsAt (q :: rest)

/-- What the item at the front describes, if it is well-formed. -/
def describes (getaddrinfo : Text → Option IpAddress) : List KeyValue → Option (Option OfAction) :=
  frontItem getaddrinfo literal literal32

/-- The actions that the items describe, each with where its item is. -/
def described (getaddrinfo : Text → Option IpAddress) (kv : List KeyValue) :
    List (List KeyValue × OfAction) :=
  (itemsAt kv).filterMap fun l => (describes getaddrinfo l).join.map (l, ·)

/-! ## Turns of the loop -/

/-- The loop goes on behind the next pair. -/
def Skips (p : KeyValue) : Prop := p.1 = enqueuePort ∧ (stringToUint16 p.2).isSome

instance (p : KeyValue) : Decidable (Skips p) := inferInstanceAs (Decidable (_ ∧ _))

/-- Where the loop goes on behind a pair. -/
def behind (p : KeyValue) (rest : List KeyValue) : List KeyValue := if Skips p then rest.tail else rest

/-- Where the turns of the loop are. -/
def turnsAt : List KeyValue → List (List KeyValue)
  | [] => []
  | [p] => [[p]]
  | p :: q :: rest => (p :: q :: rest) :: if Skips p then turnsAt rest else turnsAt (q :: rest)

/-- What a turn of the loop reads at the front, if it can be parsed. -/
def scans (getaddrinfo : Text → Option IpAddress) : List KeyValue → Option (Option OfAction) :=
  frontItem getaddrinfo stringToUint16 stringToUint32

/-- The actions that the loop adds, each with where its turn is. -/
def added (getaddrinfo : Text → Option IpAddress) (kv : List KeyValue) : List (List KeyValue × OfAction) :=
  (turnsAt kv).filterMap fun l => (scans getaddrinfo l).join.map (l, ·)

theorem turnsAt_cons (p : KeyValue) (rest : List KeyValue) :
    turnsAt (p :: rest) = (p :: rest) :: turnsAt (behind p rest) := by
  rw [behind]
  cases rest with
  | nil =>
      split
      · rfl
      · rfl
  | cons q rest =>
      rw [turnsAt]
      split
      · rfl
      · rfl

theorem filterMap_cons_toList {α β : Type} (f : α → Option β) (a : α) (l : List α) :
    (a :: l).filterMap f = (f a).toList ++ l.filterMap f := by
  rw [List.filterMap_cons]
  cases f a with
  | none => rfl
  | some b => rfl

/-- The action at the front, with where it is. -/
def labelled (l : List KeyValue) (item : Option (Option OfAction)) : List (List KeyValue × OfAction) :=
  (item.join.map (l, ·)).toList

theorem map_snd_labelled (l : List KeyValue) (item : Option (Option OfAction)) :
    (labelled l item).map Prod.snd = item.join.toList := by
  rw [labelled]
  cases item.join with
  | none => rfl
  | some action => rfl

theorem added_cons (p : KeyValue) (rest : List KeyValue) : added getaddrinfo (p :: rest) =
    labelled (p :: rest) (scans getaddrinfo (p :: rest)) ++ added getaddrinfo (behind p rest) := by
  rw [added, turnsAt_cons, filterMap_cons_toList]
  rfl

/-- A turn that finds nothing it can parse. -/
theorem fromPairs_of_none {l : List KeyValue} (h : scans getaddrinfo l = none) (result : Bool)
    (actions : List OfAction) (kv : List KeyValue) : fromPairs getaddrinfo false actions kv =
      fromPairs getaddrinfo (result && (scans getaddrinfo l).isSome)
        (actions ++ (scans getaddrinfo l).join.toList) kv := by
  rw [h, Option.isSome_none, Bool.and_false, Option.join_none, Option.toList_none, List.append_nil]

/-- A turn that finds an action. -/
theorem fromPairs_of_some {l : List KeyValue} {action : OfAction}
    (h : scans getaddrinfo l = some (some action)) (result : Bool) (actions : List OfAction)
    (kv : List KeyValue) : fromPairs getaddrinfo result (actions ++ [action]) kv =
      fromPairs getaddrinfo (result && (scans getaddrinfo l).isSome)
        (actions ++ (scans getaddrinfo l).join.toList) kv := by
  rw [h, Option.isSome_some, Bool.and_true, Option.join_some, Option.toList_some]

/-- The turn at an `enqueue_port`, by its number and the pair behind it. -/
theorem fromPairs_enqueuePort (result : Bool) (actions : List OfAction) (value : Text)
    (rest : List KeyValue) : fromPairs getaddrinfo result actions ((enqueuePort, value) :: rest) =
      fromPairs getaddrinfo (result && (scans getaddrinfo ((enqueuePort, value) :: rest)).isSome)
        (actions ++ (scans getaddrinfo ((enqueuePort, value) :: rest)).join.toList)
        (behind (enqueuePort, value) rest) := by
  rw [fromPairs, if_pos rfl]
  cases hport : stringToUint16 value with
  | none =>
      have hskips : ¬ Skips (enqueuePort, value) := by
        intro h
        rw [Skips, hport] at h
        exact Bool.false_ne_true h.2
      have hbehind : behind (enqueuePort, value) rest = rest := if_neg hskips
      have hnone : scans getaddrinfo ((enqueuePort, value) :: rest) = none := by
        rw [scans, frontItem, if_pos rfl]
        cases rest with
        | nil => rfl
        | cons q rest =>
            rw [enqueueItem, hport]
            exact ite_self none
      rw [hbehind]
      exact fromPairs_of_none hnone result actions rest
  | some port =>
      have hbehind : behind (enqueuePort, value) rest = rest.tail := if_pos ⟨rfl, by rw [hport]; rfl⟩
      rw [hbehind]
      cases rest with
      | nil => exact fromPairs_of_none rfl result actions []
      | cons q rest =>
          obtain ⟨key', value'⟩ := q
          dsimp only [List.tail_cons]
          split
          · rename_i hkey
            exact fromPairs_of_none (frontItem_incomplete rfl hkey rest) result actions rest
          · rename_i hkey
            have hscans : scans getaddrinfo ((enqueuePort, value) :: (key', value') :: rest) =
                (stringToUint32 value').map fun queue => some (.enqueue port queue) := by
              rw [scans, frontItem, if_pos rfl, enqueueItem, hport]
              exact if_pos (not_not.mp hkey)
            cases hqueue : stringToUint32 value' with
            | none =>
                rw [hqueue] at hscans
                exact fromPairs_of_none hscans result actions rest
            | some queue =>
                rw [hqueue] at hscans
                exact fromPairs_of_some hscans result actions rest

/-- **One turn of the loop.** -/
theorem fromPairs_cons (result : Bool) (actions : List OfAction) (p : KeyValue) (rest : List KeyValue) :
    fromPairs getaddrinfo result actions (p :: rest) =
      fromPairs getaddrinfo (result && (scans getaddrinfo (p :: rest)).isSome)
        (actions ++ (scans getaddrinfo (p :: rest)).join.toList) (behind p rest) := by
  obtain ⟨key, value⟩ := p
  by_cases hkey : key = enqueuePort
  · subst hkey
    exact fromPairs_enqueuePort result actions value rest
  · have hbehind : behind (key, value) rest = rest := if_neg fun h => hkey h.1
    have hscans : scans getaddrinfo ((key, value) :: rest) = ofPair getaddrinfo stringToUint16 key value := by
      rw [scans, frontItem, if_neg hkey]
    rw [fromPairs, if_neg hkey, hbehind]
    cases hpair : ofPair getaddrinfo stringToUint16 key value with
    | none => exact fromPairs_of_none (hscans.trans hpair) result actions rest
    | some action =>
        cases action with
        | none =>
            rw [hscans, hpair, Option.isSome_some, Bool.and_true, Option.join_some, Option.toList_none,
              List.append_nil]
        | some action => exact fromPairs_of_some (hscans.trans hpair) result actions rest

theorem length_behind_le (p : KeyValue) (rest : List KeyValue) : (behind p rest).length ≤ rest.length := by
  rw [behind]
  split
  · rw [List.length_tail]
    exact Nat.sub_le _ _
  · exact Nat.le_refl _

/-- An induction over the turns of the loop. -/
theorem turns_induction {motive : List KeyValue → Prop} (nil : motive [])
    (cons : ∀ p rest, motive (behind p rest) → motive rest → motive (p :: rest)) (kv : List KeyValue) :
    motive kv := by
  induction h : kv.length using Nat.strong_induction_on generalizing kv with
  | _ n ih =>
      cases kv with
      | nil => exact nil
      | cons p rest =>
          have hlen := length_behind_le p rest
          rw [List.length_cons] at h
          exact cons p rest (ih _ (by omega) _ rfl) (ih _ (by omega) _ rfl)

/-- **The loop is its turns**: they are all right, and the actions are those that they add. -/
theorem fromPairs_eq (kv : List KeyValue) (result : Bool) (actions : List OfAction) :
    fromPairs getaddrinfo result actions kv =
      (result && (turnsAt kv).all fun l => (scans getaddrinfo l).isSome,
        actions ++ (added getaddrinfo kv).map Prod.snd) := by
  induction kv using turns_induction generalizing result actions with
  | nil =>
      rw [fromPairs, turnsAt, List.all_nil, Bool.and_true, added, turnsAt, List.filterMap_nil, List.map_nil,
        List.append_nil]
  | cons p rest ih _ =>
      rw [fromPairs_cons, ih, added_cons, turnsAt_cons, List.all_cons, Bool.and_assoc, List.map_append,
        List.append_assoc, map_snd_labelled]

/-! ## Literals are read as what they are -/

theorem ite_mono {α : Type} {c : Prop} [Decidable c] {a b a' b' : Option α} {x : α}
    (hthen : a = some x → a' = some x) (helse : b = some x → b' = some x)
    (h : (if c then a else b) = some x) : (if c then a' else b') = some x := by
  by_cases hc : c
  · rw [if_pos hc] at h ⊢
    exact hthen h
  · rw [if_neg hc] at h ⊢
    exact helse h

/-- A pair whose number is read in the one way adds the same if it is read in a way that agrees. -/
theorem ofPair_mono {number number' : Text → Option UInt16}
    (h : ∀ l n, number l = some n → number' l = some n)
    {key value : Text} {item : Option OfAction} (hitem : ofPair getaddrinfo number key value = some item) :
    ofPair getaddrinfo number' key value = some item := by
  have hmap : ∀ {f : UInt16 → Option OfAction} {item}, (number value).map f = some item →
      (number' value).map f = some item := by
    intro f item hf
    obtain ⟨n, hn, rfl⟩ := Option.map_eq_some_iff.mp hf
    rw [h value n hn, Option.map_some]
  have hbind : ∀ {f : UInt16 → Option (Option OfAction)} {item}, (number value).bind f = some item →
      (number' value).bind f = some item := by
    intro f item hf
    obtain ⟨n, hn, hf⟩ := Option.bind_eq_some_iff.mp hf
    rw [h value n hn, Option.bind_some, hf]
  revert hitem
  rw [ofPair, ofPair]
  -- the keys in their order: an address does not depend on how numbers are read
  refine ite_mono (ite_mono id hmap) ?_
  refine ite_mono hmap (ite_mono hbind (ite_mono hbind ?_))
  refine ite_mono id (ite_mono id (ite_mono id (ite_mono id ?_)))
  exact ite_mono hbind (ite_mono hmap (ite_mono hmap id))

theorem scans_of_describes {l : List KeyValue} {item : Option OfAction}
    (h : describes getaddrinfo l = some item) : scans getaddrinfo l = some item := by
  cases l with
  | nil => cases h
  | cons p rest =>
      obtain ⟨key, value⟩ := p
      rw [describes, frontItem] at h
      rw [scans, frontItem]
      split
      · rename_i hkey
        rw [if_pos hkey] at h
        cases rest with
        | nil => cases h
        | cons q rest =>
            obtain ⟨key', value'⟩ := q
            rw [enqueueItem] at h ⊢
            split
            · rename_i hkey'
              rw [if_pos hkey'] at h
              obtain ⟨port, hport, h⟩ := Option.bind_eq_some_iff.mp h
              obtain ⟨queue, hqueue, rfl⟩ := Option.map_eq_some_iff.mp h
              rw [stringToUint16_of_literal hport, stringToUint32_of_literal32 hqueue]
              rfl
            · rename_i hkey'
              rw [if_neg hkey'] at h
              cases h
      · rename_i hkey
        rw [if_neg hkey] at h
        exact ofPair_mono (fun l n => stringToUint16_of_literal) h

/-! ## What is added and what is described -/

theorem not_skips_queueId {p : KeyValue} (h : p.1 = queueId) : ¬ Skips p := by
  intro hskips
  have hne : queueId ≠ enqueuePort := by decide
  exact hne (h ▸ hskips.1)

theorem behind_of_not_skips {p : KeyValue} (h : ¬ Skips p) (rest : List KeyValue) : behind p rest = rest :=
  if_neg h

theorem behind_of_skips {p : KeyValue} (h : Skips p) (q : KeyValue) (rest : List KeyValue) :
    behind p (q :: rest) = rest := if_pos h

/-- A `queue_id` that is no part of an item adds nothing. -/
theorem added_queueId {q : KeyValue} (h : q.1 = queueId) (rest : List KeyValue) :
    added getaddrinfo (q :: rest) = added getaddrinfo rest := by
  rw [added_cons, scans, frontItem_queueId h, behind_of_not_skips (not_skips_queueId h)]
  rfl

theorem described_cons (p : KeyValue) (rest : List KeyValue) : described getaddrinfo (p :: rest) =
    labelled (p :: rest) (describes getaddrinfo (p :: rest)) ++ described getaddrinfo rest := by
  cases rest with
  | nil =>
      rw [described, itemsAt, filterMap_cons_toList]
      rfl
  | cons q rest =>
      rw [described, itemsAt, filterMap_cons_toList]
      split
      · rename_i h
        -- the `queue_id` behind would describe nothing on its own
        have hskip : described getaddrinfo (q :: rest) = described getaddrinfo rest := by
          have hqueue : ¬ (q.1 = enqueuePort) := by
            rw [h.2]
            decide
          cases rest with
          | nil =>
              rw [described, itemsAt, filterMap_cons_toList, describes, frontItem_queueId h.2]
              rfl
          | cons r rest =>
              rw [described, itemsAt, filterMap_cons_toList, describes, frontItem_queueId h.2,
                if_neg (fun hr => hqueue hr.1)]
              rfl
        rw [hskip]
        rfl
      · rfl

theorem mem_labelled {l : List KeyValue} {item : Option (Option OfAction)} {x : List KeyValue × OfAction}
    (h : x ∈ labelled l item) : x.1 = l := by
  rw [labelled, Option.mem_toList] at h
  obtain ⟨action, -, rfl⟩ := Option.map_eq_some_iff.mp h
  rfl

/-- What is added further on is labelled with a shorter rest. -/
theorem length_lt_of_mem_added {kv : List KeyValue} :
    ∀ x ∈ added getaddrinfo kv, x.1.length < kv.length + 1 := by
  induction kv using turns_induction with
  | nil => exact fun x hx => by cases hx
  | cons p rest ih _ =>
      intro x hx
      rw [added_cons, List.mem_append] at hx
      rcases hx with hx | hx
      · rw [mem_labelled hx]
        exact Nat.lt_succ_self _
      · have hlt := ih x hx
        have hle := length_behind_le p rest
        rw [List.length_cons]
        omega

theorem length_lt_of_mem_described {kv : List KeyValue} :
    ∀ x ∈ described getaddrinfo kv, x.1.length < kv.length + 1 := by
  induction kv with
  | nil => exact fun x hx => by cases hx
  | cons p rest ih =>
      intro x hx
      rw [described_cons, List.mem_append] at hx
      rcases hx with hx | hx
      · rw [mem_labelled hx]
        exact Nat.lt_succ_self _
      · exact Nat.lt_succ_of_lt (ih x hx)

/-- What is at the front is told from what is further on. -/
theorem labelled_append_eq_iff {l : List KeyValue} {item item' : Option (Option OfAction)}
    {tail tail' : List (List KeyValue × OfAction)} (h : ∀ x ∈ tail, x.1.length < l.length)
    (h' : ∀ x ∈ tail', x.1.length < l.length) :
    labelled l item ++ tail = labelled l item' ++ tail' ↔
      labelled l item = labelled l item' ∧ tail = tail' := by
  have hfront : ∀ item, (labelled l item).filter (fun x => x.1.length = l.length) = labelled l item := by
    intro item
    rw [List.filter_eq_self]
    intro x hx
    rw [mem_labelled hx, decide_eq_true rfl]
  have htail : ∀ tail : List (List KeyValue × OfAction), (∀ x ∈ tail, x.1.length < l.length) →
      tail.filter (fun x => x.1.length = l.length) = [] := by
    intro tail htail
    rw [List.filter_eq_nil_iff]
    intro x hx heq
    exact absurd (of_decide_eq_true heq) (Nat.ne_of_lt (htail x hx))
  refine ⟨fun heq => ?_, fun heq => by rw [heq.1, heq.2]⟩
  have hitem : labelled l item = labelled l item' := by
    have hfilter := congrArg (List.filter fun x => x.1.length = l.length) heq
    rwa [List.filter_append, List.filter_append, hfront, hfront, htail _ h, htail _ h', List.append_nil,
      List.append_nil] at hfilter
  rw [hitem] at heq
  exact ⟨hitem, List.append_cancel_left heq⟩

/-- An item from which a number is read, or two, that are no literals. -/
def Lax (getaddrinfo : Text → Option IpAddress) (l : List KeyValue) : Prop :=
  (scans getaddrinfo l).isSome ∧ describes getaddrinfo l = none

/-- An item whose first pair is passed over would have described an action. -/
def Loses (getaddrinfo : Text → Option IpAddress) : List KeyValue → Prop
  | p :: q :: rest => Skips p ∧ q.1 ≠ queueId ∧ (describes getaddrinfo (q :: rest)).join.isSome
  | _ => False

/-- No action is read from other numbers than literals, and none is lost. -/
def Right (getaddrinfo : Text → Option IpAddress) (l : List KeyValue) : Prop :=
  (Lax getaddrinfo l → scans getaddrinfo l = some none) ∧ ¬ Loses getaddrinfo l

theorem labelled_eq_nil {l : List KeyValue} {item : Option (Option OfAction)} :
    labelled l item = [] ↔ item.join = none := by
  rw [labelled, Option.toList_eq_nil_iff, Option.map_eq_none_iff]

theorem labelled_eq_iff (l : List KeyValue) :
    labelled l (scans getaddrinfo l) = labelled l (describes getaddrinfo l) ↔
      (Lax getaddrinfo l → scans getaddrinfo l = some none) := by
  cases hdescribes : describes getaddrinfo l with
  | some item =>
      rw [scans_of_describes hdescribes]
      refine iff_of_true rfl fun h => ?_
      rw [Lax, hdescribes] at h
      exact absurd h.2 (by simp)
  | none =>
      have hnil : labelled l none = [] := rfl
      rw [hnil, labelled_eq_nil, Lax, hdescribes]
      cases scans getaddrinfo l with
      | none => exact iff_of_true rfl (fun h => absurd h.1 Bool.false_ne_true)
      | some item =>
          rw [Option.join_some, Option.some_inj]
          exact ⟨fun h _ => h, fun h => h ⟨rfl, rfl⟩⟩

/-- Where the loop goes on: at the next pair, or behind it, which is a queue or is passed over. -/
theorem behind_cases (p : KeyValue) (rest : List KeyValue) :
    (behind p rest = rest ∧ (Skips p → rest = [])) ∨
      ∃ q, rest = q :: behind p rest ∧ Skips p ∧ (q.1 = queueId ∨ q.1 ≠ queueId) := by
  by_cases hskips : Skips p
  · cases rest with
    | nil => exact Or.inl ⟨if_pos hskips, fun _ => rfl⟩
    | cons q rest => exact Or.inr ⟨q, by rw [behind_of_skips hskips], hskips, em _⟩
  · exact Or.inl ⟨if_neg hskips, fun h => absurd h hskips⟩

theorem right_queueId {q : KeyValue} (h : q.1 = queueId) (rest : List KeyValue) :
    Right getaddrinfo (q :: rest) := by
  refine ⟨fun hlax => ?_, fun hloses => ?_⟩
  · rw [Lax, scans, frontItem_queueId h] at hlax
    exact absurd hlax.1 Bool.false_ne_true
  · cases rest with
    | nil => exact hloses
    | cons r rest => exact not_skips_queueId h hloses.1

/-- A turn that passes over no pair is right if what it adds is described. -/
theorem right_iff {p : KeyValue} {rest : List KeyValue} (h : ¬ Loses getaddrinfo (p :: rest)) :
    Right getaddrinfo (p :: rest) ↔ labelled (p :: rest) (scans getaddrinfo (p :: rest)) =
      labelled (p :: rest) (describes getaddrinfo (p :: rest)) := by
  rw [labelled_eq_iff, Right, and_iff_left h]

/-- **The actions that are added are those that are described** if each turn is right. -/
theorem added_eq_described_iff (kv : List KeyValue) : added getaddrinfo kv = described getaddrinfo kv ↔
    ∀ l ∈ turnsAt kv, Right getaddrinfo l := by
  induction kv using turns_induction with
  | nil => exact iff_of_true rfl fun l hl => by cases hl
  | cons p rest ihBehind ih =>
      rcases behind_cases p rest with ⟨hbehind, hlast⟩ | ⟨q, hrest, hskips, hqueue | hqueue⟩
      · have hloses : ¬ Loses getaddrinfo (p :: rest) := by
          intro hloses
          cases rest with
          | nil => exact hloses
          | cons q rest => exact absurd (hlast hloses.1) (List.cons_ne_nil q rest)
        rw [added_cons, described_cons, hbehind, turnsAt_cons, hbehind, List.forall_mem_cons, ← ih,
          right_iff hloses]
        exact labelled_append_eq_iff length_lt_of_mem_added length_lt_of_mem_described
      · -- the pair behind is the queue of this one
        have hloses : ¬ Loses getaddrinfo (p :: rest) := by
          rw [hrest]
          exact fun hloses => hloses.2.1 hqueue
        have hadded : added getaddrinfo (behind p rest) = added getaddrinfo rest := by
          rw [hrest, added_queueId hqueue, behind_of_skips hskips]
        have hturns : (∀ l ∈ turnsAt (behind p rest), Right getaddrinfo l) ↔
            ∀ l ∈ turnsAt rest, Right getaddrinfo l := by
          rw [hrest, turnsAt_cons q, behind_of_not_skips (not_skips_queueId hqueue),
            behind_of_skips hskips, List.forall_mem_cons, and_iff_right (right_queueId hqueue _)]
        rw [added_cons, described_cons, hadded, turnsAt_cons, List.forall_mem_cons, hturns, ← ih,
          right_iff hloses]
        exact labelled_append_eq_iff length_lt_of_mem_added length_lt_of_mem_described
      · -- the pair behind is passed over
        obtain ⟨rest', rfl⟩ : ∃ rest', rest = q :: rest' := ⟨_, hrest⟩
        rw [behind_of_skips hskips] at ihBehind
        have hscans : scans getaddrinfo (p :: q :: rest') = none := frontItem_incomplete hskips.1 hqueue rest'
        have hdescribes : describes getaddrinfo (p :: q :: rest') = none :=
          frontItem_incomplete hskips.1 hqueue rest'
        have hright : Right getaddrinfo (p :: q :: rest') ↔
            labelled (q :: rest') none = labelled (q :: rest') (describes getaddrinfo (q :: rest')) := by
          have hnil : labelled (q :: rest') none = [] := rfl
          rw [hnil, eq_comm, labelled_eq_nil]
          refine ⟨fun h => ?_, fun h => ⟨fun hlax => ?_, fun hloses => ?_⟩⟩
          · exact Option.not_isSome_iff_eq_none.mp fun hsome => h.2 ⟨hskips, hqueue, hsome⟩
          · rw [Lax, hscans] at hlax
            exact absurd hlax.1 Bool.false_ne_true
          · exact Option.not_isSome_iff_eq_none.mpr h hloses.2.2
        have hadded : added getaddrinfo (p :: q :: rest') =
            labelled (q :: rest') none ++ added getaddrinfo rest' := by
          rw [added_cons, hscans, behind_of_skips hskips]
          rfl
        have hdescribed : described getaddrinfo (p :: q :: rest') =
            labelled (q :: rest') (describes getaddrinfo (q :: rest')) ++ described getaddrinfo rest' := by
          rw [described_cons, described_cons, hdescribes]
          rfl
        rw [hadded, hdescribed, turnsAt_cons, behind_of_skips hskips, List.forall_mem_cons, ← ihBehind,
          hright]
        exact labelled_append_eq_iff (l := q :: rest') length_lt_of_mem_added length_lt_of_mem_described

/-! ## The result -/

theorem skips_iff_of_scans {p q : KeyValue} {rest : List KeyValue}
    (h : (scans getaddrinfo (p :: q :: rest)).isSome) :
    p.1 = enqueuePort ∧ q.1 = queueId ↔ Skips p := by
  by_cases hkey : p.1 = enqueuePort
  · rw [scans, frontItem, if_pos hkey, enqueueItem] at h
    split at h
    · rename_i hqueue
      refine iff_of_true ⟨hkey, hqueue⟩ ⟨hkey, ?_⟩
      cases hport : stringToUint16 p.2 with
      | none =>
          rw [hport] at h
          exact absurd h Bool.false_ne_true
      | some port => rfl
    · exact absurd h Bool.false_ne_true
  · exact iff_of_false (fun h => hkey h.1) fun h => hkey h.1

/-- Where all is well, the loop takes its turns at the items. -/
theorem itemsAt_eq_turnsAt {kv : List KeyValue} (h : (∀ l ∈ turnsAt kv, (scans getaddrinfo l).isSome) ∨
    ∀ l ∈ itemsAt kv, (scans getaddrinfo l).isSome) : itemsAt kv = turnsAt kv := by
  induction kv using itemsAt.induct with
  | case1 => rfl
  | case2 p => rfl
  | case3 p q rest ih ih' =>
      have hfront : (scans getaddrinfo (p :: q :: rest)).isSome := by
        rcases h with h | h
        · exact h _ List.mem_cons_self
        · exact h _ List.mem_cons_self
      have hskips := skips_iff_of_scans hfront
      rw [itemsAt, turnsAt] at h ⊢
      simp only [hskips, List.forall_mem_cons] at h ⊢
      split
      · rename_i hp
        rw [if_pos hp, if_pos hp] at h
        rw [ih (h.imp And.right And.right)]
      · rename_i hp
        rw [if_neg hp, if_neg hp] at h
        rw [ih' (h.imp And.right And.right)]

theorem fromString_eq (input : Text) : fromString getaddrinfo input =
    ((turnsAt (generateKeyValuePair input)).all fun l => (scans getaddrinfo l).isSome,
      ⟨(added getaddrinfo (generateKeyValuePair input)).map Prod.snd⟩) := by
  rw [fromString, fromPairs_eq]
  rfl

/--
The claim on a text: its pairs are the sequence, the actions are those that the well-formed items
describe, each is there for its own item, and the result says whether all are well-formed.
-/
structure ParsesActions (getaddrinfo : Text → Option IpAddress) (input : Text) : Prop where
  pairs : ∀ kv, Spells input kv → (∀ p ∈ kv, p.2 ≠ wildcard) → generateKeyValuePair input = kv
  actions : (fromString getaddrinfo input).2.actions =
    (described getaddrinfo (generateKeyValuePair input)).map Prod.snd
  origins : added getaddrinfo (generateKeyValuePair input) =
    described getaddrinfo (generateKeyValuePair input)
  result : (fromString getaddrinfo input).1 = true ↔
    ∀ l ∈ itemsAt (generateKeyValuePair input), (describes getaddrinfo l).isSome

/-- The condition on the pairs. -/
structure ReadStrictly (getaddrinfo : Text → Option IpAddress) (kv : List KeyValue) : Prop where
  /-- The numbers that are read are literals, except where a `strip_vlan` adds nothing anyway. -/
  literals : ∀ l ∈ turnsAt kv, Lax getaddrinfo l → scans getaddrinfo l = some none
  /-- No pair that is passed over begins an item that describes an action. -/
  kept : ∀ l ∈ turnsAt kv, ¬ Loses getaddrinfo l
  /-- Where a number is no literal, another pair cannot be parsed. -/
  noticed : (∃ l ∈ turnsAt kv, Lax getaddrinfo l) → ∃ l ∈ turnsAt kv, scans getaddrinfo l = none

/-- **The result is right** if what should be turned down is, or something else is. -/
theorem result_iff (kv : List KeyValue) : (((turnsAt kv).all fun l => (scans getaddrinfo l).isSome) = true ↔
    ∀ l ∈ itemsAt kv, (describes getaddrinfo l).isSome) ↔
    ((∃ l ∈ turnsAt kv, Lax getaddrinfo l) → ∃ l ∈ turnsAt kv, scans getaddrinfo l = none) := by
  rw [List.all_eq_true]
  refine ⟨fun h hlax => ?_, fun h => ⟨fun hscans l hl => ?_, fun hdescribes l hl => ?_⟩⟩
  · obtain ⟨l, hl, -, hnone⟩ := hlax
    by_contra hall
    have hscans : ∀ l ∈ turnsAt kv, (scans getaddrinfo l).isSome := by
      intro l hl
      rw [Option.isSome_iff_ne_none]
      exact fun hnone => hall ⟨l, hl, hnone⟩
    rw [← itemsAt_eq_turnsAt (Or.inl hscans)] at hl
    have hsome := h.mp hscans l hl
    rw [hnone] at hsome
    exact Bool.false_ne_true hsome
  · rw [itemsAt_eq_turnsAt (Or.inl hscans)] at hl
    by_contra hnone
    rw [Option.not_isSome_iff_eq_none] at hnone
    obtain ⟨l', hl', hnone'⟩ := h ⟨l, hl, hscans l hl, hnone⟩
    have hsome := hscans l' hl'
    rw [hnone'] at hsome
    exact Bool.false_ne_true hsome
  · have hscans : ∀ l ∈ itemsAt kv, (scans getaddrinfo l).isSome := by
      intro l hl
      obtain ⟨item, hitem⟩ := Option.isSome_iff_exists.mp (hdescribes l hl)
      rw [scans_of_describes hitem]
      rfl
    rw [← itemsAt_eq_turnsAt (Or.inr hscans)] at hl
    exact hscans l hl

/-- **An action list is read from its text** if its numbers are literals and nothing is passed over. -/
theorem parsesActions_iff (getaddrinfo : Text → Option IpAddress) (input : Text) :
    ParsesActions getaddrinfo input ↔ ReadStrictly getaddrinfo (generateKeyValuePair input) := by
  have horigins := @added_eq_described_iff getaddrinfo (generateKeyValuePair input)
  have hresult := @result_iff getaddrinfo (generateKeyValuePair input)
  refine ⟨fun h => ⟨?_, ?_, ?_⟩, fun h => ⟨?_, ?_, ?_, ?_⟩⟩
  · exact fun l hl => (horigins.mp h.origins l hl).1
  · exact fun l hl => (horigins.mp h.origins l hl).2
  · have hclaim := h.result
    rw [fromString_eq] at hclaim
    exact hresult.mp hclaim
  · intro kv hspells hwords
    rw [generateKeyValuePair_of_spells hspells, seen_eq_self hwords]
  · rw [fromString_eq, horigins.mpr fun l hl => ⟨h.literals l hl, h.kept l hl⟩]
  · exact horigins.mpr fun l hl => ⟨h.literals l hl, h.kept l hl⟩
  · rw [fromString_eq]
    exact hresult.mpr h.noticed

/-- The port of an `out_port` is lost behind an `enqueue_port` without a queue. -/
theorem enqueue_passes_over :
    ¬ ParsesActions (fun _ => none) "enqueue_port=5 out_port=3".toList := by
  intro h
  have hactions := h.actions
  have hcode : (fromString (fun _ => none) "enqueue_port=5 out_port=3".toList).2.actions = [] := by
    decide +kernel
  have hspec : (described (fun _ => none)
      (generateKeyValuePair "enqueue_port=5 out_port=3".toList)).map Prod.snd =
      [.outputToPort false 3] := by decide +kernel
  rw [hcode, hspec] at hactions
  cases hactions

end ActionParser

end IronStack.Proof

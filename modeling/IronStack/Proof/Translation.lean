import IronStack.Lib.Merges
import IronStack.Flow.Parser
import IronStack.Proof.Subsumption

/-!
# What the translation to L2 loses

The entry made for a flow is matched on the destination address and on nothing
else. So it stands for the flow only if the other eleven fields of the flow are
wildcarded. The check names ten of them: the input port is not looked at, and a
flow of one port becomes an entry for all ports.
-/

namespace IronStack.Proof

open IronStack Lib FlowParser

/-! ## One flow -/

/-- The two flows do the same to the same packets, under the same name. -/
structure SameRule (d d' : FlowDescription) : Prop where
  packets : ∀ p, Matches d.criteria p ↔ Matches d'.criteria p
  actionList : d.actionList = d'.actionList
  cookie : d.cookie = d'.cookie
  priority : d.priority = d'.priority

/-- With all bits ignored every address will do. -/
theorem ipAccepts_of_all {count : UInt8} (h : count = 32) (field address : IpAddress) :
    IpAccepts count field address := by
  subst h
  have hzero (a : IpAddress) : addressValue a / 2 ^ 32 = 0 := Nat.div_eq_of_lt (addressValue_lt a)
  exact (hzero field).trans (hzero address).symm

/-- The translated flow goes by the destination address alone. -/
theorem matches_l2Flow_iff (d : FlowDescription) (p : PacketHeader) :
    Matches (l2Flow d).criteria p ↔ d.criteria.ethernetDest = p.ethernetDest := by
  refine ⟨?_, ?_⟩
  · intro h
    exact h.besides.ethernetDest.resolve_left Bool.false_ne_true
  · intro h
    exact ⟨⟨.inl rfl, .inl rfl, .inr h, .inl rfl, .inl rfl, .inl rfl, .inl rfl, .inl rfl, .inl rfl,
      .inl rfl⟩, ipAccepts_of_all rfl _ _, ipAccepts_of_all rfl _ _⟩

/-- What the two checks say of the match. -/
theorem criteria_of_translates {d : FlowDescription} (h : translates d = true) :
    candidateCriteria d.criteria = true ∧ d.criteria.wildcardEthernetDest = false := by
  simp only [translates, outputsByDest, Bool.and_eq_true, Bool.not_eq_true'] at h
  exact ⟨h.1, h.2.1⟩

/-- A flow that is translated goes by the destination address and, if it names one, the input
port. -/
theorem matches_iff_of_translates {d : FlowDescription} (h : translates d = true) (p : PacketHeader) :
    Matches d.criteria p ↔
      Accepts d.criteria.wildcardInPort d.criteria.inPort p.inPort ∧
        d.criteria.ethernetDest = p.ethernetDest := by
  obtain ⟨hcandidate, hdest⟩ := criteria_of_translates h
  simp only [candidateCriteria, Bool.and_eq_true, beq_iff_eq] at hcandidate
  obtain ⟨⟨⟨⟨⟨⟨⟨⟨⟨hsrc, hvlan⟩, hpcp⟩, htype⟩, htos⟩, hproto⟩, hipsrc⟩, hipdest⟩, htpsrc⟩, htpdest⟩ :=
    hcandidate
  refine ⟨?_, ?_⟩
  · intro hp
    exact ⟨hp.besides.inPort, hp.besides.ethernetDest.resolve_left (by simp [hdest])⟩
  · intro ⟨hport, haddr⟩
    exact ⟨⟨hport, .inl hsrc, .inr haddr, .inl hvlan, .inl hpcp, .inl htype, .inl htos, .inl hproto,
      .inl htpsrc, .inl htpdest⟩, ipAccepts_of_all hipsrc _ _, ipAccepts_of_all hipdest _ _⟩

/-- The translated flow stands for its original if and only if that takes packets from every
port. -/
theorem sameRule_l2Flow_iff {d : FlowDescription} (h : translates d = true) :
    SameRule d (l2Flow d) ↔ d.criteria.wildcardInPort = true := by
  refine ⟨?_, ?_⟩
  · intro hsame
    -- a packet from another port
    obtain ⟨port, hport⟩ := exists_ne d.criteria.inPort
    have hmatch := (hsame.packets { ownHeader d.criteria with inPort := port }).mpr
      ((matches_l2Flow_iff d _).mpr rfl)
    exact hmatch.besides.inPort.resolve_right hport.symm
  · intro hwild
    refine ⟨?_, rfl, rfl, rfl⟩
    intro p
    rw [matches_iff_of_translates h, matches_l2Flow_iff]
    exact ⟨fun hp => hp.2, fun hp => ⟨.inl hwild, hp⟩⟩

/-! ## All of them -/

/--
A lossless translation of `flows`: each translated flow is the same rule as the
flow it comes from, and these, with the untranslated ones, are the flows that were
loaded, each once and in order.
-/
def Lossless (flows : List FlowDescription) (out : Translation) : Prop :=
  ∃ originals, List.Forall₂ SameRule originals out.translatedFlows ∧
    Merges originals out.untranslatedFlows flows

/-- Nothing is dropped, doubled or moved, whatever becomes of the translated ones. -/
theorem translateToL2_merges (parser : FlowParser) :
    Merges (parser.flows.filter translates) parser.translateToL2.1.untranslatedFlows
      parser.flows := by
  rw [translateToL2_eq]
  exact merges_filter _ _

/-- A translation that loses nothing pairs each flow it translates with its own entry. -/
theorem sameRule_of_lossless {parser : FlowParser}
    (h : Lossless parser.flows parser.translateToL2.1) {d : FlowDescription} (hd : d ∈ parser.flows)
    (htranslates : translates d = true) : SameRule d (l2Flow d) := by
  obtain ⟨originals, hsame, hmerges⟩ := h
  rw [translateToL2_eq] at hmerges hsame
  rw [hmerges.left_eq_filter, List.forall₂_map_right_iff, List.forall₂_same] at hsame
  exact hsame d (List.mem_filter.mpr ⟨hd, htranslates⟩)

/-- The translation is lossless if and only if every flow it translates takes packets from every
port. -/
theorem translateToL2_lossless_iff (parser : FlowParser) :
    Lossless parser.flows parser.translateToL2.1 ↔
      ∀ d ∈ parser.flows, translates d = true → d.criteria.wildcardInPort = true := by
  refine ⟨?_, ?_⟩
  · intro h d hd htranslates
    exact (sameRule_l2Flow_iff htranslates).mp (sameRule_of_lossless h hd htranslates)
  · intro h
    refine ⟨_, ?_, translateToL2_merges parser⟩
    rw [translateToL2_eq, List.forall₂_map_right_iff, List.forall₂_same]
    intro d hd
    obtain ⟨hmem, htranslates⟩ := List.mem_filter.mp hd
    exact (sameRule_l2Flow_iff htranslates).mpr (h d hmem htranslates)

/-- A flow of port 7 to a destination address, output to port 1. -/
def portSevenFlow : FlowDescription where
  criteria := { OfMatch.clear.wildcardAll with
    wildcardInPort := false, inPort := 7, wildcardEthernetDest := false }
  actionList := ⟨[.outputToPort false 1]⟩
  cookie := 1
  priority := 100

/-- It comes out as a flow of every port. -/
theorem portSeven_widened :
    ¬ Lossless [portSevenFlow] (FlowParser.mk [portSevenFlow]).translateToL2.1 := by
  intro h
  have hsame : SameRule portSevenFlow (l2Flow portSevenFlow) :=
    @sameRule_of_lossless ⟨[portSevenFlow]⟩ h _ List.mem_cons_self rfl
  have hwild := (sameRule_l2Flow_iff rfl).mp hsame
  exact Bool.noConfusion (hwild : (false : Bool) = true)

end IronStack.Proof

import IronStack.Proof.Ports

/-!
# The table of ports

What is on file for a port is about that port, and its VLANs hang together. Operations
that are given the number of a reserved port refuse to make an entry for it, and then
make one by looking it up. Every other operation keeps the table as it should be.
-/

namespace IronStack.Proof

open IronStack Lib SwitchState SwitchWorld

/-- What should be on file under a number. -/
structure PortFiled (n : UInt16) (p : OpenflowVlanPort) : Prop where
  physical : n < firstReservedPort
  keyed : p.port.portNumber = n
  flood : ∀ vlan ∈ p.vlanFloodPortMembership, vlan ∈ p.vlanMembership
  stp : ∀ vlan ∈ p.vlanStpMembership, vlan ∈ p.vlanMembership
  untagged : p.tagged = false → p.vlanMembership.size ≤ 1

/-- Everything on file is as it should be. -/
def PortTableInv (ports : PortMap) : Prop := ∀ n p, ports[n]? = some p → PortFiled n p

theorem portTableInv_empty : PortTableInv ∅ := by
  intro n p h
  simp at h

/-! ## One entry -/

/-- A port that is not known yet, on no VLAN. -/
theorem portFiled_fresh {n : UInt16} {valid : Bool} {port : OpenflowPort} (hn : n < firstReservedPort)
    (hport : port.portNumber = n) : PortFiled n { valid := valid, port := port } := by
  refine ⟨hn, hport, ?_, ?_, ?_⟩
  · intro vlan h
    simp at h
  · intro vlan h
    simp at h
  · intro _
    simp

theorem PortFiled.setValid {n : UInt16} {p : OpenflowVlanPort} (h : PortFiled n p) (state : Bool) :
    PortFiled n (p.setValid state) := ⟨h.physical, h.keyed, h.flood, h.stp, h.untagged⟩

theorem PortFiled.setOpenflowPort {n : UInt16} {p : OpenflowVlanPort} (h : PortFiled n p)
    {port : OpenflowPort} (hport : port.portNumber = n) : PortFiled n (p.setOpenflowPort port) :=
  ⟨h.physical, hport, h.flood, h.stp, h.untagged⟩

/-- The check of an untagged port passes only if it is on one VLAN at most. -/
theorem checkTagging_some {p p' : OpenflowVlanPort} (h : p.checkTagging = some p') :
    p' = p ∧ (p.tagged = false → p.vlanMembership.size ≤ 1) := by
  unfold OpenflowVlanPort.checkTagging at h
  split at h
  · cases h
  · rename_i hpass
    refine ⟨(Option.some.inj h).symm, fun huntagged => ?_⟩
    simpa [huntagged] using hpass

/-- A change that the abort of an untagged port lets through keeps an entry as it should be. -/
def KeepsFiled (f : OpenflowVlanPort → Option OpenflowVlanPort) : Prop :=
  ∀ n p p', PortFiled n p → f p = some p' → PortFiled n p'

theorem keeps_setVlanTagging (state : Bool) : KeepsFiled (·.setVlanTagging state) := by
  intro n p p' h hf
  obtain ⟨rfl, huntagged⟩ := checkTagging_some hf
  exact ⟨h.physical, h.keyed, h.flood, h.stp, huntagged⟩

theorem keeps_addToVlanMembership (vlanId : UInt16) : KeepsFiled (·.addToVlanMembership vlanId) := by
  intro n p p' h hf
  obtain ⟨rfl, huntagged⟩ := checkTagging_some hf
  refine ⟨h.physical, h.keyed, ?_, ?_, huntagged⟩
  · exact fun vlan hvlan => Std.ExtTreeSet.mem_insert.mpr (.inr (h.flood vlan hvlan))
  · exact fun vlan hvlan => Std.ExtTreeSet.mem_insert.mpr (.inr (h.stp vlan hvlan))

theorem keeps_addAsFloodPortForVlan (vlanId : UInt16) : KeepsFiled (·.addAsFloodPortForVlan vlanId) := by
  intro n p p' h hf
  obtain ⟨rfl, huntagged⟩ := checkTagging_some hf
  refine ⟨h.physical, h.keyed, ?_, ?_, huntagged⟩
  · intro vlan hvlan
    rcases Std.ExtTreeSet.mem_insert.mp hvlan with hnew | hold
    · exact Std.ExtTreeSet.mem_insert.mpr (.inl hnew)
    · exact Std.ExtTreeSet.mem_insert.mpr (.inr (h.flood vlan hold))
  · exact fun vlan hvlan => Std.ExtTreeSet.mem_insert.mpr (.inr (h.stp vlan hvlan))

/-! ## The operations on the map -/

section Map

variable {ports ports' : PortMap}

theorem portTableInv_insert (h : PortTableInv ports) {n : UInt16} {p : OpenflowVlanPort}
    (hp : PortFiled n p) :
    PortTableInv (ports.insert n p) := by
  intro m q hq
  rw [getElem?_insert] at hq
  split at hq
  · rename_i heq
    rw [← Option.some.inj hq, ← heq]
    exact hp
  · exact h m q hq

/-- A number that is no physical port's has no business in the map. -/
theorem not_portTableInv_insert {n : UInt16} {p : OpenflowVlanPort} (hn : ¬ n < firstReservedPort) :
    ¬ PortTableInv (ports.insert n p) := by
  intro h
  exact hn (h n p (by rw [getElem?_insert, if_pos rfl])).physical

theorem portTableInv_maybeCreatePort (h : PortTableInv ports) (n : UInt16) :
    PortTableInv (maybeCreatePort ports n) := by
  unfold maybeCreatePort
  split
  · exact h
  · rename_i hn
    split
    · exact h
    · exact portTableInv_insert h (portFiled_fresh (UInt16.not_le.mp hn) rfl)

theorem portTableInv_createOrUpdatePort (h : PortTableInv ports) (port : OpenflowPort) :
    PortTableInv (createOrUpdatePort ports port) := by
  unfold createOrUpdatePort
  split
  · exact h
  · rename_i hn
    split
    · exact portTableInv_insert h (portFiled_fresh (UInt16.not_le.mp hn) rfl)
    · rename_i p hp
      exact portTableInv_insert h (((h _ p hp).setOpenflowPort rfl).setValid true)

theorem portTableInv_removePort (h : PortTableInv ports) (n : UInt16) :
    PortTableInv (removePort ports n) := by
  unfold removePort
  split
  · exact h
  · split
    · exact h
    · rename_i p hp
      exact portTableInv_insert h ((h n p hp).setValid false)

/-- What is looked up after `maybe_create_openflow_vlan_port_unsafe`. -/
theorem portFiled_portAt (h : PortTableInv ports) {n : UInt16} (hn : n < firstReservedPort) :
    PortFiled n (portAt (maybeCreatePort ports n) n) := by
  obtain ⟨p, hp⟩ := exists_maybeCreatePort ports hn
  rw [portAt, hp]
  exact portTableInv_maybeCreatePort h n n p hp

/-- Looking a port up, or changing it, leaves its number in the map. -/
theorem contains_changePort {f : OpenflowVlanPort → Option OpenflowVlanPort} {n m : UInt16}
    (h : changePort f ports n = some ports') :
    (m = n → (ports'[m]?).isSome = true) ∧ ((ports[m]?).isSome = true → (ports'[m]?).isSome = true) := by
  obtain ⟨p, _, rfl⟩ := Option.map_eq_some_iff.mp h
  refine ⟨?_, ?_⟩
  · intro heq
    rw [getElem?_insert, if_pos heq.symm]
    rfl
  · intro hold
    rw [getElem?_insert]
    split
    · rfl
    · unfold maybeCreatePort
      split
      · exact hold
      · split
        · exact hold
        · rw [getElem?_insert]
          split
          · rfl
          · exact hold

/-- A loop over ports that all are physical keeps the table, and any other does not. -/
theorem portTableInv_changePorts_iff {f : OpenflowVlanPort → Option OpenflowVlanPort} (hf : KeepsFiled f)
    {l : List UInt16} (h : PortTableInv ports) (hs : l.foldlM (changePort f) ports = some ports') :
    PortTableInv ports' ↔ ∀ n ∈ l, n < firstReservedPort := by
  induction l generalizing ports with
  | nil =>
      obtain rfl := Option.some.inj hs
      exact ⟨fun _ => by simp, fun _ => h⟩
  | cons n l ih =>
      rw [List.foldlM_cons] at hs
      obtain ⟨ports₁, hone, hrest⟩ := Option.bind_eq_some_iff.mp hs
      by_cases hn : n < firstReservedPort
      · have h₁ : PortTableInv ports₁ := by
          obtain ⟨p, hp, rfl⟩ := Option.map_eq_some_iff.mp hone
          exact portTableInv_insert (portTableInv_maybeCreatePort h n) (hf n _ p (portFiled_portAt h hn) hp)
        rw [ih h₁ hrest, List.forall_mem_cons, and_iff_right hn]
      · -- the entry that was made stays to the end of the loop
        have hkept : ∀ (l : List UInt16) (m : PortMap), (m[n]?).isSome = true →
            l.foldlM (changePort f) m = some ports' → (ports'[n]?).isSome = true := by
          intro l
          induction l with
          | nil =>
              intro m hm hs
              obtain rfl := Option.some.inj hs
              exact hm
          | cons k l ih =>
              intro m hm hs
              rw [List.foldlM_cons] at hs
              obtain ⟨m₁, hone, hrest⟩ := Option.bind_eq_some_iff.mp hs
              exact ih m₁ ((contains_changePort hone).2 hm) hrest
        obtain ⟨p, hp⟩ := Option.isSome_iff_exists.mp
          (hkept l ports₁ ((contains_changePort hone).1 rfl) hrest)
        exact ⟨fun hinv => absurd (hinv n p hp).physical hn,
          fun hall => absurd (hall n List.mem_cons_self) hn⟩

end Map

/-! ## The operations on the service -/

/-- The ports that an operation is given are physical ones. -/
def GivenPhysical : SwitchStateInput → Prop
  | .setVlanPorts l _ | .setVlanPortTagging l _ | .setVlanFloodPorts l _ => ∀ n ∈ l, n < firstReservedPort
  | .getSwitchPort n => n < firstReservedPort
  | _ => True

theorem mem_toList_ofList {l : List UInt16} {n : UInt16} : n ∈ (Std.ExtTreeSet.ofList l).toList ↔ n ∈ l := by
  rw [Std.ExtTreeSet.mem_toList, Std.ExtTreeSet.mem_ofList]
  simp

theorem changePorts_ofList_iff {f : OpenflowVlanPort → Option OpenflowVlanPort} (hf : KeepsFiled f)
    {s s' : SwitchState}
    {l : List UInt16} (h : PortTableInv s.ports) (hs : s.changePorts f (.ofList l) = some s') :
    PortTableInv s'.ports ↔ ∀ n ∈ l, n < firstReservedPort := by
  obtain ⟨ports, hports, rfl⟩ := Option.map_eq_some_iff.mp hs
  rw [portTableInv_changePorts_iff hf h hports]
  exact forall_congr' fun n => by rw [mem_toList_ofList]

/-- **One operation keeps the table** exactly if the ports it is given are physical ones. -/
theorem portTableInv_stepState_iff {s s' : SwitchState} {i : SwitchStateInput} (h : PortTableInv s.ports)
    (hs : stepState s i = some s') : PortTableInv s'.ports ↔ GivenPhysical i := by
  have kept : ∀ {s' : SwitchState} {p : Prop}, s'.ports = s.ports → p → (PortTableInv s'.ports ↔ p) := by
    intro s' p heq hp
    rw [heq]
    exact ⟨fun _ => hp, fun _ => h⟩
  cases i with
  | setSwitchFeatures physicalPorts =>
      obtain rfl := Option.some.inj hs
      refine ⟨fun _ => trivial, fun _ => ?_⟩
      rw [setSwitchFeatures, checkInitState_ports]
      have hfold : ∀ (l : List OpenflowPort) (m : PortMap), PortTableInv m →
          PortTableInv (l.foldl createOrUpdatePort m) := by
        intro l
        induction l with
        | nil => exact fun _ h => h
        | cons p l ih => exact fun m hm => ih _ (portTableInv_createOrUpdatePort hm p)
      exact hfold _ _ h
  | setSwitchConfig =>
      obtain rfl := Option.some.inj hs
      exact kept (checkInitState_ports _) trivial
  | setSwitchDescription =>
      obtain rfl := Option.some.inj hs
      exact kept (checkInitState_ports _) trivial
  | setSwitchIp address =>
      simp only [stepState, setSwitchIp] at hs
      split at hs
      · cases hs
      · obtain rfl := Option.some.inj hs
        exact kept (checkInitState_ports _) trivial
  | setSwitchMacOverride enabled mac =>
      simp only [stepState, setSwitchMacOverride] at hs
      split at hs
      · cases hs
      · obtain rfl := Option.some.inj hs
        exact kept (checkInitState_ports _) trivial
  | setName name =>
      simp only [stepState, setName] at hs
      split at hs
      · obtain rfl := Option.some.inj hs
        exact kept (checkInitState_ports _) trivial
      · cases hs
  | setVlanPorts vlanPorts vlanId =>
      exact changePorts_ofList_iff (keeps_addToVlanMembership vlanId) h (changePorts_of_listed hs)
  | setVlanPortTagging destPorts state =>
      exact changePorts_ofList_iff (keeps_setVlanTagging state) h (changePorts_of_listed hs)
  | setVlanFloodPorts destPorts vlanId =>
      exact changePorts_ofList_iff (keeps_addAsFloodPortForVlan vlanId) h hs
  | getSwitchPort port =>
      obtain rfl := Option.some.inj hs
      by_cases hn : port < firstReservedPort
      · have hafter := portTableInv_insert (portTableInv_maybeCreatePort h port) (portFiled_portAt h hn)
        exact ⟨fun _ => hn, fun _ => hafter⟩
      · exact ⟨fun hinv => absurd hinv (not_portTableInv_insert hn), fun hphysical => absurd hphysical hn⟩

theorem portTableInv_updateSwitchPort {s : SwitchState} (h : PortTableInv s.ports) (status : PortStatus) :
    PortTableInv (s.updateSwitchPort status).2.ports := by
  have hmade := portTableInv_maybeCreatePort h status.description.portNumber
  unfold updateSwitchPort
  split
  · exact h
  · split
    · exact h
    · dsimp only
      split
      · exact portTableInv_createOrUpdatePort hmade _
      · exact portTableInv_removePort hmade _
      · exact portTableInv_createOrUpdatePort hmade _
      · exact hmade

/-! ## Any sequence of operations -/

/-- The callbacks for a port change the table no more. -/
theorem foldl_callBack_ports (port : OpenflowVlanPort) (l : List Nat) (w : SwitchWorld) :
    (l.foldl (fun w _ => w.callBack port) w).state.ports = w.state.ports := by
  induction l generalizing w with
  | nil => rfl
  | cons _ l ih => exact ih (w.callBack port)

/-- What is asked of a step of the three services. -/
def StepPhysical (_ : SwitchWorld) : SwitchInput → Prop
  | .state i => GivenPhysical i
  | _ => True

theorem portTableInv_step_iff {w w' : SwitchWorld} {i : SwitchInput} (h : PortTableInv w.state.ports)
    (hs : w.step i = some w') : PortTableInv w'.state.ports ↔ StepPhysical w i := by
  cases i with
  | flow i =>
      obtain ⟨flow, _, rfl⟩ := Option.map_eq_some_iff.mp hs
      refine ⟨fun _ => trivial, fun _ => ?_⟩
      dsimp only
      split
      · rw [registerPortCob_ports]
        exact h
      · exact h
  | cam i =>
      obtain rfl := Option.some.inj hs
      exact ⟨fun _ => trivial, fun _ => h⟩
  | state i =>
      obtain ⟨state, hstate, rfl⟩ := Option.map_eq_some_iff.mp hs
      exact portTableInv_stepState_iff h hstate
  | portStatus status =>
      obtain rfl := Option.some.inj hs
      refine ⟨fun _ => trivial, fun _ => ?_⟩
      have hupdated := portTableInv_updateSwitchPort h status
      unfold handlePortStatus
      dsimp only
      split
      · exact hupdated
      · rw [foldl_callBack_ports]
        exact hupdated

/--
**When the table of ports is as it should be** in every state that is reached, whatever
is asked in whatever order: if no port that is given is a reserved one.
-/
theorem portTable_run_iff {tables : List FlowTable} {ts : List (Transition SwitchWorld SwitchInput)}
    {w : SwitchWorld} (hr : Run SwitchWorld.step (boot tables) ts w) :
    (∀ t ∈ ts, PortTableInv t.target.state.ports) ↔ ∀ t ∈ ts, StepPhysical t.source t.input :=
  hr.forall_good_iff (fun _ => True) (fun w => PortTableInv w.state.ports) trivial portTableInv_empty
    (fun _ _ _ _ _ => trivial) (fun _ _ _ _ _ _ hgood => hgood)
      (fun _ _ _ _ h hs => portTableInv_step_iff h hs)

/-- Port 1 becomes a flood port of VLAN 10, and is looked up. -/
def floodPortInputs : List SwitchInput :=
  [.state (.setVlanFloodPorts [1] 10), .state (.getSwitchPort 1)]

theorem floodPort_kept : ∃ ts w, Run SwitchWorld.step (boot []) ts w ∧
    ((∀ t ∈ ts, PortTableInv t.target.state.ports) ↔ ∀ t ∈ ts, StepPhysical t.source t.input) := by
  have hr := Run.of_record (show record SwitchWorld.step (boot []) floodPortInputs = some (_, _) from rfl)
  exact ⟨_, _, hr, portTable_run_iff hr⟩

/-- A look at the controller's port puts it into the table. -/
theorem controllerPort_filed :
    ¬ ∀ (tables : List FlowTable) (ts : List (Transition SwitchWorld SwitchInput)) (w : SwitchWorld),
      Run SwitchWorld.step (boot tables) ts w → ∀ t ∈ ts, PortTableInv t.target.state.ports := by
  intro h
  have hr : Run SwitchWorld.step (boot []) [] (boot []) := .nil
  have hinv := h [] _ _ (hr.snoc (i := .state (.getSwitchPort 0xfffd)) rfl) _
    (List.mem_append_right _ List.mem_cons_self)
  have hiff := portTableInv_stepState_iff (s := {}) (i := .getSwitchPort 0xfffd) portTableInv_empty rfl
  have hphysical : (0xfffd : UInt16) < firstReservedPort := hiff.mp hinv
  exact absurd hphysical (by decide)

end IronStack.Proof

import IronStack.Proof.World
import IronStack.Switch.System

/-!
# Steps of the three services together

What the callback of the flow service does to the flow tables and the CAM, once and
called again, and what holds in every state the three services can reach: the flow
tables are as `TableInv` says, and a physical port is filed under its own number.
-/

namespace IronStack.Proof

open IronStack Lib FlowTable FlowService SwitchState SwitchWorld

/-! ## Removing flows by cookie -/

/-- Is the entry under the cookie of table `i` deleted, if there is one? -/
def deletedAt? (svc : FlowService) (i : Nat) (c : UInt64) : Option Bool :=
  (entryAt svc i c).map fun e => e.state == .deleted

/-- `remove_flow` of the cookie marks the entry of table `i`: the first that is not deleted. -/
def RemovedAt (svc : FlowService) (i : Nat) (c : UInt64) : Prop :=
  deletedAt? svc i c = some false ∧ ∀ j, j < i → deletedAt? svc j c ≠ some false

theorem deletedAt?_eq_some_false {svc : FlowService} {i : Nat} {c : UInt64} :
    deletedAt? svc i c = some false ↔ ∃ e, entryAt svc i c = some e ∧ e.state ≠ .deleted := by
  unfold deletedAt?
  cases entryAt svc i c <;> simp

theorem RemovedAt.congr {svc svc' : FlowService}
    (h : ∀ i c, deletedAt? svc' i c = deletedAt? svc i c) (i : Nat) (c : UInt64) :
    RemovedAt svc' i c ↔ RemovedAt svc i c := by
  simp only [RemovedAt, h]

theorem RemovedAt.unique {svc : FlowService} {i j : Nat} {c : UInt64} (hi : RemovedAt svc i c)
    (hj : RemovedAt svc j c) : i = j := by
  rcases Nat.lt_trichotomy i j with hlt | heq | hgt
  · exact absurd hi.1 (hj.2 i hlt)
  · exact heq
  · exact absurd hj.1 (hi.2 j hgt)

theorem condemned_idem (now : Nat) (e : FlowEntry) :
    condemned now (condemned now e) = condemned now e := by
  by_cases h : e.state = .deleted
  · rw [show condemned now e = e from if_pos h, show condemned now e = e from if_pos h]
  · rw [show condemned now e = e.setState now .pendingDeletion from if_neg h]
    rfl

/-- Marking for deletion deletes nothing, and revives nothing. -/
theorem condemned_deleted (now : Nat) (e : FlowEntry) :
    ((condemned now e).state == .deleted) = (e.state == .deleted) := by
  by_cases h : e.state = .deleted
  · rw [show condemned now e = e from if_pos h]
  · rw [show condemned now e = e.setState now .pendingDeletion from if_neg h]
    simp [h]

/--
`svc'` is `svc` with the flows under the cookies `C` removed: for each, the entry
`remove_flow` finds is marked, and a strict delete of it enqueued.
-/
structure Removed (now : Nat) (C : UInt64 → Prop) (svc svc' : FlowService) : Prop where
  initialized : svc'.initialized = svc.initialized
  marked : ∀ i c, C c → RemovedAt svc i c → entryAt svc' i c = (entryAt svc i c).map (condemned now)
  kept : ∀ i c, ¬ (C c ∧ RemovedAt svc i c) → entryAt svc' i c = entryAt svc i c
  sent : ∃ l, svc'.enqueued = svc.enqueued ++ l ∧ ∀ i c e, C c → RemovedAt svc i c →
    entryAt svc i c = some e → ∃ tr ∈ l, tr.request = .flowMod (deleteStrictRequest e.description)

namespace Removed

variable {now : Nat} {C D : UInt64 → Prop} {svc svc' svc'' : FlowService}

theorem refl (now : Nat) (svc : FlowService) (hC : ∀ c, ¬ C c) : Removed now C svc svc where
  initialized := rfl
  marked _ c hc := absurd hc (hC c)
  kept _ _ _ := rfl
  sent := ⟨[], (List.append_nil _).symm, fun _ c _ hc => absurd hc (hC c)⟩

/-- Which entries are deleted does not change. -/
theorem deletedAt? (h : Removed now C svc svc') (i : Nat) (c : UInt64) :
    Proof.deletedAt? svc' i c = Proof.deletedAt? svc i c := by
  unfold Proof.deletedAt?
  by_cases hc : C c ∧ RemovedAt svc i c
  · rw [h.marked i c hc.1 hc.2, Option.map_map]
    exact congrArg (fun f => (entryAt svc i c).map f) (funext (condemned_deleted now))
  · rw [h.kept i c hc]

theorem removedAt (h : Removed now C svc svc') (i : Nat) (c : UInt64) :
    RemovedAt svc' i c ↔ RemovedAt svc i c := RemovedAt.congr h.deletedAt? i c

/-- Removing once more, by other cookies. -/
theorem trans (h : Removed now C svc svc') (h' : Removed now D svc' svc'') :
    Removed now (fun c => C c ∨ D c) svc svc'' where
  initialized := h'.initialized.trans h.initialized
  marked i c hc hi := by
    have hi' := (h.removedAt i c).mpr hi
    by_cases hD : D c
    · rw [h'.marked i c hD hi']
      by_cases hC : C c
      · rw [h.marked i c hC hi, Option.map_map]
        exact congrArg (fun f => (entryAt svc i c).map f) (funext (condemned_idem now))
      · rw [h.kept i c fun hh => hC hh.1]
    · rw [h'.kept i c fun hh => hD hh.1, h.marked i c (hc.resolve_right hD) hi]
  kept i c hc := by
    have hC : ¬ (C c ∧ RemovedAt svc i c) := fun hh => hc ⟨Or.inl hh.1, hh.2⟩
    have hD : ¬ (D c ∧ RemovedAt svc' i c) := fun hh =>
      hc ⟨Or.inr hh.1, (h.removedAt i c).mp hh.2⟩
    rw [h'.kept i c hD, h.kept i c hC]
  sent := by
    obtain ⟨l, hl, hsent⟩ := h.sent
    obtain ⟨l', hl', hsent'⟩ := h'.sent
    refine ⟨l ++ l', by rw [hl', hl, List.append_assoc], fun i c e hc hi he => ?_⟩
    by_cases hC : C c
    · obtain ⟨tr, htr, hreq⟩ := hsent i c e hC hi he
      exact ⟨tr, List.mem_append_left _ htr, hreq⟩
    · have he' : entryAt svc' i c = some e := by rw [h.kept i c fun hh => hC hh.1, he]
      obtain ⟨tr, htr, hreq⟩ := hsent' i c e (hc.resolve_left hC) ((h.removedAt i c).mpr hi) he'
      exact ⟨tr, List.mem_append_right _ htr, hreq⟩

theorem of_iff (h : Removed now C svc svc') (hD : ∀ c, D c ↔ C c) : Removed now D svc svc' := by
  rw [show D = C from funext fun c => propext (hD c)]
  exact h

end Removed

theorem removeFlow_initialized (now : Nat) (svc : FlowService) (c : UInt64) :
    (svc.removeFlow now c).2.initialized = svc.initialized := by
  unfold removeFlow
  split
  · rfl
  · split <;> rfl

/-- `remove_flow`, with the service online. -/
theorem removeFlow_removed (now : Nat) {svc : FlowService} (hon : svc.initialized = true)
    (k : UInt64) : Removed now (· = k) svc (svc.removeFlow now k).2 := by
  rcases removeFlow_cases now svc k with ⟨heq, hdead⟩ | ⟨index, e, hrem⟩
  · -- all that is under the cookie is deleted
    have hnone : ∀ i c, c = k → ¬ RemovedAt svc i c := by
      intro i c hc hi
      obtain ⟨e, he, hne⟩ := deletedAt?_eq_some_false.mp hi.1
      exact hne (hdead hon i e (hc ▸ he))
    rw [heq]
    exact ⟨rfl, fun i c hc hi => absurd hi (hnone i c hc), fun _ _ _ => rfl,
      [], (List.append_nil _).symm, fun i c e hc hi => absurd hi (hnone i c hc)⟩
  · have hat : RemovedAt svc index k := by
      refine ⟨deletedAt?_eq_some_false.mpr ⟨e, hrem.found, hrem.notDeleted⟩, fun j hj hlive => ?_⟩
      obtain ⟨e₀, he₀, hne⟩ := deletedAt?_eq_some_false.mp hlive
      exact hne (hrem.first j hj e₀ he₀)
    refine ⟨removeFlow_initialized now svc k, fun i c hc hi => ?_, fun i c hno => ?_, ?_⟩
    · obtain rfl : c = k := hc
      obtain rfl : i = index := hi.unique hat
      rw [hrem.mapped, if_pos ⟨rfl, rfl⟩]
    · rw [hrem.mapped, if_neg]
      intro ⟨hi, hc⟩
      exact hno ⟨hc, hi ▸ hc ▸ hat⟩
    · refine ⟨_, hrem.sent, fun i c e' hc hi he => ?_⟩
      obtain rfl : c = k := hc
      obtain rfl : i = index := hi.unique hat
      have hsame : e' = e := Option.some.inj (he.symm.trans hrem.found)
      exact ⟨_, List.mem_singleton.mpr rfl, by rw [hsame]; rfl⟩

/-- Several calls of `remove_flow` in a row. -/
theorem foldl_removeFlow_removed (now : Nat) (cs : List UInt64) {svc : FlowService}
    (hon : svc.initialized = true) :
    Removed now (· ∈ cs) svc (cs.foldl (fun svc c => (svc.removeFlow now c).2) svc) := by
  induction cs generalizing svc with
  | nil => exact .refl now svc fun c hc => absurd hc (by simp)
  | cons k cs ih =>
      have hfirst := removeFlow_removed now hon k
      have hon' : (svc.removeFlow now k).2.initialized = true := hfirst.initialized.trans hon
      exact (hfirst.trans (ih hon')).of_iff fun c => List.mem_cons

/-! ## The callback -/

/-- The service is online, and some flow under the cookie outputs to the port. -/
def Affected (svc : FlowService) (port : UInt16) (c : UInt64) : Prop :=
  svc.initialized = true ∧ ∃ i e, entryAt svc i c = some e ∧ outputsToPort port e = true

theorem mem_getFlows {svc : FlowService} {e : FlowEntry} :
    e ∈ svc.getFlows ↔ svc.initialized = true ∧ ∃ i c, entryAt svc i c = some e := by
  unfold getFlows
  cases hon : svc.initialized with
  | false => simp
  | true =>
      have hall : ∀ t : FlowTable, e ∈ t.getAllFlows true ↔ ∃ c : UInt64, t.flows[c]? = some e := by
        intro t
        simp [getAllFlows, Prod.exists, Std.ExtTreeMap.mem_toList_iff_getElem?_eq_some]
      simp only [Bool.not_true, Bool.false_eq_true, if_false, List.mem_flatMap, hall, true_and,
        entryAt_eq_some]
      refine ⟨fun ⟨t, ht, c, he⟩ => ?_, fun ⟨i, c, t, ht, he⟩ => ?_⟩
      · obtain ⟨i, hi⟩ := List.mem_iff_getElem?.mp ht
        exact ⟨i, c, t, hi, he⟩
      · exact ⟨t, List.mem_of_getElem? ht, c, he⟩

/-- The callback for a port that reads down removes the affected flows. -/
theorem callback_removed {now : Nat} {port : OpenflowVlanPort} {cam : Cam} {svc : FlowService}
    (hinv : ServiceInv svc) (hdown : port.port.isUp = false) :
    Removed now (Affected svc port.port.portNumber) svc
      (switchPortModificationCallback now port cam svc).svc := by
  unfold switchPortModificationCallback
  simp only [hdown, Bool.false_eq_true, if_false, Bool.not_false, Bool.or_true, if_true]
  cases hon : svc.initialized with
  | false =>
      have hnone : svc.getFlows = [] := by
        unfold getFlows
        rw [hon]
        rfl
      rw [hnone]
      refine .refl now svc fun c hc => ?_
      rw [Affected, hon] at hc
      exact absurd hc.1 (by simp)
  | true =>
      have hfold := foldl_removeFlow_removed now ((svc.getFlows.filter
        (outputsToPort port.port.portNumber)).map (·.description.cookie)) hon
      rw [List.foldl_map] at hfold
      refine hfold.of_iff fun c => ?_
      simp only [Affected, hon, true_and, List.mem_map, List.mem_filter, mem_getFlows]
      refine ⟨fun ⟨i, e, he, hout⟩ => ?_, fun ⟨e, ⟨⟨i, k, he⟩, hout⟩, hc⟩ => ?_⟩
      · exact ⟨e, ⟨⟨i, c, he⟩, hout⟩, hinv.keyed he⟩
      · rw [hinv.keyed he] at hc
        exact ⟨i, e, hc ▸ he, hout⟩

theorem callback_cam {now : Nat} {port : OpenflowVlanPort} {cam : Cam} {svc : FlowService}
    (hdown : port.port.isUp = false) :
    (switchPortModificationCallback now port cam svc).cam = cam.removePort port.port.portNumber := by
  unfold switchPortModificationCallback
  simp [hdown]

/-- No CAM entry of any VLAN maps an address to the port. -/
def NoStations (cam : Cam) (port : UInt16) : Prop :=
  ∀ (vlan : UInt16) (t : CamTable) (addr : MacAddress) (e : CamEntry),
    cam.camTables[vlan]? = some t → t.camMappings[addr]? = some e → e.phyPort ≠ port

theorem noStations_removePort (cam : Cam) (port : UInt16) : NoStations (cam.removePort port) port := by
  intro vlan t addr e ht he
  rw [Cam.removePort] at ht
  dsimp only at ht
  rw [Std.ExtTreeMap.getElem?_map, Option.map_eq_some_iff] at ht
  obtain ⟨t₀, _, rfl⟩ := ht
  rw [CamTable.removePort] at he
  dsimp only at he
  rw [Std.ExtTreeMap.getElem?_filter', Option.filter_eq_some_iff] at he
  simpa using he.2

theorem Removed.serviceInv {now : Nat} {C : UInt64 → Prop} {svc svc' : FlowService}
    (h : Removed now C svc svc') (hinv : ServiceInv svc) : ServiceInv svc' := by
  refine serviceInv_of_origin hinv fun i c e he => Or.inl ?_
  by_cases hc : C c ∧ RemovedAt svc i c
  · rw [h.marked i c hc.1 hc.2] at he
    obtain ⟨e₀, he₀, rfl⟩ := Option.map_eq_some_iff.mp he
    exact ⟨e₀, he₀, by simp, by simp⟩
  · rw [h.kept i c hc] at he
    exact ⟨e, he, rfl, rfl⟩

theorem outputsToPort_standing {port : UInt16} {e : FlowEntry} (h : outputsToPort port e = true) :
    e.state.isStanding = true := by
  rw [outputsToPort, Bool.and_eq_true] at h
  exact h.1

/-- A flow that a removal left alive was alive before, and is the same. -/
theorem Removed.of_standing {now : Nat} {C : UInt64 → Prop} {svc svc' : FlowService}
    (h : Removed now C svc svc') {i : Nat} {c : UInt64} {e : FlowEntry}
    (he : entryAt svc' i c = some e) (hlive : e.state.isStanding = true) :
    entryAt svc i c = some e := by
  by_cases hc : C c ∧ RemovedAt svc i c
  · rw [h.marked i c hc.1 hc.2] at he
    obtain ⟨e₀, _, rfl⟩ := Option.map_eq_some_iff.mp he
    rw [condemned_not_standing] at hlive
    exact absurd hlive (by simp)
  · rw [h.kept i c hc] at he
    exact he

/-- What calling back for a port that reads down comes to, once or more often. -/
structure CalledBack (port : UInt16) (w w' : SwitchWorld) : Prop where
  now : w'.flow.now = w.flow.now
  removed : Removed w.flow.now (Affected w.flow.svc port) w.flow.svc w'.flow.svc
  stations : NoStations w'.cam port

theorem callBack_once {w : SwitchWorld} {port : OpenflowVlanPort} (hinv : ServiceInv w.flow.svc)
    (hdown : port.port.isUp = false) :
    CalledBack port.port.portNumber w (w.callBack port) where
  now := rfl
  removed := callback_removed hinv hdown
  stations := by
    show NoStations (switchPortModificationCallback w.flow.now port w.cam w.flow.svc).cam _
    rw [callback_cam hdown]
    exact noStations_removePort w.cam _

/-- Calling back again changes nothing more. -/
theorem CalledBack.again {w w' : SwitchWorld} {port : OpenflowVlanPort}
    (hinv : ServiceInv w.flow.svc) (hdown : port.port.isUp = false)
    (h : CalledBack port.port.portNumber w w') :
    CalledBack port.port.portNumber w (w'.callBack port) := by
  have honce := callBack_once (h.removed.serviceInv hinv) hdown
  refine ⟨honce.now.trans h.now, ?_, honce.stations⟩
  have hremoved := honce.removed
  rw [h.now] at hremoved
  refine (h.removed.trans hremoved).of_iff fun c => ?_
  -- what is still affected was affected before
  refine ⟨Or.inl, fun hc => hc.elim id fun ⟨hon, i, e, he, hout⟩ => ?_⟩
  exact ⟨h.removed.initialized.symm.trans hon, i, e,
    h.removed.of_standing he (outputsToPort_standing hout), hout⟩

theorem foldl_callBack_down {w : SwitchWorld} {port : OpenflowVlanPort} {l : List Nat}
    (hinv : ServiceInv w.flow.svc) (hdown : port.port.isUp = false) (hne : l ≠ []) :
    CalledBack port.port.portNumber w (l.foldl (fun w _ => w.callBack port) w) := by
  have hrest : ∀ (l : List Nat) (w' : SwitchWorld), CalledBack port.port.portNumber w w' →
      CalledBack port.port.portNumber w (l.foldl (fun w _ => w.callBack port) w') := by
    intro l
    induction l with
    | nil => exact fun _ h => h
    | cons _ l ih => exact fun w' h => ih _ (h.again hinv hdown)
  cases l with
  | nil => exact absurd rfl hne
  | cons _ l => exact hrest l _ (callBack_once hinv hdown)

/-- For a port that reads up the callback does nothing. -/
theorem callBack_up {w : SwitchWorld} {port : OpenflowVlanPort} (hup : port.port.isUp = true) :
    (w.callBack port).flow.svc = w.flow.svc ∧ (w.callBack port).cam = w.cam := by
  unfold SwitchWorld.callBack switchPortModificationCallback
  simp [hup]

theorem foldl_callBack_up {w : SwitchWorld} {port : OpenflowVlanPort} (l : List Nat)
    (hup : port.port.isUp = true) :
    (l.foldl (fun w _ => w.callBack port) w).flow.svc = w.flow.svc ∧
      (l.foldl (fun w _ => w.callBack port) w).cam = w.cam := by
  induction l generalizing w with
  | nil => exact ⟨rfl, rfl⟩
  | cons _ l ih =>
      rw [List.foldl_cons, ih.1, ih.2]
      exact callBack_up hup

/-! ## The port map -/

/-- A physical port is filed under its own number. -/
def PortsKeyed (ports : PortMap) : Prop :=
  ∀ (n : UInt16) (p : OpenflowVlanPort), n < firstReservedPort → ports[n]? = some p →
    p.port.portNumber = n

theorem portsKeyed_insert {ports : PortMap} (h : PortsKeyed ports) {k : UInt16}
    {p : OpenflowVlanPort} (hp : k < firstReservedPort → p.port.portNumber = k) :
    PortsKeyed (ports.insert k p) := by
  intro n q hn hq
  rw [getElem?_insert] at hq
  split at hq
  · rename_i hk
    rw [← Option.some.inj hq, ← hk]
    exact hp (hk ▸ hn)
  · exact h n q hn hq

theorem portsKeyed_maybeCreatePort {ports : PortMap} (h : PortsKeyed ports) (n : UInt16) :
    PortsKeyed (maybeCreatePort ports n) := by
  unfold maybeCreatePort
  split
  · exact h
  · split
    · exact h
    · exact portsKeyed_insert h fun _ => rfl

theorem portsKeyed_createOrUpdatePort {ports : PortMap} (h : PortsKeyed ports)
    (port : OpenflowPort) : PortsKeyed (createOrUpdatePort ports port) := by
  unfold createOrUpdatePort
  split
  · exact h
  · split <;> exact portsKeyed_insert h fun _ => rfl

theorem portsKeyed_removePort {ports : PortMap} (h : PortsKeyed ports) (n : UInt16) :
    PortsKeyed (removePort ports n) := by
  unfold removePort
  split
  · exact h
  · split
    · exact h
    · rename_i p hp
      exact portsKeyed_insert h fun hn => h n p hn hp

/-- After `maybe_create_openflow_vlan_port_unsafe` a physical port is there. -/
theorem exists_maybeCreatePort (ports : PortMap) {n : UInt16} (hn : n < firstReservedPort) :
    ∃ p, (maybeCreatePort ports n)[n]? = some p := by
  refine Option.isSome_iff_exists.mp ?_
  unfold maybeCreatePort
  rw [if_neg (UInt16.not_le.mpr hn)]
  split
  · rename_i hc
    rwa [Std.ExtTreeMap.contains_eq_isSome_getElem?] at hc
  · simp

theorem portAt_maybeCreatePort {ports : PortMap} (h : PortsKeyed ports) {n : UInt16}
    (hn : n < firstReservedPort) : (portAt (maybeCreatePort ports n) n).port.portNumber = n := by
  obtain ⟨p, hp⟩ := exists_maybeCreatePort ports hn
  rw [portAt, hp]
  exact portsKeyed_maybeCreatePort h n n p hn hp

theorem portsKeyed_changePort {f : OpenflowVlanPort → Option OpenflowVlanPort}
    (hf : ∀ p p', f p = some p' → p'.port = p.port) {ports ports' : PortMap} {n : UInt16}
    (h : PortsKeyed ports) (hs : changePort f ports n = some ports') : PortsKeyed ports' := by
  obtain ⟨p, hp, rfl⟩ := Option.map_eq_some_iff.mp hs
  refine portsKeyed_insert (portsKeyed_maybeCreatePort h n) fun hn => ?_
  rw [hf _ _ hp]
  exact portAt_maybeCreatePort h hn

/-- When the ports are listed in the log, the text has fitted. -/
theorem changePorts_of_listed {f : OpenflowVlanPort → Option OpenflowVlanPort} {s s' : SwitchState}
    {ports : Std.ExtTreeSet UInt16} (h : s.changeListedPorts f ports = some s') :
    s.changePorts f ports = some s' := by
  rw [changeListedPorts] at h
  split at h
  · exact h
  · cases h

theorem portsKeyed_changePorts {f : OpenflowVlanPort → Option OpenflowVlanPort}
    (hf : ∀ p p', f p = some p' → p'.port = p.port) {s s' : SwitchState}
    {ports : Std.ExtTreeSet UInt16} (h : PortsKeyed s.ports)
    (hs : s.changePorts f ports = some s') : PortsKeyed s'.ports := by
  obtain ⟨m, hm, rfl⟩ := Option.map_eq_some_iff.mp hs
  have hfold : ∀ (l : List UInt16) (m₀ : PortMap), PortsKeyed m₀ →
      l.foldlM (changePort f) m₀ = some m → PortsKeyed m := by
    intro l
    induction l with
    | nil =>
        intro m₀ h₀ hl
        rw [← Option.some.inj hl]
        exact h₀
    | cons n l ih =>
        intro m₀ h₀ hl
        rw [List.foldlM_cons] at hl
        obtain ⟨m₁, h₁, hl⟩ := Option.bind_eq_some_iff.mp hl
        exact ih m₁ (portsKeyed_changePort hf h₀ h₁) hl
  exact hfold _ _ h hm

theorem checkTagging_port {p p' : OpenflowVlanPort} (h : p.checkTagging = some p') : p' = p := by
  unfold OpenflowVlanPort.checkTagging at h
  split at h
  · exact absurd h (by simp)
  · exact (Option.some.inj h).symm

theorem checkInitState_ports (s : SwitchState) : s.checkInitState.ports = s.ports := by
  unfold checkInitState
  split <;> rfl

theorem portsKeyed_stepState {s s' : SwitchState} {i : SwitchStateInput} (h : PortsKeyed s.ports)
    (hs : stepState s i = some s') : PortsKeyed s'.ports := by
  cases i with
  | setSwitchFeatures physicalPorts =>
      obtain rfl := Option.some.inj hs
      rw [setSwitchFeatures, checkInitState_ports]
      have hfold : ∀ (l : List OpenflowPort) (m : PortMap), PortsKeyed m →
          PortsKeyed (l.foldl createOrUpdatePort m) := by
        intro l
        induction l with
        | nil => exact fun _ h => h
        | cons p l ih => exact fun m hm => ih _ (portsKeyed_createOrUpdatePort hm p)
      exact hfold _ _ h
  | setSwitchConfig =>
      obtain rfl := Option.some.inj hs
      rw [setSwitchConfig, checkInitState_ports]
      exact h
  | setSwitchDescription =>
      obtain rfl := Option.some.inj hs
      rw [setSwitchDescription, checkInitState_ports]
      exact h
  | setSwitchIp address =>
      simp only [stepState, setSwitchIp] at hs
      split at hs
      · exact absurd hs (by simp)
      · rw [← Option.some.inj hs, checkInitState_ports]
        exact h
  | setSwitchMacOverride enabled mac =>
      simp only [stepState, setSwitchMacOverride] at hs
      split at hs
      · exact absurd hs (by simp)
      · rw [← Option.some.inj hs, checkInitState_ports]
        exact h
  | setName name =>
      simp only [stepState, setName] at hs
      split at hs
      · rw [← Option.some.inj hs, checkInitState_ports]
        exact h
      · exact absurd hs (by simp)
  | setVlanPorts vlanPorts vlanId =>
      -- membership and tagging leave the description of the port alone
      refine portsKeyed_changePorts (fun p p' hp => ?_) h (changePorts_of_listed hs)
      rw [checkTagging_port hp]
  | setVlanPortTagging destPorts state =>
      refine portsKeyed_changePorts (fun p p' hp => ?_) h (changePorts_of_listed hs)
      rw [checkTagging_port hp]
  | setVlanFloodPorts destPorts vlanId =>
      refine portsKeyed_changePorts (fun p p' hp => ?_) h hs
      rw [checkTagging_port hp]
  | getSwitchPort port =>
      obtain rfl := Option.some.inj hs
      exact portsKeyed_insert (portsKeyed_maybeCreatePort h port) (portAt_maybeCreatePort h)

theorem portsKeyed_updateSwitchPort {s : SwitchState} (h : PortsKeyed s.ports)
    (status : PortStatus) : PortsKeyed (s.updateSwitchPort status).2.ports := by
  have hmade := portsKeyed_maybeCreatePort h status.description.portNumber
  unfold updateSwitchPort
  split
  · exact h
  · split
    · exact h
    · dsimp only
      split
      · exact portsKeyed_createOrUpdatePort hmade _
      · exact portsKeyed_removePort hmade _
      · exact portsKeyed_createOrUpdatePort hmade _
      · exact hmade

/-! ## Every reachable state -/

/-- Flow entries sit under their cookies, and physical ports under their numbers. -/
structure SwitchInv (w : SwitchWorld) : Prop where
  service : ServiceInv w.flow.svc
  ports : PortsKeyed w.state.ports

theorem switchInv_boot (tables : List FlowTable) : SwitchInv (boot tables) where
  service := serviceInv_boot tables
  ports n p _ hp := by simp [boot] at hp

theorem registerPortCob_ports (w : SwitchWorld) : w.registerPortCob.state.ports = w.state.ports := by
  have hfold : ∀ (l : List UInt16) (s : SwitchState),
      (l.foldl (fun s vlan => s.registerPortModificationCallback (· == w.nextCob) w.nextCob vlan)
        s).ports = s.ports := by
    intro l
    induction l with
    | nil => exact fun _ => rfl
    | cons v l ih => exact fun s => (ih _).trans rfl
  exact hfold _ _

theorem callBack_inv {w : SwitchWorld} {port : OpenflowVlanPort} (h : SwitchInv w) :
    SwitchInv (w.callBack port) where
  service := by
    cases hup : port.port.isUp with
    | true =>
        rw [(callBack_up hup).1]
        exact h.service
    | false => exact (callBack_once h.service hup).removed.serviceInv h.service
  ports := h.ports

theorem foldl_callBack_inv {w : SwitchWorld} {port : OpenflowVlanPort} (l : List Nat)
    (h : SwitchInv w) : SwitchInv (l.foldl (fun w _ => w.callBack port) w) := by
  induction l generalizing w with
  | nil => exact h
  | cons _ l ih => exact ih (callBack_inv h)

theorem switchInv_step {w w' : SwitchWorld} {i : SwitchInput} (h : SwitchInv w)
    (hs : w.step i = some w') : SwitchInv w' := by
  cases i with
  | flow i =>
      obtain ⟨flow, hflow, rfl⟩ := Option.map_eq_some_iff.mp hs
      refine ⟨serviceInv_step h.service hflow, ?_⟩
      dsimp only
      split
      · rw [registerPortCob_ports]
        exact h.ports
      · exact h.ports
  | cam i =>
      obtain rfl := Option.some.inj hs
      exact ⟨h.service, h.ports⟩
  | state i =>
      obtain ⟨state, hstate, rfl⟩ := Option.map_eq_some_iff.mp hs
      exact ⟨h.service, portsKeyed_stepState h.ports hstate⟩
  | portStatus status =>
      obtain rfl := Option.some.inj hs
      have hupdated : SwitchInv { w with state := (w.state.updateSwitchPort status).2 } :=
        ⟨h.service, portsKeyed_updateSwitchPort h.ports status⟩
      unfold handlePortStatus
      dsimp only
      split
      · exact hupdated
      · exact foldl_callBack_inv _ hupdated

theorem switchInv_reachable {tables : List FlowTable}
    {ts : List (Transition SwitchWorld SwitchInput)} {w : SwitchWorld}
    (hr : Run SwitchWorld.step (boot tables) ts w) : SwitchInv w :=
  (hr.invariant SwitchInv (switchInv_boot tables) fun _ _ _ h hs => switchInv_step h hs).1

end IronStack.Proof

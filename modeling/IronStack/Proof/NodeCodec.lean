import IronStack.Lib.OrdMap
import IronStack.Topology.Live
import Mathlib.Data.List.TakeWhile

/-!
# What survives the wire of a `network_node`

An update that a switch sends can always be read, with everything in it as it was
sent, but for names that are too long. When a link was refreshed last is not sent.
-/

namespace IronStack.Proof

open IronStack Lib Std

/-! ## Names -/

/-- A name as it arrives. -/
def cutName (s : String) : String := ofCString (nameField s)

theorem length_nameField (s : String) : (nameField s).length = 40 := by
  rw [nameField, List.length_append, List.length_replicate, List.length_take]
  omega

theorem zero_mem_nameField (s : String) : (0 : UInt8) ∈ nameField s := by
  have hlen : ((toCString s).take 39).length ≤ 39 := List.length_take_le ..
  refine List.mem_append_right _ (List.mem_replicate.mpr ⟨?_, rfl⟩)
  omega

/-- What follows a terminator is not read. -/
theorem ofCString_append {b rest : Bytes} (h : (0 : UInt8) ∈ b) : ofCString (b ++ rest) = ofCString b := by
  have hstop : b.takeWhile (· != 0) ≠ b := by
    intro heq
    have hne := List.takeWhile_eq_self_iff.mp heq 0 h
    cases hne
  rw [ofCString, ofCString, List.takeWhile_append, if_neg]
  intro hlen
  exact hstop ((List.takeWhile_prefix _).eq_of_length hlen)

/-- Reading a name. -/
theorem readCString_nameField (l rest : Bytes) (s : String) {off : Nat} (h : l.length = off) :
    readCString (l ++ (nameField s ++ rest)) off = .ok (cutName s) := by
  rw [readCString, List.drop_append_of_le_length (Nat.le_of_eq h.symm), ← h, List.drop_length,
    List.nil_append,
    if_pos (List.mem_append_left _ (zero_mem_nameField s)), ofCString_append (zero_mem_nameField s)]
  rfl

/-! ## Ports and links -/

namespace PortState

/-- A port as it arrives. -/
def received (p : PortState) : PortState := { p with name := cutName p.name }

theorem length_pack (p : PortState) : p.pack.length = 45 := by
  simp [PortState.pack, length_nameField]

theorem toUInt8_ne_zero (b : Bool) : (b.toUInt8 != 0) = b := by
  cases b with
  | false => rfl
  | true => rfl

theorem unpack_pack (p : PortState) (rest : Bytes) :
    PortState.unpack (p.pack ++ rest) = .ok (received p) := by
  have hname : p.pack ++ rest =
      (be16 p.portNum ++ [p.online.toUInt8, p.isStpPort.toUInt8, p.isFloodPort.toUInt8]) ++
      (nameField p.name ++ rest) := List.append_assoc ..
  have hread := readCString_nameField (be16 p.portNum ++
    [p.online.toUInt8, p.isStpPort.toUInt8, p.isFloodPort.toUInt8]) rest p.name (show _ = 5 from rfl)
  rw [← hname] at hread
  rw [PortState.unpack, hread]
  simp (disch := simp) only [PortState.pack, List.append_assoc, readU16_be16, ok_bind, readU8_append_right,
    length_be16, List.cons_append, readU8_cons, readU8_cons_succ, Nat.reduceSub, toUInt8_ne_zero]
  rfl

end PortState

/-- The memory of a buffer from an offset on. -/
theorem ptrOffsetConst_append (l r : Bytes) (size : Nat) {off : Nat} (hoff : l.length = off)
    (h : off < 2 ^ 31) :
    (Autobuf.mk (l ++ r) size).ptrOffsetConst off = .ok r := by
  rw [Autobuf.ptrOffsetConst, asInt_of_lt h, if_neg (by omega), ← hoff, List.drop_left]

section Loops

variable (size : Nat)

theorem length_serializePort (e : UInt16 × PortState) : (TopologyNode.serializePort e).length = 47 := by
  rw [TopologyNode.serializePort, List.length_append, PortState.length_pack, length_be16]

theorem length_serializeLink (e : UInt16 × MacAddress × UInt32) :
    (TopologyNode.serializeLink e).length = 8 := by
  rw [TopologyNode.serializeLink, List.length_append, Vector.length_toList, length_be16]

/-- The ports that were written are read back. -/
theorem unpackPorts_flatMap (l : List (UInt16 × PortState)) (before after : Bytes) (off : Nat)
    (ports : ExtTreeMap UInt16 PortState) (hoff : before.length = off) (h : off + l.length * 47 < 2 ^ 31) :
    TopologyNode.unpackPorts ⟨before ++ (l.flatMap TopologyNode.serializePort ++ after),
      size⟩ l.length off ports =
      .ok (l.foldl (fun ports e => ports.insert e.1 (PortState.received e.2)) ports) := by
  induction l generalizing before off ports with
  | nil => rfl
  | cons e l ih =>
      rw [List.length_cons] at h
      have hitem : before ++ ((e :: l).flatMap TopologyNode.serializePort ++ after) =
          before ++ (be16 e.1 ++ (e.2.pack ++ (l.flatMap TopologyNode.serializePort ++ after))) := by
        simp only [List.flatMap_cons, TopologyNode.serializePort, List.append_assoc]
      have hstate : before ++ (be16 e.1 ++ (e.2.pack ++ (l.flatMap TopologyNode.serializePort ++ after))) =
          (before ++ be16 e.1) ++ (e.2.pack ++ (l.flatMap TopologyNode.serializePort ++ after)) := by
        simp only [List.append_assoc]
      have hrest : before ++ ((e :: l).flatMap TopologyNode.serializePort ++ after) =
          (before ++ TopologyNode.serializePort e) ++ (l.flatMap TopologyNode.serializePort ++ after) := by
        simp only [List.flatMap_cons, List.append_assoc]
      have hfst := ptrOffsetConst_append before (be16 e.1 ++ (e.2.pack ++
        (l.flatMap TopologyNode.serializePort ++ after))) size hoff (by omega)
      have hsnd := ptrOffsetConst_append (before ++ be16 e.1)
        (e.2.pack ++ (l.flatMap TopologyNode.serializePort ++ after)) size
        (show _ = off + 2 by rw [List.length_append, length_be16, hoff]) (by omega)
      rw [List.length_cons, TopologyNode.unpackPorts, hitem, hfst, ok_bind, readU16_be16, ok_bind, hstate,
        hsnd, ok_bind, PortState.unpack_pack, ok_bind, ← hstate, ← hitem, hrest]
      refine ih _ _ _ ?_ ?_
      · rw [List.length_append, length_serializePort, hoff]
        rfl
      · show off + 47 + l.length * 47 < 2 ^ 31
        omega

/-- The links that were written are read back. -/
theorem unpackLinks_flatMap (l : List (UInt16 × MacAddress × UInt32)) (before after : Bytes) (off : Nat)
    (links : ExtTreeMap UInt16 (MacAddress × UInt32)) (hoff : before.length = off)
    (h : off + l.length * 8 < 2 ^ 31) :
    TopologyNode.unpackLinks ⟨before ++ (l.flatMap TopologyNode.serializeLink ++ after),
      size⟩ l.length off links =
      .ok (l.foldl (fun links e => links.insert e.1 (e.2.1, 0)) links) := by
  induction l generalizing before off links with
  | nil => rfl
  | cons e l ih =>
      rw [List.length_cons] at h
      have hitem : before ++ ((e :: l).flatMap TopologyNode.serializeLink ++ after) =
          before ++ (be16 e.1 ++ (e.2.1.addr.toList ++ (l.flatMap TopologyNode.serializeLink ++ after))) := by
        simp only [List.flatMap_cons, TopologyNode.serializeLink, List.append_assoc]
      have haddr : before ++ (be16 e.1 ++ (e.2.1.addr.toList ++ (l.flatMap TopologyNode.serializeLink ++ after))) =
          (before ++ be16 e.1) ++ (e.2.1.addr.toList ++ (l.flatMap TopologyNode.serializeLink ++ after)) := by
        simp only [List.append_assoc]
      have hrest : before ++ ((e :: l).flatMap TopologyNode.serializeLink ++ after) =
          (before ++ TopologyNode.serializeLink e) ++ (l.flatMap TopologyNode.serializeLink ++ after) := by
        simp only [List.flatMap_cons, List.append_assoc]
      have hfst := ptrOffsetConst_append before (be16 e.1 ++ (e.2.1.addr.toList ++
        (l.flatMap TopologyNode.serializeLink ++ after))) size hoff (by omega)
      have hsnd := ptrOffsetConst_append (before ++ be16 e.1)
        (e.2.1.addr.toList ++ (l.flatMap TopologyNode.serializeLink ++ after)) size
        (show _ = off + 2 by rw [List.length_append, length_be16, hoff]) (by omega)
      rw [List.length_cons, TopologyNode.unpackLinks, hitem, hfst, ok_bind, readU16_be16, ok_bind, haddr,
        hsnd, ok_bind, readVec_toList, ok_bind, ← haddr, ← hitem, hrest]
      refine ih _ _ _ ?_ ?_
      · rw [List.length_append, length_serializeLink, hoff]
        rfl
      · show off + 8 + l.length * 8 < 2 ^ 31
        omega

end Loops

/-! ## Nodes -/

/-- A node as it arrives. -/
def received (n : TopologyNode) : TopologyNode where
  macAddr := n.macAddr
  ipAddr := n.ipAddr
  lastRefresh := n.lastRefresh
  seqNum := n.seqNum
  name := cutName n.name
  ports := n.ports.toList.foldl (fun ports e => ports.insert e.1 (PortState.received e.2)) ∅
  links := n.links.toList.foldl (fun links e => links.insert e.1 (e.2.1, 0)) ∅

theorem length_serializeHeader (n : TopologyNode) : n.serializeHeader.length = 63 := by
  simp [TopologyNode.serializeHeader, length_nameField]

theorem length_ports (l : List (UInt16 × PortState)) :
    (l.flatMap TopologyNode.serializePort).length = l.length * 47 := by
  rw [List.length_flatMap]
  simp only [length_serializePort, List.map_const', List.sum_replicate_nat]

theorem length_links (l : List (UInt16 × MacAddress × UInt32)) :
    (l.flatMap TopologyNode.serializeLink).length = l.length * 8 := by
  rw [List.length_flatMap]
  simp only [length_serializeLink, List.map_const', List.sum_replicate_nat]

theorem length_serialize_node (n : TopologyNode) :
    n.serialize.length = 63 + n.ports.toList.length * 47 + n.links.toList.length * 8 := by
  rw [TopologyNode.serialize, List.length_append, List.length_append, length_serializeHeader,
    length_ports, length_links]

/-- **An update is read as it was sent**, whatever is behind it. -/
theorem deserialize_serialize_append (n : TopologyNode) (behind : Bytes) :
    TopologyNode.deserialize ⟨n.serialize ++ behind, n.serialize.length⟩ = .ok (true, received n) := by
  have hlen := length_serialize_node n
  have hports := length_toList_le n.ports
  have hlinks := length_toList_le n.links
  have hnumPorts : (UInt32.ofNat n.ports.size).toNat = n.ports.toList.length := by
    rw [UInt32.toNat_ofNat', ← ExtTreeMap.length_toList]
    omega
  have hnumLinks : (UInt32.ofNat n.links.size).toNat = n.links.toList.length := by
    rw [UInt32.toNat_ofNat', ← ExtTreeMap.length_toList]
    omega
  let body := n.ports.toList.flatMap TopologyNode.serializePort ++
    (n.links.toList.flatMap TopologyNode.serializeLink ++ behind)
  have hhdr : n.serialize ++ behind = be32 n.lastRefresh ++ (n.seqNum :: (n.macAddr.addr.toList ++
      (n.ipAddr.octets.toList ++ (nameField n.name ++ (be32 (UInt32.ofNat n.ports.size) ++
        (be32 (UInt32.ofNat n.links.size) ++ body)))))) := by
    simp only [TopologyNode.serialize, TopologyNode.serializeHeader, List.append_assoc, List.cons_append,
      List.nil_append, body]
  have hname : readCString (n.serialize ++ behind) 15 = .ok (cutName n.name) := by
    have h := readCString_nameField (be32 n.lastRefresh ++ (n.seqNum :: (n.macAddr.addr.toList ++
      n.ipAddr.octets.toList))) (be32 (UInt32.ofNat n.ports.size) ++
        (be32 (UInt32.ofNat n.links.size) ++ body))
      n.name (show _ = 15 by simp)
    rw [hhdr]
    simpa only [List.append_assoc, List.cons_append] using h
  have hunpackPorts : TopologyNode.unpackPorts ⟨n.serialize ++ behind,
    n.serialize.length⟩ n.ports.toList.length 63 ∅ =
      .ok (received n).ports := by
    have h := unpackPorts_flatMap n.serialize.length n.ports.toList n.serializeHeader
      (n.links.toList.flatMap TopologyNode.serializeLink ++ behind) 63 ∅ (length_serializeHeader n) (by omega)
    rwa [← List.append_assoc, ← List.append_assoc, ← TopologyNode.serialize] at h
  have hunpackLinks : TopologyNode.unpackLinks ⟨n.serialize ++ behind,
    n.serialize.length⟩ n.links.toList.length
      (63 + n.ports.toList.length * 47) ∅ = .ok (received n).links := by
    have h := unpackLinks_flatMap n.serialize.length n.links.toList
      (n.serializeHeader ++ n.ports.toList.flatMap TopologyNode.serializePort) behind
        (63 + n.ports.toList.length * 47) ∅
      (by rw [List.length_append, length_serializeHeader, length_ports]) (by omega)
    rwa [← List.append_assoc, ← TopologyNode.serialize] at h
  have hlong : ¬ (Autobuf.mk (n.serialize ++ behind) n.serialize.length).size < TopologyNode.hdrSize := by
    show ¬ n.serialize.length < 63
    omega
  have hreads : readU32 (n.serialize ++ behind) 0 = .ok n.lastRefresh ∧
      readU8 (n.serialize ++ behind) 4 = .ok n.seqNum ∧
      readVec 6 (n.serialize ++ behind) 5 = .ok n.macAddr.addr ∧
      readVec 4 (n.serialize ++ behind) 11 = .ok n.ipAddr.octets ∧
      readU32 (n.serialize ++ behind) 55 = .ok (UInt32.ofNat n.ports.size) ∧
      readU32 (n.serialize ++ behind) 59 = .ok (UInt32.ofNat n.links.size) := by
    rw [hhdr]
    simp (disch := simp [length_nameField]) only
      [readU32_append_right, readU8_append_right, readVec_append_right,
      readU32_cons_succ, readVec_cons_succ, readU32_be32, readU8_cons, readVec_toList, length_be32,
      length_nameField, Vector.length_toList, Nat.reduceSub, and_self]
  obtain ⟨hrefresh, hseq, hmac, hip, hnp, hnl⟩ := hreads
  have hfits : ¬ n.serialize.length <
      63 + n.ports.toList.length * 47 % 2 ^ 32 + n.links.toList.length * 8 % 2 ^ 32 := by
    omega
  rw [TopologyNode.deserialize, if_neg hlong]
  simp only [hrefresh, hseq, hmac, hip, hname, hnp, hnl,
    ok_bind, hnumPorts, hnumLinks, TopologyNode.hdrSize, TopologyNode.portIncrement,
    TopologyNode.linkIncrement, PortState.hdrSize, Nat.reduceAdd, if_neg hfits]
  rw [hunpackPorts, ok_bind, hunpackLinks]
  rfl

theorem deserialize_serialize_node (n : TopologyNode) :
    TopologyNode.deserialize (Autobuf.ofBytes n.serialize) = .ok (true, received n) := by
  have h := deserialize_serialize_append n []
  rwa [List.append_nil] at h

end IronStack.Proof

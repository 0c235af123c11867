import IronStack.Proof.NodeCodec
import IronStack.Topology.Discovery

/-!
# Advertisements of a switch

What a switch tells the others about itself arrives as it was, on its own and inside
a discovery packet. An advertisement that no switch has written is another matter:
the decoder multiplies the numbers of ports and links with 32 bits, and reads a name
until it comes to a terminator.
-/

namespace IronStack.Proof

open IronStack Lib Std

/-! ## Names that fit -/

/-- A `std::string` of at most 39 bytes, none of them a terminator. -/
def IsName (s : String) : Prop :=
  ∃ b : Bytes, b.length ≤ 39 ∧ (0 : UInt8) ∉ b ∧ s = String.ofList (b.map fun x => Char.ofNat x.toNat)

theorem toNat_charOfByte (x : UInt8) : (Char.ofNat x.toNat).toNat = x.toNat := by
  have hlt := UInt8.toNat_lt x
  have hvalid : x.toNat.isValidChar := .inl (by omega)
  rw [Char.ofNat, dif_pos hvalid]
  rfl

theorem takeWhile_ne_zero {b : Bytes} (h : (0 : UInt8) ∉ b) (rest : Bytes) :
    (b ++ rest).takeWhile (· != 0) = b ++ rest.takeWhile (· != 0) := by
  refine List.takeWhile_append_of_pos ?_
  intro x hx
  refine bne_iff_ne.mpr ?_
  intro hzero
  rw [hzero] at hx
  exact h hx

theorem toCString_ofBytes {b : Bytes} (h : (0 : UInt8) ∉ b) :
    toCString (String.ofList (b.map fun x => Char.ofNat x.toNat)) = b := by
  have hback : (b.map fun x => Char.ofNat x.toNat).map (fun c => UInt8.ofNat c.toNat) = b := by
    rw [List.map_map]
    refine (List.map_congr_left fun x _ => ?_).trans (List.map_id b)
    change UInt8.ofNat (Char.ofNat x.toNat).toNat = x
    rw [toNat_charOfByte, UInt8.ofNat_toNat]
  have hall := takeWhile_ne_zero h []
  rw [List.append_nil, List.takeWhile_nil, List.append_nil] at hall
  rw [toCString, String.toList_ofList, hback, hall]

/-- A name that fits arrives whole. -/
theorem cutName_of_isName {s : String} (h : IsName s) : cutName s = s := by
  obtain ⟨b, hlen, hzero, rfl⟩ := h
  have hfield : nameField (String.ofList (b.map fun x => Char.ofNat x.toNat)) =
      b ++ List.replicate (40 - b.length) 0 := by
    rw [nameField, toCString_ofBytes hzero, List.take_of_length_le hlen]
  have hpad : (List.replicate (40 - b.length) (0 : UInt8)).takeWhile (· != 0) = [] := by
    rw [List.takeWhile_replicate]
    rfl
  rw [cutName, hfield, ofCString, takeWhile_ne_zero hzero, hpad, List.append_nil]

/-! ## The round trip -/

/-- Two nodes that are the same but for what is not sent. -/
structure SameAdvertisement (m n : TopologyNode) : Prop where
  name : m.name = n.name
  lastRefresh : m.lastRefresh = n.lastRefresh
  seqNum : m.seqNum = n.seqNum
  macAddr : m.macAddr = n.macAddr
  ipAddr : m.ipAddr = n.ipAddr
  ports : m.ports = n.ports
  /-- When a link was refreshed is not sent. -/
  links : ∀ portNum : UInt16, m.links[portNum]?.map Prod.fst = n.links[portNum]?.map Prod.fst

/-- The names of a node and of its ports fit. -/
structure Advertisable (n : TopologyNode) : Prop where
  name : IsName n.name
  ports : ∀ (portNum : UInt16) (p : PortState), n.ports[portNum]? = some p → IsName p.name

theorem received_same {n : TopologyNode} (h : Advertisable n) : SameAdvertisement (received n) n := by
  refine ⟨cutName_of_isName h.name, rfl, rfl, rfl, rfl, ?_, ?_⟩
  · refine ExtTreeMap.ext_getElem? fun portNum => ?_
    have hrebuilt := getElem?_foldl_insert_toList PortState.received n.ports portNum
    change (received n).ports[portNum]? = _ at hrebuilt
    rw [hrebuilt]
    cases hport : n.ports[portNum]? with
    | none => rfl
    | some p =>
        have hname := cutName_of_isName (h.ports portNum p hport)
        rw [Option.map_some, PortState.received, hname]
  · intro portNum
    have hrebuilt := getElem?_foldl_insert_toList
      (fun l : MacAddress × UInt32 => (l.1, (0 : UInt32))) n.links portNum
    change (received n).links[portNum]? = _ at hrebuilt
    rw [hrebuilt, Option.map_map]
    rfl

theorem length_serialize_packet (p : DiscoveryPacket) :
    p.serialize.length = DiscoveryPacket.hdrSize + p.data.length := by
  simp [DiscoveryPacket.serialize, DiscoveryPacket.hdrSize, length_nameField]
  omega

/-- A discovery packet is read with the data that it was sent with. -/
theorem deserialize_serialize_packet (p : DiscoveryPacket) (behind : Bytes) :
    DiscoveryPacket.deserialize ⟨p.serialize ++ behind, p.serialize.length⟩ =
      .ok (some { p with name := cutName p.name }) := by
  have hlen := length_serialize_packet p
  have hhdr : p.serialize ++ behind = p.srcMac.addr.toList ++ (p.srcIp.octets.toList ++ (be32 p.timestamp ++
      (p.seqNum :: (nameField p.name ++ (p.data ++ behind))))) := by
    simp only [DiscoveryPacket.serialize, List.append_assoc, List.cons_append, List.nil_append]
  have hname : readCString (p.serialize ++ behind) 15 = .ok (cutName p.name) := by
    have h := readCString_nameField (p.srcMac.addr.toList ++ (p.srcIp.octets.toList ++ (be32 p.timestamp ++
      [p.seqNum]))) (p.data ++ behind) p.name (show _ = 15 by simp)
    rw [hhdr]
    simpa only [List.append_assoc, List.cons_append, List.nil_append] using h
  have hdata : slice (p.serialize ++ behind) DiscoveryPacket.hdrSize
    (p.serialize.length - DiscoveryPacket.hdrSize) =
      .ok p.data := by
    rw [hlen, Nat.add_sub_cancel_left, hhdr, DiscoveryPacket.hdrSize]
    simp (disch := simp [length_nameField]) only
      [slice_append_right, slice_cons, length_be32, length_nameField, Vector.length_toList, Nat.reduceSub]
    exact slice_append_left p.data behind
  have hreads : readVec 6 (p.serialize ++ behind) 0 = .ok p.srcMac.addr ∧
      readVec 4 (p.serialize ++ behind) 6 = .ok p.srcIp.octets ∧
      readU32 (p.serialize ++ behind) 10 = .ok p.timestamp ∧
      readU8 (p.serialize ++ behind) 14 = .ok p.seqNum := by
    rw [hhdr]
    simp (disch := simp) only [readU32_append_right, readU8_append_right, readVec_append_right,
      readU32_be32, readU8_cons, readVec_toList, length_be32, Vector.length_toList, Nat.reduceSub, and_self]
  obtain ⟨hmac, hip, htime, hseq⟩ := hreads
  rw [DiscoveryPacket.deserialize, if_neg (by dsimp only; omega)]
  simp only [hmac, hip, htime, hseq, hname, hdata, ok_bind]
  rfl

/--
**An advertisement arrives as it was sent**, on its own and inside a discovery packet:
its names fit, and it has any number of ports and links. What is behind it in memory
makes no difference.
-/
theorem advertisement_round_trip {n : TopologyNode} (h : Advertisable n) :
    (∃ m, TopologyNode.deserialize (.ofBytes n.serialize) = .ok (true, m) ∧ SameAdvertisement m n) ∧
      ∀ (p : DiscoveryPacket) (behind behindData : Bytes), p.data = n.serialize →
        ∃ q m, DiscoveryPacket.deserialize ⟨p.serialize ++ behind, p.serialize.length⟩ = .ok (some q) ∧
          TopologyNode.deserialize ⟨q.data ++ behindData, q.data.length⟩ = .ok (true, m) ∧
          SameAdvertisement m n := by
  refine ⟨⟨received n, deserialize_serialize_node n, received_same h⟩, ?_⟩
  intro p behind behindData hdata
  refine ⟨_, received n, deserialize_serialize_packet p behind, ?_, received_same h⟩
  dsimp only
  rw [hdata]
  exact deserialize_serialize_append n behindData

/-- A switch with a port. -/
def edgeSwitch : TopologyNode where
  macAddr := MacAddress.nil
  name := "s1"
  ports := (∅ : ExtTreeMap UInt16 PortState).insert 1 { portNum := 1, online := true, name := "eth1" }

theorem edgeSwitch_advertisable : Advertisable edgeSwitch := by
  refine ⟨⟨[115, 49], by decide, by decide, rfl⟩, ?_⟩
  intro portNum p h
  have hport : p = { portNum := 1, online := true, name := "eth1" } := by
    rw [edgeSwitch, getElem?_insert] at h
    split at h
    · exact (Option.some.inj h).symm
    · rw [ExtTreeMap.getElem?_empty] at h
      cases h
  rw [hport]
  exact ⟨[101, 116, 104, 49], by decide, by decide, rfl⟩

theorem edgeSwitch_arrives :
    (∃ m, TopologyNode.deserialize (.ofBytes edgeSwitch.serialize) = .ok (true, m) ∧
      SameAdvertisement m edgeSwitch) ∧
      ∀ (p : DiscoveryPacket) (behind behindData : Bytes), p.data = edgeSwitch.serialize →
        ∃ q m, DiscoveryPacket.deserialize ⟨p.serialize ++ behind, p.serialize.length⟩ = .ok (some q) ∧
          TopologyNode.deserialize ⟨q.data ++ behindData, q.data.length⟩ = .ok (true, m) ∧
          SameAdvertisement m edgeSwitch :=
  advertisement_round_trip edgeSwitch_advertisable

/-! ## Any bytes -/

/-- The number in four bytes of an advertisement: of its ports at offset 55, of its links at 59. -/
def countAt (b : Bytes) (off : Nat) : Nat := ofBE ((b.drop off).take 4)

def portOffset (k : Nat) : Nat := TopologyNode.hdrSize + k * TopologyNode.portIncrement

def linkOffset (b : Bytes) (k : Nat) : Nat := portOffset (countAt b 55) + k * TopologyNode.linkIncrement

/-- The check of the size, with the products that wrap around. -/
def SizeChecked (b : Bytes) : Prop :=
  TopologyNode.hdrSize + countAt b 55 * TopologyNode.portIncrement % 2 ^ 32 +
    countAt b 59 * TopologyNode.linkIncrement % 2 ^ 32 ≤ b.length

instance (b : Bytes) : Decidable (SizeChecked b) := Nat.decLe ..

/-- Where the decoder reads a name: that of the node, and those of the ports if it gets that far. -/
def ReadsName (b : Bytes) (off : Nat) : Prop :=
  TopologyNode.hdrSize ≤ b.length ∧
    (off = 15 ∨ SizeChecked b ∧ ∃ k < countAt b 55, off = portOffset k + 7)

/-- A name ends inside its field. -/
def NameEnds (b : Bytes) (off : Nat) : Prop := (0 : UInt8) ∈ (b.drop off).take 40

instance (b : Bytes) (off : Nat) : Decidable (NameEnds b off) := inferInstanceAs (Decidable (_ ∈ _))

/--
The bytes are decoded, or turned down, without a read behind them, and no name is read
for more characters than its field has.
-/
def DecodedWithin (b : Bytes) : Prop :=
  Answers (TopologyNode.deserialize (.ofBytes b)) ∧
    ∀ off, ReadsName b off → ((b.drop off).takeWhile (· != 0)).length < 40

/-- The records that are announced are there, within reach of an `int`. -/
structure RecordsFit (b : Bytes) : Prop where
  fits : TopologyNode.hdrSize + countAt b 55 * TopologyNode.portIncrement +
    countAt b 59 * TopologyNode.linkIncrement ≤ b.length
  ports : ∀ k < countAt b 55, portOffset k + 2 < 2 ^ 31 ∧ NameEnds b (portOffset k + 7)
  links : ∀ k < countAt b 59, linkOffset b k + 2 < 2 ^ 31

section Decoding

variable {b : Bytes} {off : Nat}

theorem answers_readCString_iff : Answers (readCString b off) ↔ (0 : UInt8) ∈ b.drop off := by
  unfold readCString
  split
  · rename_i hend
    exact ⟨fun _ => hend, fun _ => answers_ok _⟩
  · rename_i hend
    exact ⟨fun h => absurd h (not_answers_error _), fun h => absurd h hend⟩

theorem lt_of_mem_drop (h : (0 : UInt8) ∈ b.drop off) : off < b.length := by
  by_contra hge
  rw [List.drop_eq_nil_of_le (by omega)] at h
  cases h

theorem answers_ptrOffsetConst (h : off < 2 ^ 31) :
    (Autobuf.ofBytes b).ptrOffsetConst off = .ok (b.drop off) := by
  rw [Autobuf.ptrOffsetConst, asInt_of_lt h, if_neg (by omega)]
  rfl

/-- A pointer into a buffer that has fewer than 2^32 bytes. -/
theorem ptrOffsetConst_ok {memory : Bytes} (h : (Autobuf.ofBytes b).ptrOffsetConst off = .ok memory) :
    memory = b.drop off ∧ (off < 2 ^ 32 → off < 2 ^ 31) := by
  unfold Autobuf.ptrOffsetConst at h
  split at h
  · cases h
  · rename_i hpos
    refine ⟨(Except.ok.inj h).symm, ?_⟩
    intro hoff
    by_contra hge
    exact hpos (asInt_neg (by omega) hoff)

/-- One turn of the loop over the ports. -/
def readPort (input : Autobuf) (off : Nat) : Read (UInt16 × PortState) := do
  let item ← input.ptrOffsetConst off
  let nextPortNum ← readU16 item 0
  let state ← input.ptrOffsetConst (off + 2)
  let port ← PortState.unpack state
  return (nextPortNum, port)

theorem countedLoop_unpackPorts (input : Autobuf) :
    CountedLoop (TopologyNode.unpackPorts input) (readPort input) (fun ports e => ports.insert e.1 e.2)
      TopologyNode.portIncrement := by
  refine ⟨fun _ _ => rfl, fun n off ports => ?_⟩
  rw [TopologyNode.unpackPorts, readPort]
  simp only [bind_assoc, pure_bind]

/-- One turn of the loop over the links. -/
def readLink (input : Autobuf) (off : Nat) : Read (UInt16 × MacAddress) := do
  let item ← input.ptrOffsetConst off
  let pNum ← readU16 item 0
  let addr ← input.ptrOffsetConst (off + 2)
  let mAddr ← readVec 6 addr 0
  return (pNum, ⟨mAddr⟩)

theorem countedLoop_unpackLinks (input : Autobuf) :
    CountedLoop (TopologyNode.unpackLinks input) (readLink input) (fun links e => links.insert e.1 (e.2, 0))
      TopologyNode.linkIncrement := by
  refine ⟨fun _ _ => rfl, fun n off links => ?_⟩
  rw [TopologyNode.unpackLinks, readLink]
  simp only [bind_assoc, pure_bind]

/-- A port is read up to the end of its name, wherever that is. -/
theorem answers_readPort_iff (hb : b.length < 2 ^ 32) :
    Answers (readPort (.ofBytes b) off) ↔ off + 2 < 2 ^ 31 ∧ (0 : UInt8) ∈ b.drop (off + 7) := by
  have hdrop : (b.drop (off + 2)).drop 5 = b.drop (off + 7) := by
    rw [List.drop_drop]
  refine ⟨?_, ?_⟩
  · intro h
    obtain ⟨item, hitem, h⟩ := h.of_bind
    obtain ⟨num, hnum, h⟩ := h.of_bind
    obtain ⟨state, hstate, h⟩ := h.of_bind
    obtain ⟨port, hport, _⟩ := h.of_bind
    obtain ⟨rfl, _⟩ := ptrOffsetConst_ok hitem
    have hnumber := le_of_readU16 hnum
    rw [List.length_drop] at hnumber
    obtain ⟨rfl, hreach⟩ := ptrOffsetConst_ok hstate
    refine ⟨hreach (by omega), ?_⟩
    obtain ⟨_, _, hport⟩ := bind_eq_ok.mp hport
    obtain ⟨_, _, hport⟩ := bind_eq_ok.mp hport
    obtain ⟨_, _, hport⟩ := bind_eq_ok.mp hport
    obtain ⟨_, _, hport⟩ := bind_eq_ok.mp hport
    obtain ⟨name, hname, _⟩ := bind_eq_ok.mp hport
    have hend := answers_readCString_iff.mp ⟨name, hname⟩
    rwa [hdrop] at hend
  · intro ⟨hoff, hend⟩
    have hlt := lt_of_mem_drop hend
    rw [readPort, answers_ptrOffsetConst (by omega), ok_bind]
    refine (answers_readU16 (by rw [List.length_drop]; omega)).bind fun num => ?_
    rw [answers_ptrOffsetConst hoff, ok_bind]
    refine Answers.bind ?_ fun port => answers_ok _
    rw [PortState.unpack]
    refine (answers_readU16 (by rw [List.length_drop]; omega)).bind fun _ => ?_
    refine (answers_readU8 (by rw [List.length_drop]; omega)).bind fun _ => ?_
    refine (answers_readU8 (by rw [List.length_drop]; omega)).bind fun _ => ?_
    refine (answers_readU8 (by rw [List.length_drop]; omega)).bind fun _ => ?_
    refine (answers_readCString_iff.mpr ?_).bind fun _ => answers_ok _
    rwa [hdrop]

theorem answers_readLink_iff (hb : b.length < 2 ^ 32) :
    Answers (readLink (.ofBytes b) off) ↔ off + 2 < 2 ^ 31 ∧ off + 8 ≤ b.length := by
  refine ⟨?_, ?_⟩
  · intro h
    obtain ⟨item, hitem, h⟩ := h.of_bind
    obtain ⟨num, hnum, h⟩ := h.of_bind
    obtain ⟨addr, haddr, h⟩ := h.of_bind
    obtain ⟨mac, hmac, _⟩ := h.of_bind
    obtain ⟨rfl, _⟩ := ptrOffsetConst_ok hitem
    have hnumber := le_of_readU16 hnum
    rw [List.length_drop] at hnumber
    obtain ⟨rfl, hreach⟩ := ptrOffsetConst_ok haddr
    refine ⟨hreach (by omega), ?_⟩
    by_contra hlt
    rw [readVec_error (by rw [List.length_drop]; omega)] at hmac
    cases hmac
  · intro ⟨hoff, hlt⟩
    rw [readLink, answers_ptrOffsetConst (by omega), ok_bind]
    refine (answers_readU16 (by rw [List.length_drop]; omega)).bind fun num => ?_
    rw [answers_ptrOffsetConst hoff, ok_bind]
    exact (answers_readVec (by rw [List.length_drop]; omega)).bind fun _ => answers_ok _

/-- **What becomes of the records**: each is read where it should be, as far as it goes. -/
theorem answers_records_iff (hb : b.length < 2 ^ 32) :
    Answers (TopologyNode.unpackPorts (.ofBytes b) (countAt b 55) TopologyNode.hdrSize ∅ >>= fun _ =>
        TopologyNode.unpackLinks (.ofBytes b) (countAt b 59) (portOffset (countAt b 55)) ∅) ↔
      (∀ k < countAt b 55, portOffset k + 2 < 2 ^ 31 ∧ (0 : UInt8) ∈ b.drop (portOffset k + 7)) ∧
        ∀ k < countAt b 59, linkOffset b k + 2 < 2 ^ 31 ∧ linkOffset b k + 8 ≤ b.length := by
  have hports := (countedLoop_unpackPorts (.ofBytes b)).answers_iff (countAt b 55) TopologyNode.hdrSize ∅
  have hlinks := (countedLoop_unpackLinks (.ofBytes b)).answers_iff (countAt b 59)
    (portOffset (countAt b 55)) ∅
  simp only [answers_readPort_iff hb] at hports
  simp only [answers_readLink_iff hb] at hlinks
  rw [answers_bind_iff]
  refine ⟨?_, ?_⟩
  · intro ⟨ports, hok, hrest⟩
    exact ⟨hports.mp ⟨ports, hok⟩, hlinks.mp hrest⟩
  · intro ⟨hp, hl⟩
    obtain ⟨ports, hok⟩ := hports.mpr hp
    exact ⟨ports, hok, hlinks.mpr hl⟩

/-- A check that is passed by a product that wrapped around is followed by a fault. -/
theorem fits_of_records (hb : b.length < 2 ^ 32) (hcheck : SizeChecked b)
    (hports : ∀ k < countAt b 55, portOffset k + 2 < 2 ^ 31 ∧ (0 : UInt8) ∈ b.drop (portOffset k + 7))
    (hlinks : ∀ k < countAt b 59, linkOffset b k + 2 < 2 ^ 31 ∧ linkOffset b k + 8 ≤ b.length) :
    TopologyNode.hdrSize + countAt b 55 * TopologyNode.portIncrement +
      countAt b 59 * TopologyNode.linkIncrement ≤ b.length := by
  unfold SizeChecked at hcheck
  simp only [portOffset, linkOffset, TopologyNode.hdrSize, TopologyNode.portIncrement,
    TopologyNode.linkIncrement, PortState.hdrSize] at *
  generalize countAt b 55 = numPorts at *
  generalize countAt b 59 = numLinks at *
  have hnoWrap : numPorts * 47 < 2 ^ 32 := by
    cases numPorts with
    | zero => omega
    | succ k =>
        have hlast := (hports k (Nat.lt_succ_self k)).1
        omega
  cases numLinks with
  | zero => omega
  | succ k =>
      have hlast := (hlinks k (Nat.lt_succ_self k)).2
      omega

theorem readU32_countAt (h : off + 4 ≤ b.length) :
    ∃ n : UInt32, readU32 b off = .ok n ∧ n.toNat = countAt b off := by
  have hlt := ofBE_lt ((b.drop off).take 4)
  have hlen : ((b.drop off).take 4).length = 4 := by
    rw [List.length_take, List.length_drop]
    omega
  rw [hlen] at hlt
  refine ⟨UInt32.ofNat (countAt b off), ?_, ?_⟩
  · rw [readU32, slice_ok h]
    rfl
  · rw [UInt32.toNat_ofNat']
    exact Nat.mod_eq_of_lt hlt

/-- The decoder answers if it comes to the end of the name, and of all the records that it believes in. -/
theorem answers_node_iff (h63 : TopologyNode.hdrSize ≤ b.length) :
    Answers (TopologyNode.deserialize (.ofBytes b)) ↔ (0 : UInt8) ∈ b.drop 15 ∧
      (SizeChecked b → Answers
        (TopologyNode.unpackPorts (.ofBytes b) (countAt b 55) TopologyNode.hdrSize ∅ >>= fun _ =>
          TopologyNode.unpackLinks (.ofBytes b) (countAt b 59) (portOffset (countAt b 55)) ∅)) := by
  have hge : 63 ≤ b.length := h63
  obtain ⟨refresh, hrefresh⟩ := answers_readU32 (show 0 + 4 ≤ b.length by omega)
  obtain ⟨seq, hseq⟩ := answers_readU8 (show 4 + 1 ≤ b.length by omega)
  obtain ⟨mac, hmac⟩ := answers_readVec (show 5 + 6 ≤ b.length by omega)
  obtain ⟨ip, hip⟩ := answers_readVec (show 11 + 4 ≤ b.length by omega)
  obtain ⟨numPorts, hports, hnp⟩ := readU32_countAt (show 55 + 4 ≤ b.length by omega)
  obtain ⟨numLinks, hlinks, hnl⟩ := readU32_countAt (show 59 + 4 ≤ b.length by omega)
  have hsize : ¬ (Autobuf.ofBytes b).size < TopologyNode.hdrSize := Nat.not_lt.mpr h63
  rw [TopologyNode.deserialize, if_neg hsize]
  simp only [Autobuf.ofBytes, hrefresh, hseq, hmac, hip, ok_bind]
  rw [answers_bind_iff]
  simp only [hports, hlinks, hnp, hnl, ok_bind]
  refine ⟨?_, ?_⟩
  · rintro ⟨name, hname, h⟩
    refine ⟨answers_readCString_iff.mp ⟨name, hname⟩, ?_⟩
    intro hcheck
    rw [if_neg (Nat.not_lt.mpr hcheck)] at h
    obtain ⟨ports, hp, h⟩ := h.of_bind
    obtain ⟨links, hl, _⟩ := h.of_bind
    exact answers_bind_iff.mpr ⟨ports, hp, links, hl⟩
  · rintro ⟨hend, h⟩
    obtain ⟨name, hname⟩ := answers_readCString_iff.mpr hend
    refine ⟨name, hname, ?_⟩
    split
    · exact answers_ok _
    · rename_i hcheck
      obtain ⟨ports, hp, links, hl⟩ := answers_bind_iff.mp (h (Nat.not_lt.mp hcheck))
      exact answers_bind_iff.mpr ⟨ports, hp, answers_bind_iff.mpr ⟨links, hl, answers_ok _⟩⟩

theorem zero_mem_take_iff (l : Bytes) (n : Nat) :
    (0 : UInt8) ∈ l.take n ↔ (0 : UInt8) ∈ l ∧ (l.takeWhile (· != 0)).length < n := by
  induction l generalizing n with
  | nil => simp
  | cons x l ih =>
      cases n with
      | zero => simp
      | succ n =>
          rw [List.take_succ_cons, List.mem_cons, List.mem_cons, ih]
          by_cases hx : (0 : UInt8) = x
          · simp [← hx]
          · have hne : (x != 0) = true := bne_iff_ne.mpr fun h => hx h.symm
            have hcons : (x :: l).takeWhile (· != 0) = x :: l.takeWhile (· != 0) :=
              List.takeWhile_cons_of_pos (p := (· != 0)) hne
            rw [hcons, List.length_cons, Nat.add_lt_add_iff_right]
            simp [hx]

/-- A name that is read for fewer than 40 characters ends inside its field. -/
theorem nameEnds_iff : NameEnds b off ↔
    (0 : UInt8) ∈ b.drop off ∧ ((b.drop off).takeWhile (· != 0)).length < 40 := zero_mem_take_iff ..

/--
**When an advertisement is decoded within its bounds.** For bytes that a buffer can
hold: they are shorter than the fixed part, or the name of the node ends inside its
field, and if the check of the size is passed, then all the ports and links announced
are there, none of them behind what an `int` can point to, and the name of each port
ends inside its field.
-/
theorem decodedWithin_iff (hb : b.length < 2 ^ 32) :
    DecodedWithin b ↔ b.length < TopologyNode.hdrSize ∨ NameEnds b 15 ∧ (SizeChecked b → RecordsFit b) := by
  by_cases h63 : TopologyNode.hdrSize ≤ b.length
  · rw [or_iff_right (Nat.not_lt.mpr h63), DecodedWithin, answers_node_iff h63, answers_records_iff hb]
    refine ⟨?_, ?_⟩
    · rintro ⟨⟨hend, hrecords⟩, hnames⟩
      refine ⟨nameEnds_iff.mpr ⟨hend, hnames 15 ⟨h63, .inl rfl⟩⟩, ?_⟩
      intro hcheck
      obtain ⟨hports, hlinks⟩ := hrecords hcheck
      refine ⟨fits_of_records hb hcheck hports hlinks, ?_, fun k hk => (hlinks k hk).1⟩
      intro k hk
      obtain ⟨hreach, hportEnd⟩ := hports k hk
      exact ⟨hreach, nameEnds_iff.mpr ⟨hportEnd, hnames _ ⟨h63, .inr ⟨hcheck, k, hk, rfl⟩⟩⟩⟩
    · rintro ⟨hname, hrecords⟩
      refine ⟨⟨(nameEnds_iff.mp hname).1, ?_⟩, ?_⟩
      · intro hcheck
        have hfit := hrecords hcheck
        refine ⟨fun k hk => ⟨(hfit.ports k hk).1, (nameEnds_iff.mp (hfit.ports k hk).2).1⟩, ?_⟩
        intro k hk
        refine ⟨hfit.links k hk, ?_⟩
        have hfits := hfit.fits
        simp only [linkOffset, portOffset, TopologyNode.hdrSize, TopologyNode.portIncrement,
          TopologyNode.linkIncrement, PortState.hdrSize] at hfits ⊢
        omega
      · rintro off ⟨_, hoff⟩
        rcases hoff with rfl | ⟨hcheck, k, hk, rfl⟩
        · exact (nameEnds_iff.mp hname).2
        · exact (nameEnds_iff.mp ((hrecords hcheck).ports k hk).2).2
  · have hshort := Nat.lt_of_not_le h63
    refine ⟨fun _ => .inl hshort, fun _ => ⟨?_, fun off hread => absurd hread.1 h63⟩⟩
    have hsize : (Autobuf.ofBytes b).size < TopologyNode.hdrSize := hshort
    rw [TopologyNode.deserialize, if_pos hsize]
    exact answers_ok _

end Decoding

/-- The node s1, with the port p1, and a link from there to another node. -/
def cabledNode : Bytes :=
  List.replicate 15 0 ++ [115, 49] ++ List.replicate 38 0 ++ [0, 0, 0, 1, 0, 0, 0, 1] ++
    ([0, 1, 0, 1, 1, 0, 0, 112, 49] ++ List.replicate 38 0) ++ [0, 1, 2, 0, 0, 0, 0, 2]

theorem cabledNode_decodedWithin : DecodedWithin cabledNode :=
  (decodedWithin_iff (by decide)).mpr (.inr ⟨by decide, fun _ => ⟨by decide, by decide, by decide⟩⟩)

/-- The fixed part alone, with 2^29 links: their size is 0 in 32 bits. -/
def manyLinks : Bytes := List.replicate 59 0 ++ [0x20, 0, 0, 0]

/-- The first link is read behind the end. -/
theorem manyLinks_overread : ¬ ∀ b : Bytes, b.length < 2 ^ 32 → DecodedWithin b := by
  intro h
  have hanswers := (h manyLinks (by decide)).1
  rw [answers_node_iff (by decide)] at hanswers
  have hrecords := (answers_records_iff (b := manyLinks) (by decide)).mp (hanswers.2 (by decide))
  exact absurd (hrecords.2 0 (by decide)).2 (by decide)

end IronStack.Proof

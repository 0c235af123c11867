import IronStack.Net.EchoDaemon
import IronStack.Proof.PacketCodec

/-!
# Echo requests and their replies

What the echo daemon sends can be parsed, as its headers have the values that come back. The
reply to a request mirrors it: the addresses are exchanged, the tag, the rest of the header
and the data are kept, and it leaves by the port that the request came by. So a request of
one controller that reaches another is answered, and when the answer comes back, the first
one looks for the request.
-/

namespace IronStack.Proof

open Std Lib

namespace EchoDaemon

open IronStack.EchoDaemon IronStack.Proof.PacketCodec IronStack.Proof.IpCodec IronStack.Proof.RawPacket

variable {b data : Bytes} {s s' : EchoDaemon} {p q : Codec.IcmpPacket}

/-! ## Packets of the daemon -/

/-- The header of IPv4 is as the constructor leaves it, but for the addresses. -/
structure PlainHeader (p : Codec.IcmpPacket) : Prop where
  packetType : p.packetType = .icmp
  ethertype : p.ethertype = 0
  version : p.version = 4
  ihl : p.ihl = 5
  dscp : p.dscp = 0
  ecn : p.ecn = 0
  identification : p.identification = 54635
  fragmentOffset : p.fragmentOffset = 0
  protocol : p.protocol = 1
  ipOptions : p.ipOptions = Autobuf.empty

theorem plainHeader_echoReply (q : Codec.IcmpPacket) : PlainHeader (echoReply q) :=
  ⟨rfl, rfl, rfl, rfl, rfl, rfl, rfl, rfl, rfl, rfl⟩

theorem plainHeader_echoRequest (s : EchoDaemon) (call : PingCall) : PlainHeader (s.echoRequest call) :=
  ⟨rfl, rfl, rfl, rfl, rfl, rfl, rfl, rfl, rfl, rfl⟩

/-- The Ethernet parser takes a frame for one of ICMP, whatever it parsed before. -/
def ParsesAsIcmp (frame : Bytes) : Prop :=
  ∀ before : RawPacket, ∃ raw, before.deserialize frame = .ok (true, raw) ∧ raw.packetType = .icmp

namespace PlainHeader

theorem ethertypeToPack (h : PlainHeader p) : p.ethertypeToPack = .ok 0x0800 := by
  rw [IronStack.RawPacket.ethertypeToPack, h.ethertype, h.packetType]
  rfl

theorem inWidth (h : PlainHeader p) (htag : TagInWidth p.toRawPacket) : InWidth p.toIpPacket where
  tag := htag
  version := h.version
  ihl := h.ihl
  dscp := by rw [h.dscp]; decide
  ecn := by rw [h.ecn]; decide
  fragmentOffset := by rw [h.fragmentOffset]; decide
  ipOptions := by rw [h.ipOptions]; rfl

theorem survives (h : PlainHeader p) : HeaderSurvives p.toIpPacket where
  type := ⟨0x0800, h.ethertypeToPack, .inr (.inr ⟨rfl, by rw [h.protocol]; decide⟩)⟩
  dscp := h.dscp
  identification := h.identification
  fragmentOffset := by rw [h.fragmentOffset]; rfl

/-- The Ethernet parser takes the frame for what it is. -/
theorem parsesAsIcmp_frameOf (h : PlainHeader p) (htag : TagInWidth p.toRawPacket) (body : Bytes) :
    ParsesAsIcmp (frameOf p.toIpPacket 0x0800 body) := by
  intro before
  have hbyte : ∀ checksum,
      readU8 (p.toIpPacket.serializeHdr body.length checksum ++ body) 9 = .ok p.protocol := by
    intro checksum
    simp (disch := simp) [Codec.IpPacket.serializeHdr, readU8_append_right]
  have hroom : ∀ checksum, 20 ≤ (p.toIpPacket.serializeHdr body.length checksum ++ body).length := by
    intro checksum
    rw [List.length_append, length_serializeHdr]
    exact Nat.le_add_right _ _
  have hraw : before.deserialize (frameOf p.toIpPacket 0x0800 body) = _ :=
    deserialize_frame htag (.inl (show (0x0800 : UInt16) ≠ 0x8100 by decide))
      (hroom (Codec.IpPacket.checksumIp (p.toIpPacket.serializeHdr body.length 0))) (hbyte _)
  rw [h.protocol] at hraw
  exact ⟨_, hraw, rfl⟩

theorem length_frameOf_le (p : Codec.IcmpPacket) (ethertype : UInt16) (body : Bytes) :
    (frameOf p.toIpPacket ethertype body).length ≤ 38 + body.length := by
  have hle := ethHdrLen_le p.toRawPacket
  rw [IronStack.RawPacket.taggedHdrSize] at hle
  rw [frameOf, List.length_append, List.length_append, length_header, length_serializeHdr,
    Codec.IpPacket.hdrSize]
  omega

/-- **What the daemon sends is parsed again**, by the packet parser and by the Ethernet parser. -/
theorem roundTrip (h : PlainHeader p) (htag : TagInWidth p.toRawPacket) (hdata : p.data.content = .ok data)
    (hfits : 28 + data.length < 2 ^ 16) :
    ∃ frame q, p.serialize = .ok frame ∧ ParsesAsIcmp frame ∧
      Codec.IcmpPacket.deserialize frame = .ok (some q) ∧ Icmp.Reproduces p q data ∧
      frame.length ≤ 46 + data.length := by
  have hwidth := h.inWidth htag
  have hlong : Codec.IpPacket.hdrSize + (Codec.IcmpPacket.hdrSize + data.length) < 2 ^ 16 := by
    rw [Codec.IpPacket.hdrSize, Codec.IcmpPacket.hdrSize]
    omega
  obtain ⟨frame, q, hser, hdes, hsame⟩ := (Icmp.roundTrips_iff ⟨hwidth, hdata, hlong⟩).mpr h.survives
  obtain rfl := Except.ok.inj
    ((Icmp.serialize_eq hwidth.ipOptions hdata hlong h.ethertypeToPack).symm.trans hser)
  have hlength := length_frameOf_le p 0x0800 (Icmp.message p data)
  rw [Icmp.length_message, Codec.IcmpPacket.hdrSize] at hlength
  exact ⟨_, q, hser, h.parsesAsIcmp_frameOf htag (Icmp.message p data), hdes, hsame, by omega⟩

end PlainHeader

/-! ## What the daemon answers -/

theorem tagInWidth_setVlanTag (raw : RawPacket) (word ethertype : UInt16) :
    TagInWidth (raw.setVlanTag word ethertype) := by
  intro _
  have hlt := UInt16.toNat_lt word
  refine ⟨?_, ?_⟩
  · rw [UInt8.lt_iff_toNat_lt]
    simp only [IronStack.RawPacket.setVlanTag, UInt16.toNat_toUInt8, UInt16.toNat_shiftRight,
      UInt16.reduceToNat, UInt8.reduceToNat, Nat.reduceMod, Nat.shiftRight_eq_div_pow]
    omega
  · rw [UInt16.lt_iff_toNat_lt]
    change (word &&& 0x0fff).toNat < 4096
    rw [UInt16.toNat_and]
    exact Nat.lt_of_le_of_lt Nat.and_le_right (by decide)

/-- A tag that was parsed has its fields in their width. -/
theorem tagInWidth_of_deserialize {before raw : RawPacket} (h : before.deserialize b = .ok (true, raw)) :
    TagInWidth raw := by
  rw [IronStack.RawPacket.deserialize] at h
  split at h
  · cases h
  · obtain ⟨destMac, -, h⟩ := bind_eq_ok.mp h
    obtain ⟨srcMac, -, h⟩ := bind_eq_ok.mp h
    obtain ⟨type, -, h⟩ := bind_eq_ok.mp h
    dsimp only at h
    split at h
    · split at h
      · cases h
      · obtain ⟨word, -, h⟩ := bind_eq_ok.mp h
        obtain ⟨inner, -, h⟩ := bind_eq_ok.mp h
        obtain ⟨packetType, hpacket⟩ := exists_packetTypeOf inner b IronStack.RawPacket.taggedHdrSize
        obtain ⟨-, rfl⟩ := setPacketType_accepted hpacket h
        exact tagInWidth_setVlanTag
          { before with destMac := ⟨destMac⟩, srcMac := ⟨srcMac⟩, ethertype := type } word inner
    · obtain ⟨packetType, hpacket⟩ := exists_packetTypeOf type b IronStack.RawPacket.untaggedHdrSize
      obtain ⟨-, rfl⟩ := setPacketType_accepted hpacket h
      intro htag
      cases htag

/-- What is in an IP packet that was parsed is behind its headers. -/
theorem payload_of_deserialize {ip : Codec.IpPacket} (h : Codec.IpPacket.deserialize b = .ok (some ip)) :
    ∃ hdr, 14 ≤ hdr ∧ ip.ipPayload.memory = b.drop (hdr + 20) := by
  rw [Codec.IpPacket.deserialize] at h
  obtain ⟨⟨status, raw⟩, hraw, h⟩ := bind_eq_ok.mp h
  cases status with
  | false => cases h
  | true =>
      simp only [Bool.not_true, Bool.false_eq_true, if_false] at h
      obtain ⟨versionIhl, -, h⟩ := bind_eq_ok.mp h
      split at h
      · cases h
      · split at h
        · cases h
        · obtain ⟨dscpEcn, -, h⟩ := bind_eq_ok.mp h
          obtain ⟨totalLen, -, h⟩ := bind_eq_ok.mp h
          split at h
          · cases h
          · obtain ⟨identification, -, h⟩ := bind_eq_ok.mp h
            obtain ⟨flagsFragOffset, -, h⟩ := bind_eq_ok.mp h
            split at h
            · cases h
            · obtain ⟨fragOffset, -, h⟩ := bind_eq_ok.mp h
              obtain ⟨ttl, -, h⟩ := bind_eq_ok.mp h
              obtain ⟨protocol, -, h⟩ := bind_eq_ok.mp h
              obtain ⟨ipHdrChecksum, -, h⟩ := bind_eq_ok.mp h
              obtain ⟨srcIp, -, h⟩ := bind_eq_ok.mp h
              obtain ⟨destIp, -, h⟩ := bind_eq_ok.mp h
              obtain rfl := Option.some.inj (Except.ok.inj h)
              exact ⟨raw.ethHdrLen, untaggedHdrSize_le raw, rfl⟩

/-- The data of a packet that was parsed are behind its headers, or there are none. -/
theorem data_of_deserialize (h : Codec.IcmpPacket.deserialize b = .ok (some q)) :
    ∃ hdr, 14 ≤ hdr ∧ (q.data.memory = b.drop (hdr + 28) ∨ q.data = Autobuf.empty) := by
  obtain ⟨ip?, hip, h⟩ := bind_eq_ok.mp h
  cases ip? with
  | none => cases h
  | some ip =>
      obtain ⟨hdr, hhdr, hmemory⟩ := payload_of_deserialize hip
      dsimp only at h
      split at h
      · cases h
      · obtain ⟨icmpPktType, -, h⟩ := bind_eq_ok.mp h
        obtain ⟨code, -, h⟩ := bind_eq_ok.mp h
        obtain ⟨checksum, -, h⟩ := bind_eq_ok.mp h
        obtain ⟨icmpHdrRest, -, h⟩ := bind_eq_ok.mp h
        obtain rfl := Option.some.inj (Except.ok.inj h)
        refine ⟨hdr, hhdr, ?_⟩
        dsimp only
        split
        · left
          dsimp only
          rw [hmemory, List.drop_drop, Codec.IcmpPacket.hdrSize]
        · exact .inr rfl

/-- The data of a packet that was parsed, if they are there, fit into a packet again. -/
theorem fits_of_deserialize (h : Codec.IcmpPacket.deserialize b = .ok (some q)) (hdata : q.data.content = .ok data)
    (hshort : b.length < 2 ^ 16) : 28 + data.length < 2 ^ 16 := by
  have hsize := size_of_content hdata
  obtain ⟨hdr, hhdr, hmemory | hempty⟩ := data_of_deserialize h
  · have hroom : 0 + q.data.size ≤ q.data.memory.length := by
      rw [Autobuf.content, slice] at hdata
      split at hdata
      · assumption
      · cases hdata
    rw [hmemory, List.length_drop] at hroom
    omega
  · rw [hempty] at hsize
    change 0 = data.length at hsize
    omega

/-- A packet is for the controller, which is ready to answer. -/
structure Addressed (s : EchoDaemon) (q : Codec.IcmpPacket) : Prop where
  initialized : s.initialized = true
  ip : q.destIp = s.switchState.switchIpAddress
  mac : q.destMac = s.switchMac
  ip_ne : s.switchState.switchIpAddress.isNil = false
  mac_ne : s.switchMac.isNil = false

/-- What the controller makes of a packet for it. -/
theorem filterPacket_addressed {packet : PacketIn} {rawPkt : RawPacket} (h : Addressed s q)
    (htype : rawPkt.packetType = .icmp) (hdes : Codec.IcmpPacket.deserialize packet.pktData = .ok (some q)) :
    s.filterPacket packet rawPkt =
      if q.icmpPktType = 0 ∧ q.code = 0 ∧ q.data.size = 4 then (s.noteReply q).map fun s => (true, s)
      else if q.icmpPktType = 8 ∧ q.code = 0 then (s.answerRequest packet q).map fun s => (true, s)
      else .ok (false, s) := by
  have hforme : ¬ (q.destIp ≠ s.switchState.switchIpAddress ∨ q.destMac ≠ s.switchMac) := by
    rw [not_or, Decidable.not_not, Decidable.not_not]
    exact ⟨h.ip, h.mac⟩
  rw [filterPacket, h.initialized, htype, hdes]
  simp only [ok_bind, h.ip_ne, h.mac_ne, if_neg hforme]
  rfl

/-- The reply to a request, as whoever sent the request parses it. -/
structure Mirrors (q r : Codec.IcmpPacket) (data : Bytes) : Prop where
  isReply : r.icmpPktType = 0 ∧ r.code = 0
  srcIp : r.srcIp = q.destIp
  destIp : r.destIp = q.srcIp
  srcMac : r.srcMac = q.destMac
  destMac : r.destMac = q.srcMac
  tag : tag r.toRawPacket = tag q.toRawPacket
  icmpHdrRest : r.icmpHdrRest = q.icmpHdrRest
  checksum : r.checksum = Icmp.wireChecksum (echoReply q) data
  content : r.data.content = .ok data

theorem tag_echoReply (q : Codec.IcmpPacket) : tag (echoReply q).toRawPacket = tag q.toRawPacket := by
  unfold tag
  simp only [echoReply]
  split <;> rfl

theorem mirrors_of_reproduces {r : Codec.IcmpPacket} (h : Icmp.Reproduces (echoReply q) r data) :
    Mirrors q r data where
  isReply := ⟨h.icmpPktType, h.code⟩
  srcIp := h.ip.srcIp
  destIp := h.ip.destIp
  srcMac := h.ip.srcMac
  destMac := h.ip.destMac
  tag := h.ip.tag.trans (tag_echoReply q)
  icmpHdrRest := h.icmpHdrRest
  checksum := h.checksum
  content := h.data

/-- A packet to a single port is one message, with one action. -/
theorem sendPacket_one {c : PacketHal} (h : c.switchReady = true) (packet : Bytes) (port : UInt16) :
    (c.sendPacket packet (ExtTreeSet.ofList [port])).1 =
      { c with
        pendingTransactions := c.pendingTransactions ++
          [⟨packet, OpenflowActionList.clear.addAction (.outputToPort false port)⟩] } := by
  rw [PacketHal.sendPacket, h]
  rfl

/--
**A request is answered on the port that it came by**, with one frame, which is parsed as
its reply: the addresses are exchanged, and the tag, the rest of the header and the data
are those of the request.
-/
theorem echo_mirrored {packet : PacketIn} {rawPkt : RawPacket} (h : Addressed s q)
    (hready : s.controller.switchReady = true) (htype : rawPkt.packetType = .icmp)
    (hdes : Codec.IcmpPacket.deserialize packet.pktData = .ok (some q))
    (hrequest : q.icmpPktType = 8 ∧ q.code = 0) (hdata : q.data.content = .ok data) :
    ∃ frame r, s.filterPacket packet rawPkt = .ok (true, { s with
        controller := { s.controller with
          pendingTransactions := s.controller.pendingTransactions ++
            [⟨frame, OpenflowActionList.clear.addAction (.outputToPort false packet.inPort)⟩] } }) ∧
      ParsesAsIcmp frame ∧ Codec.IcmpPacket.deserialize frame = .ok (some r) ∧ Mirrors q r data ∧
      frame.length ≤ 46 + data.length := by
  have htagged : TagInWidth (echoReply q).toRawPacket := by
    have hwidth := tagInWidth_of_deserialize (deserialize_inv (Icmp.ip_of_deserialize hdes))
    intro htag
    have htag' : q.hasVlanTag = true := htag
    simp only [echoReply, htag', if_true]
    exact hwidth htag'
  obtain ⟨frame, r, hser, hicmp, hback, hsame, hlen⟩ :=
    (plainHeader_echoReply q).roundTrip htagged hdata (fits_of_deserialize hdes hdata packet.size_lt)
  have hnot : ¬ (q.icmpPktType = 0 ∧ q.code = 0 ∧ q.data.size = 4) := by
    rw [hrequest.1]
    exact fun hzero => absurd hzero.1 (by decide)
  refine ⟨frame, r, ?_, hicmp, hback, mirrors_of_reproduces hsame, hlen⟩
  rw [filterPacket_addressed h htype hdes, if_neg hnot, if_pos hrequest, answerRequest, hser, ok_bind,
    sendPacket_one hready]
  rfl

/-! ## From one controller to another and back -/

/-- A frame comes in, and the packet processing thread has parsed its header. -/
structure Arrives (frame : Bytes) (packet : PacketIn) (rawPkt : RawPacket) : Prop where
  pktData : packet.pktData = frame
  parsed : ∃ before : RawPacket, before.deserialize frame = .ok (true, rawPkt)

/-- The number is read from the data it was put into. -/
theorem readU32_of_content {buf : Autobuf} {v : UInt32} (h : buf.content = .ok (be32 v)) :
    buf.size = 4 ∧ readU32 buf.memory 0 = .ok v := by
  have hsize : buf.size = 4 := (size_of_content h).trans (length_be32 v)
  refine ⟨hsize, ?_⟩
  have hread : readU32 (be32 v ++ []) 0 = .ok v := readU32_be32 v []
  have hslice : slice (be32 v ++ []) 0 4 = .ok (be32 v) := by simpa using slice_append_left (be32 v) []
  rw [Autobuf.content, hsize] at h
  rw [readU32, hslice] at hread
  rw [readU32, h, hread]

theorem tagInWidth_echoRequest (s : EchoDaemon) (call : PingCall) :
    TagInWidth (s.echoRequest call).toRawPacket := by
  intro htag
  cases htag

theorem content_echoRequest (s : EchoDaemon) (call : PingCall) :
    (s.echoRequest call).data.content = .ok (be32 (s.requests call.request).seq) := by
  have h := content_whole (be32 (s.requests call.request).seq)
  rw [length_be32] at h
  exact h

/-- **A reply is for the request** under the number in its data. -/
theorem filterPacket_reply {packet : PacketIn} {rawPkt : RawPacket} {v : UInt32} (h : Addressed s q)
    (htype : rawPkt.packetType = .icmp) (hdes : Codec.IcmpPacket.deserialize packet.pktData = .ok (some q))
    (hreply : q.icmpPktType = 0 ∧ q.code = 0) (hdata : q.data.content = .ok (be32 v)) :
    s.filterPacket packet rawPkt = .ok (true, { s with filter := .looking v }) := by
  obtain ⟨hsize, hread⟩ := readU32_of_content hdata
  rw [filterPacket_addressed h htype hdes, if_pos ⟨hreply.1, hreply.2, hsize⟩, noteReply, hread]
  rfl

theorem Arrives.packetType {frame : Bytes} {packet : PacketIn} {rawPkt : RawPacket}
    (h : Arrives frame packet rawPkt) (hicmp : ParsesAsIcmp frame) : rawPkt.packetType = .icmp := by
  obtain ⟨before, hparsed⟩ := h.parsed
  obtain ⟨raw, hraw, htype⟩ := hicmp before
  obtain ⟨-, rfl⟩ := Prod.mk.inj (Except.ok.inj (hparsed.symm.trans hraw))
  exact htype

/-- The controller is at work, and has these addresses. -/
structure Reachable (s : EchoDaemon) (ip : IpAddress) (mac : MacAddress) : Prop where
  initialized : s.initialized = true
  ip_ne : ip.isNil = false
  mac_ne : mac.isNil = false
  switchIpAddress : s.switchState.switchIpAddress = ip
  switchMac : s.switchMac = mac

theorem Reachable.addressed {ip : IpAddress} {mac : MacAddress} (h : Reachable s ip mac)
    (hip : q.destIp = ip) (hmac : q.destMac = mac) : Addressed s q where
  initialized := h.initialized
  ip := hip.trans h.switchIpAddress.symm
  mac := hmac.trans h.switchMac.symm
  ip_ne := by rw [h.switchIpAddress, h.ip_ne]
  mac_ne := by rw [h.switchMac, h.mac_ne]

/-- The frame of a request goes out in one message. -/
theorem send_eq {thread : Nat} {call : PingCall} {frame : Bytes} (hcall : s.pings thread = some call)
    (hphase : call.phase = .registered) (hready : s.controller.switchReady = true)
    (hser : (s.echoRequest call).serialize = .ok frame) :
    ∃ s' actions, s.send thread = some s' ∧
      s'.controller.pendingTransactions = s.controller.pendingTransactions ++ [⟨frame, actions⟩] := by
  have hgo : s.goOn thread .registered .waiting =
      some (call, s.setPing thread { call with phase := .waiting }) := by
    rw [goOn, hcall]
    exact if_pos hphase
  have hser' : (s.setPing thread { call with phase := .waiting }).echoRequest call = s.echoRequest call := rfl
  have hsend : s.send thread = some { s.setPing thread { call with phase := .waiting } with
      controller := (s.controller.sendPacket frame call.ports).1 } := by
    rw [send, hgo, Option.bind_eq_bind, Option.bind_some]
    dsimp only
    rw [hser', hser]
    rfl
  refine ⟨_, call.ports.toList.foldl (fun l port => l.addAction (.outputToPort false port)) .clear, hsend, ?_⟩
  dsimp only
  rw [PacketHal.sendPacket, hready]
  rfl

/--
**A ping comes back.** The frame that `ping` sends to another controller makes that one send
a frame back by the port that it came by; and when this frame comes to the first one, its
packet processing thread looks for the request of the ping.
-/
theorem ping_comes_back {alice alice' bob : EchoDaemon} {thread : Nat} {call : PingCall}
    {ip : IpAddress} {mac : MacAddress} (hcall : alice.pings thread = some call)
    (hphase : call.phase = .registered) (halice : Reachable alice ip mac)
    (hready : alice.controller.switchReady = true) (hbob : Reachable bob call.dest call.destMac)
    (hbobReady : bob.controller.switchReady = true) (halice' : Reachable alice' ip mac) :
    ∃ frame actions s, alice.send thread = some s ∧
      s.controller.pendingTransactions = alice.controller.pendingTransactions ++ [⟨frame, actions⟩] ∧
      ∀ packet rawPkt, Arrives frame packet rawPkt → ∃ reply s', bob.filterPacket packet rawPkt = .ok (true, s') ∧
        s'.controller.pendingTransactions = bob.controller.pendingTransactions ++
          [⟨reply, OpenflowActionList.clear.addAction (.outputToPort false packet.inPort)⟩] ∧
        ∀ packet' rawPkt', Arrives reply packet' rawPkt' → alice'.filterPacket packet' rawPkt' =
          .ok (true, { alice' with filter := .looking (alice.requests call.request).seq }) := by
  have hfits : 28 + (be32 (alice.requests call.request).seq).length < 2 ^ 16 := by
    rw [length_be32]
    decide
  obtain ⟨frame, q, hser, hicmp, hdes, hsame, -⟩ := (plainHeader_echoRequest alice call).roundTrip
    (tagInWidth_echoRequest alice call) (content_echoRequest alice call) hfits
  obtain ⟨s, actions, hsend, hout⟩ := send_eq hcall hphase hready hser
  refine ⟨frame, actions, s, hsend, hout, ?_⟩
  intro packet rawPkt harrives
  obtain rfl := harrives.pktData
  have haddressed : Addressed bob q := hbob.addressed hsame.ip.destIp hsame.ip.destMac
  obtain ⟨reply, r, hfilter, hicmp', hback, hmirrors, -⟩ := echo_mirrored haddressed hbobReady
    (harrives.packetType hicmp) hdes ⟨hsame.icmpPktType, hsame.code⟩ hsame.data
  refine ⟨reply, _, hfilter, rfl, ?_⟩
  intro packet' rawPkt' harrives'
  obtain rfl := harrives'.pktData
  have haddressed' : Addressed alice' r :=
    halice'.addressed ((hmirrors.destIp.trans hsame.ip.srcIp).trans halice.switchIpAddress)
      ((hmirrors.destMac.trans hsame.ip.srcMac).trans halice.switchMac)
  exact filterPacket_reply haddressed' (harrives'.packetType hicmp') hback hmirrors.isReply hmirrors.content

/-- A controller that is at work. -/
def daemonAt (ip : IpAddress) (mac : MacAddress) : EchoDaemon :=
  { initialized := true, switchMac := mac, switchState := { switchIpAddress := ip }, controller := ⟨true, []⟩ }

theorem reachable_daemonAt {ip : IpAddress} {mac : MacAddress} (hip : ip.isNil = false) (hmac : mac.isNil = false) :
    Reachable (daemonAt ip mac) ip mac :=
  ⟨rfl, hip, hmac, rfl, rfl⟩

/-- It pings another one. -/
def firstPing : EchoDaemon :=
  (daemonAt (.ofOctets 10 0 0 1) (.ofOctets 0 1 2 3 4 5)).enqueue 0 (.ofOctets 10 0 0 2) (.ofOctets 0 1 2 3 4 6)
    ((∅ : ExtTreeSet UInt16).insert 1)

theorem firstPing_comes_back : ∃ frame s, firstPing.send 0 = some s ∧ ∀ packet rawPkt, Arrives frame packet rawPkt →
    ∃ reply s', (daemonAt (.ofOctets 10 0 0 2) (.ofOctets 0 1 2 3 4 6)).filterPacket packet rawPkt = .ok (true, s') ∧
      ∀ packet' rawPkt', Arrives reply packet' rawPkt' →
        firstPing.filterPacket packet' rawPkt' = .ok (true, { firstPing with filter := .looking 0 }) := by
  have hpinger : Reachable firstPing (.ofOctets 10 0 0 1) (.ofOctets 0 1 2 3 4 5) := ⟨rfl, rfl, rfl, rfl, rfl⟩
  have hpinged : Reachable (daemonAt (.ofOctets 10 0 0 2) (.ofOctets 0 1 2 3 4 6)) (.ofOctets 10 0 0 2)
      (.ofOctets 0 1 2 3 4 6) := reachable_daemonAt rfl rfl
  have hcall : firstPing.pings 0 =
      some ⟨0, .ofOctets 10 0 0 2, .ofOctets 0 1 2 3 4 6, (∅ : ExtTreeSet UInt16).insert 1, .registered⟩ := rfl
  obtain ⟨frame, _, s, hsend, -, hcomes⟩ := ping_comes_back hcall rfl hpinger rfl hpinged rfl hpinger
  refine ⟨frame, s, hsend, fun packet rawPkt harrives => ?_⟩
  obtain ⟨reply, s', hfilter, -, hback⟩ := hcomes packet rawPkt harrives
  exact ⟨reply, s', hfilter, hback⟩

end EchoDaemon

end IronStack.Proof

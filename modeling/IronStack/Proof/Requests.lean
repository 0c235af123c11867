import IronStack.OpenFlow.Requests
import IronStack.Proof.Framing
import IronStack.Proof.FlowMod
import IronStack.Proof.PacketMessages

/-!
# What the controller sends can be read

Whatever class a message is of, its header announces the size of the message cut
down to sixteen bits. A stream of messages falls apart into these messages exactly
if none of them is as large as 64 KiB.
-/

namespace IronStack.Proof

open IronStack Lib OfAction OpenflowActionList

/-! ## Every message announces its size -/

/-- A message as it was serialized: a header, with the size in the sixteen bits there are for it. -/
structure Sized (bytes : Bytes) : Prop where
  header : 8 ≤ bytes.length
  announced : headerLength bytes = bytes.length % 2 ^ 16

theorem headerLength_of_be16 (version type : UInt8) (size : UInt16) (behind : Bytes) :
    headerLength ([version, type] ++ (be16 size ++ behind)) = size.toNat := by
  have hread : readU16 ([version, type] ++ (be16 size ++ behind)) 2 = .ok size := by
    simp only [List.cons_append, List.nil_append, readU16_cons_succ, readU16_be16]
  rw [headerLength, hread]

/-- A message with its size, or a size that differs from it by a multiple of 64 KiB, in its header. -/
theorem sized_of_be16 {version type : UInt8} {size : Nat} {behind : Bytes}
    (hlen : 4 ≤ behind.length) (hsize : size % 2 ^ 16 = (4 + behind.length) % 2 ^ 16) :
    Sized ([version, type] ++ (be16 (UInt16.ofNat size) ++ behind)) := by
  have htotal : ([version, type] ++ (be16 (UInt16.ofNat size) ++ behind)).length =
      4 + behind.length := by
    simp only [List.length_append, List.length_cons, List.length_nil, length_be16]
    omega
  refine ⟨by omega, ?_⟩
  rw [headerLength_of_be16, htotal, UInt16.toNat_ofNat', hsize]

theorem sized_messageHeader {version type : UInt8} {size : Nat} {xid : UInt32} {behind : Bytes}
    (hsize : size % 2 ^ 16 = (8 + behind.length) % 2 ^ 16) :
    Sized (messageHeader version type size xid ++ behind) := by
  have hassoc : messageHeader version type size xid ++ behind =
      [version, type] ++ (be16 (UInt16.ofNat size) ++ (be32 xid ++ behind)) := by
    simp only [messageHeader, MessageHeader.serialize, List.append_assoc]
  have hlen : (be32 xid ++ behind).length = 4 + behind.length := by
    rw [List.length_append, length_be32]
  rw [hassoc]
  exact sized_of_be16 (by omega) (by rw [hlen, ← Nat.add_assoc, hsize])

theorem sized_statsRequest {version : UInt8} {xid : UInt32} {size : Nat} {type : UInt16}
    {behind : Bytes} (hsize : size % 2 ^ 16 = (12 + behind.length) % 2 ^ 16) :
    Sized (statsRequestHeader version xid (UInt16.ofNat size) type ++ behind) := by
  have hassoc : statsRequestHeader version xid (UInt16.ofNat size) type ++ behind =
      [version, Ofpt.statsRequest] ++ (be16 (UInt16.ofNat size) ++
        (be32 xid ++ (be16 type ++ (be16 0 ++ behind)))) := by
    simp only [statsRequestHeader, List.append_assoc]
  have hlen : (be32 xid ++ (be16 type ++ (be16 0 ++ behind))).length = 8 + behind.length := by
    simp only [List.length_append, length_be32, length_be16]
    omega
  rw [hassoc]
  exact sized_of_be16 (by omega) (by rw [hlen, ← Nat.add_assoc, hsize])

/-- A place that is found in a buffer, and the bound that finding it puts on the size. -/
theorem lt_of_ptrOffsetMutable {size offset : Nat} (hsize : size < 2 ^ 32) (hoffset : offset < 2 ^ 32)
    (h : ptrOffsetMutable size offset = .ok ()) : offset < size ∧ size < 2 ^ 31 := by
  obtain ⟨hnonneg, hlt⟩ := ptrOffsetMutable_eq_ok_iff.mp h
  have hsmall : size < 2 ^ 31 := by
    by_contra hge
    have hneg := asInt_neg (Nat.le_of_not_lt hge) hsize
    omega
  have hoff : offset < 2 ^ 31 := by
    by_contra hge
    have hneg := asInt_neg (Nat.le_of_not_lt hge) hoffset
    omega
  rw [asInt_of_lt hsmall, asInt_of_lt hoff] at hlt
  exact ⟨by omega, hsmall⟩

/-- What is behind the header of a message that carries bytes, and how large it can be. -/
theorem serializeEcho_eq_ok {version type : UInt8} {xid : UInt32} {data bytes : Bytes}
    (hdata : data.length < 2 ^ 32) (h : serializeEcho version type xid data = .ok bytes) :
    bytes = messageHeader version type (8 + data.length) xid ++ data ∧ 8 + data.length < 2 ^ 31 := by
  unfold serializeEcho at h
  dsimp only at h
  split at h
  · cases h
  · rename_i hroom
    have hmod : (8 + data.length) % 2 ^ 32 = 8 + data.length := Nat.mod_eq_of_lt (by omega)
    rw [hmod] at h
    split at h
    · obtain ⟨_, hptr, h⟩ := bind_eq_ok.mp h
      cases h
      exact ⟨rfl, (lt_of_ptrOffsetMutable (by omega) (by omega) hptr).2⟩
    · cases h
      exact ⟨rfl, by omega⟩

theorem serializeVendor_eq_ok {version : UInt8} {xid vendorId : UInt32} {request bytes : Bytes}
    (hrequest : request.length < 2 ^ 32)
    (h : serializeVendor version xid vendorId request = .ok bytes) :
    bytes = messageHeader version Ofpt.vendor (12 + request.length) xid ++ (be32 vendorId ++ request) ∧
      request ≠ [] ∧ 12 + request.length < 2 ^ 31 := by
  unfold serializeVendor at h
  dsimp only at h
  split at h
  · cases h
  · rename_i hroom
    have hmod : (12 + request.length) % 2 ^ 32 = 12 + request.length := Nat.mod_eq_of_lt (by omega)
    rw [hmod] at h
    obtain ⟨_, hptr, h⟩ := bind_eq_ok.mp h
    cases h
    obtain ⟨hinside, hsmall⟩ := lt_of_ptrOffsetMutable (by omega) (by omega) hptr
    exact ⟨rfl, List.length_pos_iff.mp (by omega), hsmall⟩

/-- The actions take the bytes that were counted, and they are counted without wrapping around. -/
theorem serializeList_eq_ok {junk : Nat → UInt8} {l : OpenflowActionList} {actions : Bytes}
    (h : l.serialize junk = .ok actions) :
    l.getSerializationSize = actions.length ∧ actions.length < 2 ^ 31 := by
  rw [serialize_eq_serializeAt] at h
  have hlen := length_serializeAt h
  have hmod : l.getSerializationSize = (0 + totalSize l.actions) % 2 ^ 32 := by
    rw [Nat.zero_add]
    rfl
  have hlt : totalSize l.actions < 2 ^ 31 := by
    cases hl : l.actions with
    | nil => simp [totalSize]
    | cons a rest =>
        have hlt := totalSize_lt_of_serializeAt (by simp [hl]) hmod (by omega) h
        rwa [Nat.zero_add, hl] at hlt
  omega

theorem flowMod_eq_ok {m : OfMessageModifyFlow} {bytes : Bytes} (h : m.serialize = .ok bytes) :
    ∃ actions, bytes = m.serializeFixed (72 + actions.length) ++ actions ∧
      72 + actions.length < 2 ^ 31 := by
  simp only [OfMessageModifyFlow.serialize] at h
  split at h
  · cases h
  · split at h
    · obtain ⟨_, hptr, h⟩ := bind_eq_ok.mp h
      obtain ⟨actions, hactions, h⟩ := bind_eq_ok.mp h
      rw [OfMessageModifyFlow.fixedSize] at h hptr
      obtain ⟨hlen, hlt⟩ := serializeList_eq_ok hactions
      have hmod : (72 + actions.length) % 2 ^ 32 = 72 + actions.length := Nat.mod_eq_of_lt (by omega)
      rw [hlen, hmod] at h hptr
      cases h
      exact ⟨actions, rfl, (lt_of_ptrOffsetMutable (by omega) (by omega) hptr).2⟩
    · rename_i hnone
      have hzero : m.flowDescription.actionList.getSerializationSize = 0 := Nat.eq_zero_of_not_pos hnone
      rw [hzero] at h
      cases h
      exact ⟨[], by rw [List.append_nil]; rfl, by decide⟩

theorem packetOut_eq_ok {junk : Nat → UInt8} {m : OfMessagePacketOut} {bytes : Bytes}
    (hdata : m.packetData.length < 2 ^ 32) (h : m.serialize junk = .ok bytes) :
    ∃ actions, bytes = m.serializeFixed (16 + actions.length + m.packetData.length) actions.length ++
        (actions ++ m.packetData) ∧
      16 + actions.length + m.packetData.length < 2 ^ 31 := by
  simp only [OfMessagePacketOut.serialize, serializeShared_eq] at h
  split at h
  · cases h
  · rename_i hroom
    obtain ⟨_, hptr, h⟩ := bind_eq_ok.mp h
    obtain ⟨actions, hactions, h⟩ := bind_eq_ok.mp h
    obtain ⟨hlen, hlt⟩ := serializeList_eq_ok hactions
    rw [hlen, OfMessagePacketOut.fixedSize] at h hptr hroom
    refine ⟨actions, ?_⟩
    split at h
    · obtain ⟨_, hbehind, h⟩ := bind_eq_ok.mp h
      obtain ⟨hinside, hsmall⟩ := lt_of_ptrOffsetMutable (Nat.mod_lt _ (by omega)) (by omega) hbehind
      -- the data would begin behind a size that wrapped around
      have hmod : (16 + actions.length + m.packetData.length) % 2 ^ 32 =
          16 + actions.length + m.packetData.length := by omega
      rw [hmod] at h hsmall
      cases h
      exact ⟨by rw [List.append_assoc], hsmall⟩
    · rename_i hnone
      have hnil := List.length_eq_zero_iff.mp (Nat.eq_zero_of_not_pos hnone)
      obtain ⟨_, hsmall⟩ := lt_of_ptrOffsetMutable (Nat.mod_lt _ (by omega)) (by omega) hptr
      have hmod : (16 + actions.length + m.packetData.length) % 2 ^ 32 =
          16 + actions.length + m.packetData.length := by
        rw [hnil, List.length_nil]
        omega
      rw [hmod] at h hsmall
      cases h
      exact ⟨by rw [hnil, List.append_nil], hsmall⟩

/-- What `serialize` of every class returns. -/
structure Sound (bytes : Bytes) : Prop extends Sized bytes where
  /-- So that the size is the same as an `int`. -/
  small : bytes.length < 2 ^ 31

theorem sound_messageHeader {version type : UInt8} {size : Nat} {xid : UInt32} {behind : Bytes}
    (hsize : size = 8 + behind.length) (hlt : size < 2 ^ 31) :
    Sound (messageHeader version type size xid ++ behind) := by
  refine ⟨sized_messageHeader (by rw [hsize]), ?_⟩
  have hlen : (messageHeader version type size xid).length = 8 := by
    simp [messageHeader, MessageHeader.serialize]
  rw [List.length_append, hlen]
  omega

theorem sound_statsRequest {version : UInt8} {xid : UInt32} (size : Nat) {type : UInt16}
    {behind : Bytes} (hsize : size = 12 + behind.length) (hlt : size < 2 ^ 31) :
    Sound (statsRequestHeader version xid (UInt16.ofNat size) type ++ behind) := by
  refine ⟨sized_statsRequest (by rw [hsize]), ?_⟩
  have hlen : (statsRequestHeader version xid (UInt16.ofNat size) type).length = 12 := by
    simp [statsRequestHeader]
  rw [List.length_append, hlen]
  omega

theorem sound_flowMod {m : OfMessageModifyFlow} {actions : Bytes} (hlt : 72 + actions.length < 2 ^ 31) :
    Sound (m.serializeFixed (72 + actions.length) ++ actions) := by
  have hlen := length_flowModFixed m (72 + actions.length)
  rw [OfMessageModifyFlow.fixedSize] at hlen
  have hheader : ∃ behind, m.serializeFixed (72 + actions.length) =
      [m.version, Ofpt.flowMod] ++ (be16 (UInt16.ofNat (72 + actions.length)) ++ behind) := ⟨_, rfl⟩
  obtain ⟨behind, hbehind⟩ := hheader
  have hrest : behind.length = 68 := by
    rw [hbehind] at hlen
    simp only [List.length_append, List.length_cons, List.length_nil, length_be16] at hlen
    omega
  refine ⟨?_, by rw [List.length_append, hlen]; exact hlt⟩
  rw [hbehind, List.append_assoc, List.append_assoc]
  exact sized_of_be16 (by rw [List.length_append]; omega)
    (by rw [List.length_append, hrest, ← Nat.add_assoc])

theorem sound_packetOut {m : OfMessagePacketOut} {actions : Bytes}
    (hlt : 16 + actions.length + m.packetData.length < 2 ^ 31) :
    Sound (m.serializeFixed (16 + actions.length + m.packetData.length) actions.length ++
      (actions ++ m.packetData)) := by
  have hlen := length_packetOutFixed m (16 + actions.length + m.packetData.length) actions.length
  rw [OfMessagePacketOut.fixedSize] at hlen
  refine ⟨?_, by rw [List.length_append, hlen, List.length_append]; omega⟩
  rw [OfMessagePacketOut.serializeFixed]
  simp only [List.append_assoc]
  refine sized_of_be16 ?_ ?_
  · simp only [List.length_append, length_be32, length_be16]
    omega
  · simp only [List.length_append, length_be32, length_be16]
    congr 1
    omega

/-- A bare header. -/
theorem sound_header (version type : UInt8) (xid : UInt32) : Sound (messageHeader version type 8 xid) := by
  have h := @sound_messageHeader version type 8 xid [] rfl (by decide)
  rwa [List.append_nil] at h

theorem sound_bareStatsRequest (version : UInt8) (xid : UInt32) (type : UInt16) :
    Sound (statsRequestHeader version xid 12 type) := by
  have h := @sound_statsRequest version xid 12 type [] rfl (by decide)
  rwa [List.append_nil] at h

/-- **Every class announces the size of what it writes, in sixteen bits.** -/
theorem sound_serialize {junk : Nat → UInt8} {m : ControllerMessage} {bytes : Bytes}
    (hpayload : m.payload.length < 2 ^ 32) (h : m.serialize junk = .ok bytes) : Sound bytes := by
  cases m with
  | hello version xid =>
      cases h
      exact sound_header ..
  | echoRequest version xid data =>
      obtain ⟨rfl, hlt⟩ := serializeEcho_eq_ok hpayload h
      exact sound_messageHeader rfl hlt
  | echoReply version xid data =>
      obtain ⟨rfl, hlt⟩ := serializeEcho_eq_ok hpayload h
      exact sound_messageHeader rfl hlt
  | vendor version xid vendorId request =>
      obtain ⟨rfl, _, hlt⟩ := serializeVendor_eq_ok hpayload h
      exact sound_messageHeader (by rw [List.length_append, length_be32]; omega) hlt
  | featuresRequest version xid =>
      cases h
      exact sound_header ..
  | getConfigRequest version xid =>
      cases h
      exact sound_header ..
  | setConfig version xid config =>
      cases h
      exact sound_messageHeader rfl (by decide)
  | portModification m =>
      cases h
      have haddr : m.portMacAddress.addr.toList.length = 6 := m.portMacAddress.addr.length_toList
      exact sound_messageHeader (by simp only [List.length_append, length_be16, length_be32,
        length_untouched, haddr]) (by decide)
  | switchDescription version xid =>
      cases h
      exact sound_bareStatsRequest ..
  | flowStats m =>
      cases h
      exact sound_statsRequest 56 (by simp only [List.length_append, length_serialize,
        List.length_cons, List.length_nil, length_be16, OfMatch.wireSize]) (by decide)
  | tableStats version xid =>
      cases h
      exact sound_bareStatsRequest ..
  | portStats version xid allPorts port =>
      cases h
      exact sound_statsRequest 20 rfl (by decide)
  | barrierRequest version xid =>
      cases h
      exact sound_header ..
  | queueGetConfigRequest version xid port =>
      cases h
      exact sound_messageHeader (by rw [List.length_append, length_be16, length_untouched]) (by decide)
  | padded m =>
      cases m with
      | flowMod m =>
          obtain ⟨actions, rfl, hlt⟩ := flowMod_eq_ok h
          exact sound_flowMod hlt
      | packetOut m =>
          obtain ⟨actions, rfl, hlt⟩ := packetOut_eq_ok hpayload h
          exact sound_packetOut hlt
      | aggregateStats m =>
          cases h
          exact sound_statsRequest 56 (by simp only [List.length_append, length_serialize,
            List.length_cons, List.length_nil, length_untouched, length_be16, OfMatch.wireSize]) (by decide)
      | queueStats m =>
          cases h
          exact sound_statsRequest 20 (by simp only [List.length_append, length_untouched,
            length_be16, length_be32]) (by decide)

/-! ## A stream of messages -/

theorem whole_iff {bytes : Bytes} (h : Sized bytes) : openflow.Whole bytes ↔ bytes.length < 2 ^ 16 := by
  have hheader : openflow.header ≤ bytes.length := h.header
  have hlen : openflow.len bytes = bytes.length % 2 ^ 16 := h.announced
  rw [Framing.Whole, hlen]
  refine ⟨fun ⟨_, heq⟩ => ?_, fun hlt => ⟨hheader, Nat.mod_eq_of_lt hlt⟩⟩
  rw [← heq]
  exact Nat.mod_lt _ (by decide)

/-- **The messages that are sent can be told apart exactly if each is smaller than 64 KiB.** -/
theorem cuts_sent_iff (ms : List SerializedMessage) (tail : Bytes) :
    openflow.Cuts ((ms.map SerializedMessage.bytes).flatten ++ tail) (ms.map SerializedMessage.bytes) tail ↔
      ∀ m ∈ ms, m.bytes.length < 2 ^ 16 := by
  rw [Framing.cuts_iff, and_iff_right rfl, List.forall_mem_map]
  exact forall₂_congr fun m _ => whole_iff (sound_serialize m.payload_lt m.serialize_eq).toSized

/-! ## Messages that both sides send -/

theorem length_headerBytes (h : MessageHeader) : h.serialize.length = 8 := by
  simp [MessageHeader.serialize]

/-- Eight bytes are a header. -/
theorem exists_messageHeader {input : Bytes} (h : 8 ≤ input.length) :
    ∃ header : MessageHeader, ∃ rest, input = header.serialize ++ rest := by
  match input, h with
  | version :: type :: words, h =>
      obtain ⟨size, words, rfl⟩ := exists_eq_be16_append (b := words) (by simp at h; omega)
      obtain ⟨xid, rest, rfl⟩ := exists_eq_be32_append (b := words) (by simp at h; omega)
      exact ⟨⟨version, type, size, xid⟩, rest, by simp [MessageHeader.serialize]⟩

/-- A header is read as it was written, unless there is no such type. -/
theorem deserialize_serializeHeader (h : MessageHeader) (rest : Bytes) :
    MessageHeader.deserialize (h.serialize ++ rest) =
      .ok (if h.msgType > Ofpt.queueGetConfigReply then none else some h) := by
  have hroom : ¬ (h.serialize ++ rest).length < 8 := by
    rw [List.length_append, length_headerBytes]
    omega
  rw [MessageHeader.deserialize, if_neg hroom]
  simp (disch := simp) only [MessageHeader.serialize, List.append_assoc, List.cons_append,
    List.nil_append, readU8_cons, readU8_cons_succ, readU16_cons_succ, readU32_cons_succ,
    readU32_append_right, readU16_be16, readU32_be32, length_be16, Nat.reduceSub, ok_bind]
  split
  · rfl
  · rfl

theorem deserializeMessage_serializeHeader {h : MessageHeader} (hknown : h.msgType ≤ Ofpt.queueGetConfigReply)
    (rest : Bytes) : OfMessage.deserializeMessage (h.serialize ++ rest) =
      OfMessage.deserializeAs h.msgType (h.serialize ++ rest) := by
  rw [OfMessage.deserializeMessage, deserialize_serializeHeader, if_neg (by simpa using hknown), ok_bind]

theorem length_messageHeader (version type : UInt8) (size : Nat) (xid : UInt32) :
    (messageHeader version type size xid).length = 8 := length_headerBytes _

/-- What an echo with a header and so many bytes behind it is read as. -/
theorem deserializeEcho_eq (make : MessageHeader → Bytes → OfMessage) {h : MessageHeader}
    (hknown : h.msgType ≤ Ofpt.queueGetConfigReply) (data : Bytes) :
    OfMessage.deserializeEcho make (h.serialize ++ data) =
      (OfMessage.readRear (h.serialize ++ data) (subU32 h.msgSize.toNat 8)).map fun data =>
        some (make h data) := by
  rw [OfMessage.deserializeEcho, deserialize_serializeHeader, if_neg (by simpa using hknown), ok_bind]
  rfl

theorem deserializeEcho_whole (make : MessageHeader → Bytes → OfMessage) {h : MessageHeader}
    (hknown : h.msgType ≤ Ofpt.queueGetConfigReply) {data : Bytes}
    (hsize : h.msgSize.toNat = 8 + data.length) :
    OfMessage.deserializeEcho make (h.serialize ++ data) = .ok (some (make h data)) := by
  have hlt := UInt16.toNat_lt h.msgSize
  have hlen : (h.serialize ++ data).length = 8 + data.length := by
    rw [List.length_append, length_headerBytes]
  have hrear : OfMessage.readRear (h.serialize ++ data) data.length = .ok data := by
    rw [OfMessage.readRear, if_neg (by omega), hlen, Nat.add_sub_cancel, List.drop_left' (length_headerBytes h)]
  rw [deserializeEcho_eq make hknown, subU32_of_le (by omega) (by omega), hsize, Nat.add_sub_cancel_left, hrear]
  rfl

/-- No other bytes than the last ones that the header counts. -/
theorem length_of_deserializeEcho {make : MessageHeader → Bytes → OfMessage} {h h' : MessageHeader}
    (hmake : ∀ {d d' : Bytes}, make h d = make h' d' → d = d')
    (hknown : h.msgType ≤ Ofpt.queueGetConfigReply) {data data' : Bytes}
    (hread : OfMessage.deserializeEcho make (h.serialize ++ data) = .ok (some (make h' data'))) :
    data'.length = subU32 h.msgSize.toNat 8 := by
  rw [deserializeEcho_eq make hknown] at hread
  obtain ⟨rear, hrear, heq⟩ := map_eq_ok.mp hread
  obtain rfl := hmake (Option.some.inj heq)
  unfold OfMessage.readRear at hrear
  split at hrear
  · cases hrear
  · cases hrear
    rw [List.length_drop]
    omega

/-- Size and rest of an echo agree only below 64 KiB. -/
theorem lt_of_payload_eq {n : Nat} (hlt : 8 + n < 2 ^ 31)
    (h : n = subU32 (UInt16.ofNat (8 + n)).toNat 8) : 8 + n < 2 ^ 16 := by
  rw [UInt16.toNat_ofNat', subU32] at h
  omega

/-- What the other side is meant to read, of the classes that both sides send. -/
def counterpart (size : Nat) : ControllerMessage → Option OfMessage
  | .hello version xid => some (.hello ⟨version, Ofpt.hello, UInt16.ofNat size, xid⟩)
  | .echoRequest version xid data =>
      some (.echoRequest ⟨version, Ofpt.echoRequest, UInt16.ofNat size, xid⟩ data)
  | .echoReply version xid data =>
      some (.echoReply ⟨version, Ofpt.echoReply, UInt16.ofNat size, xid⟩ data)
  | .vendor version xid vendorId request =>
      some (.vendor ⟨version, Ofpt.vendor, UInt16.ofNat size, xid⟩ vendorId request)
  | _ => none

theorem echo_round_trip_iff {make : MessageHeader → Bytes → OfMessage} {type version : UInt8} {xid : UInt32}
    {data : Bytes} (hmake : ∀ {h : MessageHeader} {d d' : Bytes}, make h d = make h d' → d = d')
    (hknown : type ≤ Ofpt.queueGetConfigReply)
    (has : OfMessage.deserializeAs type = OfMessage.deserializeEcho make) (hlt : 8 + data.length < 2 ^ 31) :
    OfMessage.deserializeMessage (messageHeader version type (8 + data.length) xid ++ data) =
        .ok (some (make ⟨version, type, UInt16.ofNat (8 + data.length), xid⟩ data)) ↔
      8 + data.length < 2 ^ 16 := by
  rw [messageHeader, deserializeMessage_serializeHeader hknown, has]
  refine ⟨?_, ?_⟩
  · intro h
    have hlen := length_of_deserializeEcho hmake hknown h
    exact lt_of_payload_eq hlt hlen
  · intro hsmall
    have hsize : (UInt16.ofNat (8 + data.length)).toNat = 8 + data.length := by
      rw [UInt16.toNat_ofNat', Nat.mod_eq_of_lt hsmall]
    exact deserializeEcho_whole make hknown hsize

theorem vendor_round_trip_iff {version : UInt8} {xid vendorId : UInt32} {request : Bytes}
    (hne : request ≠ []) (hlt : 12 + request.length < 2 ^ 31) :
    OfMessage.deserializeMessage (messageHeader version Ofpt.vendor (12 + request.length) xid ++
        (be32 vendorId ++ request)) =
        .ok (some (.vendor ⟨version, Ofpt.vendor, UInt16.ofNat (12 + request.length), xid⟩ vendorId
          request)) ↔
      12 + request.length < 2 ^ 16 := by
  have hknown : Ofpt.vendor ≤ Ofpt.queueGetConfigReply := by decide
  have hpos := List.length_pos_iff.mpr hne
  generalize hheader : (⟨version, Ofpt.vendor, UInt16.ofNat (12 + request.length), xid⟩ : MessageHeader) =
    header
  have hsize : header.msgSize = UInt16.ofNat (12 + request.length) := by rw [← hheader]
  have hlen : (header.serialize ++ (be32 vendorId ++ request)).length = 12 + request.length := by
    rw [List.length_append, length_headerBytes, List.length_append, length_be32]
    omega
  have htype : header.msgType = Ofpt.vendor := by rw [← hheader]
  have has : OfMessage.deserializeMessage (header.serialize ++ (be32 vendorId ++ request)) =
      OfMessage.deserializeVendor (header.serialize ++ (be32 vendorId ++ request)) := by
    rw [deserializeMessage_serializeHeader (by rw [htype]; exact hknown), htype]
    rfl
  rw [messageHeader, hheader, has, OfMessage.deserializeVendor, deserialize_serializeHeader,
    if_neg (by rw [htype]; decide), ok_bind]
  dsimp only
  rw [hlen, hsize, UInt16.toNat_ofNat']
  have hread : readU32 (header.serialize ++ (be32 vendorId ++ request)) 8 = .ok vendorId := by
    rw [readU32_append_right (by rw [length_headerBytes]), length_headerBytes, readU32_be32]
  have hslice : slice (header.serialize ++ (be32 vendorId ++ request)) 12 (12 + request.length - 12) =
      .ok request := by
    rw [slice_append_right (by rw [length_headerBytes]; omega), length_headerBytes,
      slice_append_right (by rw [length_be32]), length_be32, Nat.add_sub_cancel_left, slice_ok (by omega)]
    simp
  refine ⟨?_, ?_⟩
  · intro h
    split at h
    · cases h
    · rename_i hsame
      have hmod : (12 + request.length) % 2 ^ 16 = 12 + request.length := by simpa using hsame
      omega
  · intro hsmall
    have hmod : (12 + request.length) % 2 ^ 16 = 12 + request.length := Nat.mod_eq_of_lt hsmall
    have hmore : UInt16.ofNat (12 + request.length) > 12 := by
      rw [gt_iff_lt, UInt16.lt_iff_toNat_lt, UInt16.toNat_ofNat', hmod]
      exact Nat.lt_add_of_pos_right hpos
    rw [hmod, if_neg (by simp), hread, ok_bind, if_pos hmore, hslice, ok_bind]
    rfl

theorem hello_round_trip (version : UInt8) (xid : UInt32) :
    OfMessage.deserializeMessage (messageHeader version Ofpt.hello 8 xid) =
      .ok (some (.hello ⟨version, Ofpt.hello, UInt16.ofNat 8, xid⟩)) := by
  have hheader := deserialize_serializeHeader ⟨version, Ofpt.hello, UInt16.ofNat 8, xid⟩ []
  rw [List.append_nil, if_neg (show ¬ Ofpt.hello > Ofpt.queueGetConfigReply by decide)] at hheader
  rw [messageHeader, OfMessage.deserializeMessage, hheader, ok_bind]
  change OfMessage.deserializeHello _ = _
  rw [OfMessage.deserializeHello, hheader, ok_bind]
  rfl

/--
**What both sides can send is read as it was sent, below 64 KiB.** A hello, an echo or a
vendor message that was serialized is decoded to the same message, with the size that
its header announces, exactly if it is smaller than 64 KiB.
-/
theorem symmetric_round_trip_iff (m : SerializedMessage) {om : OfMessage}
    (h : counterpart m.bytes.length m.message = some om) :
    OfMessage.deserializeMessage m.bytes = .ok (some om) ↔ m.bytes.length < 2 ^ 16 := by
  have hpayload := m.payload_lt
  have hbytes := m.serialize_eq
  generalize m.bytes = bytes at h hbytes
  generalize m.message = message at h hpayload hbytes
  cases message with
  | hello version xid =>
      cases hbytes
      cases h
      rw [length_messageHeader]
      exact iff_of_true (hello_round_trip version xid) (by decide)
  | echoRequest version xid data =>
      obtain ⟨rfl, hlt⟩ := serializeEcho_eq_ok hpayload hbytes
      rw [List.length_append, length_messageHeader] at h ⊢
      cases h
      exact echo_round_trip_iff (by intro _ _ _ heq; cases heq; rfl) (by decide) rfl hlt
  | echoReply version xid data =>
      obtain ⟨rfl, hlt⟩ := serializeEcho_eq_ok hpayload hbytes
      rw [List.length_append, length_messageHeader] at h ⊢
      cases h
      exact echo_round_trip_iff (by intro _ _ _ heq; cases heq; rfl) (by decide) rfl hlt
  | vendor version xid vendorId request =>
      obtain ⟨rfl, hne, hlt⟩ := serializeVendor_eq_ok hpayload hbytes
      rw [List.length_append, length_messageHeader, List.length_append, length_be32, ← Nat.add_assoc] at h ⊢
      cases h
      exact vendor_round_trip_iff hne hlt
  | _ => cases h

/-- A vendor message with two bytes. -/
def vendorMessage : SerializedMessage where
  message := .vendor 1 5 9 [3, 4]
  junk := fun _ => 0
  bytes := [1, 4, 0, 14, 0, 0, 0, 5, 0, 0, 0, 9, 3, 4]
  payload_lt := by decide
  serialize_eq := rfl

theorem vendorMessage_survives : OfMessage.deserializeMessage vendorMessage.bytes =
    .ok (some (.vendor ⟨1, 4, 14, 5⟩ 9 [3, 4])) :=
  (symmetric_round_trip_iff vendorMessage rfl).mpr (by decide)

end IronStack.Proof

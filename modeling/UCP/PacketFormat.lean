import UCP.Packet

namespace UCP

open Word

/-- The bytes a data packet occupies on the wire: a header of 12 bytes, then
as much of the segment as its length says. -/
def UcpDataPacket.header (d : UcpDataPacket) : List UInt8 :=
  [2, byte d.flag 0, byte d.seqNo 0, byte d.seqNo 8, byte d.seqNo 16, byte d.seqNo 24,
   byte d.offset 0, byte d.offset 8, byte d.offset 16, byte d.offset 24,
   byteOfSize d.segLen 0, byteOfSize d.segLen 8]

def UcpDataPacket.wire (d : UcpDataPacket) : List UInt8 :=
  d.header ++ d.segmentData.bytes.take d.segLen

def UcpCtrlPacket.wire (c : UcpCtrlPacket) : List UInt8 :=
  [1, byte c.flag 0, byte c.seqNo 0, byte c.seqNo 8, byte c.seqNo 16, byte c.seqNo 24]

def UcpMetadataPacket.header (m : UcpMetadataPacket) : List UInt8 :=
  [3, m.partIndex, byte m.partSize 24, byte m.partSize 16, byte m.partSize 8, byte m.partSize 0]

def UcpMetadataPacket.wire (m : UcpMetadataPacket) : List UInt8 :=
  m.header ++ m.desinationName.bytes

theorem sizeofUcpPacket_room : 12 + udpPacketDataSize ≤ sizeofUcpPacket := by decide

theorem UcpDataPacket.take_segLen_length {d : UcpDataPacket} (bounded : d.segLen ≤ udpPacketDataSize) :
    (d.segmentData.bytes.take d.segLen).length = d.segLen := by
  rw [List.length_take, d.segmentData.size, Nat.min_eq_left bounded]

theorem UcpDataPacket.wire_length {d : UcpDataPacket} (bounded : d.segLen ≤ udpPacketDataSize) :
    d.wire.length = 12 + d.segLen := by
  rw [wire, List.length_append, take_segLen_length bounded]
  rfl

@[simp] theorem UcpCtrlPacket.wire_length (c : UcpCtrlPacket) : c.wire.length = 6 := rfl

@[simp] theorem UcpMetadataPacket.wire_length (m : UcpMetadataPacket) : m.wire.length = 26 := by
  rw [wire, List.length_append, m.desinationName.size]
  rfl

theorem ucpPacketEncode_data {p : UcpPacket} {buf : List UInt8} (isData : p.type = ucpPacketTypeData)
    (room : sizeofUcpPacket ≤ buf.length) (bounded : p.dataPacket.segLen ≤ udpPacketDataSize) :
    ucpPacketEncode p buf buf.length =
      .ok (p.dataPacket.wire.length, p.dataPacket.wire ++ buf.drop p.dataPacket.wire.length) := by
  have source : 0 + p.dataPacket.segLen ≤ p.dataPacket.segmentData.bytes.length := by
    rw [p.dataPacket.segmentData.size]; omega
  have length := UcpDataPacket.take_segLen_length bounded
  have fits : 12 + (p.dataPacket.segmentData.bytes.take p.dataPacket.segLen).length ≤ buf.length := by
    have := sizeofUcpPacket_room
    omega
  rw [ucpPacketEncode, if_pos isData, ucpPacketEncodeData, if_neg (by omega), if_neg (not_not.mpr isData)]
  simp only [isData, Mem.loadRange_eq_ok source, List.drop_zero]
  refine (Mem.store_header_body p.dataPacket.header (fun out => .ok (12 + p.dataPacket.segLen, out))
    rfl fits).trans ?_
  rw [length, UcpDataPacket.wire_length bounded]
  rfl

theorem ucpPacketEncode_ctrl {p : UcpPacket} {buf : List UInt8} (isCtrl : p.type = ucpPacketTypeCtrl)
    (room : 6 ≤ buf.length) :
    ucpPacketEncode p buf buf.length = .ok (6, p.ctrlPacket.wire ++ buf.drop 6) := by
  have notData : p.type ≠ ucpPacketTypeData := by rw [isCtrl]; decide
  rw [ucpPacketEncode, if_neg notData, if_pos isCtrl, ucpPacketEncodeCtrlData, if_neg (by omega),
    if_neg (not_not.mpr isCtrl)]
  simp only [isCtrl]
  have stored : Mem.store buf 0 p.ctrlPacket.wire = .ok (p.ctrlPacket.wire ++ buf.drop 6) :=
    Mem.store_zero room
  exact congrArg (· >>= fun out => Except.ok (6, out)) stored

theorem ucpPacketEncode_metadata {p : UcpPacket} {buf : List UInt8}
    (isMetadata : p.type = ucpPacketTypeMetadata) (room : sizeofUcpPacket ≤ buf.length) :
    ucpPacketEncode p buf buf.length = .ok (26, p.metadataPacket.wire ++ buf.drop 26) := by
  have notData : p.type ≠ ucpPacketTypeData := by rw [isMetadata]; decide
  have notCtrl : p.type ≠ ucpPacketTypeCtrl := by rw [isMetadata]; decide
  have fits : 6 + p.metadataPacket.desinationName.bytes.length ≤ buf.length := by
    have : 26 ≤ sizeofUcpPacket := by decide
    rw [p.metadataPacket.desinationName.size]; omega
  rw [ucpPacketEncode, if_neg notData, if_neg notCtrl, if_pos isMetadata, ucpPacketEncodeMetaData,
    if_neg (by omega), if_neg (not_not.mpr isMetadata)]
  simp only [isMetadata]
  refine (Mem.store_header_body p.metadataPacket.header (fun out => .ok (26, out)) rfl fits).trans ?_
  rw [p.metadataPacket.desinationName.size]
  rfl

/-- Decoding a data packet reads every field at the place where `wire` puts it
and leaves the old bytes of the segment behind the received ones. -/
theorem ucpPacketDecode_data (b1 b2 b3 b4 b5 b6 b7 b8 b9 b10 b11 : UInt8) (rest : List UInt8) {bufLen : Nat}
    (packet : UcpPacket) (room : sizeofUcpPacket ≤ bufLen) (source : pack16 b11 b10 ≤ rest.length)
    (bounded : pack16 b11 b10 ≤ udpPacketDataSize) :
    ∃ segmentData : Buffer udpPacketDataSize,
      ucpPacketDecode (2 :: b1 :: b2 :: b3 :: b4 :: b5 :: b6 :: b7 :: b8 :: b9 :: b10 :: b11 :: rest) bufLen packet =
        .ok { packet with
          type := ucpPacketTypeData
          dataPacket := {
            flag := b1.toUInt32
            seqNo := pack b5 b4 b3 b2
            offset := pack b9 b8 b7 b6
            segLen := pack16 b11 b10
            segmentData } } ∧
      segmentData.bytes = rest.take (pack16 b11 b10) ++
        packet.dataPacket.segmentData.bytes.drop (pack16 b11 b10) := by
  have length : (rest.take (pack16 b11 b10)).length = pack16 b11 b10 := by
    rw [List.length_take, Nat.min_eq_left source]
  obtain ⟨segmentData, copied, bytes⟩ :=
    packet.dataPacket.segmentData.memcpy_eq_ok (rest.take (pack16 b11 b10)) (by omega)
  have loaded : Mem.loadRange (2 :: b1 :: b2 :: b3 :: b4 :: b5 :: b6 :: b7 :: b8 :: b9 :: b10 :: b11 :: rest) 12
      (pack16 b11 b10) = .ok (rest.take (pack16 b11 b10)) :=
    Mem.loadRange_eq_ok (by simp only [List.length_cons]; omega)
  refine ⟨segmentData, ?_, by rw [bytes, length]⟩
  change ucpPacketDecodeData _ bufLen packet = _
  rw [ucpPacketDecodeData, if_neg (by omega)]
  change (Mem.loadRange _ 12 (pack16 b11 b10) >>= fun data => _) = _
  rw [loaded]
  change (packet.dataPacket.segmentData.memcpy (rest.take (pack16 b11 b10)) >>= fun segmentData => _) = _
  rw [copied]
  rfl

theorem ucpPacketDecode_ctrl (b1 b2 b3 b4 b5 : UInt8) (rest : List UInt8) {bufLen : Nat}
    (packet : UcpPacket) (room : 6 ≤ bufLen) :
    ucpPacketDecode (1 :: b1 :: b2 :: b3 :: b4 :: b5 :: rest) bufLen packet =
      .ok { packet with
        type := ucpPacketTypeCtrl
        ctrlPacket := { flag := b1.toUInt32, seqNo := pack b5 b4 b3 b2 } } := by
  change ucpPacketDecodeCtrlData _ bufLen packet = _
  rw [ucpPacketDecodeCtrlData, if_neg (by omega)]
  rfl

theorem ucpPacketDecode_metadata (b1 b2 b3 b4 b5 : UInt8) {name : List UInt8} (rest : List UInt8) {bufLen : Nat}
    (packet : UcpPacket) (room : sizeofUcpPacket ≤ bufLen) (full : name.length = 20) :
    ucpPacketDecode (3 :: b1 :: b2 :: b3 :: b4 :: b5 :: (name ++ rest)) bufLen packet =
      .ok { packet with
        type := ucpPacketTypeMetadata
        metadataPacket := { desinationName := ⟨name, full⟩, partIndex := b1, partSize := pack b2 b3 b4 b5 } } := by
  have loaded : Mem.loadRange (3 :: b1 :: b2 :: b3 :: b4 :: b5 :: (name ++ rest)) 6 20 = .ok name := by
    rw [Mem.loadRange_eq_ok (by simp only [List.length_cons, List.length_append]; omega)]
    exact congrArg _ (List.take_left' full)
  obtain ⟨desinationName, copied, bytes⟩ :=
    packet.metadataPacket.desinationName.memcpy_eq_ok name full.le
  have same : desinationName = ⟨name, full⟩ := by
    have old := packet.metadataPacket.desinationName.size
    cases desinationName
    simpa only [Buffer.mk.injEq, full, List.drop_eq_nil_of_le old.le, List.append_nil] using bytes
  change ucpPacketDecodeMetaData _ bufLen packet = _
  rw [ucpPacketDecodeMetaData, if_neg (by omega)]
  change (Mem.loadRange _ 6 20 >>= fun name => _) = _
  rw [loaded]
  change (packet.metadataPacket.desinationName.memcpy name >>= fun desinationName => _) = _
  rw [copied, same]
  rfl

/-- The packets the format is made for: a known type, an enum value that fits
in its byte and a segment that fits in its array. -/
inductive UcpPacket.Encodable (p : UcpPacket) : Prop
  | ctrl : p.type = ucpPacketTypeCtrl → p.ctrlPacket.flag < 256 → Encodable p
  | data : p.type = ucpPacketTypeData → p.dataPacket.flag < 256 →
      p.dataPacket.segLen ≤ udpPacketDataSize → Encodable p
  | metadata : p.type = ucpPacketTypeMetadata → Encodable p

/-- Equality of the fields that `type` makes valid. Of the segment only the
first `segLen` bytes belong to the packet. -/
structure UcpPacket.SameFields (q p : UcpPacket) : Prop where
  type_eq : q.type = p.type
  ctrl_eq : p.type = ucpPacketTypeCtrl → q.ctrlPacket = p.ctrlPacket
  metadata_eq : p.type = ucpPacketTypeMetadata → q.metadataPacket = p.metadataPacket
  data_eq : p.type = ucpPacketTypeData →
    q.dataPacket.flag = p.dataPacket.flag ∧ q.dataPacket.seqNo = p.dataPacket.seqNo ∧
      q.dataPacket.offset = p.dataPacket.offset ∧ q.dataPacket.segLen = p.dataPacket.segLen ∧
      q.dataPacket.segmentData.bytes.take p.dataPacket.segLen =
        p.dataPacket.segmentData.bytes.take p.dataPacket.segLen

def UcpPacket.wire (p : UcpPacket) : List UInt8 :=
  if p.type = ucpPacketTypeData then p.dataPacket.wire
  else if p.type = ucpPacketTypeCtrl then p.ctrlPacket.wire
  else p.metadataPacket.wire

theorem UcpPacket.wire_of_data {p : UcpPacket} (isData : p.type = ucpPacketTypeData) :
    p.wire = p.dataPacket.wire := if_pos isData

theorem UcpPacket.wire_of_ctrl {p : UcpPacket} (isCtrl : p.type = ucpPacketTypeCtrl) :
    p.wire = p.ctrlPacket.wire := by
  rw [wire, if_neg (by rw [isCtrl]; decide), if_pos isCtrl]

theorem UcpPacket.wire_of_metadata {p : UcpPacket} (isMetadata : p.type = ucpPacketTypeMetadata) :
    p.wire = p.metadataPacket.wire := by
  rw [wire, if_neg (by rw [isMetadata]; decide), if_neg (by rw [isMetadata]; decide)]

theorem UcpPacket.Encodable.wire_length_le {p : UcpPacket} (encodable : p.Encodable) :
    p.wire.length ≤ sizeofUcpPacket := by
  have room := sizeofUcpPacket_room
  cases encodable with
  | ctrl isCtrl =>
    rw [wire_of_ctrl isCtrl, UcpCtrlPacket.wire_length]
    omega
  | data isData _ bounded =>
    rw [wire_of_data isData, UcpDataPacket.wire_length bounded]
    omega
  | metadata isMetadata =>
    rw [wire_of_metadata isMetadata, UcpMetadataPacket.wire_length]
    decide

/-- Encoding lays the wire image over the front of the buffer. -/
theorem UcpPacket.Encodable.encode {p : UcpPacket} (encodable : p.Encodable) {buf : List UInt8}
    (room : sizeofUcpPacket ≤ buf.length) :
    ucpPacketEncode p buf buf.length = .ok (p.wire.length, p.wire ++ buf.drop p.wire.length) := by
  cases encodable with
  | ctrl isCtrl =>
    have : 6 ≤ sizeofUcpPacket := by decide
    rw [wire_of_ctrl isCtrl, ucpPacketEncode_ctrl isCtrl (by omega), UcpCtrlPacket.wire_length]
  | data isData _ bounded => rw [wire_of_data isData, ucpPacketEncode_data isData room bounded]
  | metadata isMetadata =>
    rw [wire_of_metadata isMetadata, ucpPacketEncode_metadata isMetadata room, UcpMetadataPacket.wire_length]

theorem UcpDataPacket.decode_wire {d : UcpDataPacket} (flagSmall : d.flag < 256)
    (bounded : d.segLen ≤ udpPacketDataSize) {bufLen : Nat} (room : sizeofUcpPacket ≤ bufLen)
    (tail : List UInt8) (packet : UcpPacket) :
    ∃ segmentData : Buffer udpPacketDataSize,
      ucpPacketDecode (d.wire ++ tail) bufLen packet =
        .ok { packet with type := ucpPacketTypeData, dataPacket := { d with segmentData } } ∧
      segmentData.bytes = d.segmentData.bytes.take d.segLen ++
        packet.dataPacket.segmentData.bytes.drop d.segLen := by
  have length := take_segLen_length bounded
  have lenField : pack16 (byteOfSize d.segLen 8) (byteOfSize d.segLen 0) = d.segLen :=
    pack16_bytes (bounded.trans_lt (by decide))
  obtain ⟨segmentData, decoded, bytes⟩ := ucpPacketDecode_data (byte d.flag 0) (byte d.seqNo 0)
    (byte d.seqNo 8) (byte d.seqNo 16) (byte d.seqNo 24) (byte d.offset 0) (byte d.offset 8)
    (byte d.offset 16) (byte d.offset 24) (byteOfSize d.segLen 0) (byteOfSize d.segLen 8)
    (d.segmentData.bytes.take d.segLen ++ tail) packet room
    (by rw [lenField, List.length_append]; omega) (lenField.trans_le bounded)
  rw [lenField] at decoded bytes
  refine ⟨segmentData, ?_, by rw [bytes, List.take_left' length]⟩
  rw [pack_bytes, pack_bytes, byte_toUInt32 flagSmall] at decoded
  exact decoded

theorem UcpCtrlPacket.decode_wire {c : UcpCtrlPacket} (flagSmall : c.flag < 256) {bufLen : Nat}
    (room : 6 ≤ bufLen) (tail : List UInt8) (packet : UcpPacket) :
    ucpPacketDecode (c.wire ++ tail) bufLen packet =
      .ok { packet with type := ucpPacketTypeCtrl, ctrlPacket := c } := by
  have decoded := ucpPacketDecode_ctrl (byte c.flag 0) (byte c.seqNo 0) (byte c.seqNo 8)
    (byte c.seqNo 16) (byte c.seqNo 24) tail packet room
  rw [pack_bytes, byte_toUInt32 flagSmall] at decoded
  exact decoded

theorem UcpMetadataPacket.decode_wire (m : UcpMetadataPacket) {bufLen : Nat}
    (room : sizeofUcpPacket ≤ bufLen) (tail : List UInt8) (packet : UcpPacket) :
    ucpPacketDecode (m.wire ++ tail) bufLen packet =
      .ok { packet with type := ucpPacketTypeMetadata, metadataPacket := m } := by
  have decoded := ucpPacketDecode_metadata m.partIndex (byte m.partSize 24) (byte m.partSize 16)
    (byte m.partSize 8) (byte m.partSize 0) tail packet room m.desinationName.size
  rw [pack_bytes] at decoded
  exact decoded

/-- Whatever the packet held before and whatever lies behind the wire image,
decoding gives back the packet that was encoded. -/
theorem UcpPacket.Encodable.decode_wire {p : UcpPacket} (encodable : p.Encodable) {bufLen : Nat}
    (room : sizeofUcpPacket ≤ bufLen) (tail : List UInt8) (packet : UcpPacket) :
    ∃ q, ucpPacketDecode (p.wire ++ tail) bufLen packet = .ok q ∧ q.SameFields p := by
  cases encodable with
  | ctrl isCtrl flagSmall =>
    have : 6 ≤ sizeofUcpPacket := by decide
    refine ⟨_, by rw [wire_of_ctrl isCtrl, UcpCtrlPacket.decode_wire flagSmall (by omega)], ?_⟩
    refine ⟨isCtrl.symm, fun _ => rfl, fun other => ?_, fun other => ?_⟩
    · exact absurd (isCtrl.symm.trans other) (by decide)
    · exact absurd (isCtrl.symm.trans other) (by decide)
  | data isData flagSmall bounded =>
    obtain ⟨segmentData, decoded, bytes⟩ := UcpDataPacket.decode_wire flagSmall bounded room tail packet
    refine ⟨_, by rw [wire_of_data isData, decoded], ?_⟩
    refine ⟨isData.symm, fun other => ?_, fun other => ?_, fun _ => ⟨rfl, rfl, rfl, rfl, ?_⟩⟩
    · exact absurd (isData.symm.trans other) (by decide)
    · exact absurd (isData.symm.trans other) (by decide)
    · exact (congrArg _ bytes).trans (List.take_left' (UcpDataPacket.take_segLen_length bounded))
  | metadata isMetadata =>
    refine ⟨_, by rw [wire_of_metadata isMetadata, UcpMetadataPacket.decode_wire _ room], ?_⟩
    refine ⟨isMetadata.symm, fun other => ?_, fun _ => rfl, fun other => ?_⟩
    · exact absurd (isMetadata.symm.trans other) (by decide)
    · exact absurd (isMetadata.symm.trans other) (by decide)

/-- The type and the segment length, in the places the decoder reads them from. -/
def typeField (buf : List UInt8) : UInt32 := (buf.getD 0 0).toUInt32
def segLenField (buf : List UInt8) : Nat := pack16 (buf.getD 11 0) (buf.getD 10 0)

theorem ucpPacketDecode_cons (b : UInt8) (rest : List UInt8) (bufLen : Nat) (packet : UcpPacket) :
    ucpPacketDecode (b :: rest) bufLen packet =
      if typeField (b :: rest) = ucpPacketTypeData then ucpPacketDecodeData (b :: rest) bufLen packet
      else if typeField (b :: rest) = ucpPacketTypeMetadata then ucpPacketDecodeMetaData (b :: rest) bufLen packet
      else if typeField (b :: rest) = ucpPacketTypeCtrl then ucpPacketDecodeCtrlData (b :: rest) bufLen packet
      else pure packet := rfl

/-- The buffers a decoder can make sense of. -/
inductive KnownPacket (buf : List UInt8) : Prop
  | ctrl : typeField buf = ucpPacketTypeCtrl → KnownPacket buf
  | data : typeField buf = ucpPacketTypeData → segLenField buf ≤ udpPacketDataSize → KnownPacket buf
  | metadata : typeField buf = ucpPacketTypeMetadata → KnownPacket buf

theorem exists_header {buf : List UInt8} (room : 12 ≤ buf.length) :
    ∃ b0 b1 b2 b3 b4 b5 b6 b7 b8 b9 b10 b11 rest,
      buf = b0 :: b1 :: b2 :: b3 :: b4 :: b5 :: b6 :: b7 :: b8 :: b9 :: b10 :: b11 :: rest := by
  have split (n : Nat) (bs : List UInt8) (long : n + 1 ≤ bs.length) :
      ∃ b rest, bs = b :: rest ∧ n ≤ rest.length := by
    cases bs with
    | nil => simp at long
    | cons b rest => exact ⟨b, rest, rfl, by simpa using long⟩
  obtain ⟨b0, r0, rfl, long0⟩ := split 11 buf room
  obtain ⟨b1, r1, rfl, long1⟩ := split 10 r0 long0
  obtain ⟨b2, r2, rfl, long2⟩ := split 9 r1 long1
  obtain ⟨b3, r3, rfl, long3⟩ := split 8 r2 long2
  obtain ⟨b4, r4, rfl, long4⟩ := split 7 r3 long3
  obtain ⟨b5, r5, rfl, long5⟩ := split 6 r4 long4
  obtain ⟨b6, r6, rfl, long6⟩ := split 5 r5 long5
  obtain ⟨b7, r7, rfl, long7⟩ := split 4 r6 long6
  obtain ⟨b8, r8, rfl, long8⟩ := split 3 r7 long7
  obtain ⟨b9, r9, rfl, long9⟩ := split 2 r8 long8
  obtain ⟨b10, r10, rfl, long10⟩ := split 1 r9 long9
  obtain ⟨b11, rest, rfl, _⟩ := split 0 r10 long10
  exact ⟨b0, b1, b2, b3, b4, b5, b6, b7, b8, b9, b10, b11, rest, rfl⟩

theorem toUInt32_inj {b c : UInt8} (same : b.toUInt32 = c.toUInt32) : b = c := by
  rw [← byte_of_toUInt32 b, same, byte_of_toUInt32]

theorem toUInt32_lt (b : UInt8) : b.toUInt32 < 256 := by
  rw [UInt32.lt_iff_toNat_lt, UInt8.toNat_toUInt32]
  exact b.toNat_lt

/-- A buffer the decoder can make sense of starts with the wire image of the
packet that is read from it. -/
theorem KnownPacket.decode {buf : List UInt8} (known : KnownPacket buf)
    (room : sizeofUcpPacket ≤ buf.length) (packet : UcpPacket) :
    ∃ q tail, ucpPacketDecode buf buf.length packet = .ok q ∧ q.Encodable ∧ buf = q.wire ++ tail := by
  have large := sizeofUcpPacket_room
  obtain ⟨b0, b1, b2, b3, b4, b5, b6, b7, b8, b9, b10, b11, rest, rfl⟩ := exists_header (by omega : 12 ≤ buf.length)
  cases known with
  | ctrl isCtrl =>
    obtain rfl : b0 = 1 := toUInt32_inj isCtrl
    refine ⟨_, b6 :: b7 :: b8 :: b9 :: b10 :: b11 :: rest,
      ucpPacketDecode_ctrl b1 b2 b3 b4 b5 _ packet (by simp only [List.length_cons]; omega),
      .ctrl rfl (toUInt32_lt b1), ?_⟩
    obtain ⟨at5, at4, at3, at2⟩ := byte_pack b5 b4 b3 b2
    rw [UcpPacket.wire_of_ctrl rfl]
    simp only [UcpCtrlPacket.wire, at5, at4, at3, at2, byte_of_toUInt32]
    rfl
  | data isData bounded =>
    obtain rfl : b0 = 2 := toUInt32_inj isData
    change pack16 b11 b10 ≤ _ at bounded
    have source : pack16 b11 b10 ≤ rest.length := by
      simp only [List.length_cons] at room
      omega
    obtain ⟨segmentData, decoded, bytes⟩ :=
      ucpPacketDecode_data b1 b2 b3 b4 b5 b6 b7 b8 b9 b10 b11 rest packet room source bounded
    refine ⟨_, rest.drop (pack16 b11 b10), decoded, .data rfl (toUInt32_lt b1) bounded, ?_⟩
    obtain ⟨at5, at4, at3, at2⟩ := byte_pack b5 b4 b3 b2
    obtain ⟨at9, at8, at7, at6⟩ := byte_pack b9 b8 b7 b6
    obtain ⟨at11, at10⟩ := byteOfSize_pack16 b11 b10
    have segment : segmentData.bytes.take (pack16 b11 b10) = rest.take (pack16 b11 b10) := by
      rw [bytes, List.take_left' (by rw [List.length_take]; omega)]
    rw [UcpPacket.wire_of_data rfl]
    simp only [UcpDataPacket.wire, UcpDataPacket.header, at5, at4, at3, at2, at9, at8, at7, at6,
      at11, at10, byte_of_toUInt32, segment, List.append_assoc, List.take_append_drop]
    rfl
  | metadata isMetadata =>
    obtain rfl : b0 = 3 := toUInt32_inj isMetadata
    have full : ((b6 :: b7 :: b8 :: b9 :: b10 :: b11 :: rest).take 20).length = 20 := by
      have name : 26 ≤ sizeofUcpPacket := by decide
      simp only [List.length_cons] at room
      simp only [List.length_take, List.length_cons]
      omega
    have decoded := ucpPacketDecode_metadata b1 b2 b3 b4 b5
      ((b6 :: b7 :: b8 :: b9 :: b10 :: b11 :: rest).drop 20) packet room full
    rw [List.take_append_drop] at decoded
    refine ⟨_, (b6 :: b7 :: b8 :: b9 :: b10 :: b11 :: rest).drop 20, decoded, .metadata rfl, ?_⟩
    obtain ⟨at2, at3, at4, at5⟩ := byte_pack b2 b3 b4 b5
    rw [UcpPacket.wire_of_metadata rfl]
    simp only [UcpMetadataPacket.wire, UcpMetadataPacket.header, at2, at3, at4, at5, List.append_assoc,
      List.take_append_drop]
    rfl

/-- The wire format is a bijection between the encodable packets, up to the
fields their type makes valid, and the buffer prefixes a decoder knows. -/
theorem wire_format_bijection :
    (∀ (p : UcpPacket) (buf : List UInt8) (previous : UcpPacket),
      p.Encodable → sizeofUcpPacket ≤ buf.length →
      ∃ n out, ucpPacketEncode p buf buf.length = .ok (n, out) ∧ n ≤ buf.length ∧
        out.length = buf.length ∧ out.drop n = buf.drop n ∧
        ∃ q, ucpPacketDecode out out.length previous = .ok q ∧ q.SameFields p) ∧
    (∀ (buf : List UInt8) (previous : UcpPacket),
      sizeofUcpPacket ≤ buf.length → KnownPacket buf →
      ∃ q, ucpPacketDecode buf buf.length previous = .ok q ∧
        ∀ target : List UInt8, sizeofUcpPacket ≤ target.length →
          ∃ n out, ucpPacketEncode q target target.length = .ok (n, out) ∧ n ≤ buf.length ∧
            out.take n = buf.take n) := by
  constructor
  · intro p buf previous encodable room
    have short := encodable.wire_length_le
    have length : (p.wire ++ buf.drop p.wire.length).length = buf.length := by
      rw [List.length_append, List.length_drop]; omega
    obtain ⟨q, decoded, same⟩ := encodable.decode_wire (room.trans_eq length.symm) _ previous
    exact ⟨p.wire.length, _, encodable.encode room, by omega, length, List.drop_left, q, decoded, same⟩
  · intro buf previous room known
    obtain ⟨q, tail, decoded, encodable, split⟩ := known.decode room previous
    refine ⟨q, decoded, fun target targetRoom => ?_⟩
    refine ⟨q.wire.length, _, encodable.encode targetRoom, ?_, ?_⟩
    · rw [split, List.length_append]; omega
    · rw [split, List.take_left, List.take_left]

end UCP

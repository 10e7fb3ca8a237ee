import UCP.PacketFormat

namespace UCP

open Word

/-- No access of the decoder leaves its array, and a data packet it yields
describes bytes that are inside both the segment array and the buffer. -/
def DecodesInBounds (buf : List UInt8) (packet : UcpPacket) : Prop :=
  ∃ q, ucpPacketDecode buf buf.length packet = .ok q ∧
    (typeField buf = ucpPacketTypeData → sizeofUcpPacket ≤ buf.length →
      q.dataPacket.segLen ≤ udpPacketDataSize ∧ 12 + q.dataPacket.segLen ≤ buf.length)

/-- A data packet that passes the decoder's only check and announces more bytes
than a segment holds. -/
def OverlongSegment (buf : List UInt8) : Prop :=
  typeField buf = ucpPacketTypeData ∧ sizeofUcpPacket ≤ buf.length ∧ udpPacketDataSize < segLenField buf

instance (buf : List UInt8) : Decidable (OverlongSegment buf) :=
  inferInstanceAs (Decidable (_ ∧ _))

theorem ucpPacketDecodeCtrlData_isOk {buf : List UInt8} {bufLen : Nat} (inside : bufLen ≤ buf.length)
    (packet : UcpPacket) : ∃ q, ucpPacketDecodeCtrlData buf bufLen packet = .ok q := by
  by_cases short : bufLen < 6
  · exact ⟨packet, if_pos short⟩
  · obtain ⟨type, at0⟩ := Mem.load_isOk (show 0 < buf.length by omega)
    obtain ⟨flag, at1⟩ := Mem.load_isOk (show 1 < buf.length by omega)
    obtain ⟨seqNo, atSeq⟩ := Mem.loadWord_isOk (show 5 < buf.length by omega) (show 4 < buf.length by omega)
      (show 3 < buf.length by omega) (show 2 < buf.length by omega)
    refine ⟨{ packet with type := type.toUInt32, ctrlPacket := { flag := flag.toUInt32, seqNo } }, ?_⟩
    simp only [ucpPacketDecodeCtrlData, if_neg short, at0, at1, atSeq]
    rfl

theorem ucpPacketDecodeMetaData_isOk {buf : List UInt8} {bufLen : Nat} (inside : bufLen ≤ buf.length)
    (packet : UcpPacket) : ∃ q, ucpPacketDecodeMetaData buf bufLen packet = .ok q := by
  by_cases short : bufLen < sizeofUcpPacket
  · exact ⟨packet, if_pos short⟩
  · have large : 26 ≤ sizeofUcpPacket := by decide
    have nameInside : 6 + 20 ≤ buf.length := by omega
    obtain ⟨type, at0⟩ := Mem.load_isOk (show 0 < buf.length by omega)
    obtain ⟨partIndex, at1⟩ := Mem.load_isOk (show 1 < buf.length by omega)
    obtain ⟨partSize, atSize⟩ := Mem.loadWord_isOk (show 2 < buf.length by omega) (show 3 < buf.length by omega)
      (show 4 < buf.length by omega) (show 5 < buf.length by omega)
    obtain ⟨desinationName, copied, _⟩ := packet.metadataPacket.desinationName.memcpy_eq_ok
      ((buf.drop 6).take 20) (by rw [List.length_take]; omega)
    refine ⟨{ packet with
      type := type.toUInt32, metadataPacket := { desinationName, partIndex, partSize } }, ?_⟩
    simp only [ucpPacketDecodeMetaData, if_neg short, at0, at1, atSize, Mem.loadRange_eq_ok nameInside,
      bind, Except.bind, copied]
    rfl

/-- Past the length check a data packet is only decoded when its length field
fits the segment array: the copy faults otherwise. -/
theorem ucpPacketDecode_data_bounded {buf : List UInt8} {packet q : UcpPacket}
    (isData : typeField buf = ucpPacketTypeData) (room : sizeofUcpPacket ≤ buf.length)
    (decoded : ucpPacketDecode buf buf.length packet = .ok q) : segLenField buf ≤ udpPacketDataSize := by
  have large := sizeofUcpPacket_room
  obtain ⟨b0, b1, b2, b3, b4, b5, b6, b7, b8, b9, b10, b11, rest, rfl⟩ := exists_header (by omega : 12 ≤ buf.length)
  obtain rfl : b0 = 2 := toUInt32_inj isData
  change pack16 b11 b10 ≤ udpPacketDataSize
  change ucpPacketDecodeData _ _ packet = _ at decoded
  rw [ucpPacketDecodeData, if_neg (by omega)] at decoded
  change (Mem.loadRange _ 12 (pack16 b11 b10)).bind (fun data => _) = _ at decoded
  obtain ⟨data, loaded, decoded⟩ := Except.bind_eq_ok.mp decoded
  obtain ⟨source, rfl⟩ := Mem.loadRange_isOk_iff.mp loaded
  change (packet.dataPacket.segmentData.memcpy _).bind (fun segmentData => _) = _ at decoded
  obtain ⟨segmentData, copied, -⟩ := Except.bind_eq_ok.mp decoded
  have fits := (Buffer.memcpy_isOk_iff.mp copied).1
  rw [List.length_take, List.length_drop] at fits
  omega

theorem decodesInBounds_data_iff {buf : List UInt8} (packet : UcpPacket)
    (isData : typeField buf = ucpPacketTypeData) (room : sizeofUcpPacket ≤ buf.length) :
    DecodesInBounds buf packet ↔ segLenField buf ≤ udpPacketDataSize := by
  constructor
  · rintro ⟨q, decoded, -⟩
    exact ucpPacketDecode_data_bounded isData room decoded
  · intro bounded
    have large := sizeofUcpPacket_room
    obtain ⟨b0, b1, b2, b3, b4, b5, b6, b7, b8, b9, b10, b11, rest, rfl⟩ :=
      exists_header (by omega : 12 ≤ buf.length)
    obtain rfl : b0 = 2 := toUInt32_inj isData
    change pack16 b11 b10 ≤ udpPacketDataSize at bounded
    have source : pack16 b11 b10 ≤ rest.length := by
      simp only [List.length_cons] at room
      omega
    obtain ⟨segmentData, decoded, -⟩ :=
      ucpPacketDecode_data b1 b2 b3 b4 b5 b6 b7 b8 b9 b10 b11 rest packet room source bounded
    refine ⟨_, decoded, fun _ _ => ⟨bounded, ?_⟩⟩
    simp only [List.length_cons]
    omega

/-- Without that check being passed by a data packet the decoder is harmless:
it copies nothing whose length comes from the wire. -/
theorem decodesInBounds_of_not_data {buf : List UInt8} (packet : UcpPacket) (nonempty : 1 ≤ buf.length)
    (unchecked : typeField buf = ucpPacketTypeData → buf.length < sizeofUcpPacket) :
    DecodesInBounds buf packet := by
  cases buf with
  | nil => simp at nonempty
  | cons b rest =>
    have vacuous (q : UcpPacket) : typeField (b :: rest) = ucpPacketTypeData →
        sizeofUcpPacket ≤ (b :: rest).length →
        q.dataPacket.segLen ≤ udpPacketDataSize ∧ 12 + q.dataPacket.segLen ≤ (b :: rest).length :=
      fun isData room => absurd (unchecked isData) (by omega)
    rw [DecodesInBounds, ucpPacketDecode_cons]
    split
    · rename_i isData
      refine ⟨packet, ?_, vacuous packet⟩
      rw [ucpPacketDecodeData, if_pos (unchecked isData)]
      rfl
    split
    · obtain ⟨q, decoded⟩ := ucpPacketDecodeMetaData_isOk (le_refl (b :: rest).length) packet
      exact ⟨q, decoded, vacuous q⟩
    split
    · obtain ⟨q, decoded⟩ := ucpPacketDecodeCtrlData_isOk (le_refl (b :: rest).length) packet
      exact ⟨q, decoded, vacuous q⟩
    · exact ⟨packet, rfl, vacuous packet⟩

/-- The types the decoder tells apart. -/
def KnownType (type : UInt32) : Prop :=
  type = ucpPacketTypeCtrl ∨ type = ucpPacketTypeData ∨ type = ucpPacketTypeMetadata

instance (type : UInt32) : Decidable (KnownType type) := inferInstanceAs (Decidable (_ ∨ _))

theorem ucpPacketDecode_unknown {b : UInt8} {rest : List UInt8} {bufLen : Nat} (packet : UcpPacket)
    (unknown : ¬KnownType (typeField (b :: rest))) : ucpPacketDecode (b :: rest) bufLen packet = .ok packet := by
  simp only [KnownType, not_or] at unknown
  rw [ucpPacketDecode_cons, if_neg unknown.2.1, if_neg unknown.2.2, if_neg unknown.1]
  rfl

theorem typeField_wire {p : UcpPacket} (encodable : p.Encodable) (tail : List UInt8) :
    typeField (p.wire ++ tail) = p.type := by
  cases encodable with
  | ctrl isCtrl => rw [UcpPacket.wire_of_ctrl isCtrl, isCtrl]; rfl
  | data isData => rw [UcpPacket.wire_of_data isData, isData]; rfl
  | metadata isMetadata => rw [UcpPacket.wire_of_metadata isMetadata, isMetadata]; rfl

/-- The type of the packet after a decoder call that did not fault. An unknown
first byte lets the previous type stand. -/
theorem ucpPacketDecode_type {buf : List UInt8} {packet q : UcpPacket} (room : sizeofUcpPacket ≤ buf.length)
    (decoded : ucpPacketDecode buf buf.length packet = .ok q) :
    q.type = if KnownType (typeField buf) then typeField buf else packet.type := by
  split
  · rename_i known
    have readable : KnownPacket buf := by
      rcases known with isCtrl | isData | isMetadata
      · exact .ctrl isCtrl
      · exact .data isData (ucpPacketDecode_data_bounded isData room decoded)
      · exact .metadata isMetadata
    obtain ⟨q', tail, decoded', encodable, split⟩ := readable.decode room packet
    have same : q = q' := Except.ok.inj (decoded.symm.trans decoded')
    rw [same, split, typeField_wire encodable]
  · rename_i unknown
    cases buf with
    | nil => exact absurd room (by decide)
    | cons b rest =>
      have same : packet = q := Except.ok.inj ((ucpPacketDecode_unknown packet unknown).symm.trans decoded)
      rw [same]

/-- The decoder stays inside its arrays on exactly the buffers that do not
announce an overlong segment. -/
theorem decode_in_bounds_iff {buf : List UInt8} (packet : UcpPacket) (nonempty : 1 ≤ buf.length) :
    DecodesInBounds buf packet ↔ ¬OverlongSegment buf := by
  by_cases checked : typeField buf = ucpPacketTypeData ∧ sizeofUcpPacket ≤ buf.length
  · rw [decodesInBounds_data_iff packet checked.1 checked.2, OverlongSegment, ← Nat.not_lt]
    simp only [checked, true_and]
  · have unchecked (isData : typeField buf = ucpPacketTypeData) : buf.length < sizeofUcpPacket := by
      by_contra room
      exact checked ⟨isData, by omega⟩
    refine iff_of_true (decodesInBounds_of_not_data packet nonempty unchecked) ?_
    rintro ⟨isData, room, -⟩
    exact checked ⟨isData, room⟩

/-- A full receive buffer with a data packet of nine bytes. -/
theorem decode_in_bounds_data_packet :
    DecodesInBounds ([2, 0, 0, 0, 0, 0, 0, 0, 0, 0, 9, 0] ++ List.replicate 9204 7) (ucpPacketInit 0) :=
  (decode_in_bounds_iff _ (by rw [List.length_append]; exact Nat.le_add_right_of_le (by decide))).mpr
    fun overlong => absurd overlong.2.2 (by decide)

/-- A full receive buffer that announces 65535 segment bytes. -/
theorem decode_overlong_out_of_bounds :
    1 ≤ ([2, 0, 0, 0, 0, 0, 0, 0, 0, 0, 255, 255] ++ List.replicate 9204 0 : List UInt8).length ∧
      ¬DecodesInBounds ([2, 0, 0, 0, 0, 0, 0, 0, 0, 0, 255, 255] ++ List.replicate 9204 0) (ucpPacketInit 0) := by
  have length : ([2, 0, 0, 0, 0, 0, 0, 0, 0, 0, 255, 255] ++ List.replicate 9204 0 : List UInt8).length = 9216 := by
    rw [List.length_append, List.length_replicate]
    rfl
  refine ⟨by omega, fun inBounds => ?_⟩
  have bounded := (decodesInBounds_data_iff _ rfl (by rw [length]; decide)).mp inBounds
  exact absurd bounded (by decide)

end UCP

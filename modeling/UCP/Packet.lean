import UCP.Lib.Buffer

namespace UCP

open Word (byte byteOfSize pack16)

def udpPacketDataSize : Nat := 9 * 1024 - 50
def udpPacketOverheadMargin : Nat := 50
def udpPacketSize : Nat := udpPacketDataSize + udpPacketOverheadMargin

/-- `ucp_packet_type_t`. Enums are unsigned ints in C and the decoder stores
raw bytes into them, so their values are words and not a closed type. -/
def ucpPacketTypeCtrl : UInt32 := 0x01
def ucpPacketTypeData : UInt32 := 0x02
def ucpPacketTypeMetadata : UInt32 := 0x03

/-- `ucp_flag_t`, the flags of control packets. -/
def ucpFlagAck : UInt32 := 0x01
def ucpFlagNack : UInt32 := 0x02
def ucpFlagFin : UInt32 := 0x03

/-- `ucp_flag_data_t`, the flags of data packets. -/
def ucpFlagDataSegment : UInt32 := 0x00
def ucpFlagDataStart : UInt32 := 0x01
def ucpFlagDataEnd : UInt32 := 0x02

structure UcpDataPacket where
  flag : UInt32
  seqNo : UInt32
  offset : UInt32
  segLen : Nat
  segmentData : Buffer udpPacketDataSize
  deriving DecidableEq

structure UcpCtrlPacket where
  seqNo : UInt32
  flag : UInt32
  deriving DecidableEq

structure UcpMetadataPacket where
  desinationName : Buffer 20
  partIndex : UInt8
  partSize : UInt32
  deriving DecidableEq

/-- `ucp_packet_t`. The three members share memory in C; every function writes
`type` together with one member and reads only the member `type` names, so
keeping them side by side shows the same values. -/
structure UcpPacket where
  type : UInt32
  ctrlPacket : UcpCtrlPacket
  dataPacket : UcpDataPacket
  metadataPacket : UcpMetadataPacket
  deriving DecidableEq

/-- `sizeof(ucp_packet_t)` with 64-bit `size_t`: the type and its padding, then
the union, whose data member has 24 bytes in front of the segment and is
rounded up to a multiple of 8. -/
def sizeofUcpPacket : Nat := 8 + (24 + udpPacketDataSize + 7) / 8 * 8

/-- The error values `-1` and `-2` returned as `size_t`. -/
def sizeMinusOne : Nat := 2 ^ 64 - 1
def sizeMinusTwo : Nat := 2 ^ 64 - 2

/-- `ucp_packet_init`: a zeroed packet of the given type (allocation succeeding). -/
def ucpPacketInit (type : UInt32) : UcpPacket where
  type
  ctrlPacket := ⟨0, 0⟩
  dataPacket := ⟨0, 0, 0, 0, Buffer.zeros _⟩
  metadataPacket := ⟨Buffer.zeros _, 0, 0⟩

/-- `ucp_packet_init_data`; the `size_t` offset is stored into 32 bits. -/
def ucpPacketInitData (seqNo : UInt32) (offset : Nat) (buf : List UInt8) (bufLen : Nat) :
    Except MemFault UcpPacket := do
  let pkt := ucpPacketInit ucpPacketTypeData
  let data ← Mem.loadRange buf 0 bufLen
  let segmentData ← pkt.dataPacket.segmentData.memcpy data
  pure { pkt with dataPacket :=
    { pkt.dataPacket with seqNo, segLen := bufLen, offset := UInt32.ofNat offset, segmentData } }

/-- `ucp_packet_init_metadata`, with the name as the bytes of its string. -/
def ucpPacketInitMetadata (dstName : List UInt8) (_dstLen : Nat) (partIndex : UInt8) (partSize : UInt32) :
    Except MemFault UcpPacket := do
  let pkt := ucpPacketInit ucpPacketTypeMetadata
  let desinationName ← pkt.metadataPacket.desinationName.strncpy dstName (20 - 1)
  pure { pkt with metadataPacket := { desinationName, partIndex, partSize } }

def ucpPacketInitCtrl (seqNo flag : UInt32) : UcpPacket :=
  { ucpPacketInit ucpPacketTypeCtrl with ctrlPacket := { seqNo, flag } }

def ucpPacketEncodeData (packet : UcpPacket) (buf : List UInt8) (bufLen : Nat) :
    Except MemFault (Nat × List UInt8) :=
  if bufLen < sizeofUcpPacket then pure (sizeMinusOne, buf)
  else if packet.type ≠ ucpPacketTypeData then pure (sizeMinusOne, buf)
  else do
    let dataPacket := packet.dataPacket
    let buf ← Mem.store buf 0
      [packet.type.toUInt8, byte dataPacket.flag 0,
       byte dataPacket.seqNo 0, byte dataPacket.seqNo 8, byte dataPacket.seqNo 16, byte dataPacket.seqNo 24,
       byte dataPacket.offset 0, byte dataPacket.offset 8, byte dataPacket.offset 16, byte dataPacket.offset 24,
       byteOfSize dataPacket.segLen 0, byteOfSize dataPacket.segLen 8]
    let data ← Mem.loadRange dataPacket.segmentData.bytes 0 dataPacket.segLen
    let buf ← Mem.store buf 12 data
    pure (12 + dataPacket.segLen, buf)

def ucpPacketDecodeData (buf : List UInt8) (bufLen : Nat) (packet : UcpPacket) : Except MemFault UcpPacket :=
  if bufLen < sizeofUcpPacket then pure packet
  else do
    let type ← Mem.load buf 0
    let flag ← Mem.load buf 1
    let seqNo ← Mem.loadWord buf 5 4 3 2
    let offset ← Mem.loadWord buf 9 8 7 6
    let lenHigh ← Mem.load buf 11
    let lenLow ← Mem.load buf 10
    let segLen := pack16 lenHigh lenLow
    let data ← Mem.loadRange buf 12 segLen
    let segmentData ← packet.dataPacket.segmentData.memcpy data
    pure { packet with
      type := type.toUInt32
      dataPacket := { flag := flag.toUInt32, seqNo, offset, segLen, segmentData } }

def ucpPacketEncodeCtrlData (packet : UcpPacket) (buf : List UInt8) (bufLen : Nat) :
    Except MemFault (Nat × List UInt8) :=
  if bufLen < 6 then pure (sizeMinusOne, buf)
  else if packet.type ≠ ucpPacketTypeCtrl then pure (sizeMinusOne, buf)
  else do
    let ctrlPacket := packet.ctrlPacket
    let buf ← Mem.store buf 0
      [packet.type.toUInt8, byte ctrlPacket.flag 0,
       byte ctrlPacket.seqNo 0, byte ctrlPacket.seqNo 8, byte ctrlPacket.seqNo 16, byte ctrlPacket.seqNo 24]
    pure (6, buf)

def ucpPacketDecodeCtrlData (buf : List UInt8) (bufLen : Nat) (packet : UcpPacket) :
    Except MemFault UcpPacket :=
  if bufLen < 6 then pure packet
  else do
    let type ← Mem.load buf 0
    let flag ← Mem.load buf 1
    let seqNo ← Mem.loadWord buf 5 4 3 2
    pure { packet with type := type.toUInt32, ctrlPacket := { flag := flag.toUInt32, seqNo } }

/-- The one big-endian field of the format is `part_size`. -/
def ucpPacketEncodeMetaData (packet : UcpPacket) (buf : List UInt8) (bufLen : Nat) :
    Except MemFault (Nat × List UInt8) :=
  if bufLen < sizeofUcpPacket then pure (sizeMinusOne, buf)
  else if packet.type ≠ ucpPacketTypeMetadata then pure (sizeMinusOne, buf)
  else do
    let metadataPacket := packet.metadataPacket
    let buf ← Mem.store buf 0
      [byte packet.type 0, metadataPacket.partIndex,
       byte metadataPacket.partSize 24, byte metadataPacket.partSize 16,
       byte metadataPacket.partSize 8, byte metadataPacket.partSize 0]
    let buf ← Mem.store buf 6 metadataPacket.desinationName.bytes
    pure (6 + 20, buf)

def ucpPacketDecodeMetaData (buf : List UInt8) (bufLen : Nat) (packet : UcpPacket) :
    Except MemFault UcpPacket :=
  if bufLen < sizeofUcpPacket then pure packet
  else do
    let type ← Mem.load buf 0
    let partIndex ← Mem.load buf 1
    let partSize ← Mem.loadWord buf 2 3 4 5
    let name ← Mem.loadRange buf 6 20
    let desinationName ← packet.metadataPacket.desinationName.memcpy name
    pure { packet with type := type.toUInt32, metadataPacket := { desinationName, partIndex, partSize } }

def ucpPacketEncode (packet : UcpPacket) (buf : List UInt8) (bufLen : Nat) :
    Except MemFault (Nat × List UInt8) :=
  if packet.type = ucpPacketTypeData then ucpPacketEncodeData packet buf bufLen
  else if packet.type = ucpPacketTypeCtrl then ucpPacketEncodeCtrlData packet buf bufLen
  else if packet.type = ucpPacketTypeMetadata then ucpPacketEncodeMetaData packet buf bufLen
  else pure (sizeMinusTwo, buf)

/-- A first byte that names no packet type leaves `packet` as it was. -/
def ucpPacketDecode (buf : List UInt8) (bufLen : Nat) (packet : UcpPacket) : Except MemFault UcpPacket := do
  let type ← Mem.load buf 0
  if type.toUInt32 = ucpPacketTypeData then ucpPacketDecodeData buf bufLen packet
  else if type.toUInt32 = ucpPacketTypeMetadata then ucpPacketDecodeMetaData buf bufLen packet
  else if type.toUInt32 = ucpPacketTypeCtrl then ucpPacketDecodeCtrlData buf bufLen packet
  else pure packet

end UCP

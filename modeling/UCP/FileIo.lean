import UCP.Packet

namespace UCP

/-- An open stdio stream: the contents of the file as they are seen through the
stream, its buffer included, the position and the end-of-file indicator. -/
structure FileStream where
  content : List UInt8
  pos : Nat
  eof : Bool

namespace FileStream

def fseek (fp : FileStream) (offset : Nat) : FileStream := { fp with pos := offset, eof := false }

/-- A short read sets the end-of-file indicator; a read that ends exactly at
the last byte does not. -/
def fread (fp : FileStream) (n : Nat) : List UInt8 × FileStream :=
  let bytes := (fp.content.drop fp.pos).take n
  (bytes, { fp with pos := fp.pos + bytes.length, eof := fp.eof || decide (bytes.length < n) })

/-- A write of which the file takes at most `accepts` bytes; the result counts
the bytes taken. -/
def fwrite (fp : FileStream) (accepts : Nat) (bytes : List UInt8) : Nat × FileStream :=
  let taken := bytes.take accepts
  (taken.length, { fp with content := fp.content.overwrite 0 fp.pos taken, pos := fp.pos + taken.length })

end FileStream

structure FileIoPartitionHandle where
  fp : FileStream
  lastSeqNo : UInt32
  partSize : UInt32

/-- The handle `file_io_partition_file` leaves for a partition with content `c`. -/
def openPartition (c : List UInt8) : FileIoPartitionHandle where
  fp := { content := c, pos := 0, eof := false }
  lastSeqNo := 0
  partSize := UInt32.ofNat c.length

def fileIoGetNextPacket (handle : FileIoPartitionHandle) :
    Except MemFault (Option UcpPacket × FileIoPartitionHandle) :=
  let offset := handle.fp.pos
  let (buffer, fp) := handle.fp.fread udpPacketDataSize
  let size := buffer.length
  if size = 0 then pure (none, { handle with fp })
  else do
    let packet ← ucpPacketInitData handle.lastSeqNo offset buffer size
    let flag :=
      if offset = 0 then ucpFlagDataStart
      else if fp.eof then ucpFlagDataEnd
      else packet.dataPacket.flag
    pure (some { packet with dataPacket := { packet.dataPacket with flag } },
      { handle with fp, lastSeqNo := handle.lastSeqNo + 1 })

/-- How the stdio calls of one save turn out. When `fwrite` or `fflush` fails,
`landed` bounds the bytes that reach the file all the same. -/
structure SaveIo where
  seekFails : Bool
  accepts : Nat
  flushFails : Bool
  landed : Nat

def fileIoSavePacket (io : SaveIo) (handle : FileIoPartitionHandle) (packet : UcpPacket) :
    Except MemFault (Bool × FileIoPartitionHandle) :=
  if io.seekFails then pure (false, handle)
  else do
    let fp := handle.fp.fseek packet.dataPacket.offset.toNat
    let data ← Mem.loadRange packet.dataPacket.segmentData.bytes 0 packet.dataPacket.segLen
    if min io.accepts data.length ≠ packet.dataPacket.segLen then
      pure (false, { handle with fp := (fp.fwrite io.landed data).2 })
    else if io.flushFails then
      pure (false, { handle with fp := (fp.fwrite io.landed data).2 })
    else pure (true, { handle with fp := (fp.fwrite data.length data).2 })

/-- The loop of `file_io_open_file_of_size`; `accepts k` is what the file takes
of its `k`-th write. -/
def zeroFill (accepts : Nat → Nat) (k : Nat) (fp : FileStream) (remaining : Nat) : Bool × FileStream :=
  if remaining = 0 then (true, fp)
  else
    let writeSize := if remaining > udpPacketDataSize then udpPacketDataSize else remaining
    let (written, fp) := fp.fwrite (accepts k) (List.replicate writeSize 0)
    if written ≠ writeSize then (false, fp)
    else zeroFill accepts (k + 1) fp (remaining - writeSize)
termination_by remaining
decreasing_by
  have : 0 < udpPacketDataSize := by decide
  show remaining - (if remaining > udpPacketDataSize then udpPacketDataSize else remaining) < remaining
  split <;> omega

/-- `file_io_open_file_of_size`, from the point where `fopen` has truncated the file. -/
def fileIoOpenFileOfSize (accepts : Nat → Nat) (handle : FileIoPartitionHandle) (size : Nat) :
    Bool × FileIoPartitionHandle :=
  let (result, fp) := zeroFill accepts 0 { content := [], pos := 0, eof := false } size
  (result, { handle with fp, partSize := UInt32.ofNat size })

end UCP

import UCP.ReceivedFile

namespace UCP

/-- `fseek` to an offset that is a `size_t`: what is negative as a `long` is
refused, and nobody looks at that. -/
def FileStream.fseekSet (fp : FileStream) (offset : Nat) : FileStream :=
  if offset < 2 ^ 63 then fp.fseek offset else fp

def fileIoGetNextPacketWithOffset (handle : FileIoPartitionHandle) (offset : Nat) :
    Except MemFault (Option UcpPacket × FileIoPartitionHandle) :=
  let (buffer, fp) := (handle.fp.fseekSet offset).fread udpPacketDataSize
  let size := buffer.length
  if size = 0 then pure (none, { handle with fp })
  else do
    let packet ← ucpPacketInitData handle.lastSeqNo offset buffer size
    pure (some packet, { handle with fp, lastSeqNo := handle.lastSeqNo + 1 })

/-- The size is that of the read, and the buffer has room for one packet. -/
def fileIoGetNextPacketWithOffsetAndSize (handle : FileIoPartitionHandle) (offset size : Nat) :
    Except MemFault (Option UcpPacket × FileIoPartitionHandle) := do
  let (bytes, fp) := (handle.fp.fseekSet offset).fread size
  let buffer ← (Buffer.zeros udpPacketDataSize).memcpy bytes
  let readSize := bytes.length
  if readSize = 0 then pure (none, { handle with fp })
  else do
    let packet ← ucpPacketInitData handle.lastSeqNo offset buffer.bytes readSize
    pure (some packet, { handle with fp, lastSeqNo := handle.lastSeqNo + 1 })

/-- A call of one of the three readers. -/
inductive ReadRequest
  | next
  | withOffset (offset : Nat)
  | withOffsetAndSize (offset size : Nat)
  deriving DecidableEq, Repr

def ReadRequest.run (handle : FileIoPartitionHandle) :
    ReadRequest → Except MemFault (Option UcpPacket × FileIoPartitionHandle)
  | next => fileIoGetNextPacket handle
  | withOffset offset => fileIoGetNextPacketWithOffset handle offset
  | withOffsetAndSize offset size => fileIoGetNextPacketWithOffsetAndSize handle offset size

/-- The packets that these calls return, one after the other. -/
def readPackets (handle : FileIoPartitionHandle) :
    List ReadRequest → Except MemFault (List UcpPacket × FileIoPartitionHandle)
  | [] => pure ([], handle)
  | request :: requests => do
    let (packet, handle) ← request.run handle
    let (packets, handle) ← readPackets handle requests
    pure (packet.toList ++ packets, handle)

/-- Offsets within what `fseek` takes, and sizes within a packet. -/
def ReadRequest.Valid : ReadRequest → Prop
  | next => True
  | withOffset offset => offset < 2 ^ 63
  | withOffsetAndSize offset size => offset < 2 ^ 63 ∧ size ≤ udpPacketDataSize

/-- The positions that a call asks for by their offset. -/
def ReadRequest.range : ReadRequest → Set Nat
  | next => ∅
  | withOffset offset => Set.Ico offset (offset + udpPacketDataSize)
  | withOffsetAndSize offset size => Set.Ico offset (offset + size)

/-- What a read of `n` bytes at `offset` comes to: a packet with the bytes that
are there, if any are. -/
inductive ReadsSlice (c : List UInt8) (offset n : Nat) : Option UcpPacket → Prop
  | none : (c.drop offset).take n = [] → ReadsSlice c offset n none
  | some {p : UcpPacket} : (c.drop offset).take n ≠ [] → p.type = ucpPacketTypeData → p.dataPacket.flag < 256 →
      p.dataPacket.offset = UInt32.ofNat offset → p.dataPacket.segLen = ((c.drop offset).take n).length →
      p.dataPacket.segmentData.bytes.take p.dataPacket.segLen = (c.drop offset).take n →
      ReadsSlice c offset n (some p)

/-- A packet that carries some slice of the partition. -/
structure IsSlice (c : List UInt8) (p : UcpPacket) : Prop where
  encodable : p.Encodable
  isData : p.type = ucpPacketTypeData
  bounded : p.dataPacket.segLen ≤ udpPacketDataSize
  within : p.dataPacket.offset.toNat + p.dataPacket.segLen ≤ c.length
  bytes : p.dataPacket.segmentData.bytes.take p.dataPacket.segLen =
    (c.drop p.dataPacket.offset.toNat).take p.dataPacket.segLen

section Read

variable {c : List UInt8} {handle : FileIoPartitionHandle} {offset n size : Nat} {packet : Option UcpPacket}
  {p : UcpPacket}

theorem ReadsSlice.covers (reads : ReadsSlice c offset n (.some p)) (short : c.length < 2 ^ 32) :
    p.covers = Set.Ico offset (offset + min n (c.length - offset)) := by
  cases reads with
  | some nonempty _ _ offsetEq segLen _ =>
    have positive := List.length_pos_iff.mpr nonempty
    rw [List.length_take, List.length_drop] at positive segLen
    rw [UcpPacket.covers, offsetEq, segLen, UInt32.toNat_ofNat_of_lt' (show offset < 2 ^ 32 by omega)]

theorem ReadsSlice.isSlice (reads : ReadsSlice c offset n (.some p)) (short : c.length < 2 ^ 32)
    (small : n ≤ udpPacketDataSize) : IsSlice c p := by
  cases reads with
  | some nonempty isData flag offsetEq segLen bytes =>
    have positive := List.length_pos_iff.mpr nonempty
    have length : ((c.drop offset).take n).length = min n (c.length - offset) := by
      rw [List.length_take, List.length_drop]
    have offsetNat : p.dataPacket.offset.toNat = offset := by
      rw [offsetEq, UInt32.toNat_ofNat_of_lt' (show offset < 2 ^ 32 by omega)]
    refine ⟨.data isData flag (by omega), isData, by omega, by omega, ?_⟩
    rw [bytes, offsetNat, segLen, List.length_take]
    exact List.take_eq_take_iff.mpr (by omega)

theorem ucpPacketInitData_slice {buf : List UInt8} (seqNo : UInt32) (offset : Nat) (loads : n ≤ buf.length)
    (fits : n ≤ udpPacketDataSize) :
    ∃ p, ucpPacketInitData seqNo offset buf n = .ok p ∧ p.type = ucpPacketTypeData ∧
      p.dataPacket.flag = ucpFlagDataSegment ∧ p.dataPacket.seqNo = seqNo ∧
      p.dataPacket.offset = UInt32.ofNat offset ∧ p.dataPacket.segLen = n ∧
      p.dataPacket.segmentData.bytes.take n = buf.take n := by
  have loaded : Mem.loadRange buf 0 n = .ok (buf.take n) := by
    rw [Mem.loadRange_eq_ok (by omega), List.drop_zero]
  have length : (buf.take n).length = n := by
    rw [List.length_take]
    omega
  obtain ⟨segmentData, copied, bytes⟩ :=
    (Buffer.zeros udpPacketDataSize).memcpy_eq_ok (buf.take n) (length.trans_le fits)
  have copied : (ucpPacketInit ucpPacketTypeData).dataPacket.segmentData.memcpy (buf.take n) =
      .ok segmentData := copied
  refine ⟨_, by simp only [ucpPacketInitData, loaded, bind, Except.bind, copied]; rfl, rfl, rfl, rfl, rfl, rfl, ?_⟩
  rw [bytes]
  exact List.take_left' length

theorem fseekSet_eq (fp : FileStream) (valid : offset < 2 ^ 63) : fp.fseekSet offset = fp.fseek offset :=
  if_pos valid

theorem ucpPacketInitData_congr {seqNo : UInt32} {buf buf' : List UInt8} (loads : n ≤ buf.length)
    (loads' : n ≤ buf'.length) (same : buf.take n = buf'.take n) :
    ucpPacketInitData seqNo offset buf n = ucpPacketInitData seqNo offset buf' n := by
  have loaded : Mem.loadRange buf 0 n = Mem.loadRange buf' 0 n := by
    rw [Mem.loadRange_eq_ok (by omega), Mem.loadRange_eq_ok (by omega), List.drop_zero, List.drop_zero, same]
  simp only [ucpPacketInitData, loaded]

/-- When the buffer has room for what is read, the packet is made of it. -/
theorem withOffsetAndSize_eq {bytes : List UInt8} {fp : FileStream}
    (read : (handle.fp.fseekSet offset).fread size = (bytes, fp)) (fits : bytes.length ≤ udpPacketDataSize) :
    fileIoGetNextPacketWithOffsetAndSize handle offset size =
      if bytes.length = 0 then .ok (none, { handle with fp })
      else (ucpPacketInitData handle.lastSeqNo offset bytes bytes.length).map fun packet =>
        (some packet, { handle with fp, lastSeqNo := handle.lastSeqNo + 1 }) := by
  obtain ⟨buffer, copied, content⟩ := (Buffer.zeros udpPacketDataSize).memcpy_eq_ok bytes fits
  have loads : bytes.length ≤ buffer.bytes.length := by
    rw [content, List.length_append]
    omega
  have same : buffer.bytes.take bytes.length = bytes.take bytes.length := by
    rw [content, List.take_left, List.take_length]
  simp only [fileIoGetNextPacketWithOffsetAndSize, read, copied, bind, Except.bind]
  rw [ucpPacketInitData_congr loads (Nat.le_refl _) same]
  split
  · rfl
  · cases ucpPacketInitData handle.lastSeqNo offset bytes bytes.length <;> rfl

/-- The reader that is given a size is the other one when it is given the size
of a packet. -/
theorem withOffsetAndSize_udpPacketDataSize (handle : FileIoPartitionHandle) (offset : Nat) :
    fileIoGetNextPacketWithOffsetAndSize handle offset udpPacketDataSize =
      fileIoGetNextPacketWithOffset handle offset := by
  obtain ⟨⟨bytes, fp⟩, read⟩ : ∃ result, (handle.fp.fseekSet offset).fread udpPacketDataSize = result := ⟨_, rfl⟩
  have fits : bytes.length ≤ udpPacketDataSize := by
    obtain rfl := (congrArg Prod.fst read)
    exact List.length_take_le ..
  rw [withOffsetAndSize_eq read fits]
  simp only [fileIoGetNextPacketWithOffset, read]
  by_cases nothing : bytes.length = 0
  · rw [if_pos nothing, if_pos nothing]
    rfl
  · rw [if_neg nothing, if_neg nothing]
    cases ucpPacketInitData handle.lastSeqNo offset bytes bytes.length <;> rfl

/-- The read goes past the buffer when more than a packet is asked for and there. -/
theorem withOffsetAndSize_error_iff (content : handle.fp.content = c) (valid : offset < 2 ^ 63) :
    (∃ fault, fileIoGetNextPacketWithOffsetAndSize handle offset size = .error fault) ↔
      udpPacketDataSize < size ∧ offset + udpPacketDataSize < c.length := by
  obtain ⟨⟨bytes, fp⟩, read⟩ : ∃ result, (handle.fp.fseekSet offset).fread size = result := ⟨_, rfl⟩
  have length : bytes.length = min size (c.length - offset) := by
    obtain rfl := congrArg Prod.fst read
    rw [fseekSet_eq _ valid, FileStream.fread, FileStream.fseek, content, List.length_take, List.length_drop]
  constructor
  · rintro ⟨fault, failed⟩
    by_contra within
    have fits : bytes.length ≤ udpPacketDataSize := by omega
    rw [withOffsetAndSize_eq read fits] at failed
    split at failed
    · cases failed
    · rw [ucpPacketInitData_eq fits] at failed
      cases failed
  · rintro ⟨big, there⟩
    have overflows : ¬bytes.length ≤ udpPacketDataSize := by omega
    refine ⟨.writeOutOfBounds udpPacketDataSize, ?_⟩
    simp only [fileIoGetNextPacketWithOffsetAndSize, read, Buffer.memcpy, dif_neg overflows]
    rfl

theorem withOffsetAndSize_spec (content : handle.fp.content = c) (valid : offset < 2 ^ 63)
    (small : size ≤ udpPacketDataSize) :
    ∃ packet handle', fileIoGetNextPacketWithOffsetAndSize handle offset size = .ok (packet, handle') ∧
      handle'.fp.content = c ∧ ReadsSlice c offset size packet := by
  obtain ⟨fp, read, kept⟩ : ∃ fp, (handle.fp.fseekSet offset).fread size = ((c.drop offset).take size, fp) ∧
      fp.content = c := by
    rw [fseekSet_eq _ valid, FileStream.fread, FileStream.fseek, content]
    exact ⟨_, rfl, rfl⟩
  have fits : ((c.drop offset).take size).length ≤ udpPacketDataSize := (List.length_take_le ..).trans small
  rw [withOffsetAndSize_eq read fits]
  by_cases nothing : ((c.drop offset).take size).length = 0
  · rw [if_pos nothing]
    exact ⟨_, _, rfl, kept, .none (List.length_eq_zero_iff.mp nothing)⟩
  · obtain ⟨p, made, isData, flag, _, offsetEq, segLen, bytes⟩ :=
      ucpPacketInitData_slice handle.lastSeqNo offset (Nat.le_refl _) fits
    rw [if_neg nothing, made]
    refine ⟨_, _, rfl, kept,
      .some (fun empty => nothing (List.length_eq_zero_iff.mpr empty)) isData ?_ offsetEq segLen ?_⟩
    · rw [flag]
      decide
    · rw [segLen, bytes, List.take_length]

theorem withOffset_spec (content : handle.fp.content = c) (valid : offset < 2 ^ 63) :
    ∃ packet handle', fileIoGetNextPacketWithOffset handle offset = .ok (packet, handle') ∧
      handle'.fp.content = c ∧ ReadsSlice c offset udpPacketDataSize packet := by
  rw [← withOffsetAndSize_udpPacketDataSize]
  exact withOffsetAndSize_spec content valid (Nat.le_refl _)

theorem getNextPacket_slice (content : handle.fp.content = c) :
    ∃ packet handle', fileIoGetNextPacket handle = .ok (packet, handle') ∧
      handle'.fp.content = c ∧ ReadsSlice c handle.fp.pos udpPacketDataSize packet := by
  have fits : ((c.drop handle.fp.pos).take udpPacketDataSize).length ≤ udpPacketDataSize := List.length_take_le ..
  by_cases nothing : ((c.drop handle.fp.pos).take udpPacketDataSize).length = 0
  · simp only [fileIoGetNextPacket, FileStream.fread, content, nothing, if_true]
    exact ⟨_, _, rfl, rfl, .none (List.length_eq_zero_iff.mp nothing)⟩
  · obtain ⟨p, made, isData, flag, _, offsetEq, segLen, bytes⟩ :=
      ucpPacketInitData_slice handle.lastSeqNo handle.fp.pos (Nat.le_refl _) fits
    simp only [fileIoGetNextPacket, FileStream.fread, content, if_neg nothing, made, bind, Except.bind]
    refine ⟨_, _, rfl, rfl,
      .some (fun empty => nothing (List.length_eq_zero_iff.mpr empty)) isData ?_ offsetEq segLen ?_⟩
    · dsimp only
      rw [flag]
      split
      · decide
      split <;> decide
    · dsimp only
      rw [segLen, bytes, List.take_length]

/-- The packet under another number, marked as neither the first nor the last. -/
def UcpPacket.renumbered (p : UcpPacket) (seqNo : UInt32) : UcpPacket :=
  { p with dataPacket := { p.dataPacket with flag := ucpFlagDataSegment, seqNo } }

/-- At the offset of a packet the reader finds that packet, but for its flag and
its sequence number. -/
theorem withOffset_segment (content : handle.fp.content = c) {k : Nat} (valid : udpPacketDataSize * k < 2 ^ 63) :
    ∃ handle', fileIoGetNextPacketWithOffset handle (udpPacketDataSize * k) =
      .ok ((segments c)[k]?.map (·.renumbered handle.lastSeqNo), handle') := by
  have read : ((handle.fp.fseekSet (udpPacketDataSize * k)).fread udpPacketDataSize).1 = piece c k := by
    rw [fseekSet_eq _ valid, FileStream.fread, FileStream.fseek, content, piece]
  by_cases within : k < segmentCount c
  · have positive := piece_pos within
    simp only [fileIoGetNextPacketWithOffset, read, if_neg positive.ne', ucpPacketInitData_eq (length_piece_le c k),
      segments, List.getElem?_map, List.getElem?_range within]
    exact ⟨_, rfl⟩
  · have nothing : piece c k = [] := by
      have outside := mt lt_segmentCount_iff.mpr within
      rw [piece, List.drop_eq_nil_of_le (by omega), List.take_nil]
    have beyond : (segments c)[k]? = none := by
      rw [List.getElem?_eq_none_iff, segments, List.length_map, List.length_range]
      exact Nat.not_lt.mp within
    simp only [fileIoGetNextPacketWithOffset, read, nothing, List.length_nil, if_true, beyond]
    exact ⟨_, rfl⟩

end Read

/-- The readers by offset agree with the plain one: a call gives the packet that
repeated calls give for that offset, but for its flag and number. A size other
than that of a packet is safe unless it is larger and the file has as much. -/
theorem offset_readers_agree {c : List UInt8} {handle : FileIoPartitionHandle} (content : handle.fp.content = c) :
    (∀ packets, ReadsUntilNull (openPartition c) packets → ∀ k, udpPacketDataSize * k < 2 ^ 63 →
      ∃ handle', fileIoGetNextPacketWithOffset handle (udpPacketDataSize * k) =
        .ok (packets[k]?.map (·.renumbered handle.lastSeqNo), handle')) ∧
    (∀ offset, fileIoGetNextPacketWithOffsetAndSize handle offset udpPacketDataSize =
      fileIoGetNextPacketWithOffset handle offset) ∧
    ∀ offset size, offset < 2 ^ 63 →
    ((∃ fault, fileIoGetNextPacketWithOffsetAndSize handle offset size = .error fault) ↔
      udpPacketDataSize < size ∧ offset + udpPacketDataSize < c.length) := by
  refine ⟨fun packets reads k valid => ?_, withOffsetAndSize_udpPacketDataSize handle,
    fun offset size valid => withOffsetAndSize_error_iff content valid⟩
  obtain rfl := readsUntilNull_iff.mp reads
  exact withOffset_segment content valid

theorem offset_readers_agree_three_bytes :
    let handle := openPartition [7, 8, 9]
    (∀ packets, ReadsUntilNull (openPartition [7, 8, 9]) packets → ∀ k, udpPacketDataSize * k < 2 ^ 63 →
      ∃ handle', fileIoGetNextPacketWithOffset handle (udpPacketDataSize * k) =
        .ok (packets[k]?.map (·.renumbered handle.lastSeqNo), handle')) ∧
    (∀ offset, fileIoGetNextPacketWithOffsetAndSize handle offset udpPacketDataSize =
      fileIoGetNextPacketWithOffset handle offset) ∧
    ∀ offset size, offset < 2 ^ 63 →
    ((∃ fault, fileIoGetNextPacketWithOffsetAndSize handle offset size = .error fault) ↔
      udpPacketDataSize < size ∧ offset + udpPacketDataSize < 3) :=
  offset_readers_agree rfl

section Requests

variable {c : List UInt8} {handle : FileIoPartitionHandle} {request : ReadRequest} {requests : List ReadRequest}

/-- A call in bounds changes nothing in the file, and a packet that it returns is
a slice. What is asked for by an offset is in it as far as it is there. -/
theorem ReadRequest.run_spec (content : handle.fp.content = c) (short : c.length < 2 ^ 32) (valid : request.Valid) :
    ∃ packet handle', request.run handle = .ok (packet, handle') ∧ handle'.fp.content = c ∧
      (∀ p ∈ packet, IsSlice c p) ∧ ∀ i ∈ request.range, i < c.length → ∃ p ∈ packet, i ∈ p.covers := by
  have slices {offset n : Nat} {packet : Option UcpPacket} (reads : ReadsSlice c offset n packet)
      (small : n ≤ udpPacketDataSize) : ∀ p ∈ packet, IsSlice c p := by
    rintro p rfl
    exact reads.isSlice short small
  have covers {offset n : Nat} {packet : Option UcpPacket} (reads : ReadsSlice c offset n packet) :
      ∀ i ∈ Set.Ico offset (offset + n), i < c.length → ∃ p ∈ packet, i ∈ p.covers := by
    intro i inside within
    have start : offset ≤ i := inside.1
    have stop : i < offset + n := inside.2
    cases packet with
    | none =>
      cases reads with
      | none nothing =>
        have length := congrArg List.length nothing
        rw [List.length_take, List.length_drop, List.length_nil] at length
        omega
    | some p => exact ⟨p, rfl, by rw [reads.covers short]; exact ⟨start, by omega⟩⟩
  cases request with
  | next =>
    obtain ⟨packet, handle', ran, kept, reads⟩ := getNextPacket_slice content
    exact ⟨packet, handle', ran, kept, slices reads (Nat.le_refl _), 
      fun i inside => absurd inside (Set.notMem_empty i)⟩
  | withOffset offset =>
    obtain ⟨packet, handle', ran, kept, reads⟩ := withOffset_spec content valid
    exact ⟨packet, handle', ran, kept, slices reads (Nat.le_refl _), covers reads⟩
  | withOffsetAndSize offset size =>
    obtain ⟨packet, handle', ran, kept, reads⟩ := withOffsetAndSize_spec content valid.1 valid.2
    exact ⟨packet, handle', ran, kept, slices reads valid.2, covers reads⟩

theorem readPackets_spec (content : handle.fp.content = c) (short : c.length < 2 ^ 32)
    (valid : ∀ request ∈ requests, request.Valid) :
    ∃ packets handle', readPackets handle requests = .ok (packets, handle') ∧ (∀ p ∈ packets, IsSlice c p) ∧
      ∀ request ∈ requests, ∀ i ∈ request.range, i < c.length → ∃ p ∈ packets, i ∈ p.covers := by
  induction requests generalizing handle with
  | nil =>
    exact ⟨[], handle, rfl, fun p member => absurd member List.not_mem_nil,
      fun request member => absurd member List.not_mem_nil⟩
  | cons request requests ih =>
    rw [List.forall_mem_cons] at valid
    obtain ⟨packet, middle, ran, kept, slice, covers⟩ := request.run_spec content short valid.1
    obtain ⟨packets, handle', rest, slices, coversRest⟩ := ih kept valid.2
    refine ⟨packet.toList ++ packets, handle', ?_, ?_, ?_⟩
    · simp only [readPackets, ran, rest, bind, Except.bind]
      rfl
    · rw [List.forall_mem_append]
      exact ⟨fun p member => slice p (Option.mem_toList.mp member), slices⟩
    · rw [List.forall_mem_cons]
      refine ⟨fun i inside within => ?_, fun request member i inside within => ?_⟩
      · obtain ⟨p, member, covered⟩ := covers i inside within
        exact ⟨p, List.mem_append_left _ (Option.mem_toList.mpr member), covered⟩
      · obtain ⟨p, member, covered⟩ := coversRest request member i inside within
        exact ⟨p, List.mem_append_right _ member, covered⟩

end Requests

section Save

variable {c : List UInt8} {t : Transfer} {s : Set Nat} {handle : FileIoPartitionHandle}

/-- A slice on its way to the file fills in its positions. -/
theorem Transfer.run_slice (slice : IsSlice c t.packet) (succeeds : t.io.Succeeds t.packet.dataPacket.segLen)
    (filled : List.FilledFrom 0 c s handle.fp.content) :
    ∃ handle', t.run handle = .ok handle' ∧ List.FilledFrom 0 c (s ∪ t.packet.covers) handle'.fp.content := by
  obtain ⟨len, out, encoded, sent, _, q, decoded, fields⟩ := slice.encodable.receive t.sendBuf t.recvBuf t.rcvPkt
  obtain ⟨_, _, offset, segLen, bytes⟩ := fields.data_eq slice.isData
  obtain ⟨result, n, handle', saved, -, whole, complete, content⟩ :=
    fileIoSavePacket_spec t.io handle (segLen.trans_le slice.bounded)
  have full : n = t.packet.dataPacket.segLen := (whole (complete (segLen ▸ succeeds))).trans segLen
  refine ⟨handle', ?_, ?_⟩
  · simp only [Transfer.run, encoded, sent, decoded, saved, bind, Except.bind]
    rfl
  · rw [content, segLen, bytes, offset, full, List.take_take, Nat.min_self, slice.bytes]
    exact filled.overwrite slice.within

theorem slices_filled {transfers : List Transfer} (slices : ∀ t ∈ transfers, IsSlice c t.packet)
    (succeed : ∀ t ∈ transfers, t.io.Succeeds t.packet.dataPacket.segLen)
    (filled : List.FilledFrom 0 c s handle.fp.content) :
    ∃ handle', transfers.foldlM (fun handle t => t.run handle) handle = .ok handle' ∧
      List.FilledFrom 0 c (s ∪ {i | ∃ t ∈ transfers, i ∈ t.packet.covers}) handle'.fp.content := by
  induction transfers generalizing s handle with
  | nil => exact ⟨handle, rfl, by simpa using filled⟩
  | cons t rest ih =>
    rw [List.forall_mem_cons] at slices succeed
    obtain ⟨middle, first, partly⟩ := Transfer.run_slice slices.1 succeed.1 filled
    obtain ⟨handle', later, done⟩ := ih slices.2 succeed.2 partly
    refine ⟨handle', ?_, ?_⟩
    · rw [List.foldlM_cons, first]
      exact later
    · convert done using 1
      ext i
      simp only [Set.mem_union, Set.mem_ofPred_eq, List.mem_cons, exists_eq_or_imp, or_assoc]

end Save

/-- Reading by offset, in any order and mixed with plain reads, transfers a file
as well: saving packets so read gives the file again exactly when all bytes that
none of them covers are zero, and what has been asked for is covered. -/
theorem offset_reads_transfer {c : List UInt8} {source : FileIoPartitionHandle} {requests : List ReadRequest}
    (accepts : Nat → Nat) (handle : FileIoPartitionHandle) (short : c.length < 2 ^ 32)
    (content : source.fp.content = c)
    (valid : ∀ request ∈ requests, request.Valid) (allWrites : ∀ k, udpPacketDataSize ≤ accepts k) :
    ∃ packets source', readPackets source requests = .ok (packets, source') ∧
      (∀ request ∈ requests, ∀ i ∈ request.range, i < c.length → ∃ p ∈ packets, i ∈ p.covers) ∧
      ∀ transfers : List Transfer, (∀ t ∈ transfers, t.packet ∈ packets) →
        (∀ t ∈ transfers, t.io.Succeeds t.packet.dataPacket.segLen) →
        ∃ received, transfers.foldlM (fun handle t => t.run handle)
            (fileIoOpenFileOfSize accepts handle c.length).2 = .ok received ∧
          (received.fp.content = c ↔
            ∀ i, i < c.length → (∀ t ∈ transfers, i ∉ t.packet.covers) → (c)[i]? = some 0) := by
  obtain ⟨packets, source', ran, slices, covers⟩ := readPackets_spec content short valid
  refine ⟨packets, source', ran, covers, fun transfers drawn succeed => ?_⟩
  have blank : List.FilledFrom 0 c ∅ (fileIoOpenFileOfSize accepts handle c.length).2.fp.content := by
    rw [(fileIoOpenFileOfSize_succeeds allWrites handle c.length).2]
    exact .start 0 c
  obtain ⟨received, saved, filled⟩ := slices_filled (fun t member => slices _ (drawn t member)) succeed blank
  refine ⟨received, saved, filled.eq_reference_iff.trans (forall₂_congr fun i _ => imp_congr_left ?_)⟩
  rw [Set.empty_union, Set.mem_ofPred_eq]
  push Not
  rfl

theorem offset_reads_transfer_three_bytes : ∃ packets source',
    readPackets (openPartition [7, 8, 9]) [.withOffsetAndSize 1 2, .next, .withOffset 0] = .ok (packets, source') ∧
      ∀ i, i < 3 → ∃ p ∈ packets, i ∈ p.covers := by
  have valid : ∀ request ∈ [ReadRequest.withOffsetAndSize 1 2, .next, .withOffset 0], request.Valid := by
    simp [ReadRequest.Valid, udpPacketDataSize]
  have content : (openPartition [7, 8, 9]).fp.content = [7, 8, 9] := rfl
  obtain ⟨packets, source', ran, covers, _⟩ := offset_reads_transfer (fun _ => udpPacketDataSize) (openPartition [])
    (by decide) content valid (fun _ => Nat.le_refl _)
  have large : 3 ≤ 0 + udpPacketDataSize := by decide
  exact ⟨packets, source', ran, fun i within =>
    covers (.withOffset 0) (by decide) i ⟨Nat.zero_le i, within.trans_le large⟩ within⟩

end UCP

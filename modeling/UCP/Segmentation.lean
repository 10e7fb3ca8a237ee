import UCP.FileIo
import UCP.PacketFormat

namespace UCP

/-- The packets repeated calls of `file_io_get_next_packet` produce before the
first call that returns `NULL`. -/
inductive ReadsUntilNull : FileIoPartitionHandle → List UcpPacket → Prop
  | null {h h'} : fileIoGetNextPacket h = .ok (none, h') → ReadsUntilNull h []
  | packet {h h' p ps} : fileIoGetNextPacket h = .ok (some p, h') → ReadsUntilNull h' ps →
      ReadsUntilNull h (p :: ps)

/-- The bytes of the partition that its `k`-th packet carries. -/
def piece (c : List UInt8) (k : Nat) : List UInt8 :=
  (c.drop (udpPacketDataSize * k)).take udpPacketDataSize

def segmentCount (c : List UInt8) : Nat := (c.length + (udpPacketDataSize - 1)) / udpPacketDataSize

theorem lt_segmentCount_iff {c : List UInt8} {k : Nat} :
    k < segmentCount c ↔ udpPacketDataSize * k < c.length := by
  have positive : 0 < udpPacketDataSize := by decide
  rw [segmentCount, Nat.lt_iff_add_one_le, Nat.le_div_iff_mul_le positive, Nat.add_mul, Nat.mul_comm k]
  omega

theorem length_piece (c : List UInt8) (k : Nat) :
    (piece c k).length = min udpPacketDataSize (c.length - udpPacketDataSize * k) := by
  rw [piece, List.length_take, List.length_drop]

theorem length_piece_le (c : List UInt8) (k : Nat) : (piece c k).length ≤ udpPacketDataSize := by
  rw [length_piece]
  exact Nat.min_le_left ..

theorem piece_pos {c : List UInt8} {k : Nat} (within : k < segmentCount c) : 0 < (piece c k).length := by
  have inside := lt_segmentCount_iff.mp within
  have positive : 0 < udpPacketDataSize := by decide
  rw [length_piece]
  omega

theorem piece_end_le {c : List UInt8} {k : Nat} (within : k < segmentCount c) :
    udpPacketDataSize * k + (piece c k).length ≤ c.length := by
  have inside := lt_segmentCount_iff.mp within
  rw [length_piece]
  omega

theorem segmentCount_lt {c : List UInt8} {n : Nat} (short : c.length < n) : segmentCount c < n := by
  by_contra many
  have inside : n - 1 < segmentCount c := by omega
  have bytes := lt_segmentCount_iff.mp inside
  have atLeast : n - 1 ≤ udpPacketDataSize * (n - 1) := Nat.le_mul_of_pos_left _ (by decide)
  omega

/-- The `k`-th packet of a partition, in closed form. -/
def segment (c : List UInt8) (k : Nat) : UcpPacket :=
  { ucpPacketInit ucpPacketTypeData with
    dataPacket := {
      flag :=
        if k = 0 then ucpFlagDataStart
        else if c.length < udpPacketDataSize * (k + 1) then ucpFlagDataEnd
        else ucpFlagDataSegment
      seqNo := UInt32.ofNat k
      offset := UInt32.ofNat (udpPacketDataSize * k)
      segLen := (piece c k).length
      segmentData := ⟨piece c k ++ List.replicate (udpPacketDataSize - (piece c k).length) 0, by
        have := length_piece_le c k
        rw [List.length_append, List.length_replicate]; omega⟩ } }

def segments (c : List UInt8) : List UcpPacket := (List.range (segmentCount c)).map (segment c)

theorem mem_segments {c : List UInt8} {p : UcpPacket} :
    p ∈ segments c ↔ ∃ k, k < segmentCount c ∧ segment c k = p := by
  simp only [segments, List.mem_map, List.mem_range]

theorem segment_take (c : List UInt8) (k : Nat) :
    (segment c k).dataPacket.segmentData.bytes.take (segment c k).dataPacket.segLen = piece c k :=
  List.take_left

/-- The handle of a partition after `k` packets have been read from it. The
end-of-file indicator only matters while bytes are left to read. -/
structure ReadHandle (c : List UInt8) (k : Nat) (h : FileIoPartitionHandle) : Prop where
  content : h.fp.content = c
  pos : h.fp.pos = min (udpPacketDataSize * k) c.length
  lastSeqNo : h.lastSeqNo = UInt32.ofNat k
  eof : k < segmentCount c → h.fp.eof = false
  reached : k ≤ segmentCount c

theorem openPartition_readHandle (c : List UInt8) : ReadHandle c 0 (openPartition c) where
  content := rfl
  pos := by simp [openPartition]
  lastSeqNo := rfl
  eof := fun _ => rfl
  reached := Nat.zero_le _

theorem ucpPacketInitData_eq {seqNo : UInt32} {offset : Nat} {buf : List UInt8}
    (fits : buf.length ≤ udpPacketDataSize) :
    ucpPacketInitData seqNo offset buf buf.length =
      .ok { ucpPacketInit ucpPacketTypeData with
        dataPacket := {
          flag := ucpFlagDataSegment
          seqNo
          offset := UInt32.ofNat offset
          segLen := buf.length
          segmentData := ⟨buf ++ List.replicate (udpPacketDataSize - buf.length) 0, by
            rw [List.length_append, List.length_replicate]; omega⟩ } } := by
  have loaded : Mem.loadRange buf 0 buf.length = .ok buf := by
    rw [Mem.loadRange_eq_ok (by omega), List.drop_zero, List.take_length]
  have copied : (Buffer.zeros udpPacketDataSize).memcpy buf =
      .ok ⟨buf ++ List.replicate (udpPacketDataSize - buf.length) 0, by
        rw [List.length_append, List.length_replicate]; omega⟩ := by
    rw [Buffer.memcpy_isOk_iff]
    exact ⟨fits, by rw [Buffer.zeros, List.drop_replicate]⟩
  simp only [ucpPacketInitData, loaded, bind, Except.bind]
  change ((Buffer.zeros udpPacketDataSize).memcpy buf).bind (fun segmentData => _) = _
  rw [copied]
  rfl

theorem ReadHandle.fread {c : List UInt8} {k : Nat} {h : FileIoPartitionHandle} (reading : ReadHandle c k h) :
    (h.fp.fread udpPacketDataSize).1 = piece c k := by
  rw [FileStream.fread, reading.content, reading.pos, piece]
  by_cases inside : udpPacketDataSize * k ≤ c.length
  · rw [Nat.min_eq_left inside]
  · rw [Nat.min_eq_right (by omega), List.drop_length, List.drop_eq_nil_of_le (by omega)]

/-- One call of `file_io_get_next_packet` while bytes are left. -/
theorem ReadHandle.next {c : List UInt8} {k : Nat} {h : FileIoPartitionHandle} (reading : ReadHandle c k h)
    (within : k < segmentCount c) :
    ∃ h', fileIoGetNextPacket h = .ok (some (segment c k), h') ∧ ReadHandle c (k + 1) h' := by
  have inside := lt_segmentCount_iff.mp within
  have positive := piece_pos within
  have pos : h.fp.pos = udpPacketDataSize * k := reading.pos.trans (Nat.min_eq_left inside.le)
  have atStart : udpPacketDataSize * k = 0 ↔ k = 0 := by
    rw [Nat.mul_eq_zero]
    exact or_iff_right (by decide)
  have short : (piece c k).length < udpPacketDataSize ↔ c.length < udpPacketDataSize * (k + 1) := by
    rw [length_piece, Nat.mul_succ]
    omega
  have bytes : (h.fp.content.drop h.fp.pos).take udpPacketDataSize = piece c k := reading.fread
  refine ⟨{ h with
    fp := { content := h.fp.content, pos := h.fp.pos + (piece c k).length,
            eof := h.fp.eof || decide ((piece c k).length < udpPacketDataSize) }
    lastSeqNo := h.lastSeqNo + 1 }, ?_, ?_⟩
  · simp only [fileIoGetNextPacket, FileStream.fread, bytes]
    rw [if_neg (by omega), ucpPacketInitData_eq (length_piece_le c k)]
    simp only [bind, Except.bind, pure, Except.pure, pos, atStart, reading.eof within, reading.lastSeqNo,
      Bool.false_or, decide_eq_true_eq, short]
    rfl
  · refine ⟨reading.content, ?_, ?_, ?_, within⟩
    · change h.fp.pos + (piece c k).length = _
      rw [pos, length_piece, Nat.mul_succ]
      omega
    · change h.lastSeqNo + 1 = _
      rw [reading.lastSeqNo, UInt32.ofNat_add]
      rfl
    · intro more
      have full : ¬(piece c k).length < udpPacketDataSize := by
        have := lt_segmentCount_iff.mp more
        rw [short]
        omega
      simp only [reading.eof within, full, decide_false, Bool.or_false]

theorem ReadHandle.exhausted {c : List UInt8} {k : Nat} {h : FileIoPartitionHandle} (reading : ReadHandle c k h)
    (finished : segmentCount c ≤ k) :
    ∃ h', fileIoGetNextPacket h = .ok (none, h') ∧ ReadHandle c k h' := by
  have outside : c.length ≤ udpPacketDataSize * k := by
    have := mt lt_segmentCount_iff.mpr (Nat.not_lt.mpr finished)
    omega
  have bytes : (h.fp.content.drop h.fp.pos).take udpPacketDataSize = piece c k := reading.fread
  have nothing : piece c k = [] := by rw [piece, List.drop_eq_nil_of_le outside, List.take_nil]
  refine ⟨{ h with fp := (h.fp.fread udpPacketDataSize).2 }, ?_, ?_⟩
  · simp only [fileIoGetNextPacket, FileStream.fread, bytes, nothing, List.length_nil, if_true]
    rfl
  · refine ⟨reading.content, ?_, reading.lastSeqNo, fun within => absurd within (by omega), reading.reached⟩
    simp only [FileStream.fread, bytes, nothing, List.length_nil, Nat.add_zero]
    exact reading.pos

theorem ReadHandle.readsUntilNull {c : List UInt8} {k : Nat} {h : FileIoPartitionHandle}
    (reading : ReadHandle c k h) :
    ReadsUntilNull h ((List.range' k (segmentCount c - k)).map (segment c)) := by
  induction remaining : segmentCount c - k generalizing k h with
  | zero =>
    obtain ⟨h', run, _⟩ := reading.exhausted (by omega)
    exact .null run
  | succ n ih =>
    obtain ⟨h', run, next⟩ := reading.next (by omega)
    exact .packet run (ih next (by omega))

theorem ReadsUntilNull.unique {h : FileIoPartitionHandle} {ps qs : List UcpPacket}
    (left : ReadsUntilNull h ps) (right : ReadsUntilNull h qs) : ps = qs := by
  induction left generalizing qs with
  | null run =>
    cases right with
    | null _ => rfl
    | packet other _ => rw [run] at other; cases other
  | packet run _ ih =>
    cases right with
    | null other => rw [run] at other; cases other
    | packet other rest =>
      rw [run] at other
      cases other
      exact congrArg _ (ih rest)

/-- Reading a partition to its end produces exactly its segments, in order. -/
theorem readsUntilNull_iff {c : List UInt8} {ps : List UcpPacket} :
    ReadsUntilNull (openPartition c) ps ↔ ps = segments c := by
  have complete := (openPartition_readHandle c).readsUntilNull
  rw [Nat.sub_zero, ← List.range_eq_range'] at complete
  constructor
  · exact fun reads => reads.unique complete
  · rintro rfl
    exact complete

/-- A handle with its position at the end of the partition reads nothing, now
and later. -/
theorem fileIoGetNextPacket_spent {h : FileIoPartitionHandle} (spent : h.fp.content.length ≤ h.fp.pos) :
    ∃ h', fileIoGetNextPacket h = .ok (none, h') ∧ h'.fp.content.length ≤ h'.fp.pos := by
  have nothing : (h.fp.content.drop h.fp.pos).take udpPacketDataSize = [] := by
    rw [List.drop_eq_nil_of_le spent, List.take_nil]
  refine ⟨{ h with fp := (h.fp.fread udpPacketDataSize).2 }, ?_, ?_⟩
  · simp only [fileIoGetNextPacket, FileStream.fread, nothing, List.length_nil, if_true]
    rfl
  · simpa only [FileStream.fread, nothing, List.length_nil, Nat.add_zero] using spent

theorem fileIoGetNextPacket_left {h : FileIoPartitionHandle} (left : h.fp.pos < h.fp.content.length) :
    ∃ p h', fileIoGetNextPacket h = .ok (some p, h') ∧ p.Encodable ∧ h'.fp.content = h.fp.content ∧
      h.fp.pos < h'.fp.pos := by
  obtain ⟨bytes, read⟩ : ∃ bytes, (h.fp.content.drop h.fp.pos).take udpPacketDataSize = bytes := ⟨_, rfl⟩
  have fits : bytes.length ≤ udpPacketDataSize := read ▸ List.length_take_le ..
  have nonempty : ¬bytes.length = 0 := by
    have positive : 0 < udpPacketDataSize := by decide
    rw [← read, List.length_take, List.length_drop]
    omega
  simp only [fileIoGetNextPacket, FileStream.fread, read, if_neg nonempty, ucpPacketInitData_eq fits]
  refine ⟨_, _, rfl, .data rfl ?_ fits, rfl, Nat.lt_add_of_pos_right (Nat.pos_of_ne_zero nonempty)⟩
  dsimp only
  split
  · decide
  split <;> decide

/-- Every handle comes to an end. -/
theorem exists_readsUntilNull (h : FileIoPartitionHandle) : ∃ ps, ReadsUntilNull h ps := by
  induction remaining : h.fp.content.length - h.fp.pos using Nat.strongRecOn generalizing h with
  | _ n ih =>
    by_cases left : h.fp.pos < h.fp.content.length
    · obtain ⟨p, h', run, _, content, further⟩ := fileIoGetNextPacket_left left
      obtain ⟨ps, reads⟩ := ih _ (by rw [content]; omega) h' rfl
      exact ⟨p :: ps, .packet run reads⟩
    · obtain ⟨h', run, _⟩ := fileIoGetNextPacket_spent (Nat.not_lt.mp left)
      exact ⟨[], .null run⟩

theorem ReadsUntilNull.cons_iff {h : FileIoPartitionHandle} {p : UcpPacket} {ps : List UcpPacket} :
    ReadsUntilNull h (p :: ps) ↔ ∃ h', fileIoGetNextPacket h = .ok (some p, h') ∧ ReadsUntilNull h' ps := by
  constructor
  · rintro ⟨_ | _⟩
    exact ⟨_, ‹_›, ‹_›⟩
  · rintro ⟨h', run, reads⟩
    exact .packet run reads

theorem segmentCount_two_packets (b : UInt8) : segmentCount (List.replicate 9175 b) = 2 := by
  rw [segmentCount, List.length_replicate]
  rfl

theorem segment_two_packets_flag (b : UInt8) : (segment (List.replicate 9175 b) 1).dataPacket.flag = ucpFlagDataEnd := by
  rw [segment, if_neg Nat.one_ne_zero, List.length_replicate]
  rfl

/-- A partition that makes two packets, the second with nine bytes. -/
def twoPackets : List UInt8 := List.replicate 9175 7

theorem segmentCount_twoPackets : segmentCount twoPackets = 2 := segmentCount_two_packets 7

theorem piece_twoPackets : piece twoPackets 1 = List.replicate 9 7 := by
  rw [piece, twoPackets, List.drop_replicate, List.take_replicate]
  rfl

end UCP

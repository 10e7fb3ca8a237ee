import UCP.Segmentation
import UCP.Sockets

namespace UCP

/-- Nothing goes wrong in a save of `size` bytes. -/
structure SaveIo.Succeeds (io : SaveIo) (size : Nat) : Prop where
  seek : io.seekFails = false
  write : size ≤ io.accepts
  flush : io.flushFails = false

/-- What one save can do: some prefix of the segment reaches the file at the
packet's offset, and all of it does when the save returns true. -/
theorem fileIoSavePacket_spec {q : UcpPacket} (io : SaveIo) (handle : FileIoPartitionHandle)
    (bounded : q.dataPacket.segLen ≤ udpPacketDataSize) :
    ∃ result n handle', fileIoSavePacket io handle q = .ok (result, handle') ∧
      n ≤ q.dataPacket.segLen ∧ (result = true → n = q.dataPacket.segLen) ∧
      (io.Succeeds q.dataPacket.segLen → result = true) ∧
      handle'.fp.content = handle.fp.content.overwrite 0 q.dataPacket.offset.toNat
        ((q.dataPacket.segmentData.bytes.take q.dataPacket.segLen).take n) := by
  have length := UcpDataPacket.take_segLen_length bounded
  have loaded : Mem.loadRange q.dataPacket.segmentData.bytes 0 q.dataPacket.segLen =
      .ok (q.dataPacket.segmentData.bytes.take q.dataPacket.segLen) := by
    rw [Mem.loadRange_eq_ok (by rw [q.dataPacket.segmentData.size]; omega), List.drop_zero]
  unfold fileIoSavePacket
  split
  · rename_i seekFails
    refine ⟨false, 0, handle, rfl, Nat.zero_le _, by simp, fun succeeds => ?_, ?_⟩
    · rw [succeeds.seek] at seekFails
      exact absurd seekFails (by decide)
    · rw [List.take_zero, List.overwrite_nil]
  simp only [loaded, bind, Except.bind, length]
  split
  · rename_i shortWrite
    refine ⟨false, min io.landed q.dataPacket.segLen, _, rfl, Nat.min_le_right .., by simp,
      fun succeeds => ?_, ?_⟩
    · exact absurd (Nat.min_eq_right succeeds.write) shortWrite
    · simp only [FileStream.fwrite, FileStream.fseek, List.take_take, Nat.min_assoc, Nat.min_self]
  split
  · rename_i flushFails
    refine ⟨false, min io.landed q.dataPacket.segLen, _, rfl, Nat.min_le_right .., by simp,
      fun succeeds => ?_, ?_⟩
    · rw [succeeds.flush] at flushFails
      exact absurd flushFails (by decide)
    · simp only [FileStream.fwrite, FileStream.fseek, List.take_take, Nat.min_assoc, Nat.min_self]
  · exact ⟨true, q.dataPacket.segLen, _, rfl, le_rfl, fun _ => rfl, fun _ => rfl, rfl⟩

theorem segment_encodable (c : List UInt8) (k : Nat) : (segment c k).Encodable := by
  refine .data rfl ?_ (length_piece_le c k)
  simp only [segment]
  split
  · decide
  split <;> decide

theorem segment_offset {c : List UInt8} {k : Nat} (short : c.length < 2 ^ 32) (within : k < segmentCount c) :
    (segment c k).dataPacket.offset.toNat = udpPacketDataSize * k := by
  have inside := lt_segmentCount_iff.mp within
  exact UInt32.toNat_ofNat_of_lt' (inside.trans short)

theorem segment_segLen (c : List UInt8) (k : Nat) : (segment c k).dataPacket.segLen = (piece c k).length := rfl

/-- Saving what was decoded of the `k`-th packet fills in a prefix of its piece
of the partition, and the whole piece when the save returns true. -/
theorem save_segment {c : List UInt8} {k : Nat} {q : UcpPacket} {s : Set Nat}
    {handle : FileIoPartitionHandle} (short : c.length < 2 ^ 32) (within : k < segmentCount c)
    (same : q.SameFields (segment c k)) (filled : List.FilledFrom 0 c s handle.fp.content) (io : SaveIo) :
    ∃ result n handle', fileIoSavePacket io handle q = .ok (result, handle') ∧
      n ≤ (piece c k).length ∧ (result = true → n = (piece c k).length) ∧
      (io.Succeeds (piece c k).length → result = true) ∧
      List.FilledFrom 0 c (s ∪ Set.Ico (udpPacketDataSize * k) (udpPacketDataSize * k + n))
        handle'.fp.content := by
  obtain ⟨_, _, offset, segLen, bytes⟩ := same.data_eq rfl
  have lengthEq : q.dataPacket.segLen = (piece c k).length := segLen
  have bytesEq : q.dataPacket.segmentData.bytes.take (piece c k).length = piece c k :=
    bytes.trans (segment_take c k)
  have bounded := length_piece_le c k
  obtain ⟨result, n, handle', run, bound, whole, succeeds, content⟩ :=
    fileIoSavePacket_spec io handle (lengthEq.trans_le bounded)
  rw [lengthEq] at bound whole succeeds
  refine ⟨result, n, handle', run, bound, whole, succeeds, ?_⟩
  rw [content, lengthEq, bytesEq, offset, segment_offset short within, piece, List.take_take,
    Nat.min_eq_left (bound.trans bounded)]
  have inside := piece_end_le within
  exact filled.overwrite (by omega)

/-- A datagram is received over whatever the receive buffer held, and decoding
it into whatever the packet held gives the packet that was sent. -/
theorem UcpPacket.Encodable.receive {p : UcpPacket} (encodable : p.Encodable)
    (sendBuf recvBuf : Buffer udpPacketSize) (previous : UcpPacket) :
    ∃ len out, ucpPacketEncode p sendBuf.bytes udpPacketSize = .ok (len, out) ∧
      udpSocketSend out len = p.wire ∧ (udpSocketReceiveFrom recvBuf p.wire).1 = p.wire.length ∧
      ∃ q, ucpPacketDecode (udpSocketReceiveFrom recvBuf p.wire).2.bytes udpPacketSize previous = .ok q ∧
        q.SameFields p := by
  have room : sizeofUcpPacket ≤ udpPacketSize := by decide
  have encoded := encodable.encode (room.trans_eq sendBuf.size.symm)
  rw [sendBuf.size] at encoded
  have fits := encodable.wire_length_le.trans room
  obtain ⟨q, decoded, same⟩ := encodable.decode_wire room (recvBuf.bytes.drop p.wire.length) previous
  refine ⟨_, _, encoded, List.take_left, Buffer.receive_length recvBuf fits, q, ?_, same⟩
  rw [udpSocketReceiveFrom, Buffer.receive_bytes recvBuf fits, decoded]

theorem zeroFill_succeeds {accepts : Nat → Nat} (allWrites : ∀ k, udpPacketDataSize ≤ accepts k)
    (k : Nat) (fp : FileStream) (remaining : Nat) (atEnd : fp.pos = fp.content.length) :
    (zeroFill accepts k fp remaining).1 = true ∧
      (zeroFill accepts k fp remaining).2.content = fp.content ++ List.replicate remaining 0 := by
  induction remaining using Nat.strong_induction_on generalizing k fp with
  | _ remaining ih =>
    rw [zeroFill]
    by_cases finished : remaining = 0
    · simp [finished]
    · have positive : 0 < udpPacketDataSize := by decide
      have enough := allWrites k
      obtain ⟨size, sizeEq⟩ : ∃ size, (if remaining > udpPacketDataSize then udpPacketDataSize else remaining) = size :=
        ⟨_, rfl⟩
      have sizeLe : size ≤ remaining ∧ size ≤ udpPacketDataSize ∧ 0 < size := by
        split at sizeEq <;> omega
      have taken : (List.replicate size (0 : UInt8)).take (accepts k) = List.replicate size 0 :=
        List.take_of_length_le (by rw [List.length_replicate]; omega)
      simp only [if_neg finished, sizeEq, FileStream.fwrite, taken, List.length_replicate, ne_eq,
        not_true_eq_false, if_false, atEnd, List.overwrite_end]
      have next := ih (remaining - size) (by omega) (k + 1)
        { fp with content := fp.content ++ List.replicate size 0, pos := fp.content.length + size }
        (by rw [List.length_append, List.length_replicate])
      refine ⟨next.1, next.2.trans ?_⟩
      rw [List.append_assoc, List.replicate_append_replicate, Nat.add_sub_cancel' sizeLe.1]

theorem fileIoOpenFileOfSize_succeeds {accepts : Nat → Nat} (allWrites : ∀ k, udpPacketDataSize ≤ accepts k)
    (handle : FileIoPartitionHandle) (size : Nat) :
    (fileIoOpenFileOfSize accepts handle size).1 = true ∧
      (fileIoOpenFileOfSize accepts handle size).2.fp.content = List.replicate size 0 :=
  zeroFill_succeeds allWrites 0 _ size rfl

/-- One packet on its way to the file, with the old contents of every buffer
it passes through. -/
structure Transfer where
  packet : UcpPacket
  sendBuf : Buffer udpPacketSize
  recvBuf : Buffer udpPacketSize
  rcvPkt : UcpPacket
  io : SaveIo

def Transfer.run (t : Transfer) (handle : FileIoPartitionHandle) : Except MemFault FileIoPartitionHandle := do
  let (len, buf) ← ucpPacketEncode t.packet t.sendBuf.bytes udpPacketSize
  let (_, recvBuf) := udpSocketReceiveFrom t.recvBuf (udpSocketSend buf len)
  let rcvPkt ← ucpPacketDecode recvBuf.bytes udpPacketSize t.rcvPkt
  let (_, handle) ← fileIoSavePacket t.io handle rcvPkt
  pure handle

/-- The positions of the file a packet is responsible for. -/
def UcpPacket.covers (p : UcpPacket) : Set Nat :=
  Set.Ico p.dataPacket.offset.toNat (p.dataPacket.offset.toNat + p.dataPacket.segLen)

theorem segment_covers {c : List UInt8} {k : Nat} (short : c.length < 2 ^ 32) (within : k < segmentCount c) :
    (segment c k).covers =
      Set.Ico (udpPacketDataSize * k) (udpPacketDataSize * k + (piece c k).length) := by
  rw [UcpPacket.covers, segment_offset short within]
  rfl

theorem Transfer.run_filled {c : List UInt8} {t : Transfer} {s : Set Nat} {handle : FileIoPartitionHandle}
    (short : c.length < 2 ^ 32) (drawn : t.packet ∈ segments c)
    (succeeds : t.io.Succeeds t.packet.dataPacket.segLen)
    (filled : List.FilledFrom 0 c s handle.fp.content) :
    ∃ handle', t.run handle = .ok handle' ∧
      List.FilledFrom 0 c (s ∪ t.packet.covers) handle'.fp.content := by
  obtain ⟨k, within, same⟩ := mem_segments.mp drawn
  obtain ⟨len, out, encoded, sent, _, q, decoded, fields⟩ :=
    (segment_encodable c k).receive t.sendBuf t.recvBuf t.rcvPkt
  rw [same] at encoded sent decoded
  obtain ⟨result, n, handle', saved, _, whole, complete, after⟩ :=
    save_segment short within fields filled t.io
  have full : n = (piece c k).length := by
    rw [← same] at succeeds
    exact whole (complete succeeds)
  refine ⟨handle', ?_, ?_⟩
  · simp only [Transfer.run, encoded, sent, decoded, saved, bind, Except.bind]
    rfl
  · rw [← same, segment_covers short within, ← full]
    exact after

/-- Any sequence of transfers, in any order and with any repetitions, fills in
exactly the positions of the packets it contains. -/
theorem transfers_filled {c : List UInt8} {s : Set Nat} {handle : FileIoPartitionHandle}
    (short : c.length < 2 ^ 32) (transfers : List Transfer) (drawn : ∀ t ∈ transfers, t.packet ∈ segments c)
    (succeed : ∀ t ∈ transfers, t.io.Succeeds t.packet.dataPacket.segLen)
    (filled : List.FilledFrom 0 c s handle.fp.content) :
    ∃ handle', transfers.foldlM (fun handle t => t.run handle) handle = .ok handle' ∧
      List.FilledFrom 0 c (s ∪ {i | ∃ t ∈ transfers, i ∈ t.packet.covers}) handle'.fp.content := by
  induction transfers generalizing s handle with
  | nil =>
    refine ⟨handle, rfl, ?_⟩
    simpa using filled
  | cons t rest ih =>
    obtain ⟨middle, first, partly⟩ := Transfer.run_filled short (drawn t (List.mem_cons_self ..))
      (succeed t (List.mem_cons_self ..)) filled
    obtain ⟨handle', later, done⟩ := ih (fun u member => drawn u (List.mem_cons_of_mem _ member))
      (fun u member => succeed u (List.mem_cons_of_mem _ member)) partly
    refine ⟨handle', ?_, ?_⟩
    · rw [List.foldlM_cons, first]
      exact later
    · convert done using 1
      ext i
      simp only [Set.mem_union, Set.mem_ofPred_eq, List.mem_cons, exists_eq_or_imp, or_assoc]

/-- The receiver's file after every prefix of any sequence of transfers of the
packets read from a partition: the right size, the right bytes where a packet
has been saved, and zeros elsewhere. -/
theorem received_file_contents {c : List UInt8} {packets : List UcpPacket} (accepts : Nat → Nat)
    (handle : FileIoPartitionHandle) (transfers : List Transfer) (n : Nat) (short : c.length < 2 ^ 32)
    (reads : ReadsUntilNull (openPartition c) packets) (allWrites : ∀ k, udpPacketDataSize ≤ accepts k)
    (drawn : ∀ t ∈ transfers, t.packet ∈ packets)
    (succeed : ∀ t ∈ transfers, t.io.Succeeds t.packet.dataPacket.segLen) :
    (fileIoOpenFileOfSize accepts handle c.length).1 = true ∧
      ∃ received, (transfers.take n).foldlM (fun handle t => t.run handle)
          (fileIoOpenFileOfSize accepts handle c.length).2 = .ok received ∧
        received.fp.content.length = c.length ∧
        ∀ i, i < c.length →
          ((∃ t ∈ transfers.take n, i ∈ t.packet.covers) → received.fp.content[i]? = (c)[i]?) ∧
          ((∀ t ∈ transfers.take n, i ∉ t.packet.covers) → received.fp.content[i]? = some 0) := by
  obtain rfl := readsUntilNull_iff.mp reads
  obtain ⟨created, zeros⟩ := fileIoOpenFileOfSize_succeeds allWrites handle c.length
  have blank : List.FilledFrom 0 c ∅ (fileIoOpenFileOfSize accepts handle c.length).2.fp.content := by
    rw [zeros]
    exact .start 0 c
  obtain ⟨received, run, filled⟩ := transfers_filled short (transfers.take n)
    (fun t member => drawn t (List.mem_of_mem_take member))
    (fun t member => succeed t (List.mem_of_mem_take member)) blank
  refine ⟨created, received, run, filled.length_eq, fun i within => ⟨fun covered => ?_, fun uncovered => ?_⟩⟩
  · exact filled.filled i (Or.inr covered)
  · refine filled.blank i within ?_
    rintro (nothing | ⟨t, member, inside⟩)
    · exact nothing
    · exact uncovered t member inside

/-- A transfer of one of two packets, in which nothing goes wrong. -/
def twoPacketsTransfer (i : Nat) : Transfer :=
  ⟨segment twoPackets i, Buffer.zeros _, Buffer.zeros _, ucpPacketInit 0, ⟨false, udpPacketDataSize, false, 0⟩⟩

theorem twoPacketsTransfer_covers {i j : Nat} (within : j < 2) :
    i ∈ (twoPacketsTransfer j).packet.covers ↔ 9166 * j ≤ i ∧ i < 9166 * j + min 9166 (9175 - 9166 * j) := by
  have length : twoPackets.length = 9175 := List.length_replicate
  have count := segmentCount_twoPackets
  have covers : (twoPacketsTransfer j).packet.covers = _ := segment_covers (by omega) (count ▸ within)
  rw [covers, Set.mem_Ico, length_piece, length]
  rfl

/-- The second packet arrives before the first one. -/
theorem received_file_contents_two_packets :
    let created := (fileIoOpenFileOfSize (fun _ => udpPacketDataSize) (openPartition []) twoPackets.length).2
    (∃ received, [twoPacketsTransfer 1].foldlM (fun handle t => t.run handle) created = .ok received ∧
      received.fp.content[0]? = some 0 ∧ received.fp.content[9166]? = some 7) ∧
    ∃ received, [twoPacketsTransfer 1, twoPacketsTransfer 0].foldlM (fun handle t => t.run handle) created =
        .ok received ∧
      received.fp.content = twoPackets := by
  have length : twoPackets.length = 9175 := List.length_replicate
  have count := segmentCount_twoPackets
  have both {p : Transfer → Prop} (first : ∀ i, i < 2 → p (twoPacketsTransfer i)) :
      ∀ t ∈ [twoPacketsTransfer 1, twoPacketsTransfer 0], p t :=
    List.forall_mem_cons.mpr ⟨first 1 (by decide), List.forall_mem_singleton.mpr (first 0 (by decide))⟩
  have contents (n : Nat) := received_file_contents (fun _ => udpPacketDataSize) (openPartition [])
    [twoPacketsTransfer 1, twoPacketsTransfer 0] n (by omega) (readsUntilNull_iff.mpr rfl) (fun _ => le_rfl)
    (both fun i within => mem_segments.mpr ⟨i, count ▸ within, rfl⟩)
    (both fun i _ => ⟨rfl, length_piece_le twoPackets i, rfl⟩)
  constructor
  · obtain ⟨_, received, run, _, bytes⟩ := contents 1
    refine ⟨received, run, (bytes 0 (by omega)).2 fun t member => ?_, ((bytes 9166 (by omega)).1 ?_).trans ?_⟩
    · rw [List.mem_singleton.mp member, twoPacketsTransfer_covers (by decide)]
      omega
    · exact ⟨_, List.mem_cons_self .., (twoPacketsTransfer_covers (by decide)).mpr (by omega)⟩
    · exact List.getElem?_replicate_of_lt (by decide)
  · obtain ⟨_, received, run, size, bytes⟩ := contents 2
    refine ⟨received, run, List.ext_getElem? fun i => ?_⟩
    by_cases within : i < 9175
    · refine (bytes i (by omega)).1 ?_
      by_cases first : i < 9166
      · exact ⟨twoPacketsTransfer 0, by simp, (twoPacketsTransfer_covers (by decide)).mpr (by omega)⟩
      · exact ⟨twoPacketsTransfer 1, by simp, (twoPacketsTransfer_covers (by decide)).mpr (by omega)⟩
    · rw [List.getElem?_eq_none (by omega), List.getElem?_eq_none (by omega)]

end UCP

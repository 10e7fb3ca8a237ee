import Mathlib.Data.List.SplitLengths
import UCP.ClientWindows
import UCP.PacketBounds
import UCP.Server

namespace UCP

open Word

theorem sendCtrlPacket_eq (seqNo flag : UInt32) (buf : Buffer 10) (data : Buffer tcpSegmentSize) :
    sendCtrlPacket seqNo flag buf data = .ok (UcpCtrlPacket.wire ⟨seqNo, flag⟩) := by
  have sent : (ucpPacketInitCtrl seqNo flag).ctrlPacket = ⟨seqNo, flag⟩ := rfl
  have encoded : ucpPacketEncode (ucpPacketInitCtrl seqNo flag) buf.bytes buf.bytes.length =
      .ok (6, (ucpPacketInitCtrl seqNo flag).ctrlPacket.wire ++ buf.bytes.drop 6) :=
    ucpPacketEncode_ctrl rfl (by rw [buf.size]; decide)
  rw [buf.size, sent] at encoded
  have loaded : Mem.loadRange (UcpCtrlPacket.wire ⟨seqNo, flag⟩ ++ buf.bytes.drop 6) 0 6 =
      .ok (UcpCtrlPacket.wire ⟨seqNo, flag⟩) := by
    rw [Mem.loadRange_eq_ok (by rw [List.length_append, UcpCtrlPacket.wire_length]; omega)]
    exact congrArg _ (List.take_left' rfl)
  obtain ⟨out, copied, bytes⟩ := data.memcpy_eq_ok (UcpCtrlPacket.wire ⟨seqNo, flag⟩)
    (by rw [UcpCtrlPacket.wire_length]; decide)
  simp only [sendCtrlPacket, encoded, loaded, copied, bind, Except.bind, tcpClientSend, bytes]
  exact congrArg Except.ok (List.take_left' rfl)

/-- The bytes the server writes for a sequence of control packets, one call of
`send_ctrl_packet` after the other. -/
inductive CtrlStream : List UcpCtrlPacket → List UInt8 → Prop
  | nil : CtrlStream [] []
  | cons {c packets bytes stream} (buf : Buffer 10) (data : Buffer tcpSegmentSize) :
      sendCtrlPacket c.seqNo c.flag buf data = .ok bytes → CtrlStream packets stream →
      CtrlStream (c :: packets) (bytes ++ stream)

theorem ctrlStream_iff {packets : List UcpCtrlPacket} {stream : List UInt8} :
    CtrlStream packets stream ↔ stream = packets.flatMap UcpCtrlPacket.wire := by
  constructor
  · intro written
    induction written with
    | nil => rfl
    | @cons c packets bytes stream buf data sent _ ih =>
      rw [sendCtrlPacket_eq] at sent
      cases sent
      rw [List.flatMap_cons, ih]
  · rintro rfl
    induction packets with
    | nil => exact .nil
    | cons c packets ih => exact .cons (Buffer.zeros _) (Buffer.zeros _) (sendCtrlPacket_eq ..) ih

theorem length_wires (packets : List UcpCtrlPacket) :
    (packets.flatMap UcpCtrlPacket.wire).length = 6 * packets.length := by
  induction packets with
  | nil => rfl
  | cons c packets ih =>
    rw [List.flatMap_cons, List.length_append, ih, UcpCtrlPacket.wire_length, List.length_cons]
    omega

theorem drop_wires (packets : List UcpCtrlPacket) (m : Nat) :
    (packets.flatMap UcpCtrlPacket.wire).drop (6 * m) = (packets.drop m).flatMap UcpCtrlPacket.wire := by
  induction m generalizing packets with
  | zero => rfl
  | succ m ih =>
    cases packets with
    | nil => simp
    | cons c packets =>
      rw [List.flatMap_cons, Nat.mul_succ, Nat.add_comm, ← List.drop_drop,
        List.drop_left' (UcpCtrlPacket.wire_length c), ih, List.drop_succ_cons]

/-- A read of whole control packets takes at least the first of them; and what is
left is whole again if its length says so. -/
theorem wires_read {packets : List UcpCtrlPacket} {incoming rest : List UInt8}
    (split : packets.flatMap UcpCtrlPacket.wire = incoming ++ rest) (whole : 6 ≤ incoming.length) :
    ∃ control ∈ packets, incoming = control.wire ++ incoming.drop 6 ∧
      (6 ∣ rest.length → ∃ later : List UcpCtrlPacket, rest = later.flatMap UcpCtrlPacket.wire ∧
        ∀ p ∈ later, p ∈ packets) := by
  cases packets with
  | nil =>
    have lengths := congrArg List.length split
    rw [List.length_append, List.flatMap_nil, List.length_nil] at lengths
    omega
  | cons control packets =>
    refine ⟨control, List.mem_cons_self .., ?_, fun ⟨m, left⟩ => ?_⟩
    · have start := congrArg (List.take 6) split
      rw [List.take_append_of_le_length whole, List.flatMap_cons,
        List.take_left' (UcpCtrlPacket.wire_length control)] at start
      rw [start, List.take_append_drop]
    · have total := congrArg List.length split
      rw [length_wires, List.length_append] at total
      have consumed : incoming.length = 6 * ((control :: packets).length - m) := by omega
      have tail := congrArg (List.drop (6 * ((control :: packets).length - m))) split
      rw [List.drop_left' consumed, drop_wires] at tail
      exact ⟨_, tail.symm, fun p member => List.mem_of_mem_drop member⟩

/-- A flag that `send_ctrl_packet` is called with. -/
def UcpCtrlPacket.Sendable (c : UcpCtrlPacket) : Prop :=
  c.flag = ucpFlagAck ∨ c.flag = ucpFlagNack ∨ c.flag = ucpFlagFin

theorem UcpCtrlPacket.Sendable.flagSmall {c : UcpCtrlPacket} (sendable : c.Sendable) : c.flag < 256 := by
  rcases sendable with same | same | same <;> rw [same] <;> decide

/-- All reads of a connection passed to `on_ack_received`, each with what its
`rsp_pkt` holds before it is decoded into. -/
def clientReceiveAll (windows : ClientWindows) (reads : List (List UInt8 × UcpPacket)) :
    Except MemFault ClientWindows :=
  reads.foldlM (fun windows r => clientReceive windows r.1 r.2) windows

/-- The control packet that a read brings, if it starts with one. -/
def readPacket : List UInt8 → Option UcpCtrlPacket
  | b0 :: b1 :: b2 :: b3 :: b4 :: b5 :: _ =>
    if b0.toUInt32 = ucpPacketTypeCtrl then some ⟨pack b5 b4 b3 b2, b1.toUInt32⟩ else none
  | _ => none

/-- What `on_ack_received` acts on: the packet the read brings, or else the old
contents of `rsp_pkt`. -/
def handledPacket (r : List UInt8 × UcpPacket) : Option UcpCtrlPacket :=
  (readPacket r.1).or (if r.2.type = ucpPacketTypeCtrl then some r.2.ctrlPacket else none)

theorem sizeofUcpPacket_large : tcpSegmentSize < sizeofUcpPacket := by decide

/-- A read is too short for anything but a control packet. -/
theorem ucpPacketDecode_read {b : UInt8} {rest : List UInt8} {bufLen : Nat} (small : bufLen ≤ tcpSegmentSize)
    (packet : UcpPacket) :
    ucpPacketDecode (b :: rest) bufLen packet =
      if b.toUInt32 = ucpPacketTypeCtrl then ucpPacketDecodeCtrlData (b :: rest) bufLen packet
      else .ok packet := by
  have large := sizeofUcpPacket_large
  have short : bufLen < sizeofUcpPacket := by omega
  have first : typeField (b :: rest) = b.toUInt32 := rfl
  rw [ucpPacketDecode_cons, ucpPacketDecodeData, ucpPacketDecodeMetaData, if_pos short, if_pos short, first]
  by_cases isCtrl : b.toUInt32 = ucpPacketTypeCtrl
  · rw [if_pos isCtrl, if_pos isCtrl, isCtrl]
    rfl
  · simp only [if_neg isCtrl, ite_self]
    rfl

theorem readPacket_short {incoming : List UInt8} (short : incoming.length < 6) : readPacket incoming = none := by
  unfold readPacket
  split
  · simp only [List.length_cons] at short
    omega
  · rfl

/-- The decoder call of `on_ack_received` either yields the packet of the read
or leaves `rsp_pkt` as it was. -/
theorem ucpPacketDecode_readPacket {incoming : List UInt8} (tail : List UInt8) (positive : 0 < incoming.length)
    (small : incoming.length ≤ tcpSegmentSize) (packet : UcpPacket) :
    ucpPacketDecode (incoming ++ tail) incoming.length packet =
      .ok ((readPacket incoming).elim packet fun c =>
        { packet with type := ucpPacketTypeCtrl, ctrlPacket := c }) := by
  match incoming with
  | [] => exact absurd positive (Nat.lt_irrefl 0)
  | b0 :: rest =>
    rw [List.cons_append, ucpPacketDecode_read small]
    by_cases isCtrl : b0.toUInt32 = ucpPacketTypeCtrl
    · rw [if_pos isCtrl]
      by_cases short : (b0 :: rest).length < 6
      · rw [readPacket_short short, ucpPacketDecodeCtrlData, if_pos short]
        rfl
      · obtain ⟨b1, b2, b3, b4, b5, more, rfl⟩ : ∃ b1 b2 b3 b4 b5 more,
            rest = b1 :: b2 :: b3 :: b4 :: b5 :: more := by
          rcases rest with _ | ⟨b1, _ | ⟨b2, _ | ⟨b3, _ | ⟨b4, _ | ⟨b5, more⟩⟩⟩⟩⟩
          iterate 5 simp at short
          exact ⟨b1, b2, b3, b4, b5, more, rfl⟩
        rw [ucpPacketDecodeCtrlData, if_neg short, readPacket, if_pos isCtrl, ← isCtrl]
        rfl
    · have unread : readPacket (b0 :: rest) = none := by
        unfold readPacket
        split
        · rename_i same
          cases same
          exact if_neg isCtrl
        · rfl
      rw [if_neg isCtrl, unread]
      rfl

/-- Every read has the effect of the packet that is handled, if any. -/
theorem clientReceive_handled {r : List UInt8 × UcpPacket} (positive : 0 < r.1.length)
    (small : r.1.length ≤ tcpSegmentSize) (w : ClientWindows) :
    clientReceive w r.1 r.2 = .ok ((handledPacket r).elim w (onCtrlPacket w)) := by
  obtain ⟨data, sgmnt, bytes⟩ := tcpServerReceiveSgmnt_eq small
  simp only [clientReceive, sgmnt, bind, Except.bind, onAckReceived, bytes,
    ucpPacketDecode_readPacket _ positive small, handledPacket]
  cases readPacket r.1 with
  | some c => rfl
  | none =>
    by_cases stale : r.2.type = ucpPacketTypeCtrl
    · simp only [Option.elim_none, Option.none_or, stale, if_true]
      rfl
    · simp only [Option.elim_none, Option.none_or, stale, if_false]
      rfl

/-- Nothing that a read can bring makes the handler fail. -/
theorem clientReceive_isOk {incoming : List UInt8} (fits : incoming.length ≤ tcpSegmentSize) (w : ClientWindows)
    (rspPkt : UcpPacket) : ∃ windows, clientReceive w incoming rspPkt = .ok windows := by
  rcases List.eq_nil_or_concat incoming with rfl | ⟨before, last, rfl⟩
  · -- nothing read leaves the zeroed buffer, which is no packet
    obtain ⟨data, sgmnt, bytes⟩ := tcpServerReceiveSgmnt_eq fits
    have zeros : data.bytes = 0 :: List.replicate (tcpSegmentSize - 1) 0 := bytes
    have notCtrl : ¬(0 : UInt8).toUInt32 = ucpPacketTypeCtrl := by decide
    simp only [clientReceive, sgmnt, bind, Except.bind, onAckReceived, zeros, ucpPacketDecode_read fits,
      if_neg notCtrl]
    exact ⟨_, rfl⟩
  · have positive : 0 < (before.concat last).length := by simp
    exact ⟨_, clientReceive_handled (r := (before.concat last, rspPkt)) positive fits w⟩

theorem clientReceiveAll_handled {reads : List (List UInt8 × UcpPacket)}
    (sizes : ∀ r ∈ reads, 0 < r.1.length ∧ r.1.length ≤ tcpSegmentSize) (w : ClientWindows) :
    clientReceiveAll w reads = .ok ((reads.filterMap handledPacket).foldl onCtrlPacket w) := by
  induction reads generalizing w with
  | nil => rfl
  | cons r reads ih =>
    obtain ⟨positive, small⟩ := sizes r (List.mem_cons_self ..)
    have rest := ih fun r member => sizes r (List.mem_cons_of_mem _ member)
    rw [clientReceiveAll, List.foldlM_cons, clientReceive_handled positive small]
    change clientReceiveAll _ reads = _
    rw [rest]
    cases handled : handledPacket r with
    | none => rw [List.filterMap_cons_none handled]; rfl
    | some c => rw [List.filterMap_cons_some handled]; rfl

theorem handledPacket_wire {c : UcpCtrlPacket} (flagSmall : c.flag < 256) (packet : UcpPacket) :
    handledPacket (c.wire, packet) = some c := by
  have brought : readPacket c.wire = some ⟨c.seqNo, c.flag⟩ := by
    have isCtrl : (1 : UInt8).toUInt32 = ucpPacketTypeCtrl := rfl
    rw [UcpCtrlPacket.wire, readPacket, if_pos isCtrl, pack_bytes, byte_toUInt32 flagSmall]
  rw [handledPacket, brought]
  rfl

/-- The windows after every read of the stream of `packets` are those that the
packets leave when they are handled one after the other. -/
def HandledOneByOne (packets : List UcpCtrlPacket) (cut : List Nat) : Prop :=
  ∀ stream reads windows, CtrlStream packets stream → reads.map Prod.fst = cut.splitLengths stream →
    clientReceiveAll windows reads = .ok (packets.foldl onCtrlPacket windows)

theorem handledPackets_wires {packets : List UcpCtrlPacket} (sendable : ∀ c ∈ packets, c.Sendable)
    {reads : List (List UInt8 × UcpPacket)}
    (pieces : reads.map Prod.fst =
      (List.replicate packets.length 6).splitLengths (packets.flatMap UcpCtrlPacket.wire)) :
    reads.filterMap handledPacket = packets := by
  induction packets generalizing reads with
  | nil =>
    rw [List.length_nil, List.replicate_zero, List.splitLengths_nil, List.map_eq_nil_iff] at pieces
    rw [pieces, List.filterMap_nil]
  | cons c packets ih =>
    rw [List.length_cons, List.replicate_succ, List.splitLengths_cons, List.flatMap_cons,
      List.take_left' (UcpCtrlPacket.wire_length c), List.drop_left' (UcpCtrlPacket.wire_length c)] at pieces
    obtain ⟨⟨_, packet⟩, rest, rfl, rfl, tail⟩ := List.map_eq_cons_iff.mp pieces
    have small := (sendable c (List.mem_cons_self ..)).flagSmall
    rw [List.filterMap_cons_some (handledPacket_wire small packet),
      ih (fun c member => sendable c (List.mem_cons_of_mem _ member)) tail]

section Cut

variable {packets : List UcpCtrlPacket} {cut : List Nat} {reads : List (List UInt8 × UcpPacket)}

theorem lengths_splitLengths {stream : List UInt8} (pieces : reads.map Prod.fst = cut.splitLengths stream)
    (whole : cut.sum = stream.length) : reads.map (·.1.length) = cut := by
  have lengths := List.map_splitLengths_length stream cut whole.le
  rw [← pieces, List.map_map] at lengths
  exact lengths

/-- What `HandledOneByOne` says once the reads are decoded. -/
theorem handledOneByOne_iff (sizes : ∀ m ∈ cut, 1 ≤ m ∧ m ≤ tcpSegmentSize) (whole : cut.sum = 6 * packets.length) :
    HandledOneByOne packets cut ↔ ∀ (reads : List (List UInt8 × UcpPacket)) windows,
      reads.map Prod.fst = cut.splitLengths (packets.flatMap UcpCtrlPacket.wire) →
        (reads.filterMap handledPacket).foldl onCtrlPacket windows = packets.foldl onCtrlPacket windows := by
  have handled {reads : List (List UInt8 × UcpPacket)} (windows : ClientWindows)
      (pieces : reads.map Prod.fst = cut.splitLengths (packets.flatMap UcpCtrlPacket.wire)) :
      clientReceiveAll windows reads = .ok ((reads.filterMap handledPacket).foldl onCtrlPacket windows) := by
    have lengths := lengths_splitLengths pieces (whole.trans (length_wires packets).symm)
    refine clientReceiveAll_handled (fun r member => sizes r.1.length ?_) windows
    rw [← lengths]
    exact List.mem_map_of_mem member
  constructor
  · intro same reads windows pieces
    have run := same _ reads windows (ctrlStream_iff.mpr rfl) pieces
    rw [handled windows pieces] at run
    exact Except.ok.inj run
  · intro same stream reads windows written pieces
    rw [ctrlStream_iff.mp written] at pieces
    rw [handled windows pieces, same reads windows pieces]

theorem handledOneByOne_of_six (sendable : ∀ c ∈ packets, c.Sendable) (whole : cut.sum = 6 * packets.length)
    (six : ∀ m ∈ cut, m = 6) : HandledOneByOne packets cut := by
  have regular : cut = List.replicate packets.length 6 := by
    have shape := List.eq_replicate_length.mpr six
    rw [shape, List.sum_replicate_nat] at whole
    have length : cut.length = packets.length := by omega
    rw [shape, length]
  subst regular
  refine (handledOneByOne_iff (fun m member => ?_) whole).mpr fun reads windows pieces => ?_
  · rw [six m member]
    decide
  · rw [handledPackets_wires sendable pieces]

end Cut

/-- A packet that only its number is asked of. -/
def numberedPacket (seqNo : UInt32) : UcpPacket :=
  { ucpPacketInit ucpPacketTypeData with
    dataPacket := { (ucpPacketInit ucpPacketTypeData).dataPacket with seqNo } }

theorem findPacket_replicate (seqNo other : UInt32) (k : Nat) :
    findPacket (List.replicate (k + 1) (numberedPacket seqNo)) other =
      if seqNo = other then some (numberedPacket seqNo) else none := by
  rw [findPacket, List.find?_replicate_of_length_pos (Nat.succ_pos k)]
  simp only [hasSeqNo, numberedPacket, beq_iff_eq]

theorem unlinkPacket_replicate (seqNo : UInt32) (k : Nat) :
    unlinkPacket (List.replicate (k + 1) (numberedPacket seqNo)) seqNo =
      List.replicate k (numberedPacket seqNo) := by
  rw [unlinkPacket, List.replicate_succ, List.eraseP_cons_of_pos]
  simp only [hasSeqNo, numberedPacket, beq_self_eq_true]

theorem onCtrlPacket_ack {w : ClientWindows} {seqNo : UInt32} {k : Nat}
    (flying : w.inFlightPacketList = List.replicate (k + 1) (numberedPacket seqNo)) :
    onCtrlPacket w ⟨seqNo, ucpFlagAck⟩ =
      { w with inFlightPacketList := List.replicate k (numberedPacket seqNo) } := by
  simp only [onCtrlPacket, flying, findPacket_replicate, unlinkPacket_replicate, if_true]

theorem onCtrlPacket_nack {w : ClientWindows} {seqNo : UInt32} {k : Nat}
    (flying : w.inFlightPacketList = List.replicate (k + 1) (numberedPacket seqNo)) :
    onCtrlPacket w ⟨seqNo, ucpFlagNack⟩ =
      { w with
        pendingPacketList := w.pendingPacketList ++ [numberedPacket seqNo]
        inFlightPacketList := List.replicate k (numberedPacket seqNo) } := by
  have notAck : ucpFlagNack ≠ ucpFlagAck := by decide
  simp only [onCtrlPacket, flying, findPacket_replicate, unlinkPacket_replicate, if_true, if_neg notAck]

/-- A control packet that replies to no packet in flight can only set the done flag. -/
theorem onCtrlPacket_unanswered {w : ClientWindows} {c : UcpCtrlPacket}
    (missing : c.flag = ucpFlagAck ∨ c.flag = ucpFlagNack → findPacket w.inFlightPacketList c.seqNo = none) :
    onCtrlPacket w c = { w with done := w.done || c.flag == ucpFlagFin } := by
  obtain ⟨seqNo, flag⟩ := c
  by_cases isAck : flag = ucpFlagAck
  · subst isAck
    simp only [onCtrlPacket, missing (Or.inl rfl), if_true, show (ucpFlagAck == ucpFlagFin) = false from rfl,
      Bool.or_false]
  by_cases isNack : flag = ucpFlagNack
  · subst isNack
    simp only [onCtrlPacket, missing (Or.inr rfl), if_neg isAck, if_true,
      show (ucpFlagNack == ucpFlagFin) = false from rfl, Bool.or_false]
  by_cases isFin : flag = ucpFlagFin
  · subst isFin
    simp only [onCtrlPacket, if_neg isAck, if_neg isNack, if_true, beq_self_eq_true, Bool.or_true]
  · simp only [onCtrlPacket, if_neg isAck, if_neg isNack, if_neg isFin, beq_false_of_ne isFin, Bool.or_false]

/-- A window whose packets all have the same number counts the replies to that
number. -/
structure Tally (seqNo : UInt32) (w w' : ClientWindows) (cs : List UcpCtrlPacket) : Prop where
  flying : ∃ m, w'.inFlightPacketList = List.replicate m (numberedPacket seqNo)
  replies : w'.inFlightPacketList.length + cs.count ⟨seqNo, ucpFlagAck⟩ + cs.count ⟨seqNo, ucpFlagNack⟩ =
    w.inFlightPacketList.length
  missing : w'.pendingPacketList.length = w.pendingPacketList.length + cs.count ⟨seqNo, ucpFlagNack⟩
  done : w'.done = true ↔ w.done = true ∨ ∃ c ∈ cs, c.flag = ucpFlagFin

theorem onCtrlPacket_tally {seqNo : UInt32} {w : ClientWindows} {k : Nat} (c : UcpCtrlPacket)
    (flying : w.inFlightPacketList = List.replicate (k + 1) (numberedPacket seqNo)) :
    Tally seqNo w (onCtrlPacket w c) [c] := by
  have length : w.inFlightPacketList.length = k + 1 := by rw [flying, List.length_replicate]
  have uncounted {d : UcpCtrlPacket} (other : c ≠ d) : [c].count d = 0 :=
    List.count_eq_zero.mpr fun member => other (List.mem_singleton.mp member).symm
  by_cases isAck : c = ⟨seqNo, ucpFlagAck⟩
  · subst isAck
    have notNack : [⟨seqNo, ucpFlagAck⟩].count (⟨seqNo, ucpFlagNack⟩ : UcpCtrlPacket) = 0 :=
      uncounted (by simp [ucpFlagAck, ucpFlagNack])
    rw [onCtrlPacket_ack flying]
    exact ⟨⟨k, rfl⟩, by simp [length, notNack], by simp [notNack], by simp [ucpFlagAck, ucpFlagFin]⟩
  by_cases isNack : c = ⟨seqNo, ucpFlagNack⟩
  · subst isNack
    rw [onCtrlPacket_nack flying]
    exact ⟨⟨k, rfl⟩, by simp [length, uncounted isAck], by simp, by simp [ucpFlagNack, ucpFlagFin]⟩
  · have missing : c.flag = ucpFlagAck ∨ c.flag = ucpFlagNack →
        findPacket w.inFlightPacketList c.seqNo = none := by
      intro reply
      rw [flying, findPacket_replicate]
      refine if_neg fun same => ?_
      rcases reply with isReply | isReply
      · exact isAck (by rw [same, ← isReply])
      · exact isNack (by rw [same, ← isReply])
    rw [onCtrlPacket_unanswered missing]
    exact ⟨⟨k + 1, flying⟩, by simp [uncounted isAck, uncounted isNack], by simp [uncounted isNack], by simp⟩

theorem Tally.trans {seqNo : UInt32} {w w1 w2 : ClientWindows} {cs ds : List UcpCtrlPacket}
    (first : Tally seqNo w w1 cs) (second : Tally seqNo w1 w2 ds) : Tally seqNo w w2 (cs ++ ds) where
  flying := second.flying
  replies := by
    rw [List.count_append, List.count_append, ← first.replies, ← second.replies]
    omega
  missing := by
    rw [List.count_append, second.missing, first.missing]
    omega
  done := by
    simp only [second.done, first.done, or_assoc, List.mem_append, or_and_right, exists_or]

theorem count_singleton_replies (seqNo : UInt32) (c : UcpCtrlPacket) :
    [c].count ⟨seqNo, ucpFlagAck⟩ + [c].count ⟨seqNo, ucpFlagNack⟩ ≤ 1 := by
  simp only [List.count_singleton]
  split
  · rename_i isAck
    rw [beq_iff_eq.mp isAck, if_neg (by simp [ucpFlagAck, ucpFlagNack])]
  · split <;> omega

theorem foldl_tally {seqNo : UInt32} (cs : List UcpCtrlPacket) {w : ClientWindows} {k : Nat}
    (flying : w.inFlightPacketList = List.replicate k (numberedPacket seqNo)) (enough : cs.length ≤ k) :
    Tally seqNo w (cs.foldl onCtrlPacket w) cs := by
  induction cs generalizing w k with
  | nil => exact ⟨⟨k, flying⟩, by simp, by simp, by simp⟩
  | cons c cs ih =>
    obtain ⟨k, rfl⟩ : ∃ k', k = k' + 1 := ⟨k - 1, by rw [List.length_cons] at enough; omega⟩
    have first := onCtrlPacket_tally c flying
    obtain ⟨m, left⟩ := first.flying
    have counted := first.replies
    have atMostOne := count_singleton_replies seqNo c
    rw [left, flying, List.length_replicate, List.length_replicate] at counted
    rw [List.length_cons] at enough
    exact first.trans (ih left (by omega))

/-- Two sequences of control packets that leave the same windows, whatever the
windows were, have the same replies, and both have a FIN or neither has. -/
theorem same_replies {cs ds : List UcpCtrlPacket} (same : ∀ w, cs.foldl onCtrlPacket w = ds.foldl onCtrlPacket w) :
    (∀ c, c.flag = ucpFlagAck ∨ c.flag = ucpFlagNack → cs.count c = ds.count c) ∧
      ((∃ c ∈ cs, c.flag = ucpFlagFin) ↔ ∃ c ∈ ds, c.flag = ucpFlagFin) := by
  have tallies (seqNo : UInt32) := by
    have left := foldl_tally cs (w := ⟨[], List.replicate (cs.length + ds.length) (numberedPacket seqNo), false⟩)
      rfl (by omega)
    have right := foldl_tally ds (w := ⟨[], List.replicate (cs.length + ds.length) (numberedPacket seqNo), false⟩)
      rfl (by omega)
    rw [same] at left
    exact And.intro left right
  have nacks (seqNo : UInt32) : cs.count ⟨seqNo, ucpFlagNack⟩ = ds.count ⟨seqNo, ucpFlagNack⟩ :=
    Nat.add_left_cancel ((tallies seqNo).1.missing.symm.trans (tallies seqNo).2.missing)
  constructor
  · rintro ⟨seqNo, flag⟩ (isAck | isNack)
    · obtain rfl : flag = ucpFlagAck := isAck
      have left := (tallies seqNo).1.replies
      have right := (tallies seqNo).2.replies
      have nack := nacks seqNo
      omega
    · obtain rfl : flag = ucpFlagNack := isNack
      exact nacks seqNo
  · have left := (tallies 0).1.done
    have right := (tallies 0).2.done
    simp only [Bool.false_eq_true, false_or] at left right
    exact left.symm.trans right

def isReply (c : UcpCtrlPacket) : Bool := c.flag == ucpFlagAck || c.flag == ucpFlagNack
def isFin (c : UcpCtrlPacket) : Bool := c.flag == ucpFlagFin

theorem isReply_iff {c : UcpCtrlPacket} : isReply c = true ↔ c.flag = ucpFlagAck ∨ c.flag = ucpFlagNack := by
  rw [isReply, Bool.or_eq_true, beq_iff_eq, beq_iff_eq]

theorem isFin_iff {c : UcpCtrlPacket} : isFin c = true ↔ c.flag = ucpFlagFin := beq_iff_eq

theorem UcpCtrlPacket.Sendable.not_isReply {c : UcpCtrlPacket} (sendable : c.Sendable) :
    ¬isReply c = true ↔ isFin c = true := by
  rw [isReply_iff, isFin_iff]
  rcases sendable with isAck | isNack | isFin
  · simp [isAck, ucpFlagAck, ucpFlagFin]
  · simp [isNack, ucpFlagNack, ucpFlagFin]
  · simp [isFin, ucpFlagAck, ucpFlagNack, ucpFlagFin]

/-- As many packets are handled as were sent, when not more than one of them
was a FIN. -/
theorem length_le_of_same_replies {cs ds : List UcpCtrlPacket}
    (same : ∀ w, cs.foldl onCtrlPacket w = ds.foldl onCtrlPacket w) (sendable : ∀ c ∈ ds, c.Sendable)
    (oneFin : ds.countP isFin ≤ 1) : ds.length ≤ cs.length := by
  obtain ⟨counts, fins⟩ := same_replies same
  have replies : (cs.filter isReply).Perm (ds.filter isReply) := by
    refine List.perm_iff_count.mpr fun c => ?_
    by_cases reply : isReply c = true
    · rw [List.count_filter reply, List.count_filter reply, counts c (isReply_iff.mp reply)]
    · have absent (l : List UcpCtrlPacket) : (l.filter isReply).count c = 0 :=
        List.count_eq_zero.mpr fun member => reply (List.mem_filter.mp member).2
      rw [absent, absent]
  have sameReplies := replies.length_eq
  rw [← List.countP_eq_length_filter, ← List.countP_eq_length_filter] at sameReplies
  have sent := List.length_eq_countP_add_countP isReply (l := ds)
  have handled := List.length_eq_countP_add_countP isReply (l := cs)
  have others : ds.countP (fun c => decide (¬isReply c = true)) = ds.countP isFin :=
    List.countP_congr fun c member => by rw [decide_eq_true_iff, (sendable c member).not_isReply]
  rcases Nat.eq_zero_or_pos (ds.countP isFin) with none | some
  · omega
  · obtain ⟨c, member, fin⟩ := List.countP_pos_iff.mp some
    obtain ⟨d, inHandled, finHandled⟩ := fins.mpr ⟨c, member, isFin_iff.mp fin⟩
    have unanswered : ¬isReply d = true := by
      rw [isReply_iff, finHandled]
      decide
    have positive : 0 < cs.countP (fun c => decide (¬isReply c = true)) :=
      List.countP_pos_iff.mpr ⟨d, inHandled, decide_eq_true unanswered⟩
    omega

theorem readPacket_length {incoming : List UInt8} {c : UcpCtrlPacket} (brought : readPacket incoming = some c) :
    6 ≤ incoming.length := by
  by_contra short
  rw [readPacket_short (by omega)] at brought
  cases brought

/-- Reads of which each brings a packet, six bytes a packet, have six bytes each. -/
theorem six_of_readPackets {reads : List (List UInt8)} (nonempty : ∀ r ∈ reads, 0 < r.length) :
    6 * (reads.filterMap readPacket).length ≤ (reads.map List.length).sum ∧
      ((reads.map List.length).sum ≤ 6 * (reads.filterMap readPacket).length →
        ∀ r ∈ reads, r.length = 6) := by
  induction reads with
  | nil => exact ⟨le_rfl, fun _ r member => absurd member (List.not_mem_nil)⟩
  | cons r reads ih =>
    obtain ⟨bound, tight⟩ := ih fun r member => nonempty r (List.mem_cons_of_mem _ member)
    have positive := nonempty r (List.mem_cons_self ..)
    rw [List.map_cons, List.sum_cons]
    cases brought : readPacket r with
    | none =>
      rw [List.filterMap_cons_none brought]
      exact ⟨by omega, fun total => by omega⟩
    | some c =>
      have long := readPacket_length brought
      rw [List.filterMap_cons_some brought, List.length_cons]
      refine ⟨by omega, fun total r' member => ?_⟩
      rcases List.mem_cons.mp member with rfl | later
      · omega
      · exact tight (by omega) r' later

/-- A cut that handles a sequence with at most one FIN as it was sent, from any
windows, has reads of one packet each. -/
theorem six_of_handledOneByOne {packets : List UcpCtrlPacket} {cut : List Nat}
    (sizes : ∀ m ∈ cut, 1 ≤ m ∧ m ≤ tcpSegmentSize) (whole : cut.sum = 6 * packets.length)
    (sendable : ∀ c ∈ packets, c.Sendable) (oneFin : packets.countP isFin ≤ 1)
    (oneByOne : HandledOneByOne packets cut) : ∀ m ∈ cut, m = 6 := by
  -- a local `rsp_pkt` that is no control packet: reads that bring no packet have no effect
  let pieces := cut.splitLengths (packets.flatMap UcpCtrlPacket.wire)
  have lengths : pieces.map List.length = cut :=
    List.map_splitLengths_length _ _ (whole.trans (length_wires packets).symm).le
  have quiet : (pieces.map (·, ucpPacketInit 0)).filterMap handledPacket = pieces.filterMap readPacket := by
    rw [List.filterMap_map]
    congr 1
    funext r
    exact Option.or_none
  have same (w : ClientWindows) :
      (pieces.filterMap readPacket).foldl onCtrlPacket w = packets.foldl onCtrlPacket w := by
    rw [← quiet]
    refine (handledOneByOne_iff sizes whole).mp oneByOne _ w ?_
    rw [List.map_map]
    exact List.map_id _
  have enough := length_le_of_same_replies same sendable oneFin
  have nonempty : ∀ r ∈ pieces, 0 < r.length := fun r member =>
    (sizes _ (by rw [← lengths]; exact List.mem_map_of_mem member)).1
  have six := (six_of_readPackets nonempty).2 (by rw [lengths]; omega)
  intro m member
  rw [← lengths] at member
  obtain ⟨r, inPieces, rfl⟩ := List.mem_map.mp member
  exact six r inPieces

/-- A way of cutting the stream of `n` control packets into reads gives every
sequence of packets its effect only when it reads them one at a time, six bytes
each; and any other way spoils every sequence in which FIN is not repeated. -/
theorem ctrl_stream_framing_iff {cut : List Nat} {n : Nat} (sizes : ∀ m ∈ cut, 1 ≤ m ∧ m ≤ tcpSegmentSize)
    (whole : cut.sum = 6 * n) :
    ((∀ packets : List UcpCtrlPacket, packets.length = n → (∀ c ∈ packets, c.Sendable) →
        HandledOneByOne packets cut) ↔ ∀ m ∈ cut, m = 6) ∧
      ∀ packets : List UcpCtrlPacket, packets.length = n → (∀ c ∈ packets, c.Sendable) →
        packets.countP isFin ≤ 1 → (HandledOneByOne packets cut ↔ ∀ m ∈ cut, m = 6) := by
  have each (packets : List UcpCtrlPacket) (length : packets.length = n) (sendable : ∀ c ∈ packets, c.Sendable)
      (oneFin : packets.countP isFin ≤ 1) : HandledOneByOne packets cut ↔ ∀ m ∈ cut, m = 6 := by
    subst length
    exact ⟨six_of_handledOneByOne sizes whole sendable oneFin, handledOneByOne_of_six sendable whole⟩
  refine ⟨⟨fun all => ?_, fun six packets length sendable => ?_⟩, each⟩
  · have sendable : ∀ c ∈ List.replicate n (⟨0, ucpFlagAck⟩ : UcpCtrlPacket), c.Sendable := fun c member =>
      Or.inl (congrArg UcpCtrlPacket.flag (List.eq_of_mem_replicate member))
    have noFin : (List.replicate n (⟨0, ucpFlagAck⟩ : UcpCtrlPacket)).countP isFin ≤ 1 := by
      rw [List.countP_eq_zero.mpr fun c member => by rw [List.eq_of_mem_replicate member]; decide]
      exact Nat.zero_le 1
    exact (each _ List.length_replicate sendable noFin).mp (all _ List.length_replicate sendable)
  · subst length
    exact handledOneByOne_of_six sendable whole six

/-- An ACK, a NACK and FIN, read one at a time, or the first two together. -/
theorem ctrl_stream_framing_three_packets :
    let packets : List UcpCtrlPacket := [⟨5, ucpFlagAck⟩, ⟨3, ucpFlagNack⟩, ⟨9, ucpFlagFin⟩]
    HandledOneByOne packets [6, 6, 6] ∧ ¬HandledOneByOne packets [12, 6] := by
  intro packets
  have sendable : ∀ c ∈ packets, c.Sendable :=
    List.forall_mem_cons.mpr ⟨.inl rfl,
      List.forall_mem_cons.mpr ⟨.inr (.inl rfl), List.forall_mem_singleton.mpr (.inr (.inr rfl))⟩⟩
  constructor
  · exact (ctrl_stream_framing_iff (by decide) (show [6, 6, 6].sum = 6 * 3 from rfl)).1.mpr
        (by decide) packets rfl sendable
  · rw [(ctrl_stream_framing_iff (by decide) (show [12, 6].sum = 6 * 3 from rfl)).2 packets rfl sendable (by decide)]
    decide

/-- An ACK and the FIN behind it, in one read of twelve bytes: the client never
hears of the FIN. -/
theorem ctrl_stream_fin_lost :
    CtrlStream [⟨0, ucpFlagAck⟩, ⟨1, ucpFlagFin⟩] [1, 1, 0, 0, 0, 0, 1, 3, 1, 0, 0, 0] ∧
      clientReceiveAll clientWindowsInit [([1, 1, 0, 0, 0, 0, 1, 3, 1, 0, 0, 0], ucpPacketInit 0)] =
        .ok clientWindowsInit ∧
      ([⟨0, ucpFlagAck⟩, ⟨1, ucpFlagFin⟩] : List UcpCtrlPacket).foldl onCtrlPacket clientWindowsInit =
        { clientWindowsInit with done := true } ∧
      ¬HandledOneByOne [⟨0, ucpFlagAck⟩, ⟨1, ucpFlagFin⟩] [12] := by
  have written : CtrlStream [⟨0, ucpFlagAck⟩, ⟨1, ucpFlagFin⟩] [1, 1, 0, 0, 0, 0, 1, 3, 1, 0, 0, 0] :=
    ctrlStream_iff.mpr rfl
  have run : clientReceiveAll clientWindowsInit
      [([1, 1, 0, 0, 0, 0, 1, 3, 1, 0, 0, 0], ucpPacketInit 0)] = .ok clientWindowsInit :=
    clientReceiveAll_handled (by decide) clientWindowsInit
  refine ⟨written, run, rfl, fun oneByOne => ?_⟩
  have expected := oneByOne _ [(_, ucpPacketInit 0)] clientWindowsInit written rfl
  rw [run] at expected
  exact absurd (congrArg ClientWindows.done (Except.ok.inj expected)) (by decide)

end UCP

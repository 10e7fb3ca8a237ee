import Mathlib.Data.List.Induction
import UCP.PacketBounds
import UCP.ReceivedFile
import UCP.Server

namespace UCP

/-- What one iteration of `receiving_thread` reads and writes. -/
structure ReceivingState where
  thread : ReceivingThread
  handle : FileIoPartitionHandle
  seqQueue : List SequencingQueueItem

/-- One whole iteration of the loop of `receiving_thread`; a thread that has
returned handles no more datagrams. -/
def receivingThreadIteration (s : ReceivingState) (datagram : List UInt8) (io : SaveIo) :
    Except MemFault ReceivingState :=
  match s.thread.pc with
  | .receive => do
    let (thread, handle) ← receivingThreadReceive datagram io s.thread s.handle
    match thread.pc with
    | .push item =>
      let (thread, seqQueue) := receivingThreadPush item thread s.seqQueue
      pure { thread, handle, seqQueue }
    | _ => pure { s with thread, handle }
  | _ => pure s

def receivingThreadRun (s : ReceivingState) (history : List (List UInt8 × SaveIo)) :
    Except MemFault ReceivingState :=
  history.foldlM (fun s d => receivingThreadIteration s d.1 d.2) s

theorem receivingThreadRun_append (s : ReceivingState) (history : List (List UInt8 × SaveIo))
    (d : List UInt8 × SaveIo) :
    receivingThreadRun s (history ++ [d]) =
      (receivingThreadRun s history).bind (fun s => receivingThreadIteration s d.1 d.2) := by
  rw [receivingThreadRun, List.foldlM_append]
  simp only [List.foldlM_cons, List.foldlM_nil, bind_pure]
  rfl

/-- The receive buffer as the decoder sees it after a datagram has arrived. -/
def ReceivingThread.received (thread : ReceivingThread) (datagram : List UInt8) : List UInt8 :=
  datagram ++ thread.recvBuffer.bytes.drop datagram.length

theorem ReceivingThread.received_length (thread : ReceivingThread) {d : List UInt8}
    (fits : d.length ≤ udpPacketSize) : (thread.received d).length = udpPacketSize := by
  rw [received, List.length_append, List.length_drop, thread.recvBuffer.size]
  omega

theorem ReceivingThread.received_typeField (thread : ReceivingThread) {d : List UInt8} (nonempty : d ≠ []) :
    typeField (thread.received d) = typeField d := by
  cases d with
  | nil => exact absurd rfl nonempty
  | cons b rest => rfl

section Iteration

variable {s s' : ReceivingState} {d : List UInt8} {io : SaveIo} {q : UcpPacket}

theorem receivingThreadIteration_stopped (stopped : s.thread.pc ≠ .receive) :
    receivingThreadIteration s d io = .ok s := by
  unfold receivingThreadIteration
  split
  · contradiction
  · rfl

/-- `recvfrom` returning 0 for an empty datagram ends the loop. -/
theorem receivingThreadIteration_empty (waiting : s.thread.pc = .receive)
    (run : receivingThreadIteration s [] io = .ok s') : s'.thread.pc = .returned := by
  simp only [receivingThreadIteration, waiting, receivingThreadReceive, udpSocketReceiveFrom] at run
  cases run
  rfl

theorem receivingThreadReceive_eq (fits : d.length ≤ udpPacketSize) (nonempty : d ≠ []) :
    receivingThreadReceive d io s.thread s.handle =
      (ucpPacketDecode (s.thread.received d) udpPacketSize s.thread.rcvPkt).bind fun rcvPkt =>
        receivingThreadSave io
          { s.thread with recvBuffer := (udpSocketReceiveFrom s.thread.recvBuffer d).2, rcvPkt } s.handle := by
  have positive : (udpSocketReceiveFrom s.thread.recvBuffer d).1 ≠ 0 := by
    rw [udpSocketReceiveFrom, Buffer.receive_length _ fits]
    exact mt List.length_eq_zero_iff.mp nonempty
  simp only [receivingThreadReceive, if_neg positive]
  rw [udpSocketReceiveFrom, Buffer.receive_bytes _ fits]
  rfl

/-- A datagram that does not leave a data packet behind is passed over. -/
theorem receivingThreadIteration_ignored (waiting : s.thread.pc = .receive) (fits : d.length ≤ udpPacketSize)
    (nonempty : d ≠ []) (decoded : ucpPacketDecode (s.thread.received d) udpPacketSize s.thread.rcvPkt = .ok q)
    (other : q.type ≠ ucpPacketTypeData) :
    receivingThreadIteration s d io = .ok { s with thread :=
      { recvBuffer := (udpSocketReceiveFrom s.thread.recvBuffer d).2, rcvPkt := q, pc := .receive } } := by
  simp only [receivingThreadIteration, waiting, receivingThreadReceive_eq fits nonempty, decoded, Except.bind,
    receivingThreadSave, if_neg other]
  rfl

/-- A data packet is always reported to the sequencing thread, saved or not. -/
theorem receivingThreadIteration_data (waiting : s.thread.pc = .receive) (fits : d.length ≤ udpPacketSize)
    (nonempty : d ≠ []) (decoded : ucpPacketDecode (s.thread.received d) udpPacketSize s.thread.rcvPkt = .ok q)
    (isData : q.type = ucpPacketTypeData) (run : receivingThreadIteration s d io = .ok s') :
    ∃ saved, s'.seqQueue = s.seqQueue ++ [savedItem q saved] ∧ s'.thread.rcvPkt = q := by
  simp only [receivingThreadIteration, waiting, receivingThreadReceive_eq fits nonempty, decoded, Except.bind,
    receivingThreadSave, if_pos isData, bind] at run
  cases saving : fileIoSavePacket io s.handle q with
  | error fault => rw [saving] at run; cases run
  | ok outcome =>
    rw [saving] at run
    cases run
    exact ⟨outcome.1, rfl, rfl⟩

/-- An iteration that comes back to `recvfrom` has decoded a datagram. -/
theorem receivingThreadIteration_decoded (waiting : s.thread.pc = .receive) (fits : d.length ≤ udpPacketSize)
    (run : receivingThreadIteration s d io = .ok s') (again : s'.thread.pc = .receive) :
    d ≠ [] ∧ ucpPacketDecode (s.thread.received d) udpPacketSize s.thread.rcvPkt = .ok s'.thread.rcvPkt := by
  have nonempty : d ≠ [] := by
    rintro rfl
    rw [receivingThreadIteration_empty waiting run] at again
    cases again
  refine ⟨nonempty, ?_⟩
  cases decoded : ucpPacketDecode (s.thread.received d) udpPacketSize s.thread.rcvPkt with
  | error fault =>
    simp only [receivingThreadIteration, waiting, receivingThreadReceive_eq fits nonempty, decoded, Except.bind,
      bind] at run
    cases run
  | ok q =>
    by_cases isData : q.type = ucpPacketTypeData
    · obtain ⟨_, _, same⟩ := receivingThreadIteration_data waiting fits nonempty decoded isData run
      rw [same]
    · rw [receivingThreadIteration_ignored waiting fits nonempty decoded isData] at run
      cases run
      rfl

end Iteration

theorem savedItem_congr {q p : UcpPacket} (same : q.SameFields p) (isData : p.type = ucpPacketTypeData)
    (saved : Bool) : savedItem q saved = savedItem p saved := by
  obtain ⟨flag, seqNo, -⟩ := same.data_eq isData
  rw [savedItem, savedItem, flag, seqNo]

/-- A data packet that arrives whole is decoded to what was sent, saved, and
left to be pushed with the outcome of the save. -/
theorem receivingThreadReceive_data {p : UcpPacket} (encodable : p.Encodable) (isData : p.type = ucpPacketTypeData)
    (thread : ReceivingThread) (handle : FileIoPartitionHandle) (io : SaveIo) :
    ∃ q recvBuffer, q.SameFields p ∧ ∀ saved handle', fileIoSavePacket io handle q = .ok (saved, handle') →
      receivingThreadReceive p.wire io thread handle =
        .ok ({ recvBuffer, rcvPkt := q, pc := .push (savedItem p saved) }, handle') := by
  obtain ⟨-, -, -, -, received, q, decoded, same⟩ :=
    encodable.receive (Buffer.zeros udpPacketSize) thread.recvBuffer thread.rcvPkt
  have nonempty : (udpSocketReceiveFrom thread.recvBuffer p.wire).1 ≠ 0 := by
    rw [received, UcpPacket.wire_of_data isData, UcpDataPacket.wire, List.length_append]
    exact Nat.ne_of_gt (Nat.add_pos_left (Nat.succ_pos 11) _)
  refine ⟨q, (udpSocketReceiveFrom thread.recvBuffer p.wire).2, same, fun saved handle' saving => ?_⟩
  simp only [receivingThreadReceive, if_neg nonempty, decoded, bind, Except.bind, receivingThreadSave,
    if_pos (same.type_eq.trans isData), saving, savedItem_congr same isData]
  rfl

/-- A datagram that is no data packet, or ends before the bytes it announces. -/
def BadDatagram (d : List UInt8) : Prop :=
  typeField d ≠ ucpPacketTypeData ∨ d.length < 12 + segLenField d

/-- The server is as it was: nothing written, nothing pushed, still receiving. -/
def NoEffect (s : ReceivingState) (d : List UInt8) (io : SaveIo) : Prop :=
  ∃ s', receivingThreadIteration s d io = .ok s' ∧ s'.handle = s.handle ∧ s'.seqQueue = s.seqQueue ∧
    s'.thread.pc = .receive

/-- The type of the last datagram in the history that had a known one. -/
def lastKnownType (history : List (List UInt8 × SaveIo)) : UInt32 :=
  history.foldl (fun type d => if KnownType (typeField d.1) then typeField d.1 else type) 0

theorem noEffect_iff {s : ReceivingState} {d : List UInt8} {io : SaveIo} (waiting : s.thread.pc = .receive)
    (fits : d.length ≤ udpPacketSize) :
    NoEffect s d io ↔ d ≠ [] ∧ ∃ q,
      ucpPacketDecode (s.thread.received d) udpPacketSize s.thread.rcvPkt = .ok q ∧ q.type ≠ ucpPacketTypeData := by
  constructor
  · rintro ⟨s', run, _, queue, again⟩
    obtain ⟨nonempty, decoded⟩ := receivingThreadIteration_decoded waiting fits run again
    refine ⟨nonempty, _, decoded, fun isData => ?_⟩
    obtain ⟨saved, pushed, _⟩ := receivingThreadIteration_data waiting fits nonempty decoded isData run
    rw [queue] at pushed
    simp at pushed
  · rintro ⟨nonempty, q, decoded, other⟩
    exact ⟨_, receivingThreadIteration_ignored waiting fits nonempty decoded other, rfl, rfl, rfl⟩

/-- `rcv_pkt` survives from one iteration to the next: its type is the last
known one of the whole history. -/
theorem rcvPkt_type_eq_lastKnownType {s0 s : ReceivingState} {history : List (List UInt8 × SaveIo)}
    (start : s0.thread = receivingThreadStart) (fit : ∀ d ∈ history, d.1.length ≤ udpPacketSize)
    (run : receivingThreadRun s0 history = .ok s) (waiting : s.thread.pc = .receive) :
    s.thread.rcvPkt.type = lastKnownType history := by
  induction history using List.reverseRecOn generalizing s with
  | nil =>
    cases run
    rw [start]
    rfl
  | append_singleton history d ih =>
    rw [receivingThreadRun_append] at run
    obtain ⟨middle, earlier, last⟩ := Except.bind_eq_ok.mp run
    have fits := fit d (List.mem_append_right _ (List.mem_singleton_self d))
    have active : middle.thread.pc = .receive := by
      by_contra stopped
      rw [receivingThreadIteration_stopped stopped] at last
      cases last
      exact stopped waiting
    obtain ⟨nonempty, decoded⟩ := receivingThreadIteration_decoded active fits last waiting
    have length := middle.thread.received_length fits
    have room : sizeofUcpPacket ≤ (middle.thread.received d.1).length := by
      rw [length]
      decide
    rw [← length] at decoded
    rw [ucpPacketDecode_type room decoded, middle.thread.received_typeField nonempty,
      ih (fun e member => fit e (List.mem_append_left _ member)) earlier active, lastKnownType,
      lastKnownType, List.foldl_append]
    rfl

/-- When a bad datagram does no harm: it is not empty and either of another
known type, or of an unknown one with no data packet left in `rcv_pkt`. -/
def HarmlessDatagram (history : List (List UInt8 × SaveIo)) (d : List UInt8) : Prop :=
  d ≠ [] ∧ typeField d ≠ ucpPacketTypeData ∧
    (KnownType (typeField d) ∨ lastKnownType history ≠ ucpPacketTypeData)

/-- A datagram of a known type other than data is decoded without a fault. -/
theorem known_other_decodes {thread : ReceivingThread} {d : List UInt8} (fits : d.length ≤ udpPacketSize)
    (nonempty : d ≠ []) (notData : typeField d ≠ ucpPacketTypeData) (known : KnownType (typeField d)) :
    ∃ q, ucpPacketDecode (thread.received d) udpPacketSize thread.rcvPkt = .ok q ∧ q.type ≠ ucpPacketTypeData := by
  have length := thread.received_length fits
  have room : sizeofUcpPacket ≤ (thread.received d).length := by rw [length]; decide
  have sameType := thread.received_typeField nonempty
  have readable : KnownPacket (thread.received d) := by
    rcases known with isCtrl | isData | isMetadata
    · exact .ctrl (sameType.trans isCtrl)
    · exact absurd isData notData
    · exact .metadata (sameType.trans isMetadata)
  obtain ⟨q, _, decoded, _, _⟩ := readable.decode room thread.rcvPkt
  have qType := ucpPacketDecode_type room decoded
  rw [sameType, if_pos known] at qType
  rw [length] at decoded
  exact ⟨q, decoded, qType ▸ notData⟩

/-- After any history of datagrams that `receiving_thread` has survived, the next
one leaves the server as it was if and only if it is harmless. -/
theorem bad_datagram_no_effect_iff {s0 s : ReceivingState} {d : List UInt8}
    (history : List (List UInt8 × SaveIo)) (io : SaveIo) (start : s0.thread = receivingThreadStart)
    (fit : ∀ e ∈ history, e.1.length ≤ udpPacketSize) (run : receivingThreadRun s0 history = .ok s)
    (waiting : s.thread.pc = .receive) (fits : d.length ≤ udpPacketSize) :
    NoEffect s d io ↔ HarmlessDatagram history d := by
  have remembered := rcvPkt_type_eq_lastKnownType start fit run waiting
  have length := s.thread.received_length fits
  have room : sizeofUcpPacket ≤ (s.thread.received d).length := by rw [length]; decide
  rw [noEffect_iff waiting fits, HarmlessDatagram]
  refine and_congr_right fun nonempty => ?_
  have sameType := s.thread.received_typeField nonempty
  constructor
  · rintro ⟨q, decoded, other⟩
    rw [← length] at decoded
    have qType := ucpPacketDecode_type room decoded
    rw [sameType] at qType
    by_cases known : KnownType (typeField d)
    · rw [if_pos known] at qType
      exact ⟨qType ▸ other, Or.inl known⟩
    · rw [if_neg known, remembered] at qType
      exact ⟨fun isData => known (Or.inr (Or.inl isData)), Or.inr (qType ▸ other)⟩
  · rintro ⟨notData, harmless⟩
    by_cases known : KnownType (typeField d)
    · exact known_other_decodes fits nonempty notData known
    · refine ⟨s.thread.rcvPkt, ?_, remembered ▸ harmless.resolve_left known⟩
      cases d with
      | nil => exact absurd rfl nonempty
      | cons b rest => exact ucpPacketDecode_unknown s.thread.rcvPkt known

/-- The server after the only packet of a partition of one byte. -/
theorem receivingThreadRun_one_packet :
    ∃ s, receivingThreadRun ⟨receivingThreadStart, openPartition [], []⟩
        [((segment [7] 0).wire, ⟨false, 1, false, 0⟩)] = .ok s ∧
      s.thread.pc = .receive ∧ s.thread.rcvPkt.SameFields (segment [7] 0) ∧
      s.seqQueue = [savedItem (segment [7] 0) true] := by
  obtain ⟨q, recvBuffer, same, receive⟩ := receivingThreadReceive_data (segment_encodable [7] 0) rfl
    receivingThreadStart (openPartition []) ⟨false, 1, false, 0⟩
  obtain ⟨-, -, -, segLen, -⟩ := same.data_eq rfl
  have one : q.dataPacket.segLen = 1 := segLen
  obtain ⟨saved, n, handle, saving, -, -, complete, -⟩ := fileIoSavePacket_spec ⟨false, 1, false, 0⟩
    (openPartition []) (one.trans_le (by decide))
  obtain rfl : saved = true := complete ⟨rfl, one.le, rfl⟩
  refine ⟨⟨⟨recvBuffer, q, .receive⟩, handle, [savedItem (segment [7] 0) true]⟩, ?_, rfl, same, rfl⟩
  simp only [receivingThreadRun, List.foldlM_cons, List.foldlM_nil, receivingThreadIteration]
  change (receivingThreadReceive _ _ receivingThreadStart _ >>= _ >>= _) = _
  rw [receive true handle saving]
  rfl

/-- A control packet after it is bad, and harmless. -/
theorem bad_datagram_no_effect_after_packet :
    ∃ s, receivingThreadRun ⟨receivingThreadStart, openPartition [], []⟩
        [((segment [7] 0).wire, ⟨false, 1, false, 0⟩)] = .ok s ∧
      s.seqQueue = [savedItem (segment [7] 0) true] ∧ BadDatagram [1, 1, 0, 0, 0, 0] ∧
      NoEffect s [1, 1, 0, 0, 0, 0] ⟨false, 0, false, 0⟩ := by
  obtain ⟨s, run, waiting, _, queue⟩ := receivingThreadRun_one_packet
  refine ⟨s, run, queue, .inl (by decide), ?_⟩
  refine (bad_datagram_no_effect_iff _ ⟨false, 0, false, 0⟩ rfl ?_ run waiting (by decide)).mpr
    ⟨by decide, by decide, .inl (by decide)⟩
  decide

/-- After a good packet one byte of an unknown type makes the server save and
report that packet a second time. -/
theorem unknown_datagram_repeats_packet :
    ∃ s, receivingThreadRun ⟨receivingThreadStart, openPartition [], []⟩
        [((segment [7] 0).wire, ⟨false, 1, false, 0⟩)] = .ok s ∧
      s.thread.pc = .receive ∧ BadDatagram [9] ∧ ¬NoEffect s [9] ⟨false, 1, false, 0⟩ := by
  obtain ⟨s, run, waiting, same, _⟩ := receivingThreadRun_one_packet
  refine ⟨s, run, waiting, .inl (by decide), ?_⟩
  rw [noEffect_iff waiting (by decide)]
  rintro ⟨-, q', decoded, other⟩
  rw [ReceivingThread.received, List.singleton_append, ucpPacketDecode_unknown _
    (show ¬KnownType (UInt8.toUInt32 9) by decide)] at decoded
  cases decoded
  exact other same.type_eq

end UCP

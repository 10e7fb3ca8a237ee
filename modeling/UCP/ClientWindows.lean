import UCP.Client
import UCP.Lib.Lists
import UCP.ReceivedFile

namespace UCP

/-- All packets the client still keeps, in both windows. -/
def ClientWindows.held (w : ClientWindows) : List UcpPacket := w.pendingPacketList ++ w.inFlightPacketList

theorem findPacket_some {l : List UcpPacket} {seqNo : UInt32} {p : UcpPacket}
    (found : findPacket l seqNo = some p) : p ∈ l ∧ p.dataPacket.seqNo = seqNo :=
  ⟨List.mem_of_find?_eq_some found, by simpa only [hasSeqNo, beq_iff_eq] using List.find?_some found⟩

theorem findPacket_none {l : List UcpPacket} {seqNo : UInt32} (missing : findPacket l seqNo = none) :
    ∀ p ∈ l, p.dataPacket.seqNo ≠ seqNo := by
  intro p member same
  have absent := List.find?_eq_none.mp missing p member
  simp only [hasSeqNo, same, beq_self_eq_true, not_true_eq_false] at absent

/-- What a control packet can do to the windows: keep every packet, possibly in
another place, or drop the in-flight packet an ACK names. -/
inductive CtrlEffect (w : ClientWindows) (c : UcpCtrlPacket) (w' : ClientWindows) : Prop
  | kept : w'.held.Perm w.held →
      (c.flag = ucpFlagAck → ∀ p ∈ w.inFlightPacketList, p.dataPacket.seqNo ≠ c.seqNo) → CtrlEffect w c w'
  | dropped (p : UcpPacket) : c.flag = ucpFlagAck → p ∈ w.inFlightPacketList →
      p.dataPacket.seqNo = c.seqNo → w.held.Perm (p :: w'.held) → CtrlEffect w c w'

theorem onCtrlPacket_effect (w : ClientWindows) (c : UcpCtrlPacket) : CtrlEffect w c (onCtrlPacket w c) := by
  unfold onCtrlPacket
  split
  · rename_i isAck
    split
    · rename_i p found
      obtain ⟨member, same⟩ := findPacket_some found
      refine .dropped p isAck member same ?_
      exact ((List.perm_cons_eraseP found).append_left _).trans List.perm_middle
    · rename_i missing
      exact .kept (.refl _) (fun _ => findPacket_none missing)
  rename_i notAck
  split
  · split
    · rename_i p found
      refine .kept ?_ (fun isAck => absurd isAck notAck)
      rw [ClientWindows.held, ClientWindows.held, List.append_assoc, List.singleton_append]
      exact ((List.perm_cons_eraseP found).append_left _).symm
    · exact .kept (.refl _) (fun isAck => absurd isAck notAck)
  split
  · exact .kept (.refl _) (fun isAck => absurd isAck notAck)
  · exact .kept (.refl _) (fun isAck => absurd isAck notAck)

/-- Where the packet of a call of `get_next_packet` comes from, and what the
call leaves, when `k` packets have been read from the partition `c`. -/
inductive NextPacket (c : List UInt8) (k : Nat) (w : ClientWindows) :
    Option UcpPacket → ClientWindows → Nat → Prop
  | resend {p w'} : w.held.Perm (p :: w'.held) → w'.done = w.done → NextPacket c k w (some p) w' k
  | fresh : k < segmentCount c → NextPacket c k w (some (segment c k)) w (k + 1)
  | exhausted : w.held = [] → segmentCount c ≤ k → NextPacket c k w none w k

theorem getNextPacket_spec {c : List UInt8} {k : Nat} {h : FileIoPartitionHandle} (reading : ReadHandle c k h)
    (w : ClientWindows) :
    ∃ result w' h' k', getNextPacket w h = .ok (result, w', h') ∧ ReadHandle c k' h' ∧
      NextPacket c k w result w' k' := by
  obtain ⟨pending, inFlight, done⟩ := w
  cases pending with
  | cons p rest => exact ⟨_, _, h, k, rfl, reading, .resend (.refl _) rfl⟩
  | nil =>
    by_cases within : k < segmentCount c
    · obtain ⟨h', run, next⟩ := reading.next within
      refine ⟨_, _, h', k + 1, ?_, next, .fresh within⟩
      simp only [getNextPacket, run]
      rfl
    · obtain ⟨h', run, same⟩ := reading.exhausted (Nat.not_lt.mp within)
      cases inFlight with
      | cons p rest =>
        refine ⟨some p, ⟨[], rest, done⟩, h', k, ?_, same, .resend (.refl _) rfl⟩
        simp only [getNextPacket, run]
        rfl
      | nil =>
        refine ⟨none, ⟨[], [], done⟩, h', k, ?_, same, .exhausted rfl (Nat.not_lt.mp within)⟩
        simp only [getNextPacket, run]
        rfl

theorem appendInFlight_held (w : ClientWindows) (p : UcpPacket) : (appendInFlight w p).held.Perm (p :: w.held) := by
  rw [ClientWindows.held, appendInFlight, ← List.append_assoc]
  exact List.perm_append_singleton p _

theorem sendDatagram_eq {p : UcpPacket} (encodable : p.Encodable) (buf : Buffer udpPacketSize) :
    sendDatagram p buf = .ok p.wire := by
  obtain ⟨len, out, encoded, sent, -⟩ := encodable.receive buf buf (ucpPacketInit 0)
  simp only [sendDatagram, encoded, bind, Except.bind, sent]
  rfl

theorem blockThreadSend_of_next {w w' : ClientWindows} {h h' : FileIoPartitionHandle} {p : UcpPacket}
    (next : getNextPacket w h = .ok (some p, w', h')) (encodable : p.Encodable) (buf : Buffer udpPacketSize) :
    blockThreadSend w h buf = .ok (some p.wire, appendInFlight w' p, h') := by
  simp only [blockThreadSend, next, bind, Except.bind, sendDatagram_eq encodable]
  rfl

/-- With nothing pending the next packet is read from the partition. -/
theorem getNextPacket_fresh {c : List UInt8} {k : Nat} {h : FileIoPartitionHandle} (reading : ReadHandle c k h)
    (within : k < segmentCount c) (inFlight : List UcpPacket) (done : Bool) :
    ∃ h', getNextPacket ⟨[], inFlight, done⟩ h = .ok (some (segment c k), ⟨[], inFlight, done⟩, h') ∧
      ReadHandle c (k + 1) h' := by
  obtain ⟨h', run, next⟩ := reading.next within
  refine ⟨h', ?_, next⟩
  simp only [getNextPacket, run]
  rfl

/-- With nothing held and all packets read there is no next packet. -/
theorem getNextPacket_none {c : List UInt8} {k : Nat} {h : FileIoPartitionHandle} (reading : ReadHandle c k h)
    (finished : segmentCount c ≤ k) (done : Bool) :
    ∃ h', getNextPacket ⟨[], [], done⟩ h = .ok (none, ⟨[], [], done⟩, h') := by
  obtain ⟨h', run, _⟩ := reading.exhausted finished
  refine ⟨h', ?_⟩
  simp only [getNextPacket, run]
  rfl

/-- What one send does: it moves a held packet to the end of the in-flight
window, or reads a new one there, or finds that there is none. -/
inductive SendEffect (c : List UInt8) (k : Nat) (w : ClientWindows) :
    Option (List UInt8) → ClientWindows → Nat → Prop
  | resent {p w'} : p ∈ w.held → w'.held.Perm w.held → SendEffect c k w (some p.wire) w' k
  | fresh {w'} : k < segmentCount c → w'.held.Perm (segment c k :: w.held) →
      SendEffect c k w (some (segment c k).wire) w' (k + 1)
  | exhausted : w.held = [] → segmentCount c ≤ k → SendEffect c k w none w k

theorem blockThreadSend_effect {c : List UInt8} {k : Nat} {h : FileIoPartitionHandle} {w : ClientWindows}
    (reading : ReadHandle c k h) (encodable : ∀ p ∈ w.held, p.Encodable) (buf : Buffer udpPacketSize) :
    ∃ sent w' h' k', blockThreadSend w h buf = .ok (sent, w', h') ∧ ReadHandle c k' h' ∧
      SendEffect c k w sent w' k' := by
  obtain ⟨result, w', h', k', run, reading, next⟩ := getNextPacket_spec reading w
  cases next with
  | @resend p _ split _ =>
    have member : p ∈ w.held := split.mem_iff.mpr (List.mem_cons_self ..)
    exact ⟨_, _, h', k, blockThreadSend_of_next run (encodable p member) buf, reading,
      .resent member ((appendInFlight_held w' p).trans split.symm)⟩
  | fresh within =>
    exact ⟨_, _, h', k + 1, blockThreadSend_of_next run (segment_encodable c k) buf, reading,
      .fresh within (appendInFlight_held w (segment c k))⟩
  | exhausted empty finished =>
    refine ⟨none, w, h', k, ?_, reading, .exhausted empty finished⟩
    simp only [blockThreadSend, run, bind, Except.bind]
    rfl

/-- A read that starts with a whole control packet has the effect of that one
packet, whatever follows it in the read. -/
theorem clientReceive_ctrl {c : UcpCtrlPacket} (flagSmall : c.flag < 256) (rest : List UInt8)
    (fits : (c.wire ++ rest).length ≤ tcpSegmentSize) (w : ClientWindows) (rspPkt : UcpPacket) :
    clientReceive w (c.wire ++ rest) rspPkt = .ok (onCtrlPacket w c) := by
  obtain ⟨data, sgmnt, bytes⟩ := tcpServerReceiveSgmnt_eq fits
  have room : 6 ≤ (c.wire ++ rest).length := by
    rw [List.length_append, UcpCtrlPacket.wire_length]
    omega
  have decoded := c.decode_wire flagSmall room
    (rest ++ List.replicate (tcpSegmentSize - (c.wire ++ rest).length) 0) rspPkt
  rw [← List.append_assoc, ← bytes] at decoded
  simp only [clientReceive, sgmnt, bind, Except.bind, onAckReceived, decoded, if_true]
  rfl

theorem clientReceive_wire {c : UcpCtrlPacket} (flagSmall : c.flag < 256) (w : ClientWindows) (rspPkt : UcpPacket) :
    clientReceive w c.wire rspPkt = .ok (onCtrlPacket w c) := by
  have fits : (c.wire ++ []).length ≤ tcpSegmentSize := by
    rw [List.append_nil, UcpCtrlPacket.wire_length]
    decide
  have handled := clientReceive_ctrl flagSmall [] fits w rspPkt
  rwa [List.append_nil] at handled

/-- A read brings no packet into the windows. -/
theorem clientReceive_held {windows windows' : ClientWindows} {incoming : List UInt8} {rspPkt : UcpPacket}
    (ran : clientReceive windows incoming rspPkt = .ok windows') : ∀ p ∈ windows'.held, p ∈ windows.held := by
  obtain ⟨sgmnt, _, acked⟩ := Except.bind_eq_ok.mp ran
  obtain ⟨packet, _, handled⟩ := Except.bind_eq_ok.mp acked
  cases handled
  split
  · intro p member
    rcases onCtrlPacket_effect windows packet.ctrlPacket with ⟨kept, _⟩ | ⟨_, _, _, _, split⟩
    · exact kept.mem_iff.mp member
    · exact split.mem_iff.mpr (List.mem_cons_of_mem _ member)
  · exact fun p member => member

def hasNumber (seqNo : UInt32) (i : Nat) : Bool := UInt32.ofNat i == seqNo

theorem findPacket_segments (c : List UInt8) (l : List Nat) (seqNo : UInt32) :
    findPacket (l.map (segment c)) seqNo = (l.find? (hasNumber seqNo)).map (segment c) := List.find?_map ..

theorem unlinkPacket_segments (c : List UInt8) (l : List Nat) (seqNo : UInt32) :
    unlinkPacket (l.map (segment c)) seqNo = (l.eraseP (hasNumber seqNo)).map (segment c) := List.eraseP_map ..

section Windows

variable (c : List UInt8) (pending inFlight : List Nat) (seqNo : UInt32)

theorem onCtrlPacket_ack_segments :
    onCtrlPacket ⟨pending.map (segment c), inFlight.map (segment c), false⟩ ⟨seqNo, ucpFlagAck⟩ =
      ⟨pending.map (segment c), (inFlight.eraseP (hasNumber seqNo)).map (segment c), false⟩ := by
  rw [onCtrlPacket, if_pos rfl, findPacket_segments, unlinkPacket_segments]
  cases found : inFlight.find? (hasNumber seqNo) with
  | none =>
    rw [List.eraseP_of_forall_not (List.find?_eq_none.mp found)]
    rfl
  | some i => rfl

theorem onCtrlPacket_nack_segments :
    onCtrlPacket ⟨pending.map (segment c), inFlight.map (segment c), false⟩ ⟨seqNo, ucpFlagNack⟩ =
      ⟨(pending ++ (inFlight.find? (hasNumber seqNo)).toList).map (segment c),
        (inFlight.eraseP (hasNumber seqNo)).map (segment c), false⟩ := by
  have notAck : ucpFlagNack ≠ ucpFlagAck := by decide
  rw [onCtrlPacket, if_neg notAck, if_pos rfl, findPacket_segments, unlinkPacket_segments]
  cases found : inFlight.find? (hasNumber seqNo) with
  | none =>
    rw [List.eraseP_of_forall_not (List.find?_eq_none.mp found), Option.toList_none, List.append_nil]
    rfl
  | some i =>
    rw [List.map_append]
    rfl

end Windows

end UCP

import UCP.ClientRuns
import UCP.Scene

namespace UCP

/-- Every packet that the client has read and let go of is in the server's
file, because nothing on the way back to the client says otherwise. -/
structure SystemInv (c : List UInt8) (k : Nat) (filled : Set Nat) (s : SystemState) : Prop where
  reading : ReadHandle c k s.source
  account : ClientAccount c k (InFile c filled) s.windows s.client.inHand
  server : ServerBacked c filled s.server
  network : ∀ datagram ∈ s.network, SegmentDatagram c datagram
  stream : BackedStream c (InFile c filled) s.stream
  ended : s.client = .left true → s.windows.held = [] ∧ segmentCount c ≤ k

theorem SystemInv.start {c : List UInt8} {file : FileIoPartitionHandle}
    (zeros : file.fp.content = List.replicate c.length 0) : SystemInv c 0 ∅ (systemStart c file) where
  reading := openPartition_readHandle c
  account := .start c _
  server := by
    refine ⟨?_, fun _ member => absurd member List.not_mem_nil, fun _ member => absurd member List.not_mem_nil,
      fun _ member => absurd member List.not_mem_nil⟩
    change List.FilledFrom 0 c ∅ file.fp.content
    rw [zeros]
    exact .start 0 c
  network := fun _ member => absurd member List.not_mem_nil
  stream := .empty
  ended := fun ended => by cases ended

theorem afterTick_inHand (windows : ClientWindows) : (afterTick windows).inHand = [] := by
  unfold afterTick
  split
  · rfl
  · rfl

theorem afterTick_going (windows : ClientWindows) : afterTick windows ≠ .left true := by
  unfold afterTick
  split
  · exact fun left => by cases left
  · exact fun left => by cases left

section Step

variable {c : List UInt8} {k : Nat} {filled : Set Nat} {s : SystemState}

theorem SystemInv.get (inv : SystemInv c k filled s) (atGet : s.client = .get) {next : Option UcpPacket}
    {windows : ClientWindows} {source : FileIoPartitionHandle}
    (run : getNextPacket s.windows s.source = .ok (next, windows, source)) :
    ∃ k', SystemInv c k' filled { s with client := next.elim (.left true) .send, windows, source } := by
  obtain ⟨_, _, _, k', run', reading, origin⟩ := getNextPacket_spec inv.reading s.windows
  cases run.symm.trans run'
  have account := inv.account
  rw [show s.client.inHand = [] by rw [atGet]; rfl] at account
  cases origin with
  | @resend p windows split _ =>
    have moved : (windows.held ++ [p]).Perm (s.windows.held ++ []) := by
      rw [List.append_nil]
      exact (List.perm_append_singleton p _).trans split.symm
    exact ⟨k, reading, account.move moved, inv.server, inv.network, inv.stream, fun left => by cases left⟩
  | fresh within =>
    have added : (s.windows.held ++ [segment c k]).Perm (segment c k :: (s.windows.held ++ [])) := by
      rw [List.append_nil]
      exact List.perm_append_singleton _ _
    exact ⟨k + 1, reading, account.fresh within added, inv.server, inv.network, inv.stream, fun left => by cases left⟩
  | exhausted nothing finished =>
    exact ⟨k, reading, account, inv.server, inv.network, inv.stream, fun _ => ⟨nothing, finished⟩⟩

theorem SystemInv.read (inv : SystemInv c k filled s) (few : segmentCount c < 2 ^ 32) (atTick : s.client = .tick)
    {incoming rest : List UInt8} {windows : ClientWindows} {rspPkt : UcpPacket}
    (unread : s.stream = incoming ++ rest)
    (aligned : 6 ∣ s.stream.length) (whole : 6 ≤ incoming.length) (fits : incoming.length ≤ tcpSegmentSize)
    (run : clientReceive s.windows incoming rspPkt = .ok windows) :
    SystemInv c k filled { s with client := afterTick windows, windows, stream := rest } := by
  obtain ⟨control, first, backed, stream⟩ := inv.stream.read unread aligned whole
  rw [first] at fits run
  rw [clientReceive_ctrl backed.flagSmall _ fits] at run
  cases run
  have account := inv.account
  rw [show s.client.inHand = [] by rw [atTick]; rfl] at account
  have next := account.control few backed
  rw [← afterTick_inHand (onCtrlPacket s.windows control)] at next
  exact ⟨inv.reading, next, inv.server, inv.network, stream, fun left => absurd left (afterTick_going _)⟩

theorem SystemInv.serverStep (inv : SystemInv c k filled s) (short : c.length < 2 ^ 32) {e : ServerEvent}
    {server : ServerState} (step : ServerStep (· ∈ s.network) s.server e server) :
    ∃ more, SystemInv c k more { s with server } ∧
      ∀ seqNo flag, e = .sent seqNo flag → Backed c (InFile c more) seqNo flag := by
  obtain ⟨more, sub, next, sends⟩ := inv.server.step short inv.network step
  have grown : ∀ i, InFile c filled i → InFile c more i := fun _ covered => covered.trans sub
  exact ⟨more, ⟨inv.reading, inv.account.mono grown, next, inv.network, inv.stream.mono grown, inv.ended⟩, sends⟩

theorem SystemInv.written (inv : SystemInv c k filled s) {seqNo flag : UInt32} {buf : Buffer 10}
    {data : Buffer tcpSegmentSize} {bytes : List UInt8} (backed : Backed c (InFile c filled) seqNo flag)
    (run : sendCtrlPacket seqNo flag buf data = .ok bytes) :
    SystemInv c k filled { s with stream := s.stream ++ bytes } := by
  rw [sendCtrlPacket_eq] at run
  cases run
  have sent : ∀ control ∈ [(⟨seqNo, flag⟩ : UcpCtrlPacket)],
      Backed c (InFile c filled) control.seqNo control.flag := fun control member => by
    rw [List.mem_singleton.mp member]
    exact backed
  exact ⟨inv.reading, inv.account, inv.server, inv.network, inv.stream.append sent, inv.ended⟩

theorem SystemInv.step (inv : SystemInv c k filled s) (short : c.length < 2 ^ 32) {s' : SystemState}
    (step : SystemStep s s') : ∃ k' filled', SystemInv c k' filled' s' := by
  have account := inv.account
  cases step with
  | get atGet run =>
    obtain ⟨k', next⟩ := inv.get atGet run
    exact ⟨k', filled, next⟩
  | @send packet datagram buf atSend run =>
    rw [atSend] at account
    obtain ⟨i, before, rfl⟩ := account.drawn packet (List.mem_append_right _ (List.mem_singleton_self _))
    rw [sendDatagram_eq (segment_encodable c i)] at run
    cases run
    exact ⟨k, filled, inv.reading, account, inv.server,
      segmentDatagram_cons inv.network (before.trans_le account.reached), inv.stream, fun left => by cases left⟩
  | @append packet atAppend =>
    rw [atAppend] at account
    have moved : ((appendInFlight s.windows packet).held ++ []).Perm (s.windows.held ++ [packet]) := by
      rw [List.append_nil]
      exact (appendInFlight_held s.windows packet).trans (List.perm_append_singleton packet _).symm
    exact ⟨k, filled, inv.reading, account.move moved, inv.server, inv.network, inv.stream, fun left => by cases left⟩
  | tickIdle atTick =>
    rw [atTick] at account
    refine ⟨k, filled, inv.reading, account.move ?_, inv.server, inv.network, inv.stream,
      fun left => absurd left (afterTick_going _)⟩
    rw [afterTick_inHand]
    exact .refl _
  | tickRead rspPkt atTick unread aligned whole fits run =>
    exact ⟨k, filled, inv.read (segmentCount_lt short) atTick unread aligned whole fits run⟩
  | serverSent buf data step run =>
    obtain ⟨more, next, sends⟩ := inv.serverStep short step
    exact ⟨k, more, next.written (sends _ _ rfl) run⟩
  | server step silent =>
    obtain ⟨more, next, -⟩ := inv.serverStep short step
    exact ⟨k, more, next⟩

end Step

theorem exists_segment_covers {c : List UInt8} {i : Nat} (short : c.length < 2 ^ 32) (within : i < c.length) :
    ∃ j, j < segmentCount c ∧ i ∈ (segment c j).covers := by
  have positive : 0 < udpPacketDataSize := by decide
  have split := Nat.div_add_mod i udpPacketDataSize
  have small := Nat.mod_lt i positive
  have inside : i / udpPacketDataSize < segmentCount c := lt_segmentCount_iff.mpr (by omega)
  refine ⟨i / udpPacketDataSize, inside, ?_⟩
  rw [segment_covers short inside, length_piece]
  exact ⟨by omega, by omega⟩

theorem systemReachable_inv {c : List UInt8} {file : FileIoPartitionHandle} {s : SystemState}
    (short : c.length < 2 ^ 32) (zeros : file.fp.content = List.replicate c.length 0)
    (reachable : SystemReachable c file s) : ∃ k filled, SystemInv c k filled s := by
  induction reachable with
  | refl => exact ⟨0, ∅, .start zeros⟩
  | tail _ step ih =>
    obtain ⟨k, filled, inv⟩ := ih
    exact inv.step short step

/-- In every reachable state the server's file holds the bytes of every packet
that the client has read and no longer has in a window or in hand; and when the
send loop has ended for want of packets, the file is complete. -/
theorem ack_implies_saved {c : List UInt8} {packets : List UcpPacket} {file : FileIoPartitionHandle}
    {s : SystemState}
    (short : c.length < 2 ^ 32) (zeros : file.fp.content = List.replicate c.length 0)
    (reads : ReadsUntilNull (openPartition c) packets) (reachable : SystemReachable c file s) :
    (∀ p ∈ packets.take s.source.lastSeqNo.toNat, p ∉ s.windows.pendingPacketList →
        p ∉ s.windows.inFlightPacketList → p ∉ s.client.inHand →
        (s.server.handle.fp.content.drop p.dataPacket.offset.toNat).take p.dataPacket.segLen =
          p.dataPacket.segmentData.bytes.take p.dataPacket.segLen) ∧
      (s.client = .left true → s.server.handle.fp.content = c) := by
  obtain rfl := readsUntilNull_iff.mp reads
  have few := segmentCount_lt short
  obtain ⟨k, filled, inv⟩ := systemReachable_inv short zeros reachable
  have reached := inv.reading.reached
  constructor
  · intro p member notPending notInFlight notInHand
    rw [inv.reading.lastSeqNo, UInt32.toNat_ofNat_of_lt' (reached.trans_lt few)] at member
    obtain ⟨i, before, rfl⟩ := (mem_take_segments reached).mp member
    rcases inv.account.accounted i before with kept | covered
    · rcases List.mem_append.mp kept with held | inHand
      · rcases List.mem_append.mp held with pending | inFlight
        · exact absurd pending notPending
        · exact absurd inFlight notInFlight
      · exact absurd inHand notInHand
    · rw [inv.server.file.slice_eq covered, segment_take, segment_offset short (by omega), segment_segLen, piece,
        List.length_take, ← List.take_eq_take_min]
  · intro left
    obtain ⟨nothing, finished⟩ := inv.ended left
    refine inv.server.file.eq_reference fun i within => ?_
    obtain ⟨j, inside, covers⟩ := exists_segment_covers short within
    rcases inv.account.accounted j (inside.trans_le finished) with kept | covered
    · rw [nothing, left] at kept
      cases kept
    · exact covered covers

/-- The second of two packets has arrived, been acknowledged and been dropped, and
its bytes are in the file; at the end both are there. -/
theorem ack_implies_saved_two_packets :
    let zeros := openPartition (List.replicate 9175 0)
    (∃ s, SystemReachable twoPackets zeros s ∧ s.windows.pendingPacketList = [segment twoPackets 0] ∧
      s.windows.inFlightPacketList = [] ∧ (s.server.handle.fp.content.drop 9166).take 9 = List.replicate 9 7) ∧
    ∃ s, SystemReachable twoPackets zeros s ∧ s.client = .left true ∧ s.server.handle.fp.content = twoPackets := by
  have short : twoPackets.length < 2 ^ 32 := by
    rw [twoPackets, List.length_replicate]
    decide
  have filled : (openPartition (List.replicate 9175 0)).fp.content = List.replicate twoPackets.length 0 := by
    rw [twoPackets, List.length_replicate]
    rfl
  have reads : ReadsUntilNull (openPartition twoPackets) (segments twoPackets) := readsUntilNull_iff.mpr rfl
  constructor
  · obtain ⟨s, reachable, _, stands⟩ :=
      sceneRun_reachable segmentCount_twoPackets scenes_second_dropped (openPartition (List.replicate 9175 0))
    have pending : s.windows.pendingPacketList = [segment twoPackets 0] := by rw [stands.windows]; rfl
    have inFlight : s.windows.inFlightPacketList = [] := by rw [stands.windows]; rfl
    have inHand : s.client.inHand = [] := by rw [stands.client]; rfl
    have isRead : segment twoPackets 1 ∈ (segments twoPackets).take s.source.lastSeqNo.toNat := by
      rw [stands.reading.lastSeqNo]
      exact (mem_take_segments stands.reading.reached).mpr ⟨1, Nat.one_lt_two, rfl⟩
    have other : segment twoPackets 1 ≠ segment twoPackets 0 := fun same => by
      have numbers := congrArg (·.dataPacket.seqNo) same
      exact absurd numbers (show (1 : UInt32) ≠ 0 by decide)
    have saved := (ack_implies_saved short filled reads reachable).1 _ isRead
      (by rw [pending, List.mem_singleton]; exact other) (by rw [inFlight]; exact List.not_mem_nil)
      (by rw [inHand]; exact List.not_mem_nil)
    have within : 1 < segmentCount twoPackets := by rw [segmentCount_twoPackets]; exact Nat.one_lt_two
    rw [segment_take, segment_segLen, segment_offset short within, piece_twoPackets,
      List.length_replicate] at saved
    exact ⟨s, reachable, pending, inFlight, saved⟩
  · obtain ⟨s, reachable, _, stands⟩ := sceneRun_reachable segmentCount_twoPackets
      (scenes_second_dropped.append scenes_both_dropped) (openPartition (List.replicate 9175 0))
    obtain ⟨s', leaves, left, _⟩ := stands.leaves rfl segmentCount_twoPackets.le rfl rfl
    have reachable' := reachable.tail leaves
    exact ⟨s', reachable', left, (ack_implies_saved short filled reads reachable').2 left⟩

end UCP

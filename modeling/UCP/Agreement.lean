import UCP.ClientRuns
import UCP.Scene

namespace UCP

/-- The client can still send the packet `p`: it has not read it yet, or has it
in one of its windows. -/
def ClientHas (s : SystemState) (p : UcpPacket) : Prop :=
  s.source.lastSeqNo ≤ p.dataPacket.seqNo ∨ p ∈ s.windows.pendingPacketList ∨ p ∈ s.windows.inFlightPacketList

/-- What the server still asks for the client can still send. -/
def Agreement (packets : List UcpPacket) (s : SystemState) : Prop :=
  ∀ p ∈ packets, sequencerCheck s.server.sequencing.sequencer p.dataPacket.seqNo = false → ClientHas s p

/-- The next item of the queue is not one that `sequencer_add` gives away. -/
def NearHead (s : SystemState) : Prop :=
  ∀ item seqQueue, s.server.seqQueue = item :: seqQueue → ¬FarBelow s.server.sequencing.sequencer.seq item.seqNo

/-- A step that is not a turn on a number that is given away. -/
def NearStep (s : SystemState) (a : Actor) (s' : SystemState) : Prop :=
  TurnStep s a s' ∧ (a = .sequencing → NearHead s)

theorem sequencerCompleteWalk_farBelow (items : List SequencerItem) (s : UInt32) :
    FarBelow (sequencerCompleteWalk items) s ↔ FarBelow items s := by
  unfold sequencerCompleteWalk
  split
  · split
    · rfl
    · rfl
  · rfl

/-- The sequencer has recorded packet `i`. -/
def Records (seq : Sequencer) (i : Nat) : Prop := UInt32.ofNat i ∈ recorded seq.seq

theorem sequencerComplete_keeps {seq : Sequencer} (ascending : Ascending seq.seq) :
    Ascending (sequencerComplete seq).2.seq ∧ Records (sequencerComplete seq).2 = Records seq := by
  obtain ⟨kept, same⟩ := sequencerCompleteWalk_recorded ascending
  rw [← sequencerComplete_seq] at kept same
  refine ⟨kept, ?_⟩
  funext i
  rw [Records, Records, same]

/-- The items of packets that have been saved. -/
def SavedItems (c : List UInt8) (items : List SequencingQueueItem) : Prop :=
  ∀ item ∈ items, ∃ i, i < segmentCount c ∧ item = savedItem (segment c i) true

/-- Every packet that the client has let go of is recorded, and every ACK on
its way is for a packet that is. -/
structure AgreementInv (c : List UInt8) (k : Nat) (s : SystemState) : Prop where
  reading : ReadHandle c k s.source
  account : ClientAccount c k (Records s.server.sequencing.sequencer) s.windows []
  network : ∀ datagram ∈ s.network, SegmentDatagram c datagram
  pushing : SavedItems c s.server.receiving.inHand
  queue : SavedItems c s.server.seqQueue
  ascending : Ascending s.server.sequencing.sequencer.seq
  stream : BackedStream c (Records s.server.sequencing.sequencer) s.stream
  aligned : 6 ∣ s.stream.length

theorem AgreementInv.start (c : List UInt8) (file : FileIoPartitionHandle) :
    AgreementInv c 0 (systemStart c file) where
  reading := openPartition_readHandle c
  account := .start c _
  network := fun _ member => absurd member List.not_mem_nil
  pushing := fun _ member => absurd member List.not_mem_nil
  queue := fun _ member => absurd member List.not_mem_nil
  ascending := .nil
  stream := .empty
  aligned := Nat.dvd_zero 6

section Step

variable {c : List UInt8} {k : Nat} {s : SystemState}

theorem AgreementInv.send (inv : AgreementInv c k s) {sent : Option (List UInt8)} {windows : ClientWindows}
    {source : FileIoPartitionHandle} {buf : Buffer udpPacketSize} (client : ClientPc)
    (run : blockThreadSend s.windows s.source buf = .ok (sent, windows, source)) :
    ∃ k', AgreementInv c k' { s with client, windows, source, network := sent.toList ++ s.network } := by
  have account := inv.account
  have encodable : ∀ p ∈ s.windows.held, p.Encodable := by
    intro p member
    obtain ⟨i, -, rfl⟩ := account.drawn p (List.mem_append_left _ member)
    exact segment_encodable c i
  obtain ⟨_, _, _, k', run', reading, effect⟩ := blockThreadSend_effect inv.reading encodable buf
  cases run.symm.trans run'
  cases effect with
  | resent member moved =>
    obtain ⟨i, before, rfl⟩ := account.drawn _ (List.mem_append_left _ member)
    have network := segmentDatagram_cons inv.network (before.trans_le account.reached)
    exact ⟨k, reading, account.move (moved.append_right []), network, inv.pushing, inv.queue, inv.ascending, inv.stream,
      inv.aligned⟩
  | fresh within added =>
    exact ⟨k + 1, reading, account.fresh within (added.append_right []), segmentDatagram_cons inv.network within,
      inv.pushing, inv.queue, inv.ascending, inv.stream, inv.aligned⟩
  | exhausted =>
    exact ⟨k, reading, account, inv.network, inv.pushing, inv.queue, inv.ascending, inv.stream, inv.aligned⟩

theorem AgreementInv.read (inv : AgreementInv c k s) (few : segmentCount c < 2 ^ 32) {incoming rest : List UInt8}
    {windows : ClientWindows} {rspPkt : UcpPacket} (client : ClientPc) (unread : s.stream = incoming ++ rest)
    (six : incoming.length = 6) (run : clientReceive s.windows incoming rspPkt = .ok windows) :
    AgreementInv c k { s with client, windows, stream := rest } := by
  obtain ⟨control, first, backed, stream⟩ := inv.stream.read unread inv.aligned six.ge
  have fits : incoming.length ≤ tcpSegmentSize := by
    rw [six]
    decide
  rw [first] at fits run
  rw [clientReceive_ctrl backed.flagSmall _ fits] at run
  cases run
  have aligned := inv.aligned
  rw [unread, List.length_append, six, Nat.dvd_add_right (Nat.dvd_refl 6)] at aligned
  exact ⟨inv.reading, inv.account.control few backed, inv.network, inv.pushing, inv.queue, inv.ascending, stream, aligned⟩

theorem AgreementInv.receive (inv : AgreementInv c k s) {e : ServerEvent} {server : ServerState}
    (step : ServerStep (· ∈ s.network) s.server e server) (same : server.sequencing = s.server.sequencing)
    (saves : ∀ q, e ≠ .saved q false) : AgreementInv c k { s with server } := by
  suffices items : SavedItems c server.receiving.inHand ∧ SavedItems c server.seqQueue by
    refine ⟨inv.reading, ?_, inv.network, items.1, items.2, ?_, ?_, inv.aligned⟩
    · dsimp only
      rw [same]
      exact inv.account
    · dsimp only
      rw [same]
      exact inv.ascending
    · dsimp only
      rw [same]
      exact inv.stream
  have none {thread : ReceivingThread} (nothing : thread.inHand = []) : SavedItems c thread.inHand := by
    intro item member
    rw [nothing] at member
    cases member
  cases step with
  | @save datagram io thread handle item arrived waiting received pushing =>
    obtain ⟨i, within, rfl⟩ := inv.network _ arrived
    obtain ⟨sameFields, result, -, pushing'⟩ := receivingThreadReceive_segment received
    cases pushing.symm.trans pushing'
    rw [savedItem_flag] at saves
    cases result with
    | false => exact absurd rfl (saves _)
    | true =>
      refine ⟨fun item member => ⟨i, within, ?_⟩, inv.queue⟩
      rw [ReceivingThread.inHand, pushing] at member
      rw [List.mem_singleton.mp member, savedItem_congr sameFields rfl]
  | ignore arrived waiting received other =>
    obtain ⟨i, within, rfl⟩ := inv.network _ arrived
    obtain ⟨-, result, -, pushing⟩ := receivingThreadReceive_segment received
    exact absurd pushing (other _)
  | receiveError => exact ⟨none rfl, inv.queue⟩
  | @push item thread seqQueue pushing pushed =>
    cases pushed
    have inHand := inv.pushing
    rw [ReceivingThread.inHand, pushing] at inHand
    refine ⟨none (receivingThreadPush_inHand item _ s.server.seqQueue), fun item' member => ?_⟩
    rcases List.mem_append.mp member with old | new
    · exact inv.queue item' old
    · exact inHand item' new
  | sequence taken => exact absurd same (sequencingThreadStep_iff.mp taken).moves
  | cancel => exact ⟨none rfl, inv.queue⟩

/-- A turn keeps the invariant when it records at least what was recorded, and
what it writes is backed by that. -/
theorem AgreementInv.turned (inv : AgreementInv c k s) {thread : SequencingThread}
    {seqQueue : List SequencingQueueItem} {packets : List UcpCtrlPacket} (queue : SavedItems c seqQueue)
    (ascending : Ascending thread.sequencer.seq)
    (grown : ∀ i, Records s.server.sequencing.sequencer i → Records thread.sequencer i)
    (backed : ∀ control ∈ packets, Backed c (Records thread.sequencer) control.seqNo control.flag) :
    AgreementInv c k
      { s with server := { s.server with sequencing := thread, seqQueue }
               stream := s.stream ++ packets.flatMap UcpCtrlPacket.wire } := by
  refine ⟨inv.reading, inv.account.mono grown, inv.network, inv.pushing, queue, ascending,
    (inv.stream.mono grown).append backed, ?_⟩
  rw [List.length_append, length_wires]
  exact Nat.dvd_add inv.aligned (Nat.dvd_mul_right 6 _)

theorem AgreementInv.sequence (inv : AgreementInv c k s) (few : segmentCount c < 2 ^ 32 - 1) (near : NearHead s)
    {thread : SequencingThread} {seqQueue : List SequencingQueueItem} {packets : List UcpCtrlPacket}
    (effect : TurnEffect s.server.sequencing s.server.seqQueue thread seqQueue packets) :
    AgreementInv c k
      { s with server := { s.server with sequencing := thread, seqQueue }
               stream := s.stream ++ packets.flatMap UcpCtrlPacket.wire } := by
  obtain ⟨ascending, same⟩ := sequencerComplete_keeps inv.ascending
  generalize list : s.server.seqQueue = queue at effect
  have items := inv.queue
  rw [list] at items
  cases effect with
  | finished complete =>
    refine inv.turned items ascending (fun i old => by rwa [same]) fun control member => ?_
    rw [List.mem_singleton.mp member]
    exact .fin _
  | idle incomplete =>
    exact inv.turned items ascending (fun i old => by rwa [same]) fun control member => absurd member List.not_mem_nil
  | @took item _ sequencer incomplete added =>
    obtain ⟨i, within, rfl⟩ := items item (List.mem_cons_self ..)
    have notFar := near _ _ list
    rw [← sequencerCompleteWalk_farBelow, ← sequencerComplete_seq] at notFar
    rw [savedItem_seqNo] at added notFar
    have small := segment_seqNo_small (show segmentCount c < 2 ^ 32 by omega) within
    have effect := sequencerAdd_effect ascending small ((savedItem (segment c i) true).flag == ucpFlagDataEnd)
    rw [added] at effect
    have inserted := effect.1 notFar
    have now : Records sequencer i := (inserted.mem_iff _).mpr (Or.inl rfl)
    refine inv.turned (fun later member => items later (List.mem_cons_of_mem _ member)) inserted.ascending
      (fun j old => (inserted.mem_iff _).mpr (Or.inr (by rwa [← same] at old))) fun control member => ?_
    rcases List.mem_cons.mp member with rfl | missing
    · exact ⟨show ucpFlagAck < 256 by decide, fun _ => ⟨i, within, rfl, now⟩⟩
    · obtain ⟨seqNo, -, rfl⟩ := List.mem_map.mp missing
      exact .nack _

theorem AgreementInv.step (inv : AgreementInv c k s) (few : segmentCount c < 2 ^ 32 - 1) {a : Actor}
    {s' : SystemState}
    (step : NearStep s a s') : ∃ k', AgreementInv c k' s' := by
  obtain ⟨step, near⟩ := step
  cases step with
  | send buf atGet run => exact inv.send _ run
  | tickIdle atTick =>
    exact ⟨k, inv.reading, inv.account, inv.network, inv.pushing, inv.queue, inv.ascending, inv.stream, inv.aligned⟩
  | tickRead rspPkt atTick unread six run => exact ⟨k, inv.read (by omega) _ unread six run⟩
  | receive step same saves => exact ⟨k, inv.receive step same saves⟩
  | sequence atTest turn written =>
    obtain rfl := ctrlStream_iff.mp written
    exact ⟨k, inv.sequence few (near rfl) (sequencingTurn_iff.mp turn)⟩

theorem AgreementInv.agreement (inv : AgreementInv c k s) (few : segmentCount c < 2 ^ 32) :
    Agreement (segments c) s := by
  intro p member unrecorded
  obtain ⟨i, within, rfl⟩ := mem_segments.mp member
  have reached := inv.reading.reached
  by_cases before : i < k
  · rcases inv.account.accounted i before with kept | done
    · rw [List.append_nil] at kept
      exact Or.inr (List.mem_append.mp kept)
    · rw [Bool.eq_false_iff] at unrecorded
      exact absurd (sequencerCheck_iff.mpr done) unrecorded
  · left
    rw [inv.reading.lastSeqNo]
    exact (Word.ofNat_le_iff (by omega) (by omega)).mpr (Nat.not_lt.mp before)

end Step

/-- In every run in which no turn takes a number that lies more than one below
the first recorded range, client and server agree in every state. -/
theorem agreement_of_near_heads {c : List UInt8} {packets : List UcpPacket} {file : FileIoPartitionHandle}
    {actors : List Actor} {s : SystemState} (reads : ReadsUntilNull (openPartition c) packets)
    (few : packets.length < 2 ^ 32 - 1) (run : Run NearStep (systemStart c file) actors s) :
    Agreement packets s := by
  obtain rfl := readsUntilNull_iff.mp reads
  rw [segments, List.length_map, List.length_range] at few
  obtain ⟨k, inv⟩ : ∃ k, AgreementInv c k s := by
    refine Run.invariant (fun _ s => ∃ k, AgreementInv c k s) ⟨0, .start c file⟩ (fun _ inv step => ?_) run
    obtain ⟨k, inv⟩ := inv
    exact inv.step few step
  exact inv.agreement (by omega)

/-- A scene whose next turn takes no number that is given away. -/
def Scene.Near (a : Scene) : Prop :=
  ∀ i queue, a.queue = i :: queue → ¬FarBelow a.sequencer.seq (UInt32.ofNat i)

theorem Scene.Stands.nearHead {c : List UInt8} {a : Scene} {s : SystemState} (stands : a.Stands c s)
    (near : a.Near) : NearHead s := by
  intro item seqQueue list
  rw [stands.queue] at list
  obtain ⟨i, queue, taken, rfl, -⟩ := List.map_eq_cons_iff.mp list
  rw [stands.sequencer]
  exact near i queue taken

def NearSceneStep (n : Nat) (a : Scene) (actor : Actor) (a' : Scene) : Prop :=
  SceneStep n a actor a' ∧ (actor = .sequencing → a.Near)

theorem Scene.Stands.simulates_near {c : List UInt8} {a : Scene} {s : SystemState} {actor : Actor} {a' : Scene}
    (stands : a.Stands c s) (step : NearSceneStep (segmentCount c) a actor a') :
    ∃ s', NearStep s actor s' ∧ a'.Stands c s' := by
  obtain ⟨s', taken, next⟩ := stands.simulates step.1
  exact ⟨s', ⟨taken, fun sequencing => stands.nearHead (step.2 sequencing)⟩, next⟩

theorem NearSceneStep.other {n : Nat} {a a' : Scene} {actor : Actor} (step : SceneStep n a actor a')
    (other : actor ≠ .sequencing) : NearSceneStep n a actor a' := ⟨step, fun same => absurd same other⟩

/-- Of two packets the second one has arrived and been dropped; the server lacks
the first one, which is pending. -/
theorem agreement_of_near_heads_two_packets :
    ∃ actors s, Run NearStep (systemStart twoPackets (openPartition [])) actors s ∧
      sequencerCheck s.server.sequencing.sequencer 0 = false ∧ sequencerCheck s.server.sequencing.sequencer 1 = true ∧
      s.windows.pendingPacketList = [segment twoPackets 0] ∧ s.windows.inFlightPacketList = [] ∧
      Agreement (segments twoPackets) s := by
  have count := segmentCount_twoPackets
  have turn : NearSceneStep 2 ⟨2, true, [], [0, 1], none, [1], sequencerInit, []⟩ .sequencing _ :=
    ⟨.turn rfl rfl rfl, fun _ i queue list => id⟩
  have scenes : Run (NearSceneStep 2) sceneStart
      [.client, .client, .client, .receiving, .receiving, .sequencing, .client, .client, .client] secondDropped := by
    refine .cons (.other (.sendNext rfl rfl (by decide)) (by decide)) (.cons (.other (.idle rfl) (by decide)) ?_)
    refine .cons (.other (.sendNext rfl rfl (by decide)) (by decide)) ?_
    refine .cons (.other (.save (show 1 < 2 by decide) rfl) (by decide)) (.cons (.other (.push rfl) (by decide)) ?_)
    refine .cons turn (.cons (.other (.readAck rfl rfl) (by decide)) ?_)
    refine .cons (.other (.sendInFlight rfl rfl (by decide) rfl) (by decide)) ?_
    exact .cons (.other (.readNack rfl rfl) (by decide)) .start
  rw [← count] at scenes
  obtain ⟨s, run, stands⟩ :=
    scenes.simulate Scene.Stands.simulates_near (Scene.Stands.start twoPackets (openPartition []))
  have few : (segments twoPackets).length < 2 ^ 32 - 1 := by
    rw [segments, List.length_map, List.length_range]
    omega
  refine ⟨_, s, run, ?_, ?_, ?_, ?_, agreement_of_near_heads (readsUntilNull_iff.mpr rfl) few run⟩
  · rw [stands.sequencer]
    decide
  · rw [stands.sequencer]
    decide
  · rw [stands.windows]
    rfl
  · rw [stands.windows]
    rfl

/-- Of three packets the last one arrives first and then the first one, which is
acknowledged and given away: the client drops it when it reads that ACK. -/
theorem lost_of_three_packets {c : List UInt8} (file : FileIoPartitionHandle) (three : segmentCount c = 3) :
    ∃ actors s, Run TurnStep (systemStart c file) actors s ∧ ¬Agreement (segments c) s := by
  have scenes : Run (SceneStep (segmentCount c)) sceneStart
      [.client, .client, .client, .client, .client, .receiving, .receiving, .receiving, .receiving, .sequencing,
        .sequencing, .client, .client, .client, .client, .client, .client, .client]
      ⟨3, false, [], [1], none, [], ⟨[⟨2, 2⟩], 2, uint32Max⟩, [⟨0, ucpFlagNack⟩, ⟨1, ucpFlagNack⟩]⟩ := by
    rw [three]
    -- all three packets are sent
    refine .cons (.sendNext rfl rfl (by decide)) (.cons (.idle rfl) ?_)
    refine .cons (.sendNext rfl rfl (by decide)) (.cons (.idle rfl) ?_)
    refine .cons (.sendNext rfl rfl (by decide)) ?_
    -- the last one and then the first one arrive and are processed
    refine .cons (.save (show 2 < 3 by decide) rfl) (.cons (.push rfl) ?_)
    refine .cons (.save (show 0 < 3 by decide) rfl) (.cons (.push rfl) ?_)
    refine .cons (.turn rfl rfl rfl) (.cons (.turn rfl rfl rfl) ?_)
    -- the client reads ACK 2, NACK 0, NACK 1 and ACK 0
    refine .cons (.readAck rfl rfl) (.cons (.sendInFlight rfl rfl (by decide) rfl) ?_)
    refine .cons (.readNack rfl rfl) (.cons (.sendPending rfl rfl) ?_)
    refine .cons (.readNack rfl rfl) (.cons (.sendPending rfl rfl) ?_)
    exact .cons (.readAck rfl rfl) .start
  obtain ⟨s, run, stands⟩ := scenes.simulate (fun stands step => stands.simulates step) (Scene.Stands.start c file)
  refine ⟨_, s, run, fun agreement => ?_⟩
  have first : ClientHas s (segment c 0) :=
    agreement _ (mem_segments.mpr ⟨0, by omega, rfl⟩) (by rw [stands.sequencer]; rfl)
  rcases first with unread | pending | inFlight
  · rw [stands.reading.lastSeqNo] at unread
    exact absurd unread (show ¬(3 : UInt32) ≤ 0 by decide)
  · rw [stands.windows] at pending
    exact List.not_mem_nil pending
  · rw [stands.windows] at inFlight
    have same := congrArg (·.dataPacket.seqNo) (List.mem_singleton.mp inFlight)
    exact absurd same (show (0 : UInt32) ≠ 1 by decide)

theorem acknowledged_packet_lost :
    ∃ packets actors s, ReadsUntilNull (openPartition (List.replicate 18333 0)) packets ∧ packets.length = 3 ∧
      Run TurnStep (systemStart (List.replicate 18333 0) (openPartition [])) actors s ∧ ¬Agreement packets s := by
  have three : segmentCount (List.replicate 18333 0) = 3 := by
    rw [segmentCount, List.length_replicate]
    rfl
  obtain ⟨actors, s, run, lost⟩ := lost_of_three_packets (openPartition []) three
  refine ⟨_, actors, s, readsUntilNull_iff.mpr rfl, ?_, run, lost⟩
  rw [segments, List.length_map, List.length_range, three]

end UCP

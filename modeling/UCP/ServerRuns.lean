import UCP.Lib.Run
import UCP.ReceivingLoop
import UCP.SequencerRanges

namespace UCP

/-- What the two threads of the server own and share. -/
structure ServerState where
  receiving : ReceivingThread
  handle : FileIoPartitionHandle
  seqQueue : List SequencingQueueItem
  sequencing : SequencingThread

def serverStart (handle : FileIoPartitionHandle) : ServerState where
  receiving := receivingThreadStart
  handle
  seqQueue := []
  sequencing := sequencingThreadStart

/-- What can be told of a step from outside: a call of `file_io_save_packet`
with its result, or a control packet written to the client. -/
inductive ServerEvent
  | saved (packet : UcpPacket) (result : Bool)
  | sent (seqNo flag : UInt32)
  | silent

def sentEvent : Option (UInt32 × UInt32) → ServerEvent
  | some (seqNo, flag) => .sent seqNo flag
  | none => .silent

/-- One step of one of the two threads, in any order; `arrives` tells which
datagrams `recvfrom` may deliver next. A save that fails is reported as NACK,
any other as ACK. Behind FIN the receiving thread is cancelled. -/
inductive ServerStep (arrives : List UInt8 → Prop) (s : ServerState) : ServerEvent → ServerState → Prop
  | save {datagram io thread handle item} : arrives datagram → s.receiving.pc = .receive →
      receivingThreadReceive datagram io s.receiving s.handle = .ok (thread, handle) → thread.pc = .push item →
      ServerStep arrives s (.saved thread.rcvPkt (item.flag == ucpFlagAck)) { s with receiving := thread, handle }
  | ignore {datagram io thread handle} : arrives datagram → s.receiving.pc = .receive →
      receivingThreadReceive datagram io s.receiving s.handle = .ok (thread, handle) →
      (∀ item, thread.pc ≠ .push item) → ServerStep arrives s .silent { s with receiving := thread, handle }
  | receiveError : s.receiving.pc = .receive →
      ServerStep arrives s .silent { s with receiving := { s.receiving with pc := .returned } }
  | push {item thread seqQueue} : s.receiving.pc = .push item →
      receivingThreadPush item s.receiving s.seqQueue = (thread, seqQueue) →
      ServerStep arrives s .silent { s with receiving := thread, seqQueue }
  | sequence {thread seqQueue sent} :
      sequencingThreadStep s.sequencing s.seqQueue = some (thread, seqQueue, sent) →
      ServerStep arrives s (sentEvent sent) { s with sequencing := thread, seqQueue }
  | cancel : s.sequencing.pc = .returned →
      ServerStep arrives s .silent { s with receiving := { s.receiving with pc := .returned } }

theorem ServerStep.mono {arrives more : List UInt8 → Prop} (sub : ∀ bytes, arrives bytes → more bytes)
    {s s' : ServerState} {e : ServerEvent} (step : ServerStep arrives s e s') : ServerStep more s e s' := by
  cases step with
  | save arrived waiting received pushing => exact .save (sub _ arrived) waiting received pushing
  | ignore arrived waiting received other => exact .ignore (sub _ arrived) waiting received other
  | receiveError waiting => exact .receiveError waiting
  | push pushing pushed => exact .push pushing pushed
  | sequence taken => exact .sequence taken
  | cancel returned => exact .cancel returned

/-- The datagrams of a partition's data packets. -/
def SegmentDatagram (c : List UInt8) (datagram : List UInt8) : Prop :=
  ∃ i, i < segmentCount c ∧ (segment c i).wire = datagram

/-- One more packet of the partition on the network. -/
theorem segmentDatagram_cons {c : List UInt8} {network : List (List UInt8)}
    (drawn : ∀ datagram ∈ network, SegmentDatagram c datagram) {i : Nat} (within : i < segmentCount c) :
    ∀ datagram ∈ (segment c i).wire :: network, SegmentDatagram c datagram := by
  intro datagram member
  rcases List.mem_cons.mp member with rfl | old
  · exact ⟨i, within, rfl⟩
  · exact drawn datagram old

/-- A run of the server on the data packets of the partition `c`, which may
come in any order and number. -/
def ServerRun (c : List UInt8) (handle : FileIoPartitionHandle) : List ServerEvent → ServerState → Prop :=
  Run (ServerStep (SegmentDatagram c)) (serverStart handle)

/-- The steps of `sequencing_thread`, one by one. -/
inductive SequencingEffect (t : SequencingThread) (queue : List SequencingQueueItem) :
    SequencingThread → List SequencingQueueItem → Option (UInt32 × UInt32) → Prop
  | tested : t.pc = .test → SequencingEffect t queue
      { t with sequencer := (sequencerComplete t.sequencer).2,
               pc := if (sequencerComplete t.sequencer).1 then .fin else .pop } queue none
  | popped {item rest} : t.pc = .pop → queue = item :: rest → SequencingEffect t queue
      { t with seqNo := item.seqNo, flag := item.flag, isLast := item.isLast, pc := .reply } rest none
  | idle : t.pc = .pop → queue = [] → SequencingEffect t queue { t with pc := .test } queue none
  | replied : t.pc = .reply → SequencingEffect t queue { t with pc := .add } queue (some (t.seqNo, t.flag))
  | added : t.pc = .add → SequencingEffect t queue
      { t with sequencer := (sequencerAdd t.sequencer t.seqNo (t.flag == ucpFlagDataEnd)).2,
               pc := .missing (sequencerIterateMissingSegments
                 (sequencerAdd t.sequencer t.seqNo (t.flag == ucpFlagDataEnd)).2) } queue none
  | reported {seqNo todo} : t.pc = .missing (seqNo :: todo) →
      SequencingEffect t queue { t with pc := .missing todo } queue (some (seqNo, ucpFlagNack))
  | rested : t.pc = .missing [] → SequencingEffect t queue { t with pc := .test } queue none
  | finished : t.pc = .fin → SequencingEffect t queue
      { t with pc := .returned } queue (some (t.sequencer.expectedLastSeqNo, ucpFlagFin))

theorem sequencingThreadStep_iff {t t' : SequencingThread} {queue queue' : List SequencingQueueItem}
    {sent : Option (UInt32 × UInt32)} :
    sequencingThreadStep t queue = some (t', queue', sent) ↔ SequencingEffect t queue t' queue' sent := by
  constructor
  · intro taken
    unfold sequencingThreadStep at taken
    split at taken
    · rename_i atTest
      cases taken
      exact .tested atTest
    · rename_i atPop
      cases queue with
      | nil =>
        cases taken
        exact .idle atPop rfl
      | cons item rest =>
        cases taken
        exact .popped atPop rfl
    · rename_i atReply
      cases taken
      exact .replied atReply
    · rename_i atAdd
      cases taken
      exact .added atAdd
    · rename_i atMissing
      cases taken
      exact .reported atMissing
    · rename_i atMissing
      cases taken
      exact .rested atMissing
    · rename_i atFin
      cases taken
      exact .finished atFin
    · cases taken
  · intro effect
    unfold sequencingThreadStep
    cases effect with
    | tested atTest => rw [atTest]
    | popped atPop list => rw [atPop, list]; rfl
    | idle atPop list => rw [atPop, list]; rfl
    | replied atReply => rw [atReply]
    | added atAdd => rw [atAdd]
    | reported atMissing => rw [atMissing]
    | rested atMissing => rw [atMissing]
    | finished atFin => rw [atFin]

theorem savedItem_flag (q : UcpPacket) (result : Bool) :
    ((savedItem q result).flag == ucpFlagAck) = result := by
  cases result with
  | false => rfl
  | true => rfl

theorem savedItem_seqNo (q : UcpPacket) (result : Bool) : (savedItem q result).seqNo = q.dataPacket.seqNo := by
  cases result with
  | false => rfl
  | true => rfl

theorem segment_seqNo_small {c : List UInt8} {i : Nat} (few : segmentCount c < 2 ^ 32)
    (within : i < segmentCount c) :
    (segment c i).dataPacket.seqNo < uint32Max := by
  change UInt32.ofNat i < 4294967295
  rw [UInt32.lt_iff_toNat_lt, UInt32.toNat_ofNat_of_lt' (within.trans few)]
  change i < 4294967295
  omega

/-- Receiving a packet of the partition always ends in a call of
`file_io_save_packet` for it, whose result is what will be pushed. -/
theorem receivingThreadReceive_segment {c : List UInt8} {i : Nat} {io : SaveIo} {thread thread' : ReceivingThread}
    {handle handle' : FileIoPartitionHandle}
    (received : receivingThreadReceive (segment c i).wire io thread handle = .ok (thread', handle')) :
    thread'.rcvPkt.SameFields (segment c i) ∧
      ∃ result, fileIoSavePacket io handle thread'.rcvPkt = .ok (result, handle') ∧
        thread'.pc = .push (savedItem thread'.rcvPkt result) := by
  obtain ⟨q, recvBuffer, same, run⟩ := receivingThreadReceive_data (segment_encodable c i) rfl thread handle io
  have bounded : q.dataPacket.segLen ≤ udpPacketDataSize := by
    obtain ⟨-, -, -, segLen, -⟩ := same.data_eq rfl
    rw [segLen]
    exact length_piece_le c i
  obtain ⟨result, _, handle'', saving, -⟩ := fileIoSavePacket_spec io handle bounded
  rw [run result handle'' saving] at received
  cases received
  refine ⟨same, result, saving, ?_⟩
  rw [savedItem_congr same rfl]

/-- The number the server believes to be the last one: the last item whose
flag it takes for the end of the partition. -/
def lastMarked (processed : List SequencingQueueItem) : UInt32 :=
  processed.foldl (fun last item => if item.flag = ucpFlagDataEnd then item.seqNo else last) uint32Max

/-- What the sequencer owes to the items it has been given. -/
structure Tracks (processed : List SequencingQueueItem) (seq : Sequencer) : Prop where
  invents : InventsNothing {x | ∃ item ∈ processed, item.seqNo = x} seq
  ascending : Ascending seq.seq
  reaches : ∀ item ∈ processed, ∃ x ∈ recorded seq.seq, item.seqNo ≤ x
  marked : seq.expectedLastSeqNo = lastMarked processed

theorem Tracks.start : Tracks [] sequencerInit where
  invents := fun _ member => absurd member List.not_mem_nil
  ascending := .nil
  reaches := fun _ member => absurd member List.not_mem_nil
  marked := rfl

section Tracks

variable {processed : List SequencingQueueItem} {seq : Sequencer}

theorem Tracks.add (tracks : Tracks processed seq) {item : SequencingQueueItem} (small : item.seqNo < uint32Max) :
    Tracks (processed ++ [item]) (sequencerAdd seq item.seqNo (item.flag == ucpFlagDataEnd)).2 where
  invents := by
    have grown := tracks.invents.add item.seqNo (item.flag == ucpFlagDataEnd)
    intro range member x inArc
    rcases Set.mem_insert_iff.mp (grown range member inArc) with rfl | ⟨old, inOld, same⟩
    · exact ⟨item, List.mem_append_right _ (List.mem_singleton_self item), rfl⟩
    · exact ⟨old, List.mem_append_left _ inOld, same⟩
  ascending := sequencerAdd_ascending tracks.ascending small _
  reaches := by
    intro old member
    rcases List.mem_append.mp member with inOld | inNew
    · obtain ⟨x, inRecorded, above⟩ := tracks.reaches old inOld
      exact ⟨x, sequencerAdd_keeps tracks.ascending small _ inRecorded, above⟩
    · obtain rfl := List.mem_singleton.mp inNew
      exact sequencerAdd_reaches tracks.ascending small _
  marked := by
    rw [sequencerAdd_expectedLastSeqNo, tracks.marked, lastMarked, lastMarked, List.foldl_append]
    simp only [List.foldl_cons, List.foldl_nil, beq_iff_eq]

theorem Tracks.complete (tracks : Tracks processed seq) : Tracks processed (sequencerComplete seq).2 where
  invents := tracks.invents.complete
  ascending := by
    rw [sequencerComplete_seq]
    exact (sequencerCompleteWalk_recorded tracks.ascending).1
  reaches := by
    rw [sequencerComplete_seq, (sequencerCompleteWalk_recorded tracks.ascending).2]
    exact tracks.reaches
  marked := by
    rw [sequencerComplete_expectedLastSeqNo]
    exact tracks.marked

end Tracks

def ReceivingThread.inHand (thread : ReceivingThread) : List SequencingQueueItem :=
  match thread.pc with
  | .push item => [item]
  | _ => []

theorem receivingThreadPush_inHand (item : SequencingQueueItem) (thread : ReceivingThread)
    (queue : List SequencingQueueItem) : (receivingThreadPush item thread queue).1.inHand = [] := by
  rw [receivingThreadPush, ReceivingThread.inHand]
  split
  · rename_i again
    dsimp only at again
    split at again <;> cases again
  · rfl

def SequencingThread.inHand (thread : SequencingThread) : List SequencingQueueItem :=
  match thread.pc with
  | .reply => [⟨thread.seqNo, thread.flag, thread.isLast⟩]
  | .add => [⟨thread.seqNo, thread.flag, thread.isLast⟩]
  | _ => []

theorem SequencingThread.inHand_tested (thread : SequencingThread) (sequencer : Sequencer) (complete : Bool) :
    ({ thread with sequencer, pc := if complete then .fin else .pop } : SequencingThread).inHand = [] := by
  cases complete with
  | false => rfl
  | true => rfl

/-- The items that the saves of a run have called for, in order. -/
def savedItems (events : List ServerEvent) : List SequencingQueueItem :=
  events.filterMap fun
    | .saved q result => some (savedItem q result)
    | _ => none

/-- A failed save is the last one: `receiving_thread` reports it and returns. -/
inductive Outcome (events : List ServerEvent) (pc : ReceivingPc) : Prop
  | good : (∀ q, .saved q false ∉ events) → Outcome events pc
  | failed {before q after} : events = before ++ .saved q false :: after → (∀ q', .saved q' false ∉ before) →
      savedItems after = [] → pc = .push (savedItem q false) ∨ pc = .returned → Outcome events pc

/-- Every save of a run has been processed, or is on its way through the two
threads and the queue between them, in order. -/
structure ServerInv (c : List UInt8) (events : List ServerEvent) (s : ServerState)
    (processed : List SequencingQueueItem) : Prop where
  flow : processed ++ s.sequencing.inHand ++ s.seqQueue ++ s.receiving.inHand = savedItems events
  drawn : ∀ q result, .saved q result ∈ events → ∃ i, i < segmentCount c ∧ q.SameFields (segment c i)
  tracks : Tracks processed s.sequencing.sequencer
  complete : s.sequencing.pc = .fin →
    s.sequencing.sequencer.seq = [⟨0, s.sequencing.sequencer.expectedLastSeqNo⟩]
  outcome : Outcome events s.receiving.pc

theorem savedItems_append (events more : List ServerEvent) :
    savedItems (events ++ more) = savedItems events ++ savedItems more := List.filterMap_append

theorem mem_savedItems {events : List ServerEvent} {item : SequencingQueueItem} :
    item ∈ savedItems events ↔ ∃ q result, .saved q result ∈ events ∧ savedItem q result = item := by
  rw [savedItems, List.mem_filterMap]
  constructor
  · rintro ⟨e, member, made⟩
    cases e with
    | saved q result => exact ⟨q, result, member, Option.some.inj made⟩
    | sent => cases made
    | silent => cases made
  · rintro ⟨q, result, member, made⟩
    exact ⟨_, member, congrArg some made⟩

/-- An event that is no save leaves the account of the saves as it is. -/
def ServerEvent.Quiet (e : ServerEvent) : Prop := ∀ q result, e ≠ .saved q result

theorem sentEvent_quiet (sent : Option (UInt32 × UInt32)) : (sentEvent sent).Quiet := by
  intro q result
  cases sent with
  | none => exact ServerEvent.noConfusion
  | some control => exact ServerEvent.noConfusion

theorem ServerEvent.Quiet.savedItems_eq {e : ServerEvent} (quiet : e.Quiet) (events : List ServerEvent) :
    savedItems (events ++ [e]) = savedItems events := by
  have nothing : savedItems [e] = [] := by
    cases e with
    | saved q result => exact absurd rfl (quiet q result)
    | sent => rfl
    | silent => rfl
  rw [savedItems_append, nothing, List.append_nil]

theorem ServerEvent.Quiet.saved_mem {e : ServerEvent} (quiet : e.Quiet) {events : List ServerEvent} {q : UcpPacket}
    {result : Bool} : .saved q result ∈ events ++ [e] ↔ .saved q result ∈ events := by
  rw [List.mem_append, List.mem_singleton]
  exact or_iff_left fun same => quiet q result same.symm

theorem Outcome.quiet {events : List ServerEvent} {pc : ReceivingPc} {e : ServerEvent} (outcome : Outcome events pc)
    (quiet : e.Quiet) : Outcome (events ++ [e]) pc := by
  cases outcome with
  | good none => exact .good fun q member => none q (quiet.saved_mem.mp member)
  | @failed before q after split first last stopped =>
    subst split
    have split : before ++ .saved q false :: after ++ [e] = before ++ .saved q false :: (after ++ [e]) := by
      rw [List.append_assoc, List.cons_append]
    exact .failed split first ((quiet.savedItems_eq after).trans last) stopped

section Step

variable {c : List UInt8} {events : List ServerEvent} {s : ServerState} {processed : List SequencingQueueItem}

/-- The numbers of the saves are those of packets of the partition. -/
theorem ServerInv.seqNo_drawn (inv : ServerInv c events s processed) {item : SequencingQueueItem}
    (member : item ∈ savedItems events) : ∃ i, i < segmentCount c ∧ item.seqNo = UInt32.ofNat i := by
  obtain ⟨q, result, saved, rfl⟩ := mem_savedItems.mp member
  obtain ⟨i, within, same⟩ := inv.drawn q result saved
  obtain ⟨_, seqNo, -⟩ := same.data_eq rfl
  rw [savedItem_seqNo]
  exact ⟨i, within, seqNo⟩

theorem ServerInv.seqNo_small (inv : ServerInv c events s processed) (few : segmentCount c < 2 ^ 32)
    {item : SequencingQueueItem} (member : item ∈ savedItems events) : item.seqNo < uint32Max := by
  obtain ⟨i, within, number⟩ := inv.seqNo_drawn member
  rw [number]
  exact segment_seqNo_small few within

theorem ServerInv.processed_saved (inv : ServerInv c events s processed) {item : SequencingQueueItem}
    (member : item ∈ processed) : item ∈ savedItems events := by
  rw [← inv.flow, List.append_assoc, List.append_assoc]
  exact List.mem_append_left _ member

/-- The sequencer has no more ranges than the partition has packets. -/
theorem ServerInv.ranges_le (inv : ServerInv c events s processed) (few : segmentCount c < 2 ^ 32) :
    s.sequencing.sequencer.seq.length ≤ segmentCount c := by
  refine inv.tracks.ascending.length_le 0 (segmentCount c) fun x member => ⟨Nat.zero_le _, ?_⟩
  obtain ⟨range, inList, contained⟩ := member
  obtain ⟨item, inProcessed, rfl⟩ := inv.tracks.invents range inList (SequencerItem.mem_arc contained)
  obtain ⟨i, within, number⟩ := inv.seqNo_drawn (inv.processed_saved inProcessed)
  rwa [number, UInt32.toNat_ofNat_of_lt' (within.trans few)]

theorem ServerInv.inHand_small (inv : ServerInv c events s processed) (few : segmentCount c < 2 ^ 32)
    (atAdd : s.sequencing.pc = .add) : s.sequencing.seqNo < uint32Max := by
  have inHand : s.sequencing.inHand = [⟨s.sequencing.seqNo, s.sequencing.flag, s.sequencing.isLast⟩] := by
    rw [SequencingThread.inHand, atAdd]
  have member : ⟨s.sequencing.seqNo, s.sequencing.flag, s.sequencing.isLast⟩ ∈ savedItems events := by
    rw [← inv.flow, inHand]
    simp
  exact inv.seqNo_small few member

theorem ServerInv.start (c : List UInt8) (handle : FileIoPartitionHandle) :
    ServerInv c [] (serverStart handle) [] where
  flow := rfl
  drawn := fun _ _ member => absurd member List.not_mem_nil
  tracks := .start
  complete := fun atFin => by cases atFin
  outcome := .good fun _ => List.not_mem_nil

/-- A step that leaves the items before the sequencer in their order. -/
theorem ServerInv.moved (inv : ServerInv c events s processed) {thread : SequencingThread}
    {seqQueue : List SequencingQueueItem} (sent : Option (UInt32 × UInt32))
    (kept : thread.inHand ++ seqQueue = s.sequencing.inHand ++ s.seqQueue)
    (same : thread.sequencer = s.sequencing.sequencer) (notFin : thread.pc ≠ .fin) :
    ServerInv c (events ++ [sentEvent sent]) { s with sequencing := thread, seqQueue } processed := by
  have quiet := sentEvent_quiet sent
  refine ⟨?_, fun q result member => inv.drawn q result (quiet.saved_mem.mp member), ?_,
    fun atFin => absurd atFin notFin, inv.outcome.quiet quiet⟩
  · dsimp only
    rw [quiet.savedItems_eq, ← inv.flow, List.append_assoc processed, kept, ← List.append_assoc processed]
  · dsimp only
    rw [same]
    exact inv.tracks

/-- A step of `sequencing_thread`: it moves an item from the queue through its
hands into the sequencer. -/
theorem ServerInv.sequence (inv : ServerInv c events s processed) (few : segmentCount c < 2 ^ 32)
    {thread : SequencingThread} {seqQueue : List SequencingQueueItem} {sent : Option (UInt32 × UInt32)}
    (effect : SequencingEffect s.sequencing s.seqQueue thread seqQueue sent) (running : thread.pc ≠ .returned) :
    ∃ processed', ServerInv c (events ++ [sentEvent sent]) { s with sequencing := thread, seqQueue } processed' := by
  have quiet := sentEvent_quiet sent
  have flow : processed ++ s.sequencing.inHand ++ s.seqQueue ++ s.receiving.inHand =
      savedItems (events ++ [sentEvent sent]) := inv.flow.trans (quiet.savedItems_eq events).symm
  have drawn : ∀ q result, .saved q result ∈ events ++ [sentEvent sent] →
      ∃ i, i < segmentCount c ∧ q.SameFields (segment c i) := fun q result member =>
    inv.drawn q result (quiet.saved_mem.mp member)
  have outcome := inv.outcome.quiet quiet
  cases effect with
  | tested atTest =>
    refine ⟨processed, ?_, drawn, inv.tracks.complete, fun atFin => ?_, outcome⟩
    · dsimp only
      rw [← flow, SequencingThread.inHand_tested]
      simp only [SequencingThread.inHand, atTest]
    · have done : (sequencerComplete s.sequencing.sequencer).1 = true := by
        by_contra undone
        dsimp only at atFin
        rw [if_neg undone] at atFin
        cases atFin
      dsimp only
      rw [sequencerComplete_seq, sequencerComplete_expectedLastSeqNo]
      exact (sequencerComplete_iff _).mp done
  | popped atPop list =>
    refine ⟨processed, inv.moved _ ?_ rfl SequencingPc.noConfusion⟩
    simp only [SequencingThread.inHand, atPop, list, List.cons_append, List.nil_append]
  | idle atPop list =>
    refine ⟨processed, inv.moved _ ?_ rfl SequencingPc.noConfusion⟩
    simp only [SequencingThread.inHand, atPop]
  | replied atReply =>
    refine ⟨processed, inv.moved _ ?_ rfl SequencingPc.noConfusion⟩
    simp only [SequencingThread.inHand, atReply]
  | added atAdd =>
    simp only [SequencingThread.inHand, atAdd] at flow
    refine ⟨processed ++ [⟨s.sequencing.seqNo, s.sequencing.flag, s.sequencing.isLast⟩], ?_, drawn,
      inv.tracks.add (inv.inHand_small few atAdd), fun atFin => (by cases atFin), outcome⟩
    rw [← flow]
    simp only [SequencingThread.inHand, List.append_nil]
  | reported atMissing =>
    refine ⟨processed, inv.moved _ ?_ rfl SequencingPc.noConfusion⟩
    simp only [SequencingThread.inHand, atMissing]
  | rested atMissing =>
    refine ⟨processed, inv.moved _ ?_ rfl SequencingPc.noConfusion⟩
    simp only [SequencingThread.inHand, atMissing]
  | finished atFin => exact absurd rfl running

/-- The call of `file_io_save_packet`: it takes place in `recvfrom`'s loop, so
no save has failed before. -/
theorem ServerInv.save (inv : ServerInv c events s processed) {i : Nat} {io : SaveIo} {thread : ReceivingThread}
    {handle : FileIoPartitionHandle} (within : i < segmentCount c) (waiting : s.receiving.pc = .receive)
    (received : receivingThreadReceive (segment c i).wire io s.receiving s.handle = .ok (thread, handle)) :
    ∃ result, thread.pc = .push (savedItem thread.rcvPkt result) ∧
      ServerInv c (events ++ [.saved thread.rcvPkt result]) { s with receiving := thread, handle } processed := by
  obtain ⟨same, result, -, pushing⟩ := receivingThreadReceive_segment received
  have flow := inv.flow
  have empty : s.receiving.inHand = [] := by rw [ReceivingThread.inHand, waiting]
  have full : thread.inHand = [savedItem thread.rcvPkt result] := by rw [ReceivingThread.inHand, pushing]
  have none : ∀ q, .saved q false ∉ events := by
    cases inv.outcome with
    | good none => exact none
    | failed _ _ _ stopped =>
      rw [waiting] at stopped
      rcases stopped with stopped | stopped <;> cases stopped
  refine ⟨result, pushing, ?_, fun q r member => ?_, inv.tracks, inv.complete, ?_⟩
  · dsimp only
    rw [savedItems_append, ← flow, empty, full, List.append_nil]
    rfl
  · rcases List.mem_append.mp member with old | new
    · exact inv.drawn q r old
    · cases List.mem_singleton.mp new
      exact ⟨i, within, same⟩
  · cases result with
    | false =>
      have split : events ++ [.saved thread.rcvPkt false] = events ++ .saved thread.rcvPkt false :: [] := rfl
      exact .failed split none rfl (Or.inl pushing)
    | true =>
      refine .good fun q member => ?_
      rcases List.mem_append.mp member with old | new
      · exact none q old
      · cases List.mem_singleton.mp new

theorem ServerInv.push (inv : ServerInv c events s processed) {item : SequencingQueueItem}
    (pushing : s.receiving.pc = .push item) :
    ServerInv c (events ++ [.silent])
      { s with receiving := (receivingThreadPush item s.receiving s.seqQueue).1
               seqQueue := (receivingThreadPush item s.receiving s.seqQueue).2 } processed := by
  have quiet : ServerEvent.silent.Quiet := fun _ _ => ServerEvent.noConfusion
  refine ⟨?_, fun q result member => inv.drawn q result (quiet.saved_mem.mp member), inv.tracks, inv.complete, ?_⟩
  · have returned := receivingThreadPush_inHand item s.receiving s.seqQueue
    have inHand : s.receiving.inHand = [item] := by rw [ReceivingThread.inHand, pushing]
    dsimp only
    rw [quiet.savedItems_eq, ← inv.flow, returned, inHand, receivingThreadPush, sequencingQueuePush,
      List.append_nil, ← List.append_assoc]
  · cases inv.outcome.quiet quiet with
    | good none => exact .good none
    | failed split first last stopped =>
      refine .failed split first last (Or.inr ?_)
      rcases stopped with same | stopped
      · cases pushing.symm.trans same
        rfl
      · cases pushing.symm.trans stopped

/-- The invariant holds as long as `sequencing_thread` has not returned. -/
theorem serverRun_inv {handle : FileIoPartitionHandle} (few : segmentCount c < 2 ^ 32)
    (run : ServerRun c handle events s) :
    s.sequencing.pc ≠ .returned → ∃ processed, ServerInv c events s processed := by
  refine Run.invariant (fun events s => s.sequencing.pc ≠ .returned → ∃ processed, ServerInv c events s processed)
    (fun _ => ⟨[], .start c handle⟩) (fun {events s e s'} _ inv step running => ?_) run
  have quiet : ServerEvent.silent.Quiet := fun _ _ => ServerEvent.noConfusion
  cases step with
  | save arrives waiting received pushing =>
    obtain ⟨i, within, rfl⟩ := arrives
    obtain ⟨processed, inv⟩ := inv running
    obtain ⟨result, pushed, next⟩ := inv.save within waiting received
    cases pushing.symm.trans pushed
    rw [savedItem_flag]
    exact ⟨processed, next⟩
  | ignore arrives waiting received other =>
    obtain ⟨i, within, rfl⟩ := arrives
    obtain ⟨_, result, _, pushed⟩ := receivingThreadReceive_segment received
    exact absurd pushed (other _)
  | receiveError waiting =>
    obtain ⟨processed, inv⟩ := inv running
    refine ⟨processed, ?_, fun q result member => inv.drawn q result (quiet.saved_mem.mp member), inv.tracks,
      inv.complete, ?_⟩
    · rw [quiet.savedItems_eq, ← inv.flow]
      simp only [ReceivingThread.inHand, waiting]
    · cases inv.outcome.quiet quiet with
      | good none => exact .good none
      | failed split first last _ => exact .failed split first last (Or.inr rfl)
  | push pushing pushed =>
    obtain ⟨processed, inv⟩ := inv running
    have next := inv.push pushing
    rw [pushed] at next
    exact ⟨processed, next⟩
  | sequence taken =>
    have effect := sequencingThreadStep_iff.mp taken
    have before : s.sequencing.pc ≠ .returned := by
      intro returned
      rw [sequencingThreadStep, returned] at taken
      cases taken
    obtain ⟨processed, inv⟩ := inv before
    exact inv.sequence few effect running
  | cancel returned => exact absurd returned running

end Step

end UCP

import UCP.ServerRuns

namespace UCP

/-- A packet can arrive whenever the server waits for one, and its save may end
either way. -/
theorem ServerStep.save_segment {arrives : List UInt8 → Prop} {c : List UInt8} {i : Nat} {s : ServerState}
    (arrived : arrives (segment c i).wire) (waiting : s.receiving.pc = .receive) (result : Bool) :
    ∃ q thread handle, q.SameFields (segment c i) ∧ thread.pc = .push (savedItem q result) ∧
      ServerStep arrives s (.saved q result) { s with receiving := thread, handle } := by
  obtain ⟨q, recvBuffer, same, receives⟩ :=
    receivingThreadReceive_data (segment_encodable c i) rfl s.receiving s.handle
      ⟨!result, (segment c i).dataPacket.segLen, false, 0⟩
  obtain ⟨handle, saving⟩ : ∃ handle, fileIoSavePacket
      ⟨!result, (segment c i).dataPacket.segLen, false, 0⟩ s.handle q = .ok (result, handle) := by
    obtain ⟨-, -, -, segLen, -⟩ := same.data_eq rfl
    cases result with
    | false => exact ⟨s.handle, rfl⟩
    | true =>
      obtain ⟨saved, _, handle, saving, _, _, succeeds, _⟩ :=
        fileIoSavePacket_spec ⟨false, (segment c i).dataPacket.segLen, false, 0⟩ s.handle
          (segLen.trans_le (length_piece_le c i))
      rw [succeeds ⟨rfl, segLen.le, rfl⟩] at saving
      exact ⟨handle, saving⟩
  have received := receives result handle saving
  rw [← savedItem_congr same rfl] at received
  refine ⟨q, { recvBuffer, rcvPkt := q, pc := .push (savedItem q result) }, handle, same, rfl, ?_⟩
  have step : ServerStep arrives s _ _ := .save arrived waiting received rfl
  rwa [savedItem_flag] at step

section Schedule

variable {c : List UInt8} {file : FileIoPartitionHandle} {events : List ServerEvent} {s : ServerState}

theorem ServerRun.sequence (run : ServerRun c file events s) {thread : SequencingThread}
    {seqQueue : List SequencingQueueItem} {sent : Option (UInt32 × UInt32)}
    (effect : SequencingEffect s.sequencing s.seqQueue thread seqQueue sent) :
    ServerRun c file (events ++ [sentEvent sent]) { s with sequencing := thread, seqQueue } :=
  .next run (.sequence (sequencingThreadStep_iff.mpr effect))

theorem ServerRun.save (run : ServerRun c file events s) {i : Nat} (within : i < segmentCount c)
    (waiting : s.receiving.pc = .receive) (result : Bool) :
    ∃ q thread handle, q.SameFields (segment c i) ∧ thread.pc = .push (savedItem q result) ∧
      ServerRun c file (events ++ [.saved q result]) { s with receiving := thread, handle } := by
  have arrived : SegmentDatagram c (segment c i).wire := ⟨i, within, rfl⟩
  obtain ⟨q, thread, handle, same, pushing, step⟩ := ServerStep.save_segment arrived waiting result
  exact ⟨q, thread, handle, same, pushing, .next run step⟩

/-- The two steps by which a packet comes into the queue. -/
theorem ServerRun.deliver (run : ServerRun c file events s) {i : Nat} (within : i < segmentCount c)
    (waiting : s.receiving.pc = .receive) (result : Bool) :
    ∃ q s', q.SameFields (segment c i) ∧ ServerRun c file (events ++ [.saved q result, .silent]) s' ∧
      s'.sequencing = s.sequencing ∧ s'.seqQueue = s.seqQueue ++ [savedItem q result] ∧
      s'.receiving.pc = if result then .receive else .returned := by
  obtain ⟨q, thread, handle, same, pushing, saved⟩ := run.save within waiting result
  have pushed := Run.next saved (.push pushing rfl)
  rw [List.append_assoc] at pushed
  refine ⟨q, _, same, pushed, rfl, rfl, ?_⟩
  cases result with
  | false => rfl
  | true => rfl

end Schedule

/-- Steps of `sequencing_thread` alone, with the control packets they send. -/
inductive SequencingRun : ServerState → List (Option (UInt32 × UInt32)) → ServerState → Prop
  | start {s} : SequencingRun s [] s
  | cons {s s' : ServerState} {thread seqQueue sent sents} :
      SequencingEffect s.sequencing s.seqQueue thread seqQueue sent →
      SequencingRun { s with sequencing := thread, seqQueue } sents s' → SequencingRun s (sent :: sents) s'

theorem SequencingRun.serverRun {arrives : List UInt8 → Prop} {s s' : ServerState}
    {sents : List (Option (UInt32 × UInt32))} (run : SequencingRun s sents s') :
    Run (ServerStep arrives) s (sents.map sentEvent) s' := by
  induction run with
  | start => exact .start
  | cons effect _ ih => exact .cons (.sequence (sequencingThreadStep_iff.mpr effect)) ih

def ctrlPacketOf (control : UInt32 × UInt32) : UcpCtrlPacket := ⟨control.1, control.2⟩

/-- The control packets among what the steps of a run have sent. -/
def sentPackets (sents : List (Option (UInt32 × UInt32))) : List UcpCtrlPacket :=
  sents.reduceOption.map ctrlPacketOf

@[simp] theorem sentPackets_nil : sentPackets [] = [] := rfl

@[simp] theorem sentPackets_none (sents : List (Option (UInt32 × UInt32))) :
    sentPackets (none :: sents) = sentPackets sents := rfl

@[simp] theorem sentPackets_some (control : UInt32 × UInt32) (sents : List (Option (UInt32 × UInt32))) :
    sentPackets (some control :: sents) = ⟨control.1, control.2⟩ :: sentPackets sents := rfl

theorem quiet_of_mem_sentEvents {sents : List (Option (UInt32 × UInt32))} {e : ServerEvent}
    (member : e ∈ sents.map sentEvent) : e.Quiet := by
  obtain ⟨sent, -, rfl⟩ := List.mem_map.mp member
  exact sentEvent_quiet sent

/-- What one turn of the loop of `sequencing_thread` does. -/
inductive TurnEffect (t : SequencingThread) : List SequencingQueueItem →
    SequencingThread → List SequencingQueueItem → List UcpCtrlPacket → Prop
  | finished {queue} : (sequencerComplete t.sequencer).1 = true → TurnEffect t queue
      { t with sequencer := (sequencerComplete t.sequencer).2, pc := .returned } queue
      [⟨(sequencerComplete t.sequencer).2.expectedLastSeqNo, ucpFlagFin⟩]
  | idle : (sequencerComplete t.sequencer).1 = false → TurnEffect t []
      { t with sequencer := (sequencerComplete t.sequencer).2, pc := .test } [] []
  | took {item rest sequencer} : (sequencerComplete t.sequencer).1 = false →
      (sequencerAdd (sequencerComplete t.sequencer).2 item.seqNo (item.flag == ucpFlagDataEnd)).2 = sequencer →
      TurnEffect t (item :: rest)
        { sequencer, seqNo := item.seqNo, flag := item.flag, isLast := item.isLast, pc := .test } rest
        (⟨item.seqNo, item.flag⟩ :: (sequencerIterateMissingSegments sequencer).map (⟨·, ucpFlagNack⟩))

theorem sequencingTurn_iff {t thread : SequencingThread} {queue seqQueue : List SequencingQueueItem}
    {packets : List UcpCtrlPacket} :
    sequencingTurn t queue = (thread, seqQueue, packets) ↔ TurnEffect t queue thread seqQueue packets := by
  constructor
  · intro turn
    unfold sequencingTurn at turn
    dsimp only at turn
    split at turn
    · rename_i complete
      cases turn
      exact .finished complete
    · rename_i incomplete
      rw [Bool.not_eq_true] at incomplete
      cases queue with
      | nil =>
        cases turn
        exact .idle incomplete
      | cons item rest =>
        cases turn
        exact .took incomplete rfl
  · intro effect
    cases effect with
    | finished complete => exact if_pos complete
    | idle incomplete => exact if_neg (Bool.eq_false_iff.mp incomplete)
    | took incomplete added =>
      subst added
      exact if_neg (Bool.eq_false_iff.mp incomplete)

section Turn

variable {s : ServerState}

theorem SequencingRun.reportMissing {todo : List UInt32} (atMissing : s.sequencing.pc = .missing todo) :
    SequencingRun s (todo.map (fun seqNo => some (seqNo, ucpFlagNack)) ++ [none])
      { s with sequencing := { s.sequencing with pc := .test } } := by
  induction todo generalizing s with
  | nil => exact .cons (.rested atMissing) .start
  | cons seqNo todo ih => exact .cons (.reported atMissing) (ih rfl)

theorem sentPackets_missing (todo : List UInt32) :
    sentPackets (todo.map (fun seqNo => some (seqNo, ucpFlagNack)) ++ [none]) = todo.map (⟨·, ucpFlagNack⟩) := by
  induction todo with
  | nil => rfl
  | cons seqNo todo ih => rw [List.map_cons, List.cons_append, sentPackets_some, ih, List.map_cons]

/-- A whole turn is what the single steps of `sequencing_thread` come to when
nothing happens between them. -/
theorem SequencingRun.turn (atTest : s.sequencing.pc = .test) {thread : SequencingThread}
    {seqQueue : List SequencingQueueItem} {packets : List UcpCtrlPacket}
    (effect : TurnEffect s.sequencing s.seqQueue thread seqQueue packets) :
    ∃ sents, SequencingRun s sents { s with sequencing := thread, seqQueue } ∧ sentPackets sents = packets := by
  obtain ⟨receiving, handle, queue, before⟩ := s
  have tested : SequencingEffect before queue _ _ _ := .tested atTest
  cases effect with
  | finished complete =>
    rw [if_pos complete] at tested
    exact ⟨_, .cons tested (.cons (.finished rfl) .start), rfl⟩
  | idle incomplete =>
    rw [if_neg (Bool.eq_false_iff.mp incomplete)] at tested
    exact ⟨[none, none], .cons tested (.cons (.idle rfl rfl) .start), rfl⟩
  | took incomplete added =>
    subst added
    rw [if_neg (Bool.eq_false_iff.mp incomplete)] at tested
    refine ⟨_, .cons tested (.cons (.popped rfl rfl) (.cons (.replied rfl) (.cons (.added rfl) (.reportMissing rfl)))),
      ?_⟩
    rw [sentPackets_none, sentPackets_none, sentPackets_some, sentPackets_none, sentPackets_missing]

end Turn

/-- One whole turn of the loop of `sequencing_thread` with an item to process. -/
theorem ServerRun.process {c : List UInt8} {file : FileIoPartitionHandle} {events : List ServerEvent}
    {s : ServerState}
    (run : ServerRun c file events s) {item : SequencingQueueItem} {rest : List SequencingQueueItem}
    (atTest : s.sequencing.pc = .test) (queue : s.seqQueue = item :: rest)
    (incomplete : (sequencerComplete s.sequencing.sequencer).1 = false) :
    ∃ more s', (∀ e ∈ more, e.Quiet) ∧ ServerRun c file (events ++ more) s' ∧
      s'.receiving = s.receiving ∧ s'.seqQueue = rest ∧ s'.sequencing.pc = .test ∧
      s'.sequencing.sequencer =
        (sequencerAdd (sequencerComplete s.sequencing.sequencer).2 item.seqNo (item.flag == ucpFlagDataEnd)).2 := by
  have effect : TurnEffect s.sequencing s.seqQueue _ _ _ := queue ▸ TurnEffect.took incomplete rfl
  obtain ⟨sents, turn, -⟩ := SequencingRun.turn atTest effect
  exact ⟨_, _, fun e member => quiet_of_mem_sentEvents member, Run.append run turn.serverRun, rfl, rfl, rfl, rfl⟩

end UCP

import UCP.AckSaved
import UCP.SceneProgress

namespace UCP

/-- `receiving_thread` has not returned, and is not about to. -/
def ReceivingThread.Alive (thread : ReceivingThread) : Prop :=
  thread.pc ≠ .returned ∧ ∀ item, thread.pc = .push item → item.flag ≠ ucpFlagNack

/-- An item that reports a packet of the partition as saved. -/
def ReportsSaved (c : List UInt8) (item : SequencingQueueItem) : Prop :=
  ∃ i, i < segmentCount c ∧ item = savedItem (segment c i) true

/-- A server that no save has failed for: it waits for a number that no packet has. -/
structure ServerUnfailed (c : List UInt8) (s : ServerState) : Prop where
  items : ∀ item ∈ s.receiving.inHand ++ s.seqQueue ++ s.sequencing.inHand, ReportsSaved c item
  sequencer : s.sequencing.sequencer.Waits
  going : s.sequencing.pc ≠ .fin ∧ s.sequencing.pc ≠ .returned

/-- The system while no save has failed, `k` packets of the partition having been
read. Each of them has been sent, the one in hand apart. -/
structure SystemUnfailed (c : List UInt8) (k : Nat) (s : SystemState) : Prop where
  reading : ReadHandle c k s.source
  drawn : ∀ p ∈ s.windows.held ++ s.client.inHand, ∃ i, i < k ∧ segment c i = p
  posted : ∀ i, i < k → (segment c i).wire ∈ s.network ∨ s.client = .send (segment c i)
  network : ∀ datagram ∈ s.network, SegmentDatagram c datagram
  going : s.windows.done = false ∧ s.client ≠ .left false
  server : ServerUnfailed c s.server
  unread : 6 ∣ s.stream.length → ∃ packets : List UcpCtrlPacket, s.stream = packets.flatMap UcpCtrlPacket.wire ∧
    ∀ control ∈ packets, control.IsReply

theorem ReceivingThread.Alive.waiting {thread : ReceivingThread} (waiting : thread.pc = .receive) :
    thread.Alive := by
  rw [Alive, waiting]
  exact ⟨ReceivingPc.noConfusion, fun _ => ReceivingPc.noConfusion⟩

section Server

variable {c : List UInt8} {arrives : List UInt8 → Prop} {s s' : ServerState} {e : ServerEvent}

/-- A thread that is alive after a step was alive before it. -/
theorem ServerStep.alive_before (step : ServerStep arrives s e s') (alive : s'.receiving.Alive) :
    s.receiving.Alive := by
  cases step with
  | save _ waiting => exact .waiting waiting
  | ignore _ waiting => exact .waiting waiting
  | receiveError waiting => exact .waiting waiting
  | @push item thread seqQueue pushing pushed =>
    cases pushed
    rw [ReceivingThread.Alive, pushing]
    refine ⟨nofun, fun item' same isNack => alive.1 ?_⟩
    cases same
    exact if_pos isNack
  | sequence => exact alive
  | cancel => exact absurd rfl alive.1

theorem ReportsSaved.small (few : segmentCount c < 2 ^ 32) {item : SequencingQueueItem}
    (reports : ReportsSaved c item) :
    item.seqNo < uint32Max ∧ item.flag = ucpFlagAck := by
  obtain ⟨i, within, rfl⟩ := reports
  exact ⟨segment_seqNo_small few within, rfl⟩

theorem ServerUnfailed.sequence (unfailed : ServerUnfailed c s) (few : segmentCount c < 2 ^ 32)
    {thread : SequencingThread} {seqQueue : List SequencingQueueItem} {sent : Option (UInt32 × UInt32)}
    (effect : SequencingEffect s.sequencing s.seqQueue thread seqQueue sent) :
    ServerUnfailed c { s with sequencing := thread, seqQueue } ∧
      ∀ seqNo flag, sent = some (seqNo, flag) → UcpCtrlPacket.IsReply ⟨seqNo, flag⟩ := by
  obtain ⟨items, sequencer, going⟩ := unfailed
  have silent : ∀ seqNo flag, none = some (seqNo, flag) → UcpCtrlPacket.IsReply ⟨seqNo, flag⟩ :=
    fun _ _ sends => by cases sends
  have kept {thread : SequencingThread} (nothing : thread.inHand = []) :
      ∀ item ∈ s.receiving.inHand ++ s.seqQueue ++ thread.inHand, ReportsSaved c item := by
    intro item member
    rw [nothing, List.append_nil] at member
    exact items item (List.mem_append_left _ member)
  have inHand (holds : s.sequencing.inHand = [⟨s.sequencing.seqNo, s.sequencing.flag, s.sequencing.isLast⟩]) :
      s.sequencing.seqNo < uint32Max ∧ s.sequencing.flag = ucpFlagAck :=
    (items _ (List.mem_append_right _ (holds ▸ List.mem_singleton_self _))).small few
  cases effect with
  | tested atTest =>
    refine ⟨⟨kept (SequencingThread.inHand_tested ..), sequencer.complete, ?_⟩, silent⟩
    rw [sequencer.incomplete]
    exact ⟨SequencingPc.noConfusion, SequencingPc.noConfusion⟩
  | @popped item rest atPop list =>
    refine ⟨⟨fun item' member => items item' ?_, sequencer, ⟨SequencingPc.noConfusion, SequencingPc.noConfusion⟩⟩, silent⟩
    rw [list]
    simp only [SequencingThread.inHand, List.mem_append, List.mem_cons, List.not_mem_nil, or_false] at member ⊢
    rcases member with (receiving | queued) | rfl
    · exact .inl (.inl receiving)
    · exact .inl (.inr (.inr queued))
    · exact .inl (.inr (.inl rfl))
  | idle => exact ⟨⟨kept rfl, sequencer, ⟨SequencingPc.noConfusion, SequencingPc.noConfusion⟩⟩, silent⟩
  | replied atReply =>
    have holds : s.sequencing.inHand = [⟨s.sequencing.seqNo, s.sequencing.flag, s.sequencing.isLast⟩] := by
      rw [SequencingThread.inHand, atReply]
    rw [holds] at items
    refine ⟨⟨items, sequencer, ⟨SequencingPc.noConfusion, SequencingPc.noConfusion⟩⟩, fun seqNo flag sends => ?_⟩
    cases sends
    exact .inl (inHand holds).2
  | added atAdd =>
    have holds : s.sequencing.inHand = [⟨s.sequencing.seqNo, s.sequencing.flag, s.sequencing.isLast⟩] := by
      rw [SequencingThread.inHand, atAdd]
    obtain ⟨small, isAck⟩ := inHand holds
    have notLast : (s.sequencing.flag == ucpFlagDataEnd) = false := by
      rw [isAck]
      rfl
    rw [notLast]
    exact ⟨⟨kept rfl, sequencer.add small, ⟨SequencingPc.noConfusion, SequencingPc.noConfusion⟩⟩, silent⟩
  | reported =>
    refine ⟨⟨kept rfl, sequencer, ⟨SequencingPc.noConfusion, SequencingPc.noConfusion⟩⟩, fun seqNo flag sends => ?_⟩
    cases sends
    exact .inr rfl
  | rested => exact ⟨⟨kept rfl, sequencer, ⟨SequencingPc.noConfusion, SequencingPc.noConfusion⟩⟩, silent⟩
  | finished atFin => exact absurd atFin going.1

/-- Every step keeps it as long as the receiving thread is alive, and replies to
saved packets only. -/
theorem ServerUnfailed.step (unfailed : ServerUnfailed c s) (few : segmentCount c < 2 ^ 32)
    (drawn : ∀ datagram, arrives datagram → SegmentDatagram c datagram) (step : ServerStep arrives s e s')
    (alive : s'.receiving.Alive) :
    ServerUnfailed c s' ∧ ∀ seqNo flag, e = .sent seqNo flag → UcpCtrlPacket.IsReply ⟨seqNo, flag⟩ := by
  have whole := unfailed
  obtain ⟨items, sequencer, going⟩ := unfailed
  cases step with
  | @save datagram io thread handle item arrived waiting received pushing =>
    obtain ⟨i, within, rfl⟩ := drawn _ arrived
    obtain ⟨same, result, _, pushed⟩ := receivingThreadReceive_segment received
    have succeeds : result = true := by
      cases result with
      | true => rfl
      | false => exact absurd rfl (alive.2 _ pushed)
    subst succeeds
    refine ⟨⟨fun item' member => ?_, sequencer, going⟩, fun _ _ sends => by cases sends⟩
    simp only [ReceivingThread.inHand, pushed, List.mem_append, List.mem_singleton] at member
    rcases member with (rfl | queued) | inHand
    · exact ⟨i, within, savedItem_congr same rfl true⟩
    · exact items item' (by simp [queued])
    · exact items item' (by simp [inHand])
  | @ignore datagram io thread handle arrived waiting received other =>
    obtain ⟨i, within, rfl⟩ := drawn _ arrived
    obtain ⟨_, _, _, pushed⟩ := receivingThreadReceive_segment received
    exact absurd pushed (other _)
  | receiveError => exact absurd rfl alive.1
  | @push item thread seqQueue pushing pushed =>
    have nothing := receivingThreadPush_inHand item s.receiving s.seqQueue
    have queue : s.seqQueue ++ [item] = seqQueue := congrArg Prod.snd pushed
    rw [pushed] at nothing
    refine ⟨⟨fun item' member => items item' ?_, sequencer, going⟩, fun _ _ sends => by cases sends⟩
    rw [ReceivingThread.inHand, pushing]
    simp only [nothing, ← queue, List.mem_append, List.mem_singleton, List.not_mem_nil, false_or] at member ⊢
    rcases member with (queued | pushed) | inHand
    · exact .inl (.inr queued)
    · exact .inl (.inl pushed)
    · exact .inr inHand
  | @sequence thread seqQueue sent taken =>
    obtain ⟨next, replies⟩ := whole.sequence few (sequencingThreadStep_iff.mp taken)
    refine ⟨next, fun seqNo flag sends => ?_⟩
    cases sent with
    | none => cases sends
    | some control =>
      cases sends
      exact replies _ _ rfl
  | cancel returned => exact absurd returned going.2

end Server

theorem onCtrlPacket_done {control : UcpCtrlPacket} (reply : control.IsReply) (windows : ClientWindows) :
    (onCtrlPacket windows control).done = windows.done := by
  unfold onCtrlPacket
  split
  · split <;> rfl
  · rename_i notAck
    rw [if_pos (reply.resolve_left notAck)]
    split <;> rfl

theorem UcpCtrlPacket.IsReply.flagSmall {control : UcpCtrlPacket} (reply : control.IsReply) :
    control.flag < 256 := by
  rcases reply with same | same <;> rw [same] <;> decide

section System

variable {c : List UInt8} {k : Nat} {s s' : SystemState}

theorem SystemUnfailed.all_posted (unfailed : SystemUnfailed c k s) (sent : ∀ p, s.client ≠ .send p) {i : Nat}
    (before : i < k) : (segment c i).wire ∈ s.network :=
  (unfailed.posted i before).resolve_right (sent _)

theorem SystemUnfailed.get (unfailed : SystemUnfailed c k s) (atGet : s.client = .get) {next : Option UcpPacket}
    {windows : ClientWindows} {source : FileIoPartitionHandle}
    (run : getNextPacket s.windows s.source = .ok (next, windows, source)) :
    ∃ k', SystemUnfailed c k' { s with client := next.elim (.left true) .send, windows, source } := by
  obtain ⟨_, _, _, k', run', reading, origin⟩ := getNextPacket_spec unfailed.reading s.windows
  cases run.symm.trans run'
  have drawn := unfailed.drawn
  rw [show s.client.inHand = [] by rw [atGet]; rfl, List.append_nil] at drawn
  have posted {i : Nat} : i < k → (segment c i).wire ∈ s.network :=
    unfailed.all_posted (by rw [atGet]; nofun)
  cases origin with
  | @resend p windows split done =>
    refine ⟨k, reading, fun q member => drawn q (split.mem_iff.mpr ?_), fun i before => .inl (posted before),
      unfailed.network, ⟨done.trans unfailed.going.1, nofun⟩, unfailed.server, unfailed.unread⟩
    rcases List.mem_append.mp member with held | inHand
    · exact List.mem_cons_of_mem _ held
    · rw [List.mem_singleton.mp inHand]
      exact List.mem_cons_self ..
  | fresh within =>
    refine ⟨k + 1, reading, fun q member => ?_, fun i before => ?_, unfailed.network, ⟨unfailed.going.1, nofun⟩,
      unfailed.server, unfailed.unread⟩
    · rcases List.mem_append.mp member with held | inHand
      · obtain ⟨i, before, same⟩ := drawn q held
        exact ⟨i, before.trans (Nat.lt_succ_self k), same⟩
      · exact ⟨k, Nat.lt_succ_self k, (List.mem_singleton.mp inHand).symm⟩
    · rcases Nat.lt_succ_iff_lt_or_eq.mp before with earlier | rfl
      · exact .inl (posted earlier)
      · exact .inr rfl
  | exhausted =>
    refine ⟨k, reading, fun q member => drawn q ?_, fun i before => .inl (posted before), unfailed.network,
      ⟨unfailed.going.1, nofun⟩, unfailed.server, unfailed.unread⟩
    rwa [show ClientPc.inHand _ = [] from rfl, List.append_nil] at member

theorem SystemUnfailed.read (unfailed : SystemUnfailed c k s) (atTick : s.client = .tick)
    {incoming rest : List UInt8}
    {windows : ClientWindows} {rspPkt : UcpPacket} (unread : s.stream = incoming ++ rest)
    (aligned : 6 ∣ s.stream.length)
    (whole : 6 ≤ incoming.length) (fits : incoming.length ≤ tcpSegmentSize)
    (run : clientReceive s.windows incoming rspPkt = .ok windows) :
    SystemUnfailed c k { s with client := afterTick windows, windows, stream := rest } := by
  obtain ⟨packets, wires, replies⟩ := unfailed.unread aligned
  obtain ⟨control, member, first, left⟩ := wires_read (wires.symm.trans unread) whole
  have reply := replies control member
  have handled := run
  rw [first] at fits handled
  rw [clientReceive_ctrl reply.flagSmall _ fits] at handled
  cases handled
  have done := (onCtrlPacket_done reply s.windows).trans unfailed.going.1
  have client : afterTick (onCtrlPacket s.windows control) = .get := if_neg (by rw [done]; decide)
  rw [client]
  refine ⟨unfailed.reading, fun q member => unfailed.drawn q ?_, fun i before => .inl ?_, unfailed.network,
    ⟨done, nofun⟩, unfailed.server, fun alignedRest => ?_⟩
  · rw [show ClientPc.inHand _ = [] from rfl, List.append_nil] at member
    exact List.mem_append_left _ (clientReceive_held run q member)
  · exact unfailed.all_posted (by rw [atTick]; nofun) before
  · obtain ⟨later, wires, sub⟩ := left alignedRest
    exact ⟨later, wires, fun p inLater => replies p (sub p inLater)⟩

theorem SystemUnfailed.serverStep (unfailed : SystemUnfailed c k s) (few : segmentCount c < 2 ^ 32)
    {e : ServerEvent}
    {server : ServerState} (step : ServerStep (· ∈ s.network) s.server e server) (alive : server.receiving.Alive) :
    SystemUnfailed c k { s with server } ∧
      ∀ seqNo flag, e = .sent seqNo flag → UcpCtrlPacket.IsReply ⟨seqNo, flag⟩ := by
  obtain ⟨next, replies⟩ := unfailed.server.step few unfailed.network step alive
  exact ⟨⟨unfailed.reading, unfailed.drawn, unfailed.posted, unfailed.network, unfailed.going, next, unfailed.unread⟩,
    replies⟩

/-- Every step keeps it as long as the receiving thread is alive. -/
theorem SystemUnfailed.step (unfailed : SystemUnfailed c k s) (few : segmentCount c < 2 ^ 32)
    (step : SystemStep s s')
    (alive : s'.server.receiving.Alive) : ∃ k', SystemUnfailed c k' s' := by
  have drawn := unfailed.drawn
  cases step with
  | get atGet run => exact unfailed.get atGet run
  | @send packet datagram buf atSend run =>
    rw [atSend] at drawn
    obtain ⟨i, before, rfl⟩ := drawn packet (List.mem_append_right _ (List.mem_singleton_self _))
    rw [sendDatagram_eq (segment_encodable c i)] at run
    cases run
    refine ⟨k, unfailed.reading, drawn, fun j earlier => .inl ?_,
      segmentDatagram_cons unfailed.network (before.trans_le unfailed.reading.reached), ⟨unfailed.going.1, nofun⟩,
      unfailed.server, unfailed.unread⟩
    rcases unfailed.posted j earlier with old | inHand
    · exact List.mem_cons_of_mem _ old
    · rw [atSend, ClientPc.send.injEq] at inHand
      exact inHand ▸ List.mem_cons_self ..
  | @append packet atAppend =>
    rw [atAppend] at drawn
    refine ⟨k, unfailed.reading, fun q member => drawn q ?_, fun i before => .inl ?_, unfailed.network,
      ⟨unfailed.going.1, nofun⟩, unfailed.server, unfailed.unread⟩
    · rw [show ClientPc.inHand _ = [] from rfl, List.append_nil] at member
      rcases List.mem_cons.mp ((appendInFlight_held s.windows packet).mem_iff.mp member) with rfl | old
      · exact List.mem_append_right _ (List.mem_singleton_self _)
      · exact List.mem_append_left _ old
    · exact unfailed.all_posted (by rw [atAppend]; nofun) before
  | tickIdle atTick =>
    have client : afterTick s.windows = .get := if_neg (by rw [unfailed.going.1]; decide)
    rw [atTick] at drawn
    rw [client]
    exact ⟨k, unfailed.reading, drawn, fun i before => .inl (unfailed.all_posted (by rw [atTick]; nofun) before),
      unfailed.network, ⟨unfailed.going.1, nofun⟩, unfailed.server, unfailed.unread⟩
  | tickRead rspPkt atTick unread aligned whole fits run =>
    exact ⟨k, unfailed.read atTick unread aligned whole fits run⟩
  | @serverSent seqNo flag server bytes buf data step run =>
    obtain ⟨next, replies⟩ := unfailed.serverStep few step alive
    rw [sendCtrlPacket_eq] at run
    cases run
    refine ⟨k, next.reading, next.drawn, next.posted, next.network, next.going, next.server, fun aligned => ?_⟩
    have alignedOld : 6 ∣ s.stream.length := by
      rw [List.length_append, UcpCtrlPacket.wire_length] at aligned
      exact (Nat.dvd_add_left (Nat.dvd_refl 6)).mp aligned
    obtain ⟨packets, wires, old⟩ := unfailed.unread alignedOld
    refine ⟨packets ++ [⟨seqNo, flag⟩], by rw [List.flatMap_append, ← wires]; simp, fun control member => ?_⟩
    rcases List.mem_append.mp member with earlier | last
    · exact old control earlier
    · rw [List.mem_singleton.mp last]
      exact replies _ _ rfl
  | server step _ => exact ⟨k, (unfailed.serverStep few step alive).1⟩

/-- A system whose receiving thread is alive was one before each step. -/
theorem SystemStep.alive_before (step : SystemStep s s') (alive : s'.server.receiving.Alive) :
    s.server.receiving.Alive := by
  cases step with
  | get => exact alive
  | send => exact alive
  | append => exact alive
  | tickIdle => exact alive
  | tickRead => exact alive
  | serverSent _ _ step => exact step.alive_before alive
  | server step => exact step.alive_before alive

theorem SystemUnfailed.steps (unfailed : SystemUnfailed c k s) (few : segmentCount c < 2 ^ 32)
    (steps : Relation.ReflTransGen SystemStep s s') (alive : s'.server.receiving.Alive) :
    ∃ k', SystemUnfailed c k' s' := by
  induction steps with
  | refl => exact ⟨k, unfailed⟩
  | tail _ step ih =>
    obtain ⟨k', before⟩ := ih (step.alive_before alive)
    exact before.step few step alive

theorem SystemUnfailed.start (c : List UInt8) (file : FileIoPartitionHandle) :
    SystemUnfailed c 0 (systemStart c file) where
  reading := openPartition_readHandle c
  drawn _ member := absurd member List.not_mem_nil
  posted _ before := absurd before (Nat.not_lt_zero _)
  network _ member := absurd member List.not_mem_nil
  going := ⟨rfl, nofun⟩
  server := ⟨fun _ member => absurd member List.not_mem_nil, .start, nofun, nofun⟩
  unread _ := ⟨[], rfl, fun _ member => absurd member List.not_mem_nil⟩

end System

end UCP

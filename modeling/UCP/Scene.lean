import UCP.SystemTurns

namespace UCP

/-- The system in terms of packet numbers: how many packets have been read, the
two windows, the item that `receiving_thread` has still to push, the queue, the
sequencer and the control packets that the client has not read. -/
structure Scene where
  read : Nat
  atTick : Bool
  pending : List Nat
  inFlight : List Nat
  pushing : Option Nat
  queue : List Nat
  sequencer : Sequencer
  unread : List UcpCtrlPacket

def sceneStart : Scene where
  read := 0
  atTick := false
  pending := []
  inFlight := []
  pushing := none
  queue := []
  sequencer := sequencerInit
  unread := []

/-- The steps for a partition of `n` packets as long as the client goes on. Any
packet that has been sent can be received. -/
inductive SceneStep (n : Nat) (a : Scene) : Actor → Scene → Prop
  | sendPending {i pending} : a.atTick = false → a.pending = i :: pending →
      SceneStep n a .client { a with atTick := true, pending, inFlight := a.inFlight ++ [i] }
  | sendNext : a.atTick = false → a.pending = [] → a.read < n →
      SceneStep n a .client { a with atTick := true, read := a.read + 1, inFlight := a.inFlight ++ [a.read] }
  | sendInFlight {i inFlight} : a.atTick = false → a.pending = [] → n ≤ a.read → a.inFlight = i :: inFlight →
      SceneStep n a .client { a with atTick := true, inFlight := inFlight ++ [i] }
  | idle : a.atTick = true → SceneStep n a .client { a with atTick := false }
  | readAck {seqNo unread} : a.atTick = true → a.unread = ⟨seqNo, ucpFlagAck⟩ :: unread →
      SceneStep n a .client { a with atTick := false, inFlight := a.inFlight.eraseP (hasNumber seqNo), unread }
  | readNack {seqNo unread} : a.atTick = true → a.unread = ⟨seqNo, ucpFlagNack⟩ :: unread →
      SceneStep n a .client
        { a with atTick := false, pending := a.pending ++ (a.inFlight.find? (hasNumber seqNo)).toList,
                 inFlight := a.inFlight.eraseP (hasNumber seqNo), unread }
  | save {i} : i < a.read → a.pushing = none → SceneStep n a .receiving { a with pushing := some i }
  | push {i} : a.pushing = some i → SceneStep n a .receiving { a with pushing := none, queue := a.queue ++ [i] }
  | turn {i queue sequencer} : (sequencerComplete a.sequencer).1 = false → a.queue = i :: queue →
      (sequencerAdd (sequencerComplete a.sequencer).2 (UInt32.ofNat i) false).2 = sequencer →
      SceneStep n a .sequencing
        { a with queue, sequencer,
                 unread := a.unread ++ ⟨UInt32.ofNat i, ucpFlagAck⟩ ::
                   (sequencerIterateMissingSegments sequencer).map (⟨·, ucpFlagNack⟩) }

/-- A state that a scene is about. -/
structure Scene.Stands (c : List UInt8) (a : Scene) (s : SystemState) : Prop where
  reading : ReadHandle c a.read s.source
  client : s.client = if a.atTick then .tick else .get
  windows : s.windows = ⟨a.pending.map (segment c), a.inFlight.map (segment c), false⟩
  network : ∀ i, i < a.read → (segment c i).wire ∈ s.network
  receiving : s.server.receiving.pc = a.pushing.elim .receive fun i => .push (savedItem (segment c i) true)
  queue : s.server.seqQueue = a.queue.map fun i => savedItem (segment c i) true
  atTest : s.server.sequencing.pc = .test
  sequencer : s.server.sequencing.sequencer = a.sequencer
  stream : s.stream = a.unread.flatMap UcpCtrlPacket.wire

theorem Scene.Stands.start (c : List UInt8) (file : FileIoPartitionHandle) :
    sceneStart.Stands c (systemStart c file) where
  reading := openPartition_readHandle c
  client := rfl
  windows := rfl
  network := fun i before => absurd before (Nat.not_lt_zero i)
  receiving := rfl
  queue := rfl
  atTest := rfl
  sequencer := rfl
  stream := rfl

section Simulation

variable {c : List UInt8} {a : Scene} {s : SystemState}

/-- A control packet at the head of the stream, read on its own. -/
theorem Scene.Stands.read (stands : a.Stands c s) (atTick : a.atTick = true) {control : UcpCtrlPacket}
    {unread : List UcpCtrlPacket} (first : a.unread = control :: unread) (flagSmall : control.flag < 256)
    {pending inFlight : List Nat}
    (next : onCtrlPacket ⟨a.pending.map (segment c), a.inFlight.map (segment c), false⟩ control =
      ⟨pending.map (segment c), inFlight.map (segment c), false⟩) :
    ∃ s', TurnStep s .client s' ∧ Scene.Stands c { a with atTick := false, pending, inFlight, unread } s' := by
  have client : s.client = .tick := by rw [stands.client, if_pos atTick]
  have stream := stands.stream
  rw [first, List.flatMap_cons] at stream
  have run := clientReceive_wire flagSmall s.windows (ucpPacketInit 0)
  rw [stands.windows, next, ← stands.windows] at run
  exact ⟨_, .tickRead _ client stream (UcpCtrlPacket.wire_length control) run, stands.reading, rfl, rfl,
    stands.network, stands.receiving, stands.queue, stands.atTest, stands.sequencer, rfl⟩

theorem Scene.Stands.simulates_tick (stands : a.Stands c s) (atTick : a.atTick = true) {a' : Scene}
    (step : SceneStep (segmentCount c) a .client a') : ∃ s', TurnStep s .client s' ∧ a'.Stands c s' := by
  cases step with
  | sendPending atGet => rw [atTick] at atGet; cases atGet
  | sendNext atGet => rw [atTick] at atGet; cases atGet
  | sendInFlight atGet => rw [atTick] at atGet; cases atGet
  | idle =>
    have client : s.client = .tick := by rw [stands.client, if_pos atTick]
    refine ⟨_, .tickIdle client, stands.reading, ?_, stands.windows, stands.network, stands.receiving, stands.queue,
      stands.atTest, stands.sequencer, stands.stream⟩
    rw [afterTick, stands.windows]
    rfl
  | @readAck seqNo unread _ first =>
    exact stands.read atTick first (show ucpFlagAck < 256 by decide) (onCtrlPacket_ack_segments ..)
  | @readNack seqNo unread _ first =>
    exact stands.read atTick first (show ucpFlagNack < 256 by decide) (onCtrlPacket_nack_segments ..)

/-- A packet that `get_next_packet` hands out is sent and appended. -/
theorem Scene.Stands.sent (stands : a.Stands c s) (atGet : a.atTick = false) {i k : Nat}
    {pending inFlight : List Nat}
    {source : FileIoPartitionHandle} (reading : ReadHandle c k source) (all : ∀ j, j < k → j < a.read ∨ j = i)
    (next : getNextPacket s.windows s.source =
      .ok (some (segment c i), ⟨pending.map (segment c), inFlight.map (segment c), false⟩, source)) :
    ∃ s', TurnStep s .client s' ∧
      Scene.Stands c { a with atTick := true, read := k, pending, inFlight := inFlight ++ [i] } s' := by
  have client : s.client = .get := by rw [stands.client, atGet]; rfl
  have step := TurnStep.send (Buffer.zeros _) client
    (blockThreadSend_of_next next (segment_encodable c i) (Buffer.zeros _))
  refine ⟨_, step, reading, rfl, ?_, fun j before => ?_, stands.receiving, stands.queue, stands.atTest,
    stands.sequencer, stands.stream⟩
  · simp only [appendInFlight, List.map_append, List.map_cons, List.map_nil]
  · rcases all j before with old | rfl
    · exact List.mem_cons_of_mem _ (stands.network j old)
    · exact List.mem_cons_self ..

theorem Scene.Stands.simulates_send (stands : a.Stands c s) (atGet : a.atTick = false) {a' : Scene}
    (step : SceneStep (segmentCount c) a .client a') : ∃ s', TurnStep s .client s' ∧ a'.Stands c s' := by
  have windows := stands.windows
  cases step with
  | @sendPending i pending _ list =>
    refine stands.sent atGet stands.reading (fun j before => Or.inl before) ?_
    rw [windows, list]
    rfl
  | sendNext _ list within =>
    obtain ⟨source, next, reading⟩ := getNextPacket_fresh stands.reading within (a.inFlight.map (segment c)) false
    refine stands.sent atGet reading (fun j before => Nat.lt_succ_iff_lt_or_eq.mp before) ?_
    rw [windows, list]
    exact next
  | @sendInFlight i inFlight _ list finished list' =>
    obtain ⟨source, run, reading⟩ := stands.reading.exhausted finished
    refine stands.sent atGet reading (fun j before => Or.inl before) ?_
    rw [windows, list, list']
    simp only [getNextPacket, List.map_nil, List.map_cons, run]
    rfl
  | idle atTick => rw [atGet] at atTick; cases atTick
  | readAck atTick first => rw [atGet] at atTick; cases atTick
  | readNack atTick first => rw [atGet] at atTick; cases atTick

/-- Every step between scenes is a step of the system. -/
theorem Scene.Stands.simulates (stands : a.Stands c s) {actor : Actor} {a' : Scene}
    (step : SceneStep (segmentCount c) a actor a') : ∃ s', TurnStep s actor s' ∧ a'.Stands c s' := by
  cases actor with
  | client =>
    cases atTick : a.atTick with
    | false => exact stands.simulates_send atTick step
    | true => exact stands.simulates_tick atTick step
  | receiving =>
    have receiving := stands.receiving
    cases step with
    | @save i before free =>
      rw [free] at receiving
      obtain ⟨q, thread, handle, same, pushing, taken⟩ :=
        ServerStep.save_segment (stands.network i before) receiving true
      refine ⟨_, .receive taken rfl fun q => by simp, stands.reading, stands.client, stands.windows, stands.network, ?_,
        stands.queue, stands.atTest, stands.sequencer, stands.stream⟩
      rw [savedItem_congr same rfl] at pushing
      exact pushing
    | @push i hand =>
      rw [hand] at receiving
      refine ⟨_, .receive (.push receiving rfl) rfl fun q => ServerEvent.noConfusion, stands.reading, stands.client,
        stands.windows, stands.network, rfl, ?_, stands.atTest, stands.sequencer, stands.stream⟩
      rw [List.map_append, ← stands.queue]
      rfl
  | sequencing =>
    cases step with
    | @turn i queue sequencer incomplete list added =>
      rw [← stands.sequencer] at incomplete added
      have effect : TurnEffect s.server.sequencing ((i :: queue).map fun i => savedItem (segment c i) true) _ _ _ :=
        .took incomplete added
      rw [← list, ← stands.queue] at effect
      refine ⟨_, .sequence stands.atTest (sequencingTurn_iff.mpr effect) (ctrlStream_iff.mpr rfl), stands.reading,
        stands.client, stands.windows, stands.network, stands.receiving, rfl, rfl, rfl, ?_⟩
      rw [List.flatMap_append, ← stands.stream]
      rfl

/-- A client that has got rid of all its packets leaves its loop. -/
theorem Scene.Stands.leaves (stands : a.Stands c s) (atGet : a.atTick = false) (finished : segmentCount c ≤ a.read)
    (noPending : a.pending = []) (noInFlight : a.inFlight = []) :
    ∃ s', SystemStep s s' ∧ s'.client = .left true ∧ s'.network = s.network ∧ s'.server = s.server := by
  have client : s.client = .get := by rw [stands.client, atGet]; rfl
  obtain ⟨source, next⟩ := getNextPacket_none stands.reading finished false
  have windows : s.windows = ⟨[], [], false⟩ := by
    rw [stands.windows, noPending, noInFlight]
    rfl
  rw [← windows] at next
  exact ⟨_, .get client next, rfl, rfl, rfl⟩

/-- A copy of a packet that cannot be saved is taken for the last one. When there
is nothing below it missing, the server sends FIN and returns. -/
theorem Scene.Stands.ends (stands : a.Stands c s) {i : Nat} (sent : i < a.read) (waiting : a.pushing = none)
    (drained : a.queue = []) (incomplete : (sequencerComplete a.sequencer).1 = false) {sequencer : Sequencer}
    (marked : (sequencerAdd (sequencerComplete a.sequencer).2 (UInt32.ofNat i) true).2 = sequencer)
    (complete : (sequencerComplete sequencer).1 = true) :
    ∃ s', Relation.ReflTransGen SystemStep s s' ∧ s'.server.sequencing.pc = .returned ∧
      s'.server.sequencing.sequencer = (sequencerComplete sequencer).2 := by
  have receiving := stands.receiving
  rw [waiting] at receiving
  obtain ⟨q, thread, handle, same, pushing, saved⟩ := ServerStep.save_segment (stands.network i sent) receiving false
  rw [savedItem_congr same rfl] at pushing
  have received := Relation.ReflTransGen.single (SystemStep.server saved fun _ _ => ServerEvent.noConfusion)
  obtain ⟨s2, pushed, queue, sequencing⟩ : ∃ s2, Relation.ReflTransGen SystemStep s s2 ∧
      s2.server.seqQueue = s.server.seqQueue ++ [savedItem (segment c i) false] ∧
      s2.server.sequencing = s.server.sequencing :=
    ⟨_, received.tail (.server (.push pushing rfl) fun _ _ => ServerEvent.noConfusion), rfl, rfl⟩
  have atTest : s2.server.sequencing.pc = .test := sequencing ▸ stands.atTest
  rw [stands.queue, drained, List.map_nil, List.nil_append] at queue
  rw [← stands.sequencer, ← sequencing] at incomplete marked
  have took : TurnEffect s2.server.sequencing s2.server.seqQueue _ _ _ := queue ▸ TurnEffect.took incomplete marked
  obtain ⟨_, taken, _⟩ := SequencingRun.turn atTest took
  obtain ⟨s3, run, atTest, same⟩ : ∃ s3, Relation.ReflTransGen SystemStep s s3 ∧ s3.server.sequencing.pc = .test ∧
      s3.server.sequencing.sequencer = sequencer := ⟨_, pushed.trans (taken.system rfl), rfl, rfl⟩
  rw [← same] at complete ⊢
  obtain ⟨_, finished, _⟩ := SequencingRun.turn atTest (.finished complete)
  exact ⟨_, run.trans (finished.system rfl), rfl, rfl⟩

/-- Where a run of scenes leads, the system can come. -/
theorem sceneRun_reachable {n : Nat} (count : segmentCount c = n) {actors : List Actor}
    (run : Run (SceneStep n) sceneStart actors a) (file : FileIoPartitionHandle) :
    ∃ s, SystemReachable c file s ∧ 6 ∣ s.stream.length ∧ a.Stands c s := by
  subst count
  obtain ⟨s, turns, stands⟩ := run.simulate (fun stands step => stands.simulates step) (Scene.Stands.start c file)
  obtain ⟨reachable, aligned⟩ := turnRun_reachable turns
  exact ⟨s, reachable, aligned, stands⟩

end Simulation

/-- The packets arrive in the wrong order. The second one is acknowledged and
dropped, and the first one is pending for the NACK that came with that ACK. -/
def secondDropped : Scene := ⟨2, false, [0], [], none, [], ⟨[⟨1, 1⟩], 1, uint32Max⟩, []⟩

theorem scenes_second_dropped : Run (SceneStep 2) sceneStart
    [.client, .client, .client, .receiving, .receiving, .sequencing, .client, .client, .client] secondDropped := by
  refine .cons (.sendNext rfl rfl (by decide)) (.cons (.idle rfl) (.cons (.sendNext rfl rfl (by decide)) ?_))
  refine .cons (.save (show 1 < 2 by decide) rfl) (.cons (.push rfl) (.cons (.turn rfl rfl rfl) ?_))
  exact .cons (.readAck rfl rfl) (.cons (.sendInFlight rfl rfl (by decide) rfl) (.cons (.readNack rfl rfl) .start))

/-- From there the first packet comes through as well. -/
theorem scenes_both_dropped : Run (SceneStep 2) secondDropped
    [.client, .receiving, .receiving, .sequencing, .client]
    ⟨2, false, [], [], none, [], ⟨[⟨0, 1⟩], 1, uint32Max⟩, []⟩ := by
  refine .cons (.sendPending rfl rfl) (.cons (.save (show 0 < 2 by decide) rfl) (.cons (.push rfl) ?_))
  exact .cons (.turn rfl rfl rfl) (.cons (.readAck rfl rfl) .start)

end UCP

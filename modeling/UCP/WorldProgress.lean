import UCP.TransferProgress
import UCP.WorldTransfer

namespace UCP

/-- That no save fails while the receiving thread is alive is a property of the
system by itself. -/
theorem systemProperty_unfailed {c : List UInt8} (few : segmentCount c < 2 ^ 32) :
    SystemProperty c fun s => s.server.receiving.Alive → ∃ k, SystemUnfailed c k s where
  start {file} _ _ := ⟨0, .start c file⟩
  step unfailed step alive := by
    obtain ⟨k, unfailed⟩ := unfailed (step.alive_before alive)
    exact unfailed.step few step alive
  stillTicking := by
    intro s unfailed alive
    obtain ⟨k, unfailed⟩ := unfailed alive
    have client : afterTick s.windows = .get := if_neg (by rw [unfailed.going.1]; decide)
    rw [client] at unfailed
    exact ⟨k, unfailed.reading, unfailed.drawn, fun i before => .inl (unfailed.all_posted nofun before),
      unfailed.network, ⟨unfailed.going.1, nofun⟩, unfailed.server, unfailed.unread⟩
  passedOver := by
    intro s server unfailed _ seqQueue sequencing waiting again _
    have before : s.server.receiving.Alive := .waiting waiting
    obtain ⟨k, unfailed⟩ := unfailed before
    refine ⟨k, unfailed.reading, unfailed.drawn, unfailed.posted, unfailed.network, unfailed.going,
      ⟨fun item member => unfailed.server.items item ?_, ?_, ?_⟩, unfailed.unread⟩
    · rw [seqQueue, sequencing, ReceivingThread.inHand, again] at member
      rwa [ReceivingThread.inHand, waiting]
    · exact sequencing ▸ unfailed.server.sequencer
    · exact sequencing ▸ unfailed.server.going

section Child

variable {ctx : ThreadContext} {windows windows' : ClientWindows} {t t' : ThreadState} {act : ThreadAct}

/-- How the children of a thread change in one step. -/
theorem BlockThreadStep.children_effect (step : BlockThreadStep ctx windows t act windows' t') :
    (t'.children = t.children ∧ (t'.stage = .loop → t.stage = .loop)) ∨
      (∃ server, act = .accept server ∧ t'.children = server :: t.children) ∨
      ∃ server ∈ t.children, act = .close server ∧ t'.children = t.children.erase server := by
  cases step with
  | noSocket => exact .inl ⟨rfl, nofun⟩
  | socket => exact .inl ⟨rfl, nofun⟩
  | noServer => exact .inl ⟨rfl, nofun⟩
  | server => exact .inl ⟨rfl, nofun⟩
  | metadata => exact .inl ⟨rfl, nofun⟩
  | accept server => exact .inr (.inl ⟨server, rfl, rfl⟩)
  | get => exact .inl ⟨rfl, id⟩
  | send => exact .inl ⟨rfl, id⟩
  | append => exact .inl ⟨rfl, id⟩
  | tickAccept server => exact .inr (.inl ⟨server, rfl, rfl⟩)
  | tickRead => exact .inl ⟨rfl, id⟩
  | @tickClose server _ _ member => exact .inr (.inr ⟨server, member, rfl, rfl⟩)
  | tickEnd => exact .inl ⟨rfl, id⟩

theorem DaemonStep.from_exited {disk : Disk} {arrives : UdpDatagram → Prop} {d d' : DaemonState} {act : DaemonAct}
    (step : DaemonStep disk arrives d act d') : d.pc ≠ .exited := by
  cases step with
  | noSocket before => rw [before]; nofun
  | socket before => rw [before]; nofun
  | receiveError before => rw [before]; nofun
  | receive _ _ before => rw [before]; nofun
  | noConnection before => rw [before]; nofun
  | connect before => rw [before]; nofun
  | write _ _ before => rw [before]; nofun
  | serve before => rw [before]; nofun
  | exit before => rw [before]; nofun

end Child

/-- The first thread of a host keeps its connection until the server has exited. -/
def World.ChildOpen (w : World) (cfg : Setting) (host : UInt32) : Prop :=
  (w.threads host firstThread).stage = .loop →
    cfg.dstIp host firstThread ∈ (w.threads host firstThread).children ∨
      (w.daemons (cfg.dstIp host firstThread)).pc = .exited

section ChildOpen

variable {cfg : Setting} {w : World} {host other : UInt32} {idx : Fin numThreads} {windows : ClientWindows}
  {t : ThreadState} {act : ThreadAct} {server : UInt32} {d : DaemonState}

theorem World.ChildOpen.thread (child : w.ChildOpen cfg host) (inv : WorldInv cfg w)
    (step : BlockThreadStep (cfg.context other idx) (w.windows other) (w.threads other idx) act windows t)
    (accepted : ∀ server, act = .accept server → (w.daemons server).client = some (clientAddress other idx))
    (closed : ∀ server, act = .close server → (w.daemons server).pc = .exited) :
    (w.setThread other idx windows t).ChildOpen cfg host := by
  rw [ChildOpen, World.setThread_threads]
  split
  · rename_i here
    obtain ⟨rfl, rfl⟩ := here
    intro going
    rcases step.children_effect with ⟨same, before⟩ | ⟨server, accepts, children⟩ | ⟨server, member, closes, -⟩
    · rw [same]
      exact child (before going)
    · rw [(inv.taken (accepted server accepts)).2, children]
      exact .inl (List.mem_cons_self ..)
    · rw [World.setThread_daemons, (inv.taken (inv.children host firstThread server member)).2]
      exact .inr (closed server closes)
  · exact child

theorem World.ChildOpen.setDaemon (child : w.ChildOpen cfg host)
    (keeps : (w.daemons server).pc = .exited → d.pc = .exited) : (w.setDaemon server d).ChildOpen cfg host := by
  intro going
  refine (child going).imp_right fun exited => ?_
  rw [World.setDaemon_daemons]
  split
  · rename_i here
    exact keeps (here ▸ exited)
  · exact exited

theorem worldRun_childOpen {events : List WorldEvent} (run : WorldRun cfg events w) : w.ChildOpen cfg host := by
  refine Run.invariant (fun _ w => w.ChildOpen cfg host) (fun going => by cases going) ?_ run
  intro events w e w' before child step
  have inv := worldRun_inv before
  cases step with
  | silent step => exact child.thread inv step nofun nofun
  | send step => exact child.thread inv step nofun nofun
  | accept step _ taken =>
    refine child.thread inv step (fun server same => ?_) nofun
    cases same
    exact taken
  | read step _ => exact (child.thread inv step nofun nofun).setDaemon id
  | close step exited _ =>
    refine child.thread inv step nofun fun server same => ?_
    cases same
    exact exited
  | daemon step => exact child.setDaemon fun exited => absurd exited step.from_exited
  | connect step => exact child.setDaemon fun exited => absurd exited step.from_exited

end ChildOpen

/-- The first thread of a host and the server that it sends to are at work for
each other. -/
structure World.Serving (w : World) (cfg : Setting) (host : UInt32) : Prop where
  inLoop : (w.threads host firstThread).stage = .loop
  child : cfg.dstIp host firstThread ∈ (w.threads host firstThread).children
  serves : (w.daemons (cfg.dstIp host firstThread)).pc = .serve
  opened : (w.daemons (cfg.dstIp host firstThread)).file ≠ none

section Lift

variable {cfg : Setting} {w : World} {host : UInt32} {windows : ClientWindows} {t : ThreadState} {d : DaemonState}
  {s' : SystemState}

theorem World.Serving.setThread (serving : w.Serving cfg host) (inLoop : t.stage = .loop)
    (children : t.children = (w.threads host firstThread).children) :
    (w.setThread host firstThread windows t).Serving cfg host := by
  refine ⟨?_, ?_, serving.serves, serving.opened⟩
  · rw [World.setThread_self]
    exact inLoop
  · rw [World.setThread_self, children]
    exact serving.child

theorem World.Serving.sent (serving : w.Serving cfg host) (network : List UdpDatagram) :
    ({ w with network } : World).Serving cfg host := ⟨serving.inLoop, serving.child, serving.serves, serving.opened⟩

theorem World.Serving.setDaemon (serving : w.Serving cfg host) (serves : d.pc = .serve) (opened : d.file ≠ none) :
    (w.setDaemon (cfg.dstIp host firstThread) d).Serving cfg host := by
  refine ⟨serving.inLoop, serving.child, ?_, ?_⟩
  · rw [World.setDaemon_self]
    exact serves
  · rw [World.setDaemon_self]
    exact opened

/-- The data packets of a host may arrive at the server that it sends to. -/
theorem WorldInv.may_arrive (inv : WorldInv cfg w) {bytes : List UInt8} (sent : bytes ∈ (w.view cfg host).network) :
    ∃ datagram, w.ArrivesAt (cfg.dstIp host firstThread) datagram ∧ datagram.bytes = bytes := by
  obtain ⟨datagram, member, same⟩ := List.mem_map.mp sent
  obtain ⟨inNetwork, isData⟩ := List.mem_filter.mp member
  rw [Bool.and_eq_true, decide_eq_true_eq] at isData
  obtain ⟨other, idx, source, destination, -⟩ := inv.network datagram inNetwork
  obtain ⟨rfl, rfl⟩ := clientAddress_inj (source.symm.trans isData.1)
  exact ⟨datagram, ⟨inNetwork, destination⟩, same⟩

/-- A read of the system is a tick of the world with one read. -/
theorem World.Serving.lift_read (serving : w.Serving cfg host) {incoming rest : List UInt8} {rspPkt : UcpPacket}
    (atTick : (w.view cfg host).client = .tick) (unread : (w.view cfg host).stream = incoming ++ rest)
    (whole : 6 ≤ incoming.length) (fits : incoming.length ≤ tcpSegmentSize)
    (run : clientReceive (w.view cfg host).windows incoming rspPkt = .ok windows) :
    ∃ w', TickStep cfg w [.read (w.view cfg host).stream incoming, .other] w' ∧
      w'.view cfg host = { w.view cfg host with client := afterTick windows, windows, stream := rest } ∧
      w'.Serving cfg host := by
  have nonempty : incoming ≠ [] := by
    rintro rfl
    exact absurd whole (by decide)
  refine ⟨_, .read (.tickRead rspPkt serving.inLoop atTick serving.child nonempty fits run) unread, ?_,
    (serving.setThread (t := { w.threads host firstThread with client := afterTick windows }) serving.inLoop
      rfl).setDaemon serving.serves serving.opened⟩
  rw [World.view_setDaemon, World.view_setThread]
  rfl

/-- Every step of the system of the two can be taken in the world. -/
theorem World.Serving.lift (serving : w.Serving cfg host) (inv : WorldInv cfg w)
    (step : SystemStep (w.view cfg host) s') :
    ∃ events w', TickStep cfg w events w' ∧ ReadsWhole events ∧ w'.view cfg host = s' ∧ w'.Serving cfg host := by
  have inLoop := serving.inLoop
  cases step with
  | get atGet run =>
    exact ⟨_, _, .silent (.get inLoop atGet run), readsWhole_other, World.view_setThread ..,
      serving.setThread inLoop rfl⟩
  | @send packet datagram buf atSend run =>
    have sends : BlockThreadStep (cfg.context host firstThread) (w.windows host) _ (.send datagram) _ _ :=
      .send buf inLoop atSend run
    obtain ⟨_, _, data⟩ := sends.in_loop inLoop (inv.drawn host)
    obtain ⟨i, _, rfl⟩ := data datagram rfl
    refine ⟨_, _, .send sends, readsWhole_other, ?_, ?_⟩
    · rw [World.view_send w (segment_typeField _ i), World.view_setThread]
      rfl
    · exact (serving.setThread (t := { w.threads host firstThread with client := .append packet }) inLoop rfl).sent _
  | append atAppend =>
    exact ⟨_, _, .silent (.append inLoop atAppend), readsWhole_other, World.view_setThread ..,
      serving.setThread inLoop rfl⟩
  | tickIdle atTick =>
    exact ⟨_, _, .silent (.tickEnd inLoop atTick), readsWhole_other, World.view_setThread ..,
      serving.setThread inLoop rfl⟩
  | @tickRead incoming rest windows rspPkt atTick unread aligned whole fits run =>
    obtain ⟨w', step, view, serving'⟩ := serving.lift_read atTick unread whole fits run
    refine ⟨_, w', step, fun unread' incoming' member => ?_, view, serving'⟩
    rcases List.mem_cons.mp member with same | later
    · cases same
      exact ⟨aligned, whole⟩
    · cases List.mem_singleton.mp later
  | @serverSent seqNo flag server bytes buf data step run =>
    have step := step.mono fun bytes => inv.may_arrive
    refine ⟨_, _, .daemon (.write buf data serving.serves serving.opened step run), readsWhole_other, ?_,
      serving.setDaemon serving.serves serving.opened⟩
    rw [World.view_setDaemon]
    rfl
  | server step silent =>
    have step := step.mono fun bytes => inv.may_arrive
    refine ⟨_, _, .daemon (.serve serving.serves serving.opened step silent), readsWhole_other, ?_,
      serving.setDaemon serving.serves serving.opened⟩
    rw [World.view_setDaemon]
    rfl

/-- And so can any number of its steps. -/
theorem World.Serving.lift_steps {events : List WorldEvent} (serving : w.Serving cfg host)
    (run : WorldRun cfg events w)
    (steps : Relation.ReflTransGen SystemStep (w.view cfg host) s') :
    ∃ labels w', Run (TickStep cfg) w labels w' ∧ ReadsWhole labels.flatten ∧ w'.view cfg host = s' ∧
      w'.Serving cfg host := by
  induction steps with
  | refl => exact ⟨[], w, .start, fun _ _ member => absurd member List.not_mem_nil, rfl, serving⟩
  | tail _ step ih =>
    obtain ⟨labels, w1, run1, whole1, rfl, serving1⟩ := ih
    obtain ⟨last, w2, taken, whole2, view2, serving2⟩ := serving1.lift (worldRun_inv (run.append (tickRun run1))) step
    refine ⟨labels ++ [last], w2, run1.next taken, ?_, view2, serving2⟩
    rw [List.flatten_append, List.flatten_singleton]
    exact whole1.append whole2

end Lift

section Results

variable {cfg : Setting} {host : UInt32} {events : List WorldEvent} {w : World}

/-- As long as the receiving thread of its server is alive and control packets have
been read whole, a client that has not ended for want of packets can come there. -/
theorem worldRun_completes (sound : cfg.Sound host) (run : WorldRun cfg events w) (whole : ReadsWhole events)
    (inLoop : (w.threads host firstThread).stage = .loop)
    (serves : (w.daemons (cfg.dstIp host firstThread)).pc = .serve)
    (alive : (w.daemons (cfg.dstIp host firstThread)).server.receiving.Alive)
    (aligned : 6 ∣ (w.daemons (cfg.dstIp host firstThread)).stream.length)
    (going : (w.threads host firstThread).client ≠ .left true) :
    ∃ labels w', Run (TickStep cfg) w labels w' ∧ ReadsWhole labels.flatten ∧ w'.Serving cfg host ∧
      (w'.view cfg host).Completed (cfg.partition host firstThread) := by
  have few := segmentCount_lt sound.short
  have partner := (worldRun_inv run).partner host inLoop
  obtain ⟨file, unfailed⟩ := (worldRun_transferInv (systemProperty_unfailed few) sound run whole).taken partner
  obtain ⟨k, unfailed⟩ := unfailed alive
  have child : cfg.dstIp host firstThread ∈ (w.threads host firstThread).children := by
    rcases worldRun_childOpen run inLoop with child | exited
    · exact child
    · rw [serves] at exited
      cases exited
  have serving : w.Serving cfg host := ⟨inLoop, child, serves, by rw [file]; nofun⟩
  obtain ⟨s', steps, completed⟩ := unfailed.completes few alive aligned going
  obtain ⟨labels, w', run', whole', rfl, serving'⟩ := serving.lift_steps run steps
  exact ⟨labels, w', run', whole', serving', completed⟩

/-- The first thread of a host can complete its transfer when it and its server have
just been started. -/
theorem worldRun_transfers (sound : cfg.Sound host) (run : WorldRun cfg events w) (whole : ReadsWhole events)
    (thread : w.threads host firstThread = threadStart (cfg.partition host firstThread))
    (windows : w.windows host = clientWindowsInit)
    (daemon : w.daemons (cfg.dstIp host firstThread) = daemonStart (cfg.handle (cfg.dstIp host firstThread))) :
    ∃ labels w', Run (TickStep cfg) w labels w' ∧ ReadsWhole labels.flatten ∧ w'.Serving cfg host ∧
      (w'.view cfg host).Completed (cfg.partition host firstThread) := by
  obtain ⟨first, w1, run1, whole1, thread1, _, serves, receiving, stream, _⟩ :=
    tickRun_connects cfg host w sound.free thread windows daemon
  have alive : (w1.daemons (cfg.dstIp host firstThread)).server.receiving.Alive :=
    .waiting (congrArg ReceivingThread.pc receiving)
  obtain ⟨more, w', run', whole', serving, completed⟩ := worldRun_completes sound (run.append (tickRun run1))
    (whole.append whole1) (by rw [thread1]) serves alive (by rw [stream]; exact Nat.dvd_zero 6)
    (by rw [thread1]; exact nofun)
  refine ⟨first ++ more, w', run1.append run', ?_, serving, completed⟩
  rw [List.flatten_append]
  exact whole1.append whole'

theorem plainSetting_sound : (plainSetting twoPackets).Sound 0 := by
  refine ⟨?_, by decide, rfl, fun _ => Nat.le_refl _⟩
  change twoPackets.length < 2 ^ 32
  rw [twoPackets, List.length_replicate]
  decide

theorem plainSetting_completes : ∃ labels w,
    Run (TickStep (plainSetting twoPackets)) (worldStart (plainSetting twoPackets)) labels w ∧
    ReadsWhole labels.flatten ∧ w.Serving (plainSetting twoPackets) 0 ∧
    (w.view (plainSetting twoPackets) 0).Completed twoPackets :=
  worldRun_transfers plainSetting_sound .start (fun _ _ member => absurd member List.not_mem_nil) rfl rfl rfl

/-- From the start of all programs to the end of a transfer: when the first thread
of a client has run out of packets, the server that it was given has a file of
the name that it was given, and the file is the partition. -/
theorem transfer_ends_with_partition (sound : cfg.Sound host) (run : WorldRun cfg events w)
    (whole : ReadsWhole events)
    (left : (w.threads host firstThread).client = .left true) :
    (w.daemons (cfg.dstIp host firstThread)).file = some ((cfg.dstFilename host firstThread).take 19) ∧
      (w.daemons (cfg.dstIp host firstThread)).server.handle.fp.content = cfg.partition host firstThread := by
  have inLoop := (worldRun_inv run).in_loop_of_left left
  obtain ⟨file, k, filled, system⟩ := worldRun_systemInv sound run whole inLoop
  exact ⟨file, system.whole_file sound.short left⟩

theorem transfer_ends_with_partition_two_packets : ∃ events w, WorldRun (plainSetting twoPackets) events w ∧
    (w.threads 0 firstThread).client = .left true ∧ (w.daemons 1).file = some [97] ∧
      (w.daemons 1).server.handle.fp.content = twoPackets := by
  obtain ⟨labels, w, run, whole, _, completed⟩ := plainSetting_completes
  obtain ⟨file, content⟩ := transfer_ends_with_partition plainSetting_sound (tickRun run) whole completed.left
  exact ⟨_, w, tickRun run, completed.left, file, content⟩

/-- No state of a transfer is a dead end: as long as the receiving thread of the
server is alive and whole control packets have been read, the run can go on so
that the client ends for want of packets, with the partition in the file. -/
theorem transfer_can_complete {cfg : Setting} {host : UInt32} {events : List WorldEvent} {w : World}
    (sound : cfg.Sound host) (run : WorldRun cfg events w) (whole : ReadsWhole events)
    (inLoop : (w.threads host firstThread).stage = .loop)
    (serves : (w.daemons (cfg.dstIp host firstThread)).pc = .serve)
    (alive : (w.daemons (cfg.dstIp host firstThread)).server.receiving.Alive)
    (aligned : 6 ∣ (w.daemons (cfg.dstIp host firstThread)).stream.length) :
    ∃ more w', WorldRun cfg (events ++ more) w' ∧ ReadsWhole (events ++ more) ∧
      (w'.threads host firstThread).client = .left true ∧
      (w'.daemons (cfg.dstIp host firstThread)).file = some ((cfg.dstFilename host firstThread).take 19) ∧
      (w'.daemons (cfg.dstIp host firstThread)).server.handle.fp.content = cfg.partition host firstThread := by
  obtain ⟨more, w', run', wholeMore, left⟩ : ∃ more w', Run (WorldStep cfg) w more w' ∧ ReadsWhole more ∧
      (w'.threads host firstThread).client = .left true := by
    by_cases left : (w.threads host firstThread).client = .left true
    · exact ⟨[], w, .start, fun _ _ member => absurd member List.not_mem_nil, left⟩
    · obtain ⟨labels, w', run', wholeMore, _, completed⟩ :=
        worldRun_completes sound run whole inLoop serves alive aligned left
      exact ⟨_, w', tickRun run', wholeMore, completed.left⟩
  have reached := run.append run'
  have whole' := whole.append wholeMore
  have inLoop' := (worldRun_inv reached).in_loop_of_left left
  obtain ⟨file', k', filled, inv'⟩ := worldRun_systemInv sound reached whole' inLoop'
  exact ⟨more, w', reached, whole', left, file', inv'.whole_file sound.short left⟩

/-- From the start of all programs a partition of two packets can be transferred. -/
theorem transfer_can_complete_two_packets : ∃ events w, WorldRun (plainSetting twoPackets) events w ∧
    (w.threads 0 firstThread).client = .left true ∧ (w.daemons 1).file = some [97] ∧
      (w.daemons 1).server.handle.fp.content = twoPackets := by
  obtain ⟨labels, w, run, whole, thread, _, serves, receiving, stream, _⟩ :=
    tickRun_connects (plainSetting twoPackets) 0 (worldStart _) (by decide) rfl rfl rfl
  obtain ⟨more, w', run', _, left, file, content⟩ := transfer_can_complete plainSetting_sound (tickRun run) whole
    (by rw [thread]) serves (.waiting (congrArg ReceivingThread.pc receiving)) (by rw [stream]; exact Nat.dvd_zero 6)
  exact ⟨_, w', run', left, file, content⟩

end Results

end UCP

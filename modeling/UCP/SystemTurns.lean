import UCP.ServerSchedule
import UCP.System

namespace UCP

/-- Whose turn it is. -/
inductive Actor
  | client
  | receiving
  | sequencing
  deriving DecidableEq

/-- The system in larger steps: the client takes, sends and appends a packet at
once and reads the control stream one packet at a time, `sequencing_thread` goes
once around its loop, and every save succeeds. -/
inductive TurnStep (s : SystemState) : Actor → SystemState → Prop
  | send {sent windows source} (buf : Buffer udpPacketSize) : s.client = .get →
      blockThreadSend s.windows s.source buf = .ok (sent, windows, source) →
      TurnStep s .client
        { s with client := if sent.isSome then .tick else .left true, windows, source,
                 network := sent.toList ++ s.network }
  | tickIdle : s.client = .tick → TurnStep s .client { s with client := afterTick s.windows }
  | tickRead {incoming rest windows} (rspPkt : UcpPacket) : s.client = .tick → s.stream = incoming ++ rest →
      incoming.length = 6 → clientReceive s.windows incoming rspPkt = .ok windows →
      TurnStep s .client { s with client := afterTick windows, windows, stream := rest }
  | receive {e server} : ServerStep (· ∈ s.network) s.server e server →
      server.sequencing = s.server.sequencing → (∀ q, e ≠ .saved q false) → TurnStep s .receiving { s with server }
  | sequence {thread seqQueue packets bytes} : s.server.sequencing.pc = .test →
      sequencingTurn s.server.sequencing s.server.seqQueue = (thread, seqQueue, packets) → CtrlStream packets bytes →
      TurnStep s .sequencing
        { s with server := { s.server with sequencing := thread, seqQueue }, stream := s.stream ++ bytes }

theorem SequencingEffect.moves {t t' : SequencingThread} {queue queue' : List SequencingQueueItem}
    {sent : Option (UInt32 × UInt32)} (effect : SequencingEffect t queue t' queue' sent) : t' ≠ t := by
  intro same
  have samePc := congrArg SequencingThread.pc same
  cases effect with
  | tested atTest =>
    rw [atTest] at samePc
    dsimp only at samePc
    split at samePc <;> cases samePc
  | popped atPop =>
    rw [atPop] at samePc
    cases samePc
  | idle atPop =>
    rw [atPop] at samePc
    cases samePc
  | replied atReply =>
    rw [atReply] at samePc
    cases samePc
  | added atAdd =>
    rw [atAdd] at samePc
    cases samePc
  | @reported seqNo todo atMissing =>
    rw [atMissing] at samePc
    exact List.cons_ne_self seqNo todo (SequencingPc.missing.inj samePc).symm
  | rested atMissing =>
    rw [atMissing] at samePc
    cases samePc
  | finished atFin =>
    rw [atFin] at samePc
    cases samePc

/-- A step of the server that leaves `sequencing_thread` where it is writes
nothing to the client. -/
theorem ServerStep.not_sent {arrives : List UInt8 → Prop} {s s' : ServerState} {e : ServerEvent}
    (step : ServerStep arrives s e s') (same : s'.sequencing = s.sequencing) :
    ∀ seqNo flag, e ≠ .sent seqNo flag := by
  intro seqNo flag sent
  cases step with
  | save => cases sent
  | ignore => cases sent
  | receiveError => cases sent
  | push => cases sent
  | sequence taken => exact (sequencingThreadStep_iff.mp taken).moves same
  | cancel => cases sent

section Refines

variable {s s' : SystemState}

/-- Steps of `sequencing_thread` are steps of the system that write what they send. -/
theorem SequencingRun.system {server server' : ServerState} {sents : List (Option (UInt32 × UInt32))}
    (run : SequencingRun server sents server') (same : s.server = server) :
    Relation.ReflTransGen SystemStep s
      { s with server := server', stream := s.stream ++ (sentPackets sents).flatMap UcpCtrlPacket.wire } := by
  induction run generalizing s with
  | start =>
    subst same
    rw [sentPackets_nil, List.flatMap_nil, List.append_nil]
  | @cons server server' thread seqQueue sent sents effect _ ih =>
    subst same
    have taken : ServerStep (· ∈ s.network) s.server (sentEvent sent) _ :=
      .sequence (sequencingThreadStep_iff.mpr effect)
    cases sent with
    | none =>
      rw [sentPackets_none]
      exact (ih rfl).head (.server taken fun _ _ => ServerEvent.noConfusion)
    | some control =>
      have rest := ih (s := { s with server := { s.server with sequencing := thread, seqQueue }
                                     stream := s.stream ++ UcpCtrlPacket.wire ⟨control.1, control.2⟩ }) rfl
      rw [List.append_assoc, ← List.flatMap_cons, ← sentPackets_some] at rest
      exact rest.head (.serverSent (Buffer.zeros _) (Buffer.zeros _) taken (sendCtrlPacket_eq ..))

/-- A send at once is made of the three steps of the client. -/
theorem blockThreadSend_system {sent : Option (List UInt8)} {windows : ClientWindows}
    {source : FileIoPartitionHandle}
    {buf : Buffer udpPacketSize} (atGet : s.client = .get)
    (run : blockThreadSend s.windows s.source buf = .ok (sent, windows, source)) :
    Relation.ReflTransGen SystemStep s
      { s with client := if sent.isSome then .tick else .left true, windows, source,
               network := sent.toList ++ s.network } := by
  cases next : getNextPacket s.windows s.source with
  | error fault =>
    rw [blockThreadSend, next] at run
    cases run
  | ok result =>
    obtain ⟨packet, windows', source'⟩ := result
    have got := SystemStep.get atGet next
    rw [blockThreadSend, next] at run
    cases packet with
    | none =>
      cases run
      exact .single got
    | some packet =>
      cases datagram : sendDatagram packet buf with
      | error fault =>
        simp only [bind, Except.bind, datagram] at run
        cases run
      | ok datagram' =>
        simp only [bind, Except.bind, datagram] at run
        cases run
        exact ((Relation.ReflTransGen.single got).tail (.send buf rfl datagram)).tail (.append rfl)

theorem TurnStep.refines {a : Actor} (step : TurnStep s a s') (aligned : 6 ∣ s.stream.length) :
    Relation.ReflTransGen SystemStep s s' ∧ 6 ∣ s'.stream.length := by
  cases step with
  | send buf atGet run =>
    exact ⟨blockThreadSend_system atGet run, aligned⟩
  | tickIdle atTick => exact ⟨.single (.tickIdle atTick), aligned⟩
  | @tickRead incoming rest windows rspPkt atTick unread six run =>
    refine ⟨.single (.tickRead rspPkt atTick unread aligned six.ge ?_ run), ?_⟩
    · rw [six]
      decide
    · rw [unread, List.length_append, six] at aligned
      exact (Nat.dvd_add_right (Nat.dvd_refl 6)).mp aligned
  | receive step same saves =>
    exact ⟨.single (.server step (step.not_sent same)), aligned⟩
  | @sequence thread seqQueue packets bytes atTest turn written =>
    obtain rfl := ctrlStream_iff.mp written
    obtain ⟨sents, run, rfl⟩ := SequencingRun.turn atTest (sequencingTurn_iff.mp turn)
    refine ⟨run.system rfl, ?_⟩
    rw [List.length_append, length_wires]
    exact Nat.dvd_add aligned (Nat.dvd_mul_right 6 _)

/-- Whatever is reached in larger steps is reached in single ones. -/
theorem turnRun_reachable {c : List UInt8} {file : FileIoPartitionHandle} {actors : List Actor}
    (run : Run TurnStep (systemStart c file) actors s) : SystemReachable c file s ∧ 6 ∣ s.stream.length := by
  induction run with
  | start => exact ⟨.refl, Nat.dvd_zero 6⟩
  | next _ step ih =>
    obtain ⟨reachable, aligned⟩ := ih
    obtain ⟨steps, next⟩ := step.refines aligned
    exact ⟨reachable.trans steps, next⟩

end Refines

end UCP

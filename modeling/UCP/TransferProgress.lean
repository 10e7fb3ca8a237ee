import UCP.SystemProgress

namespace UCP

section Settle

variable {c : List UInt8} {s : ServerState}

/-- `sequencing_thread` can always come back to its loop test. -/
theorem SequencingRun.to_test (going : s.sequencing.pc ≠ .fin ∧ s.sequencing.pc ≠ .returned) :
    ∃ sents thread seqQueue, SequencingRun s sents { s with sequencing := thread, seqQueue } ∧ thread.pc = .test := by
  have fromAdd {s : ServerState} (atAdd : s.sequencing.pc = .add) :
      ∃ sents thread seqQueue, SequencingRun s sents { s with sequencing := thread, seqQueue } ∧ thread.pc = .test :=
    ⟨_, _, _, .cons (.added atAdd) (.reportMissing rfl), rfl⟩
  have fromReply {s : ServerState} (atReply : s.sequencing.pc = .reply) :
      ∃ sents thread seqQueue, SequencingRun s sents { s with sequencing := thread, seqQueue } ∧ thread.pc = .test := by
    obtain ⟨sents, thread, seqQueue, run, atTest⟩ :=
      fromAdd (s := { s with sequencing := { s.sequencing with pc := .add } }) rfl
    exact ⟨_, thread, seqQueue, .cons (.replied atReply) run, atTest⟩
  cases at_ : s.sequencing.pc with
  | test => exact ⟨[], s.sequencing, s.seqQueue, .start, at_⟩
  | pop =>
    cases list : s.seqQueue with
    | nil => exact ⟨_, _, _, .cons (.idle at_ list) .start, rfl⟩
    | cons item rest =>
      obtain ⟨sents, thread, seqQueue, run, atTest⟩ := fromReply (s := { s with
        sequencing := { s.sequencing with seqNo := item.seqNo, flag := item.flag, isLast := item.isLast, pc := .reply }
        seqQueue := rest }) rfl
      exact ⟨_, thread, seqQueue, .cons (.popped at_ list) run, atTest⟩
  | reply => exact fromReply at_
  | add => exact fromAdd at_
  | missing todo => exact ⟨_, _, _, .reportMissing at_, rfl⟩
  | fin => exact absurd at_ going.1
  | returned => exact absurd at_ going.2

end Settle

theorem exists_numbers {α : Type*} {f : Nat → α} {P : Nat → Prop} {l : List α} (all : ∀ a ∈ l, ∃ i, P i ∧ a = f i) :
    ∃ numbers : List Nat, l = numbers.map f ∧ ∀ i ∈ numbers, P i := by
  choose! number valid same using all
  refine ⟨l.map number, ?_, fun i member => ?_⟩
  · rw [List.map_map]
    exact (List.map_id l).symm.trans (List.map_congr_left same)
  · obtain ⟨a, inList, rfl⟩ := List.mem_map.mp member
    exact valid a inList

section System

variable {c : List UInt8} {k : Nat} {s : SystemState}

/-- The system can come to where a scene stands for it. -/
theorem SystemUnfailed.stands (unfailed : SystemUnfailed c k s) (alive : s.server.receiving.Alive)
    (aligned : 6 ∣ s.stream.length) (client : s.client = .get ∨ s.client = .tick)
    (atTest : s.server.sequencing.pc = .test) : ∃ a : Scene, a.Stands c s ∧ a.Sound (segmentCount c) := by
  have drawn (l : List UcpPacket) (sub : ∀ p ∈ l, p ∈ s.windows.held) :
      ∃ numbers : List Nat, l = numbers.map (segment c) ∧ ∀ i ∈ numbers, i < k := by
    refine exists_numbers fun p member => ?_
    obtain ⟨i, before, same⟩ := unfailed.drawn p (List.mem_append_left _ (sub p member))
    exact ⟨i, before, same.symm⟩
  obtain ⟨pending, isPending, pendingRead⟩ := drawn s.windows.pendingPacketList fun p => List.mem_append_left _
  obtain ⟨inFlight, isInFlight, inFlightRead⟩ := drawn s.windows.inFlightPacketList fun p => List.mem_append_right _
  obtain ⟨queue, isQueue, queueSaved⟩ := exists_numbers (P := (· < segmentCount c))
    (f := fun i => savedItem (segment c i) true) (l := s.server.seqQueue)
    fun item member => unfailed.server.items item (by simp [member])
  obtain ⟨pushing, isPushing, pushingSaved⟩ : ∃ pushing : Option Nat,
      s.server.receiving.pc = pushing.elim .receive (fun i => .push (savedItem (segment c i) true)) ∧
        ∀ i ∈ pushing.toList, i < segmentCount c := by
    cases at_ : s.server.receiving.pc with
    | receive => exact ⟨none, rfl, fun _ member => absurd member List.not_mem_nil⟩
    | push item =>
      obtain ⟨i, within, rfl⟩ := unfailed.server.items item (by simp [ReceivingThread.inHand, at_])
      exact ⟨some i, rfl, fun j member => List.mem_singleton.mp member ▸ within⟩
    | returned => exact absurd at_ alive.1
  obtain ⟨unread, wires, replies⟩ := unfailed.unread aligned
  have notSending (p : UcpPacket) : s.client ≠ .send p := by
    rcases client with same | same <;> rw [same] <;> exact ClientPc.noConfusion
  have atTick : ∃ atTick, s.client = if atTick = true then .tick else .get := by
    rcases client with same | same
    · exact ⟨false, same⟩
    · exact ⟨true, same⟩
  obtain ⟨atTick, isClient⟩ := atTick
  have windows : s.windows = ⟨pending.map (segment c), inFlight.map (segment c), false⟩ := by
    rw [← isPending, ← isInFlight, ← unfailed.going.1]
  refine ⟨⟨k, atTick, pending, inFlight, pushing, queue, s.server.sequencing.sequencer, unread⟩,
    ⟨unfailed.reading, isClient, windows, fun i => unfailed.all_posted notSending,
     isPushing, isQueue, atTest, rfl, wires⟩,
    ⟨unfailed.reading.reached, fun i member => ?_, fun i member => ?_, unfailed.server.sequencer, replies⟩⟩
  · exact (List.mem_append.mp member).elim (pendingRead i) (inFlightRead i)
  · exact (List.mem_append.mp member).elim (pushingSaved i) (queueSaved i)

/-- A client that is not at the end of its loop can come to where it takes a packet
or ticks, and nothing else moves. -/
theorem SystemUnfailed.client_settles (unfailed : SystemUnfailed c k s) (going : s.client ≠ .left true) :
    ∃ s', Relation.ReflTransGen SystemStep s s' ∧ s'.server = s.server ∧ s'.stream = s.stream ∧
      (s'.client = .get ∨ s'.client = .tick) := by
  cases at_ : s.client with
  | get => exact ⟨s, .refl, rfl, rfl, .inl at_⟩
  | send packet =>
    obtain ⟨i, _, rfl⟩ :=
      unfailed.drawn packet (List.mem_append_right _ (by rw [at_]; exact List.mem_singleton_self _))
    have sends := SystemStep.send (Buffer.zeros _) at_ (sendDatagram_eq (segment_encodable c i) _)
    exact ⟨_, .tail (.single sends) (.append rfl), rfl, rfl, .inr rfl⟩
  | append packet => exact ⟨_, .single (.append at_), rfl, rfl, .inr rfl⟩
  | tick => exact ⟨s, .refl, rfl, rfl, .inr at_⟩
  | left exhausted =>
    cases exhausted with
    | true => exact absurd at_ going
    | false => exact absurd at_ unfailed.going.2

theorem SystemUnfailed.settles (unfailed : SystemUnfailed c k s) (few : segmentCount c < 2 ^ 32)
    (alive : s.server.receiving.Alive) (aligned : 6 ∣ s.stream.length) (going : s.client ≠ .left true) :
    ∃ s' a, Relation.ReflTransGen SystemStep s s' ∧ Scene.Stands c a s' ∧ a.Sound (segmentCount c) ∧
      6 ∣ s'.stream.length := by
  obtain ⟨s1, steps1, server, stream, client⟩ := unfailed.client_settles going
  have alive1 : s1.server.receiving.Alive := server ▸ alive
  obtain ⟨k1, unfailed1⟩ := unfailed.steps few steps1 alive1
  obtain ⟨sents, thread, seqQueue, run, atTest⟩ := SequencingRun.to_test unfailed1.server.going
  have steps2 := run.system rfl
  obtain ⟨k2, unfailed2⟩ := unfailed1.steps few steps2 alive1
  have aligned2 : 6 ∣ (s1.stream ++ (sentPackets sents).flatMap UcpCtrlPacket.wire).length := by
    rw [List.length_append, length_wires, stream]
    exact Nat.dvd_add aligned (Nat.dvd_mul_right 6 _)
  obtain ⟨a, stands, sound⟩ := unfailed2.stands alive1 aligned2 client atTest
  exact ⟨_, a, steps1.trans steps2, stands, sound, aligned2⟩

/-- Steps between scenes are steps of the system. -/
theorem Scene.Stands.steps {a a' : Scene} (stands : a.Stands c s) (aligned : 6 ∣ s.stream.length)
    (steps : SceneSteps (segmentCount c) a a') :
    ∃ s', Relation.ReflTransGen SystemStep s s' ∧ a'.Stands c s' ∧ 6 ∣ s'.stream.length := by
  induction steps with
  | refl => exact ⟨s, .refl, stands, aligned⟩
  | tail _ step ih =>
    obtain ⟨actor, step⟩ := step
    obtain ⟨s1, steps1, stands1, aligned1⟩ := ih
    obtain ⟨s2, turn, stands2⟩ := stands1.simulates step
    obtain ⟨steps2, aligned2⟩ := turn.refines aligned1
    exact ⟨s2, steps1.trans steps2, stands2, aligned2⟩

theorem Scene.Stands.alive {a : Scene} (stands : a.Stands c s) : s.server.receiving.Alive := by
  cases pushing : a.pushing with
  | none => exact .waiting (by rw [stands.receiving, pushing]; rfl)
  | some i =>
    rw [ReceivingThread.Alive, stands.receiving, pushing]
    constructor
    · intro same
      cases same
    · intro item same
      cases same
      exact show ucpFlagAck ≠ ucpFlagNack by decide

/-- The client has sent the whole partition and ended for want of packets, and no
save has failed. -/
structure SystemState.Completed (c : List UInt8) (s : SystemState) : Prop where
  left : s.client = .left true
  posted : ∀ i, i < segmentCount c → (segment c i).wire ∈ s.network
  alive : s.server.receiving.Alive

/-- As long as no save has failed, the receiving thread is alive and the client
has read whole control packets, it can come to the end of the partition. -/
theorem SystemUnfailed.completes (unfailed : SystemUnfailed c k s) (few : segmentCount c < 2 ^ 32)
    (alive : s.server.receiving.Alive) (aligned : 6 ∣ s.stream.length) (going : s.client ≠ .left true) :
    ∃ s', Relation.ReflTransGen SystemStep s s' ∧ s'.Completed c := by
  obtain ⟨s1, a1, steps1, stands1, sound1, aligned1⟩ := unfailed.settles few alive aligned going
  obtain ⟨a2, scenes, _, atGet, nothing⟩ := sound1.finishes few
  obtain ⟨s2, steps2, stands2, _⟩ := stands1.steps aligned1 scenes
  simp only [Scene.left, Nat.add_eq_zero_iff, List.length_eq_zero_iff, Nat.sub_eq_zero_iff_le] at nothing
  obtain ⟨⟨finished, noPending⟩, noInFlight⟩ := nothing
  obtain ⟨s3, step, left, network, server⟩ := stands2.leaves atGet finished noPending noInFlight
  refine ⟨s3, (steps1.trans steps2).tail step, left, fun i within => ?_, ?_⟩
  · rw [network]
    exact stands2.network i (within.trans_le finished)
  · rw [server]
    exact stands2.alive

end System

end UCP

import UCP.FinSoundness

namespace UCP

/-- Nothing is on its way to the sequencer: the thread is back at its loop test
and has processed every item. -/
structure Drained (s : ServerState) : Prop where
  atTest : s.sequencing.pc = .test
  queue : s.seqQueue = []
  inHand : s.receiving.inHand = []

/-- When all packets have been received, none of them failing to be saved, and
all items have been processed, the loop is left. -/
def FinReached (c : List UInt8) (file : FileIoPartitionHandle) : Prop :=
  ∀ events s, ServerRun c file events s → (∀ q, .saved q false ∉ events) →
    (∀ i, i < segmentCount c → Saved c events i) → Drained s →
    (sequencerComplete s.sequencing.sequencer).1 = true

section Incomplete

variable {c : List UInt8} {file : FileIoPartitionHandle} {events : List ServerEvent} {s : ServerState}
  {processed : List SequencingQueueItem}

/-- Without a failed save nothing is marked as the last packet, and the server
waits for a number that no packet has. -/
theorem ServerInv.incomplete (inv : ServerInv c events s processed) (few : segmentCount c < 2 ^ 32)
    (none : ∀ q, .saved q false ∉ events) : (sequencerComplete s.sequencing.sequencer).1 = false := by
  by_contra complete
  have below : uint32Max ≤ s.sequencing.sequencer.expectedLastSeqNo := by
    rw [inv.tracks.marked, lastMarked_unmarked (inv.good_unmarked none)]
    exact UInt32.le_refl _
  obtain ⟨item, member, same⟩ := inv.tracks.invents.complete_all (Bool.not_eq_false _ ▸ complete) below
  have small := inv.seqNo_small few (inv.processed_saved member)
  rw [same] at small
  exact absurd small (UInt32.lt_irrefl _)

theorem ServerRun.not_finished (run : ServerRun c file events s) (few : segmentCount c < 2 ^ 32) :
    (∀ q, .saved q false ∉ events) → s.sequencing.pc ≠ .fin ∧ s.sequencing.pc ≠ .returned := by
  refine Run.invariant (fun events s => (∀ q, .saved q false ∉ events) →
    s.sequencing.pc ≠ .fin ∧ s.sequencing.pc ≠ .returned) ?_ (fun {events s e s'} run ih step none => ?_) run
  · exact fun _ => ⟨SequencingPc.noConfusion, SequencingPc.noConfusion⟩
  have noneBefore : ∀ q, .saved q false ∉ events := fun q member => none q (List.mem_append_left _ member)
  obtain ⟨notFin, running⟩ := ih noneBefore
  cases step with
  | save => exact ⟨notFin, running⟩
  | ignore => exact ⟨notFin, running⟩
  | receiveError => exact ⟨notFin, running⟩
  | push => exact ⟨notFin, running⟩
  | cancel => exact ⟨notFin, running⟩
  | sequence taken =>
    obtain ⟨processed, inv⟩ := serverRun_inv few run running
    have incomplete := inv.incomplete few noneBefore
    cases sequencingThreadStep_iff.mp taken with
    | tested =>
      rw [incomplete]
      exact ⟨SequencingPc.noConfusion, SequencingPc.noConfusion⟩
    | popped => exact ⟨SequencingPc.noConfusion, SequencingPc.noConfusion⟩
    | idle => exact ⟨SequencingPc.noConfusion, SequencingPc.noConfusion⟩
    | replied => exact ⟨SequencingPc.noConfusion, SequencingPc.noConfusion⟩
    | added => exact ⟨SequencingPc.noConfusion, SequencingPc.noConfusion⟩
    | reported => exact ⟨SequencingPc.noConfusion, SequencingPc.noConfusion⟩
    | rested => exact ⟨SequencingPc.noConfusion, SequencingPc.noConfusion⟩
    | finished atFin => exact absurd atFin notFin

end Incomplete

/-- The server can be between two packets, with nothing on its way, these
packets received and these ranges recorded, and no save has failed. -/
def CanReceive (c : List UInt8) (file : FileIoPartitionHandle) (received : Nat → Prop)
    (ranges : List SequencerItem) : Prop :=
  ∃ events s, ServerRun c file events s ∧ (∀ q, .saved q false ∉ events) ∧ (∀ i, received i → Saved c events i) ∧
    Drained s ∧ s.receiving.pc = .receive ∧ s.sequencing.sequencer.seq = ranges

/-- How one more number changes the ranges while the loop goes on. -/
def Grows (ranges : List SequencerItem) (s : UInt32) (ranges' : List SequencerItem) : Prop :=
  ∀ seq, seq.seq = ranges → (sequencerComplete seq).1 = false ∧
    (sequencerAdd (sequencerComplete seq).2 s false).2.seq = ranges'

section Receive

variable {c : List UInt8} {file : FileIoPartitionHandle} {received : Nat → Prop}
  {ranges ranges' : List SequencerItem}

theorem CanReceive.start : CanReceive c file (fun _ => False) [] :=
  ⟨[], serverStart file, .start, fun _ => List.not_mem_nil, fun _ absurdity => absurdity.elim, ⟨rfl, rfl, rfl⟩, rfl, rfl⟩

theorem CanReceive.packet (can : CanReceive c file received ranges) {i : Nat} (within : i < segmentCount c)
    (grows : Grows ranges (UInt32.ofNat i) ranges') :
    CanReceive c file (fun t => t = i ∨ received t) ranges' := by
  obtain ⟨events, s, run, none, all, drained, waiting, list⟩ := can
  obtain ⟨incomplete, added⟩ := grows _ list
  obtain ⟨q, more, s1, same, quiet, handled, again, empty, atTest, sequencer⟩ :=
    run.handle within waiting drained.queue drained.atTest incomplete true
  refine ⟨_, s1, handled, fun q' member => ?_, fun t old => ?_, ⟨atTest, empty, ?_⟩, again, ?_⟩
  · rcases List.mem_append.mp member with old | new
    · exact none q' old
    · rcases List.mem_cons.mp new with first | later
      · cases first
      · exact quiet _ later q' false rfl
  · rcases old with rfl | old
    · exact ⟨q, List.mem_append_right _ (List.mem_cons_self ..), same⟩
    · exact (all t old).append _
  · rw [ReceivingThread.inHand, again]
    rfl
  · rw [sequencer]
    exact added

theorem CanReceive.mono (can : CanReceive c file received ranges) {fewer : Nat → Prop}
    (sub : ∀ i, fewer i → received i) : CanReceive c file fewer ranges := by
  obtain ⟨events, s, run, none, all, rest⟩ := can
  exact ⟨events, s, run, none, fun i member => all i (sub i member), rest⟩

end Receive

theorem Grows.first (s : UInt32) : Grows [] s [⟨s, s⟩] := by
  intro seq list
  have unchanged : sequencerComplete seq = (false, seq) := by rw [sequencerComplete, list]; rfl
  have unrecorded : sequencerCheck seq s = false := by rw [sequencerCheck, list]; rfl
  rw [unchanged, sequencerAdd_seq, unrecorded, list]
  exact ⟨rfl, rfl⟩

/-- One range that does not start at 0 is never the whole partition, and takes
what the walk finds for it. -/
theorem Grows.single {first last s : UInt32} {ranges : List SequencerItem} (positive : first ≠ 0)
    (new : SequencerItem.contains ⟨first, last⟩ s = false)
    (walk : (sequencerAddWalk s [] [⟨first, last⟩]).2 = ranges) : Grows [⟨first, last⟩] s ranges := by
  intro seq list
  constructor
  · by_contra complete
    have single := (sequencerComplete_iff seq).mp (Bool.not_eq_false _ ▸ complete)
    rw [list] at single
    cases single
    exact positive rfl
  · have same : (sequencerComplete seq).2.seq = [⟨first, last⟩] := by rw [sequencerComplete_seq, list]; rfl
    have unrecorded : sequencerCheck (sequencerComplete seq).2 s = false := by
      rw [sequencerCheck, same, List.any_cons, new]
      rfl
    rw [sequencerAdd_seq, unrecorded, same, ← walk]
    rfl

/-- After packets 2, 0 and 1 the number 0 is lost for good, and every further
packet only moves the end of the one range. -/
theorem canReceive_from_one {c : List UInt8} (file : FileIoPartitionHandle) (three : 3 ≤ segmentCount c) (n : Nat)
    (enough : 3 ≤ n) (bound : n ≤ segmentCount c) :
    CanReceive c file (· < n) [⟨1, UInt32.ofNat (n - 1)⟩] := by
  induction n, enough using Nat.le_induction with
  | base =>
    have none : CanReceive c file (fun _ => False) [] := .start
    have two := none.packet (show 2 < segmentCount c by omega) (.first 2)
    have zero := two.packet (show 0 < segmentCount c by omega) (.single (by decide) rfl rfl)
    have one := zero.packet (show 1 < segmentCount c by omega) (.single (by decide) rfl rfl)
    exact one.mono fun i within => by omega
  | succ n enough ih =>
    have number : UInt32.ofNat n = UInt32.ofNat (n - 1) + 1 := by
      have sum := UInt32.ofNat_add (n - 1) 1
      rwa [Nat.sub_add_cancel (by omega)] at sum
    have unrecorded : SequencerItem.contains ⟨1, UInt32.ofNat (n - 1)⟩ (UInt32.ofNat n) = false := by
      rw [← Bool.not_eq_true, SequencerItem.contains_iff, number]
      grind
    have walk : (sequencerAddWalk (UInt32.ofNat n) [] [⟨1, UInt32.ofNat (n - 1)⟩]).2 = [⟨1, UInt32.ofNat n⟩] := by
      rw [sequencerAddWalk, if_pos number.symm]
      rfl
    have next := (ih (by omega)).packet (show n < segmentCount c by omega) (.single (by decide) unrecorded walk)
    exact next.mono fun i within => by omega

/-- FIN is never reached: there are runs without a failed save in which all
packets have been received and processed and the loop goes on, and no run at
all without a failed save in which it is left. -/
theorem fin_never_reached {c : List UInt8} (file : FileIoPartitionHandle) (several : 2 ≤ segmentCount c) :
    ¬FinReached c file ∧
      (segmentCount c < 2 ^ 32 → ∀ events s, ServerRun c file events s → (∀ q, .saved q false ∉ events) →
        (sequencerComplete s.sequencing.sequencer).1 = false) := by
  have never (few : segmentCount c < 2 ^ 32) {events : List ServerEvent} {s : ServerState}
      (run : ServerRun c file events s) (none : ∀ q, .saved q false ∉ events) :
      (sequencerComplete s.sequencing.sequencer).1 = false := by
    obtain ⟨processed, inv⟩ := serverRun_inv few run (run.not_finished few none).2
    exact inv.incomplete few none
  refine ⟨fun reached => ?_, fun few events s run => never few run⟩
  rcases Nat.lt_or_eq_of_le several with three | two
  · obtain ⟨events, s, run, none, all, drained, _, ranges⟩ :=
      canReceive_from_one file three (segmentCount c) three (Nat.le_refl _)
    have complete := (sequencerComplete_iff _).mp (reached events s run none all drained)
    rw [ranges] at complete
    cases complete
  · have none : CanReceive c file (fun _ => False) [] := .start
    have one := none.packet (show 1 < segmentCount c by omega) (.first 1)
    have zero := one.packet (show 0 < segmentCount c by omega) (.single (by decide) rfl rfl)
    obtain ⟨events, s, run, none, all, drained, _⟩ := zero
    have complete := reached events s run none (fun i within => all i (by omega)) drained
    rw [never (by omega) run none] at complete
    cases complete

theorem fin_never_reached_two_packets : ¬FinReached (List.replicate 9175 0) (openPartition []) := by
  have count := segmentCount_two_packets 0
  exact (fin_never_reached (openPartition []) count.ge).1

/-- Two packets, the second of them flagged as the last, received in the order
1, 0 and saved: everything is there, and the server goes on waiting. -/
theorem fin_not_reached_when_received :
    segmentCount (List.replicate 9175 0) = 2 ∧
      (segment (List.replicate 9175 0) 1).dataPacket.flag = ucpFlagDataEnd ∧
      ∃ events s, ServerRun (List.replicate 9175 0) (openPartition []) events s ∧ (∀ q, .saved q false ∉ events) ∧
        (∀ i, i < 2 → Saved (List.replicate 9175 0) events i) ∧ Drained s ∧
        (sequencerComplete s.sequencing.sequencer).1 = false := by
  have count := segmentCount_two_packets 0
  refine ⟨count, segment_two_packets_flag 0, ?_⟩
  have none : CanReceive (List.replicate 9175 0) (openPartition []) (fun _ => False) [] := .start
  have one := none.packet (show 1 < segmentCount (List.replicate 9175 0) by omega) (.first 1)
  have zero := one.packet (show 0 < segmentCount (List.replicate 9175 0) by omega) (.single (by decide) rfl rfl)
  obtain ⟨events, s, run, none, all, drained, _⟩ := zero
  refine ⟨events, s, run, none, fun i within => all i (by omega), drained, ?_⟩
  have few : segmentCount (List.replicate 9175 0) < 2 ^ 32 := by omega
  obtain ⟨processed, inv⟩ := serverRun_inv few run (run.not_finished few none).2
  exact inv.incomplete few none

end UCP

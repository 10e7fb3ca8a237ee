import UCP.SequencerGaps
import UCP.ServerRuns

namespace UCP

/-- `sequencer_complete` has been called in this turn of the loop, and no
`sequencer_add` since. -/
def SequencingPc.Tested : SequencingPc → Prop
  | .pop => True
  | .reply => True
  | .add => True
  | .fin => True
  | _ => False

/-- The loop of `sequencing_thread` has made these calls. -/
structure LoopCalls (calls : List SequencerCall) (thread : SequencingThread) : Prop where
  alternating : Alternating calls
  below : BelowMax calls
  reached : sequencerRun calls = thread.sequencer
  tested : thread.pc.Tested → ∃ earlier, calls = earlier ++ [.complete]

section Step

variable {calls : List SequencerCall} {thread thread' : SequencingThread}

/-- A step that calls neither function. -/
theorem LoopCalls.moved (loop : LoopCalls calls thread) (same : thread'.sequencer = thread.sequencer)
    (tested : thread'.pc.Tested → thread.pc.Tested) : LoopCalls calls thread' :=
  ⟨loop.alternating, loop.below, loop.reached.trans same.symm, fun inside => loop.tested (tested inside)⟩

theorem LoopCalls.step (loop : LoopCalls calls thread) (small : thread.pc = .add → thread.seqNo < uint32Max)
    {queue queue' : List SequencingQueueItem} {sent : Option (UInt32 × UInt32)}
    (effect : SequencingEffect thread queue thread' queue' sent) : ∃ calls', LoopCalls calls' thread' := by
  cases effect with
  | tested atTest =>
    refine ⟨calls ++ [.complete], loop.alternating.complete, loop.below.complete, ?_, fun _ => ⟨calls, rfl⟩⟩
    rw [sequencerRun_complete, loop.reached]
  | added atAdd =>
    obtain ⟨earlier, rfl⟩ := loop.tested (by rw [atAdd]; trivial)
    refine ⟨earlier ++ [.complete] ++ [.add thread.seqNo (thread.flag == ucpFlagDataEnd)], loop.alternating.add _ _,
      loop.below.add (small atAdd) _, ?_, False.elim⟩
    rw [sequencerRun_add, loop.reached]
  | popped atPop _ => exact ⟨calls, loop.moved rfl fun _ => by rw [atPop]; trivial⟩
  | idle _ _ => exact ⟨calls, loop.moved rfl False.elim⟩
  | replied atReply => exact ⟨calls, loop.moved rfl fun _ => by rw [atReply]; trivial⟩
  | reported _ => exact ⟨calls, loop.moved rfl False.elim⟩
  | rested _ => exact ⟨calls, loop.moved rfl False.elim⟩
  | finished _ => exact ⟨calls, loop.moved rfl False.elim⟩

end Step

section Run

variable {c : List UInt8} {handle : FileIoPartitionHandle} {events : List ServerEvent} {s : ServerState}

/-- In every run the sequencer of `sequencing_thread` has seen a
`sequencer_complete` before every `sequencer_add`. -/
theorem serverRun_loopCalls (few : segmentCount c < 2 ^ 32) (run : ServerRun c handle events s) :
    ∃ calls, LoopCalls calls s.sequencing := by
  refine Run.invariant (fun _ s => ∃ calls, LoopCalls calls s.sequencing)
    ⟨[], .nil, fun _ none => absurd none List.not_mem_nil, rfl, False.elim⟩ (fun {_ s _ _} run loop step => ?_) run
  obtain ⟨calls, loop⟩ := loop
  cases step with
  | sequence taken =>
    refine loop.step (fun atAdd => ?_) (sequencingThreadStep_iff.mp taken)
    obtain ⟨processed, inv⟩ := serverRun_inv few run (by rw [atAdd]; exact SequencingPc.noConfusion)
    exact inv.inHand_small few atAdd
  | save _ _ _ _ => exact ⟨calls, loop⟩
  | ignore _ _ _ _ => exact ⟨calls, loop⟩
  | receiveError _ => exact ⟨calls, loop⟩
  | push _ _ => exact ⟨calls, loop⟩
  | cancel _ => exact ⟨calls, loop⟩

/-- After its test of `sequencer_complete` the loop works on a minimal list. -/
theorem serverRun_minimal (few : segmentCount c < 2 ^ 32) (run : ServerRun c handle events s)
    (tested : s.sequencing.pc.Tested) (item : SequencerItem) :
    item ∈ s.sequencing.sequencer.seq ↔ MaximalRun (recorded s.sequencing.sequencer.seq) item := by
  obtain ⟨calls, loop⟩ := serverRun_loopCalls few run
  obtain ⟨earlier, rfl⟩ := loop.tested tested
  have gaps := (loop.alternating.gaps loop.below).2 earlier rfl
  rw [← loop.reached]
  exact (maximalRun_iff (sequencerRun_ascending loop.below) gaps).symm

end Run

end UCP

import UCP.PointerSequencerRuns
import UCP.SequencerMissing

namespace UCP

/-- The answer of a call on the list of the ranges. -/
def sequencerAnswer (seq : Sequencer) : SequencerCall → Bool
  | .add seqNo isLast => (sequencerAdd seq seqNo isLast).1
  | .complete => (sequencerComplete seq).1

/-- A call that asks for no failing allocation answers as on the list of the ranges. -/
theorem FailsUnasked.answer {calls : List AllocationCall} {call : AllocationCall}
    (unasked : FailsUnasked (calls ++ [call])) :
    nullableAnswer (sequencerRun (calls.map AllocationCall.call)).nullable call =
      some (sequencerAnswer (sequencerRun (calls.map AllocationCall.call)) call.call,
        (sequencerCall (sequencerRun (calls.map AllocationCall.call)) call.call).nullable) := by
  cases call with
  | add s isLast allocates =>
    refine nullable_add_spared ?_ isLast
    cases allocates with
    | true => exact Or.inl rfl
    | false => exact Or.inr (unasked calls s isLast (List.prefix_refl _))
  | complete => exact nullable_complete _

namespace Pointer

/-- Nothing is allocated. -/
def emptyMemory : Memory Nat SequencerItem where
  heap _ := none
  objects _ := none

/-- Two ranges come in, and a number that joins them frees the second one. -/
def joiningCalls : List (SequencerCall Nat) :=
  [.add 5 false ⟨some 10, some (1, ⟨none, some 7, none⟩)⟩, .add 7 false ⟨some 11, some (2, ⟨none, none, none⟩)⟩,
    .add 6 false ⟨some 12, some (3, ⟨none, none, none⟩)⟩]

theorem joiningCalls_run {seq : Sequencer Nat} (init : sequencerInit emptyMemory (some 0) = .ok (some seq)) :
    ∃ seq', Run (SequencerStep 4) seq joiningCalls seq' ∧ linkedListLength seq'.seq = 1 := by
  have init' : sequencerInit emptyMemory (some 0) = .ok (some _) := rfl
  obtain rfl := Option.some.inj (Except.ok.inj (init.symm.trans init'))
  refine ⟨_, .cons ⟨?_, _, rfl⟩ (.cons ⟨?_, _, rfl⟩ (.cons ⟨?_, _, rfl⟩ .start)), rfl⟩
  all_goals
    refine ⟨fun seqNo isLast allocation same => ?_, by decide, by decide⟩
    cases same
    exact ObjectAllocation.fresh_some rfl rfl

variable {Addr : Type} [DecidableEq Addr] {base : Memory Addr SequencerItem} {seq : Sequencer Addr} {fuel : Nat}

/-- The loop over the missing numbers asks the sequencer in memory the same
questions as the list of its ranges. -/
theorem Refines.iterateLoop {Ctx : Type} {ranges : UCP.Sequencer} (refines : Refines base seq ranges.nullable)
    (enough : ranges.seq.length ≤ fuel) (callback : UInt32 → Ctx → Ctx) (reqSeqNo : UInt32) (ctx : Ctx) :
    sequencerIterateLoop fuel seq callback reqSeqNo ctx =
      .ok (UCP.sequencerIterateLoop ranges callback reqSeqNo ctx).2 := by
  have max : seq.maxSeqNo = ranges.maxSeqNo := by
    obtain ⟨cells, _, same⟩ := refines
    exact (congrArg Nullable.Sequencer.maxSeqNo same).symm
  induction reqSeqNo, ctx using UCP.sequencerIterateLoop.induct ranges callback with
  | case1 reqSeqNo ctx below ih =>
    have length : ranges.nullable.seq.length = ranges.seq.length := List.length_map _
    have check : sequencerCheck fuel seq reqSeqNo = _ := refines.check (by rwa [length]) reqSeqNo
    rw [nullable_check] at check
    rw [sequencerIterateLoop, UCP.sequencerIterateLoop, max, if_pos below, if_pos below, check]
    exact ih
  | case2 reqSeqNo ctx passed =>
    rw [sequencerIterateLoop, UCP.sequencerIterateLoop, max, if_neg passed, if_neg passed]
    rfl

theorem Refines.iterate {Ctx : Type} {ranges : UCP.Sequencer} (refines : Refines base seq ranges.nullable)
    (enough : ranges.seq.length ≤ fuel) (callback : UInt32 → Ctx → Ctx) (ctx : Ctx) :
    sequencerIterateMissingSegments fuel seq callback ctx =
      .ok (sequencerIterateMissingSegmentsWith ranges callback ctx).2 := by
  have empty : linkedListEmpty seq.seq = .ok ranges.seq.isEmpty := by
    obtain ⟨cells, holds, same⟩ := refines
    have list : ranges.seq.map some = cells.map Cell.value := congrArg Nullable.Sequencer.seq same
    have count := congrArg List.isEmpty list
    rw [List.isEmpty_map, List.isEmpty_map] at count
    rw [holds.empty, count]
  rw [sequencerIterateMissingSegments, sequencerIterateMissingSegmentsWith, empty, Except.ok_bind]
  cases ranges.seq.isEmpty with
  | true => rfl
  | false => exact refines.iterateLoop enough callback 0 ctx

/-- With a callback that collects them, the missing numbers come in their order. -/
theorem Refines.missing {ranges : UCP.Sequencer} (refines : Refines base seq ranges.nullable)
    (enough : ranges.seq.length ≤ fuel) :
    sequencerIterateMissingSegments fuel seq (fun seqNo sent => sent ++ [seqNo]) [] =
      .ok (UCP.sequencerIterateMissingSegments ranges) := by
  rw [refines.iterate enough, sequencerIterateMissingSegmentsWith_eq, List.foldl_append_eq_append, List.nil_append,
    ← List.flatMap_def, List.flatMap_singleton']

/-- With memory for the ranges the calls are those on the list. -/
theorem Refines.addRanges {ranges : UCP.Sequencer} {allocation : ObjectAllocation Addr}
    (refines : Refines base seq ranges.nullable) (enough : ranges.seq.length ≤ fuel)
    (fresh : allocation.Fresh seq.seq seq.items) (allocated : allocation.obj ≠ none) (s : UInt32) (isLast : Bool) :
    ∃ seq', sequencerAdd fuel seq s isLast allocation = .ok ((UCP.sequencerAdd ranges s isLast).1, seq') ∧
      Refines base seq' (UCP.sequencerAdd ranges s isLast).2.nullable ∧
      (UCP.sequencerAdd ranges s isLast).2.seq.length ≤ ranges.seq.length + 1 := by
  have length : ranges.nullable.seq.length = ranges.seq.length := List.length_map _
  rw [← length] at enough
  have agrees := refines.add enough fresh s isLast
  have answer : Nullable.sequencerAdd ranges.nullable s isLast allocation.obj.isSome = _ :=
    nullable_add_spared (Or.inl (Option.isSome_iff_ne_none.mpr allocated)) isLast
  have longer := length_nullableAnswer (.add s isLast allocation.obj.isSome) answer
  rw [answer] at agrees
  generalize sequencerAdd fuel seq s isLast allocation = result at agrees
  cases agrees with
  | returned refines' => exact ⟨_, rfl, refines', by simpa [UCP.Sequencer.nullable] using longer⟩

theorem Refines.completeRanges {ranges : UCP.Sequencer} (refines : Refines base seq ranges.nullable)
    (enough : ranges.seq.length ≤ fuel) (bounded : ranges.seq.length < 2 ^ 31) :
    ∃ seq', sequencerComplete fuel seq = .ok ((UCP.sequencerComplete ranges).1, seq') ∧
      Refines base seq' (UCP.sequencerComplete ranges).2.nullable ∧
      (UCP.sequencerComplete ranges).2.seq.length ≤ ranges.seq.length + 1 := by
  have length : ranges.nullable.seq.length = ranges.seq.length := List.length_map _
  rw [← length] at enough bounded
  have agrees := refines.complete enough bounded
  have longer := length_nullableAnswer .complete (nullable_complete ranges)
  rw [nullable_complete] at agrees
  generalize sequencerComplete fuel seq = result at agrees
  cases agrees with
  | returned refines' => exact ⟨_, rfl, refines', by simpa [UCP.Sequencer.nullable] using longer⟩

/-- The sequencer on its pointers does what the list of its ranges does, failing
allocations of ranges included: every valid call answers as on the list, or
follows a null pointer where the list says so, and never meets a pointer to
memory that is not allocated. -/
theorem sequencer_in_memory_refines {anchor : Addr} (free : base.heap anchor = none) (fuel : Nat) :
    ∃ seq, sequencerInit base (some anchor) = .ok (some seq) ∧
      ∀ calls seq', Run (SequencerStep fuel) seq calls seq' →
        ∃ state, nullableRun (calls.map SequencerCall.allocationCall) = some state ∧
          (∀ call, call.Valid fuel seq' →
            Agrees base (sequencerCall fuel seq' call) (nullableAnswer state call.allocationCall)) ∧
          ((linkedListLength seq'.seq).toInt ≤ fuel → ∀ s,
            sequencerCheck fuel seq' s = (Nullable.sequencerCheck state s).elim (.error .nullPointer) .ok) := by
  obtain ⟨seq, init, refines⟩ := sequencerInit_refines free
  refine ⟨seq, init, fun calls seq' run => ?_⟩
  obtain ⟨state, before, refines', bounded⟩ := refines.run run
  refine ⟨state, before, fun call valid => refines'.call bounded valid, fun enough s => refines'.check ?_ s⟩
  have count := refines'.count bounded
  omega

theorem sequencer_in_memory_refines_joining : ∃ seq seq', sequencerInit emptyMemory (some 0) = .ok (some seq) ∧
    Run (SequencerStep 4) seq joiningCalls seq' ∧ sequencerCheck 4 seq' 6 = .ok true := by
  obtain ⟨seq, init, runs⟩ := sequencer_in_memory_refines (rfl : emptyMemory.heap 0 = none) 4
  obtain ⟨seq', run, one⟩ := joiningCalls_run init
  obtain ⟨state, after, _, check⟩ := runs _ _ run
  have joined : nullableRun (joiningCalls.map SequencerCall.allocationCall) = some ⟨[some ⟨5, 7⟩], 7, uint32Max⟩ := by
    decide
  obtain rfl := Option.some.inj (joined.symm.trans after)
  refine ⟨seq, seq', init, run, ?_⟩
  rw [check (by rw [one]; decide) 6]
  rfl

/-- As long as no allocation of a range fails that a call asks for, the sequencer
on its pointers never faults, and all its answers are those of the list of the
ranges after the same calls. -/
theorem sequencer_in_memory_answers {anchor : Addr} (free : base.heap anchor = none) (fuel : Nat) :
    ∃ seq, sequencerInit base (some anchor) = .ok (some seq) ∧
      ∀ calls seq', Run (SequencerStep fuel) seq calls seq' → (linkedListLength seq'.seq).toInt ≤ fuel →
        FailsUnasked (calls.map SequencerCall.allocationCall) →
        let ranges := sequencerRun (calls.map fun call => call.allocationCall.call)
        (∀ call, call.Valid fuel seq' → FailsUnasked ((calls ++ [call]).map SequencerCall.allocationCall) →
          ∃ seq'', sequencerCall fuel seq' call = .ok (sequencerAnswer ranges call.allocationCall.call, seq'')) ∧
        (∀ s, sequencerCheck fuel seq' s = .ok (UCP.sequencerCheck ranges s)) ∧
        ∀ (Ctx : Type) (callback : UInt32 → Ctx → Ctx) (ctx : Ctx),
          sequencerIterateMissingSegments fuel seq' callback ctx =
            .ok (sequencerIterateMissingSegmentsWith ranges callback ctx).2 := by
  obtain ⟨seq, init, refines⟩ := sequencerInit_refines free
  refine ⟨seq, init, fun calls seq' run enough unasked => ?_⟩
  intro ranges
  obtain ⟨state, before, refines', bounded⟩ := refines.run run
  have same : state = ranges.nullable := by
    have run := unasked.run
    rw [List.map_map] at run
    exact Option.some.inj (before.symm.trans run)
  subst same
  have count := refines'.count bounded
  have length : ranges.nullable.seq.length = ranges.seq.length := List.length_map _
  have enough : ranges.seq.length ≤ fuel := by omega
  refine ⟨fun call valid unasked' => ?_, fun s => ?_, fun Ctx callback ctx => refines'.iterate enough callback ctx⟩
  · rw [List.map_append, List.map_singleton] at unasked'
    have answer := unasked'.answer
    rw [List.map_map] at answer
    have agrees := refines'.call bounded valid
    have answered : nullableAnswer ranges.nullable call.allocationCall = _ := answer
    rw [answered] at agrees
    generalize sequencerCall fuel seq' call = result at agrees
    cases agrees with
    | returned _ => exact ⟨_, rfl⟩
  · rw [refines'.check (by rwa [length]) s, nullable_check]
    rfl

theorem sequencer_in_memory_answers_joining : ∃ seq seq', sequencerInit emptyMemory (some 0) = .ok (some seq) ∧
    Run (SequencerStep 4) seq joiningCalls seq' ∧ sequencerCheck 4 seq' 8 = .ok false := by
  obtain ⟨seq, init, runs⟩ := sequencer_in_memory_answers (rfl : emptyMemory.heap 0 = none) 4
  obtain ⟨seq', run, one⟩ := joiningCalls_run init
  have unasked : FailsUnasked (joiningCalls.map SequencerCall.allocationCall) := by
    intro before s isLast first
    have member := first.subset (List.mem_append_right _ (List.mem_singleton_self _))
    revert member
    simp [joiningCalls, SequencerCall.allocationCall]
  refine ⟨seq, seq', init, run, ((runs _ _ run (by rw [one]; decide) unasked).2.1 8).trans ?_⟩
  rfl

/-- After every run of calls `sequencer_destroy` succeeds, and leaves the memory
as it was before `sequencer_init`: nothing is freed twice, used after it is
freed, or lost. -/
theorem sequencer_destroy_restores_memory {anchor : Addr} (free : base.heap anchor = none) (fuel : Nat) :
    ∃ seq, sequencerInit base (some anchor) = .ok (some seq) ∧
      ∀ calls seq', Run (SequencerStep fuel) seq calls seq' → (linkedListLength seq'.seq).toInt ≤ fuel →
        sequencerDestroy fuel seq' = .ok base := by
  obtain ⟨seq, init, refines⟩ := sequencerInit_refines free
  refine ⟨seq, init, fun calls seq' run enough => ?_⟩
  obtain ⟨state, _, refines', bounded⟩ := refines.run run
  have count := refines'.count bounded
  exact refines'.destroy (by omega)

theorem sequencer_destroy_restores_memory_joining :
    ∃ seq seq', sequencerInit emptyMemory (some 0) = .ok (some seq) ∧
    Run (SequencerStep 4) seq joiningCalls seq' ∧ sequencerDestroy 4 seq' = .ok emptyMemory := by
  obtain ⟨seq, init, runs⟩ := sequencer_destroy_restores_memory (rfl : emptyMemory.heap 0 = none) 4
  obtain ⟨seq', run, one⟩ := joiningCalls_run init
  exact ⟨seq, seq', init, run, runs _ _ run (by rw [one]; decide)⟩

end Pointer

end UCP

import Mathlib.Algebra.Group.Int.Defs
import UCP.PointerSequencerRefinement
import UCP.SequencerAllocation

namespace UCP.Pointer

section Lifetime

variable {Addr : Type} [DecidableEq Addr] {base : Memory Addr SequencerItem} {seq : Sequencer Addr}
  {state : Nullable.Sequencer}
  {fuel : Nat}

theorem sequencerInit_refines {anchor : Addr} (free : base.heap anchor = none) :
    ∃ seq, sequencerInit base (some anchor) = .ok (some seq) ∧ Refines base seq Nullable.sequencerInit := by
  obtain ⟨list, init, _, owns⟩ := Owns.init free
  refine ⟨⟨list, 0, uint32Max, base.objects⟩, ?_, [], ⟨owns, .refl base.objects⟩, rfl⟩
  rw [sequencerInit, init]
  rfl

/-- The loop of `sequencer_destroy` follows the links while the ranges go; an
element that it has left behind keeps a dangling pointer. -/
theorem freeLoop_frees {left : List (Addr × Option Addr)} {right : List (Cell Addr SequencerItem)}
    (rep : Represents seq.seq (left ++ right.map Cell.elem))
    (stores : Stores base.objects seq.items (right.filterMap Cell.object)) (enough : right.length ≤ fuel) :
    sequencerFreeLoop fuel seq (right.head?.map Cell.addr) = .ok { seq with items := base.objects } := by
  induction right generalizing seq left fuel with
  | nil =>
    have restored : seq.items = base.objects := stores.footprint.restored
    rw [← restored]
    cases fuel <;> rfl
  | cons cell right ih =>
    obtain ⟨fuel, rfl⟩ : ∃ rest, fuel = rest + 1 := ⟨fuel - 1, by rw [List.length_cons] at enough; omega⟩
    have rep : Represents seq.seq (left ++ cell.elem :: right.map Cell.elem) := rep
    have onward : Represents seq.seq ((left ++ [cell.elem]) ++ right.map Cell.elem) := by
      rwa [List.append_assoc, List.singleton_append]
    have atElem : seq.seq.obj (some cell.addr) = .ok cell.obj := rep.objAt
    have next : linkedListNext seq.seq (some cell.addr) = .ok (right.head?.map Cell.addr) := by
      have next := rep.next
      rwa [List.head?_map, Option.map_map] at next
    rw [List.head?_cons, Option.map_some, sequencerFreeLoop, atElem, Except.ok_bind]
    rcases cell with ⟨addr, _ | ⟨obj, item⟩⟩
    · rw [Cell.obj_none, ObjectHeap.free, Except.ok_bind, next, Except.ok_bind]
      exact ih onward stores (Nat.le_of_succ_le_succ enough)
    · have stores : Stores base.objects seq.items ([] ++ (obj, item) :: right.filterMap Cell.object) := stores
      have freed : seq.items.free (some obj) = .ok (Function.update seq.items obj none) := by
        rw [ObjectHeap.free, ObjectHeap.load_some stores.load]
        rfl
      rw [Cell.obj_some, freed, Except.ok_bind, next, Except.ok_bind]
      have onward : Represents { seq with items := Function.update seq.items obj none }.seq _ := onward
      exact ih onward stores.remove (Nat.le_of_succ_le_succ enough)

/-- `sequencer_destroy` gives back all that the sequencer has taken. -/
theorem Refines.destroy (refines : Refines base seq state) (enough : state.seq.length ≤ fuel) :
    sequencerDestroy fuel seq = .ok base := by
  obtain ⟨cells, holds, rfl⟩ := refines
  have enough : cells.length ≤ fuel := by simpa [Sequencer.nullable] using enough
  have rep : Represents seq.seq ([] ++ cells.map Cell.elem) := holds.list.represents
  have elems : (cells.map Cell.elem).length ≤ fuel := by rwa [List.length_map]
  obtain ⟨list, unlinked, _, owns⟩ := holds.list.unlinkAll elems
  obtain ⟨atAnchor, here⟩ := owns.represents.allocated (List.mem_cons_self ..)
  have given : Footprint base.heap (list.heap.set list.anchor none) [] := by
    refine owns.footprint.change (fun x out _ => ?_) (fun x inside => absurd inside List.not_mem_nil)
      (fun x inside _ => ?_)
    · exact Heap.set_of_ne _ (fun same => out (List.mem_singleton.mpr same)) _
    · rw [List.mem_singleton.mp inside]
      exact Heap.set_self ..
  rw [sequencerDestroy, holds.first, Except.ok_bind, freeLoop_frees rep holds.objects enough, Except.ok_bind, unlinked,
    Except.ok_bind, Heap.free, Heap.load_some here]
  exact congrArg (fun heap => Except.ok (Memory.mk heap base.objects)) given.restored

end Lifetime

/-- A call that changes the sequencer, an addition with what `malloc` returns if
it asks for a range. -/
inductive SequencerCall (Addr : Type)
  | add (seqNo : UInt32) (isLast : Bool) (allocation : ObjectAllocation Addr)
  | complete

section Runs

variable {Addr : Type}

def SequencerCall.allocationCall : SequencerCall Addr → AllocationCall
  | add seqNo isLast allocation => .add seqNo isLast allocation.obj.isSome
  | complete => .complete

/-- The memory that `malloc` returns is not in use, and the count of the ranges
stays an `int` and below the fuel for the loops. -/
structure SequencerCall.Valid (fuel : Nat) (seq : Sequencer Addr) (call : SequencerCall Addr) : Prop where
  fresh : ∀ seqNo isLast allocation, call = .add seqNo isLast allocation → allocation.Fresh seq.seq seq.items
  room : (linkedListLength seq.seq).toInt + 1 < 2 ^ 31
  enough : (linkedListLength seq.seq).toInt ≤ fuel

variable [DecidableEq Addr]

def sequencerCall (fuel : Nat) (seq : Sequencer Addr) :
    SequencerCall Addr → Except (HeapFault Addr) (Bool × Sequencer Addr)
  | .add seqNo isLast allocation => sequencerAdd fuel seq seqNo isLast allocation
  | .complete => sequencerComplete fuel seq

/-- A valid call that returns. -/
def SequencerStep (fuel : Nat) (seq : Sequencer Addr) (call : SequencerCall Addr) (seq' : Sequencer Addr) : Prop :=
  call.Valid fuel seq ∧ ∃ answer, sequencerCall fuel seq call = .ok (answer, seq')

end Runs

end UCP.Pointer

namespace UCP

/-- The answer of a call beside the state that it leaves. -/
def nullableAnswer (seq : Nullable.Sequencer) : AllocationCall → Option (Bool × Nullable.Sequencer)
  | .add seqNo isLast allocates => Nullable.sequencerAdd seq seqNo isLast allocates
  | .complete => Nullable.sequencerComplete seq

theorem nullableCall_eq (seq : Nullable.Sequencer) (call : AllocationCall) :
    nullableCall seq call = (nullableAnswer seq call).map (·.2) := by
  cases call <;> rfl

section Length

theorem Nullable.length_addWalk {newRange : Option SequencerItem} {s : UInt32} {result : Bool}
    {before right objs : List (Option SequencerItem)}
    (walk : Nullable.sequencerAddWalk newRange s before right = some (result, objs)) :
    objs.length ≤ before.length + right.length + 1 := by
  induction right generalizing before with
  | nil =>
    cases walk
    exact Nat.le_succ _
  | cons obj after ih =>
    rcases obj with _ | item
    · cases walk
    rw [Nullable.sequencerAddWalk, Option.bind_eq_bind, Option.bind_some] at walk
    have onward : ∀ {before' : List (Option SequencerItem)}, before'.length = before.length + 1 →
        Nullable.sequencerAddWalk newRange s before' after = some (result, objs) →
        objs.length ≤ before.length + (some item :: after).length + 1 := by
      intro before' longer walk
      have rest := ih walk
      rw [List.length_cons]
      omega
    split at walk
    · rcases after with _ | ⟨_ | nextItem, rest⟩
      · cases walk
        simp
      · cases walk
      · simp only [Option.bind_some] at walk
        split at walk
        · cases walk
          simp
          omega
        · cases walk
          simp
    split at walk
    · rcases List.eq_nil_or_concat before with rfl | ⟨front, _ | prevItem, rfl⟩
      · cases walk
        simp
      · simp at walk
      · simp only [List.concat_eq_append, List.getLast?_concat, Option.bind_some] at walk
        split at walk <;> cases walk <;> simp <;> omega
    rcases after with _ | ⟨next, rest⟩
    · simp only at walk
      split at walk
      · cases walk
        simp
      · exact onward (by simp) walk
    · simp only at walk
      split at walk
      · rcases next with _ | nextItem
        · cases walk
        simp only [Option.bind_some] at walk
        split at walk
        · cases walk
          simp
          omega
        · exact onward (by simp) walk
      · exact onward (by simp) walk

theorem Nullable.length_completeWalk {right objs : List (Option SequencerItem)}
    (walk : Nullable.sequencerCompleteWalk right = some objs) : objs.length ≤ right.length := by
  induction right using Nullable.sequencerCompleteWalk.induct generalizing objs with
  | case1 obj nextObj rest merging passing =>
    rcases obj with _ | item
    · cases walk
    rcases nextObj with _ | nextItem
    · cases walk
    rw [Nullable.sequencerCompleteWalk] at walk
    simp only [Option.bind_eq_bind, Option.bind_some] at walk
    split at walk
    · obtain ⟨merged, walked, same⟩ := Option.bind_eq_some_iff.mp walk
      cases same
      have rest := merging walked
      simp only [List.length_cons]
      omega
    · obtain ⟨merged, walked, same⟩ := Option.bind_eq_some_iff.mp walk
      cases same
      have rest := passing walked
      simp only [List.length_cons] at rest ⊢
      omega
  | case2 right short =>
    rcases right with _ | ⟨obj, _ | ⟨next, rest⟩⟩
    · cases walk
      exact Nat.le_refl _
    · cases walk
      exact Nat.le_refl _
    · exact (short obj next rest rfl).elim
theorem length_nullableAnswer {seq seq' : Nullable.Sequencer} {answer : Bool} (call : AllocationCall)
    (ran : nullableAnswer seq call = some (answer, seq')) : seq'.seq.length ≤ seq.seq.length + 1 := by
  cases call with
  | add s isLast allocates =>
    have same : (Nullable.sequencerAddBounds seq s isLast).seq = seq.seq := by
      rw [Nullable.sequencerAddBounds]
      split
      · rfl
      · split <;> rfl
    rw [nullableAnswer, Nullable.sequencerAdd] at ran
    simp only [Option.bind_eq_bind] at ran
    obtain ⟨recorded, _, ran⟩ := Option.bind_eq_some_iff.mp ran
    rw [← same]
    split at ran
    · cases ran
      exact Nat.le_succ _
    split at ran
    · cases ran
      simp
    · obtain ⟨⟨result, objs⟩, walk, last⟩ := Option.bind_eq_some_iff.mp ran
      cases last
      have longer := Nullable.length_addWalk walk
      rw [List.length_nil, Nat.zero_add] at longer
      exact longer
  | complete =>
    rw [nullableAnswer, Nullable.sequencerComplete] at ran
    split at ran
    · cases ran
      exact Nat.le_succ _
    · simp only [Option.bind_eq_bind] at ran
      obtain ⟨objs, walk, ran⟩ := Option.bind_eq_some_iff.mp ran
      have fewer := Nullable.length_completeWalk walk
      split at ran
      · obtain ⟨item, _, last⟩ := Option.bind_eq_some_iff.mp ran
        cases last
        exact Nat.le_succ_of_le fewer
      · cases ran
        exact Nat.le_succ_of_le fewer

end Length

end UCP

namespace UCP.Pointer

section Runs

variable {Addr : Type} {base : Memory Addr SequencerItem} {seq seq' : Sequencer Addr} {state : Nullable.Sequencer}
  {fuel : Nat} {next : SequencerCall Addr} {calls : List (SequencerCall Addr)}

/-- The count that the program keeps is that of the ranges. -/
theorem Refines.count (refines : Refines base seq state) (bounded : state.seq.length < 2 ^ 31) :
    (linkedListLength seq.seq).toInt = state.seq.length := by
  obtain ⟨cells, holds, rfl⟩ := refines
  have length : (seq.nullable cells).seq.length = cells.length := List.length_map _
  rw [length] at bounded ⊢
  exact holds.count bounded

variable [DecidableEq Addr]

theorem Refines.call (refines : Refines base seq state) (bounded : state.seq.length < 2 ^ 31)
    (valid : next.Valid fuel seq) :
    Agrees base (sequencerCall fuel seq next) (nullableAnswer state next.allocationCall) := by
  have count := refines.count bounded
  have enough : state.seq.length ≤ fuel := by
    have enough := valid.enough
    omega
  cases next with
  | add seqNo isLast allocation => exact refines.add enough (valid.fresh seqNo isLast allocation rfl) seqNo isLast
  | complete => exact refines.complete enough bounded

/-- What a run keeps, by the steps of it: the sequencer in memory means the state
after the same calls. -/
theorem Refines.run (refines : Refines base seq Nullable.sequencerInit)
    (run : Run (SequencerStep fuel) seq calls seq') :
    ∃ state, nullableRun (calls.map SequencerCall.allocationCall) = some state ∧ Refines base seq' state ∧
      state.seq.length < 2 ^ 31 := by
  refine run.invariant (fun calls seq' => ∃ state, nullableRun (calls.map SequencerCall.allocationCall) = some state ∧
    Refines base seq' state ∧ state.seq.length < 2 ^ 31) ⟨_, rfl, refines, Nat.two_pow_pos 31⟩ ?_
  rintro calls seq next seq' _ ⟨state, before, refines, bounded⟩ ⟨valid, answer, ran⟩
  have agrees := refines.call bounded valid
  have count := refines.count bounded
  have room := valid.room
  rw [ran] at agrees
  generalize answered : nullableAnswer state next.allocationCall = after at agrees
  cases agrees with
  | @returned _ _ state' refines' =>
    refine ⟨state', ?_, refines', ?_⟩
    · rw [List.map_append, List.map_singleton, nullableRun_append, before, Option.bind_some, nullableCall_eq, answered]
      rfl
    · have longer := length_nullableAnswer _ answered
      omega

end Runs

end UCP.Pointer

import Mathlib.Algebra.Group.Int.Defs
import UCP.PointerSequencer
import UCP.ServerRuns

namespace UCP.Pointer

/-- `sequencer_t` without the memory of its elements and ranges. -/
structure SequencerHead (Addr : Type) where
  seq : ListHead Addr
  maxSeqNo : UInt32
  expectedLastSeqNo : UInt32

def SequencerHead.at {Addr : Type} (head : SequencerHead Addr) (heap : Heap Addr Addr)
    (items : ObjectHeap Addr SequencerItem) : Sequencer Addr where
  seq := head.seq.at heap
  maxSeqNo := head.maxSeqNo
  expectedLastSeqNo := head.expectedLastSeqNo
  items

def Sequencer.head {Addr : Type} (seq : Sequencer Addr) : SequencerHead Addr where
  seq := seq.seq.head
  maxSeqNo := seq.maxSeqNo
  expectedLastSeqNo := seq.expectedLastSeqNo

/-- What the two threads of the server own and share, with the memory of the
process: list elements, queue items and ranges. `destroyed` says that
`sequencer_destroy` has been called. -/
structure ServerProcess (Addr : Type) where
  receiving : ReceivingThread
  handle : FileIoPartitionHandle
  seqQueue : ListHead Addr
  sequencer : SequencerHead Addr
  seqNo : UInt32
  flag : UInt32
  isLast : Bool
  pc : SequencingPc
  destroyed : Bool
  heap : Heap Addr Addr
  items : ObjectHeap Addr SequencingQueueItem
  ranges : ObjectHeap Addr SequencerItem

section Queue

variable {Addr : Type} [DecidableEq Addr]

/-- `sequencing_queue_push`; the result of the first `malloc` is written to unchecked. -/
def sequencingQueuePush (queue : LinkedList Addr Addr) (items : ObjectHeap Addr SequencingQueueItem)
    (seqNo flag : UInt32) (isLast : Bool) (allocation : ObjectAllocation Addr) :
    Except (HeapFault Addr) (LinkedList Addr Addr × ObjectHeap Addr SequencingQueueItem) :=
  let (item, items) := items.malloc allocation.obj ⟨seqNo, flag, isLast⟩
  if item = none then .error .nullPointer
  else do
    let (_, queue) ← linkedListAppend queue item allocation.elem
    pure (queue, items)

def sequencingQueuePop (queue : LinkedList Addr Addr) (items : ObjectHeap Addr SequencingQueueItem) :
    Except (HeapFault Addr)
      (Option SequencingQueueItem × LinkedList Addr Addr × ObjectHeap Addr SequencingQueueItem) := do
  let elem ← linkedListFirst queue
  match elem with
  | none => pure (none, queue, items)
  | some elem => do
    let obj ← queue.obj (some elem)
    let item ← items.load obj
    let queue ← linkedListUnlink queue (some elem)
    let items ← items.free obj
    pure (some item, queue, items)

end Queue

section Process

variable {Addr : Type}

def ServerProcess.queue (p : ServerProcess Addr) : LinkedList Addr Addr := p.seqQueue.at p.heap

def ServerProcess.setQueue (p : ServerProcess Addr) (queue : LinkedList Addr Addr)
    (items : ObjectHeap Addr SequencingQueueItem) : ServerProcess Addr :=
  { p with seqQueue := queue.head, heap := queue.heap, items }

def ServerProcess.seq (p : ServerProcess Addr) : Sequencer Addr := p.sequencer.at p.heap p.ranges

def ServerProcess.setSeq (p : ServerProcess Addr) (seq : Sequencer Addr) : ServerProcess Addr :=
  { p with sequencer := seq.head, heap := seq.seq.heap, ranges := seq.items }

variable [DecidableEq Addr]

/-- What `main` and the start of `sequencing_thread` do to the memory of the
process: the queue lies on the stack of `main`, its `num_members` is whatever is
there, and `sequencer_init` makes the sequencer. -/
def serverProcessStart (memory : Memory Addr SequencerItem) (items : ObjectHeap Addr SequencingQueueItem)
    (handle : FileIoPartitionHandle) (numMembers : Int32) (queue : Addr) (junk : LinkedListElem Addr Addr)
    (sequencer : Option Addr) : Except (HeapFault Addr) (Option (ServerProcess Addr)) := do
  let (_, list) ← linkedListInit { numMembers, anchor := queue, heap := memory.heap.set queue (some junk) }
  let seq ← sequencerInit { memory with heap := list.heap } sequencer
  pure (seq.map fun seq =>
    { receiving := receivingThreadStart, handle, seqQueue := list.head, sequencer := seq.head, seqNo := 0, flag := 0,
      isLast := false, pc := .test, destroyed := false, heap := seq.seq.heap, items, ranges := seq.items })

/-- The rest of the loop body of `receiving_thread`. After a failed save the
thread returns. -/
def receivingThreadPush (item : SequencingQueueItem) (p : ServerProcess Addr) (allocation : ObjectAllocation Addr) :
    Except (HeapFault Addr) (ServerProcess Addr) := do
  let (queue, items) ← sequencingQueuePush p.queue p.items item.seqNo item.flag item.isLast allocation
  let receiving := { p.receiving with pc := if item.flag = ucpFlagNack then .returned else .receive }
  pure { p.setQueue queue items with receiving }

/-- One step of `sequencing_thread`, with the control packet it sends, if any. -/
def sequencingThreadStep (fuel : Nat) (p : ServerProcess Addr) (allocation : ObjectAllocation Addr) :
    Except (HeapFault Addr) (Option (ServerProcess Addr × Option (UInt32 × UInt32))) :=
  match p.pc with
  | .test => do
    let (complete, seq) ← sequencerComplete fuel p.seq
    pure (some ({ p.setSeq seq with pc := if complete then .fin else .pop }, none))
  | .pop => do
    let (popped, queue, items) ← sequencingQueuePop p.queue p.items
    match popped with
    | some item =>
      pure (some ({ p.setQueue queue items with
        seqNo := item.seqNo, flag := item.flag, isLast := item.isLast, pc := .reply }, none))
    | none => pure (some ({ p.setQueue queue items with pc := .test }, none))
  | .reply => pure (some ({ p with pc := .add }, some (p.seqNo, p.flag)))
  | .add => do
    let (_, seq) ← sequencerAdd fuel p.seq p.seqNo (p.flag == ucpFlagDataEnd) allocation
    let todo ← sequencerIterateMissingSegments fuel seq (fun seqNo sent => sent ++ [seqNo]) []
    pure (some ({ p.setSeq seq with pc := .missing todo }, none))
  | .missing (seqNo :: todo) => pure (some ({ p with pc := .missing todo }, some (seqNo, ucpFlagNack)))
  | .missing [] => pure (some ({ p with pc := .test }, none))
  | .fin => pure (some ({ p with pc := .returned }, some (p.sequencer.expectedLastSeqNo, ucpFlagFin)))
  | .returned => pure none

/-- The call of `sequencer_destroy` at the end of `sequencing_thread`. -/
def sequencingThreadDestroy (fuel : Nat) (p : ServerProcess Addr) :
    Except (HeapFault Addr) (ServerProcess Addr) := do
  let memory ← sequencerDestroy fuel p.seq
  pure { p with heap := memory.heap, ranges := memory.objects, destroyed := true }

/-- The count of the ranges stays an `int`, with one more range, and the fuel is
enough for the loops over them. -/
def ServerProcess.Room (p : ServerProcess Addr) (fuel : Nat) : Prop :=
  (linkedListLength p.seq.seq).toInt + 1 < 2 ^ 31 ∧ (linkedListLength p.seq.seq).toInt + 1 ≤ fuel

/-- One step of one of the two threads, in any order, as in `ServerStep`. What
`malloc` returns is never null here and not in use. -/
inductive ProcessStep (arrives : List UInt8 → Prop) (p : ServerProcess Addr) :
    ServerEvent → ServerProcess Addr → Prop
  | save {datagram io thread handle item} : arrives datagram → p.receiving.pc = .receive →
      receivingThreadReceive datagram io p.receiving p.handle = .ok (thread, handle) → thread.pc = .push item →
      ProcessStep arrives p (.saved thread.rcvPkt (item.flag == ucpFlagAck)) { p with receiving := thread, handle }
  | ignore {datagram io thread handle} : arrives datagram → p.receiving.pc = .receive →
      receivingThreadReceive datagram io p.receiving p.handle = .ok (thread, handle) →
      (∀ item, thread.pc ≠ .push item) → ProcessStep arrives p .silent { p with receiving := thread, handle }
  | receiveError : p.receiving.pc = .receive →
      ProcessStep arrives p .silent { p with receiving := { p.receiving with pc := .returned } }
  | push {item p'} {allocation : ObjectAllocation Addr} : p.receiving.pc = .push item →
      allocation.Fresh p.queue p.items → allocation.obj ≠ none →
      receivingThreadPush item p allocation = .ok p' → ProcessStep arrives p .silent p'
  | sequence {fuel p' sent} {allocation : ObjectAllocation Addr} : p.Room fuel →
      allocation.Fresh p.seq.seq p.ranges → allocation.obj ≠ none →
      sequencingThreadStep fuel p allocation = .ok (some (p', sent)) → ProcessStep arrives p (sentEvent sent) p'
  | cancel : p.pc = .returned →
      ProcessStep arrives p .silent { p with receiving := { p.receiving with pc := .returned } }
  | destroy {fuel p'} : p.Room fuel → p.pc = .returned → p.destroyed = false →
      sequencingThreadDestroy fuel p = .ok p' → ProcessStep arrives p .silent p'

end Process

end UCP.Pointer

import UCP.ObjectHeap
import UCP.Sequencer

namespace UCP.Pointer

/-- `sequencer_t`, whose linked list holds pointers to the ranges, together with
the memory that the ranges lie in. Its address is that of the anchor of the list. -/
structure Sequencer (Addr : Type) where
  seq : LinkedList Addr Addr
  maxSeqNo : UInt32
  expectedLastSeqNo : UInt32
  items : ObjectHeap Addr SequencerItem

def setFirstSeqNo {Addr : Type} [DecidableEq Addr] (items : ObjectHeap Addr SequencerItem) (item : Option Addr)
    (firstSeqNo : UInt32) : Except (HeapFault Addr) (ObjectHeap Addr SequencerItem) :=
  items.store item fun old => { old with firstSeqNo }

def setLastSeqNo {Addr : Type} [DecidableEq Addr] (items : ObjectHeap Addr SequencerItem) (item : Option Addr)
    (lastSeqNo : UInt32) : Except (HeapFault Addr) (ObjectHeap Addr SequencerItem) :=
  items.store item fun old => { old with lastSeqNo }

section Functions

variable {Addr : Type} [DecidableEq Addr]

/-- `sequencer_init`; null when its `malloc` returns null. -/
def sequencerInit (memory : Memory Addr SequencerItem) (allocation : Option Addr) :
    Except (HeapFault Addr) (Option (Sequencer Addr)) :=
  match allocation with
  | none => pure none
  | some anchor => do
    let zeroed := memory.heap.set anchor (some ⟨none, none, none⟩)
    let (_, seq) ← linkedListInit { numMembers := 0, anchor, heap := zeroed }
    pure (some { seq, maxSeqNo := 0, expectedLastSeqNo := uint32Max, items := memory.objects })

/-- `create_sequencer_range`; it returns null when `malloc` does. -/
def createSequencerRange (items : ObjectHeap Addr SequencerItem) (allocation : Option Addr)
    (firstSeq lastSeq : UInt32) :
    Option Addr × ObjectHeap Addr SequencerItem :=
  items.malloc allocation ⟨firstSeq, lastSeq⟩

/-- The loop of `sequencer_check`, for as many iterations as there is fuel. -/
def sequencerCheckLoop (seq : Sequencer Addr) (seqNo : UInt32) : Nat → Option Addr → Except (HeapFault Addr) Bool
  | _, none => pure false
  | 0, some _ => .error .outOfFuel
  | fuel + 1, some elem => do
    let obj ← seq.seq.obj (some elem)
    let item ← seq.items.load obj
    if item.contains seqNo then pure true
    else do
      let nextElem ← linkedListNext seq.seq (some elem)
      sequencerCheckLoop seq seqNo fuel nextElem

def sequencerCheck (fuel : Nat) (seq : Sequencer Addr) (seqNo : UInt32) : Except (HeapFault Addr) Bool := do
  let elem ← linkedListFirst seq.seq
  sequencerCheckLoop seq seqNo fuel elem

def sequencerAddBounds (seq : Sequencer Addr) (seqNo : UInt32) (isLast : Bool) : Sequencer Addr :=
  if isLast then { seq with expectedLastSeqNo := seqNo, maxSeqNo := seqNo }
  else if seq.maxSeqNo < seqNo then { seq with maxSeqNo := seqNo }
  else seq

/-- What the merges end with: `LinkedListUnlink` on the element of the range that
is merged, then `free` on the range. -/
def sequencerDrop (seq : Sequencer Addr) (elem : Addr) (obj : Option Addr) :
    Except (HeapFault Addr) (Sequencer Addr) := do
  let list ← linkedListUnlink seq.seq (some elem)
  let items ← seq.items.free obj
  pure { seq with seq := list, items }

/-- The branch of `sequencer_add` that extends the range of an element upwards. -/
def sequencerExtendLast (seq : Sequencer Addr) (seqNo : UInt32) (elem : Addr) (obj : Option Addr) :
    Except (HeapFault Addr) (Sequencer Addr) := do
  let items ← setLastSeqNo seq.items obj seqNo
  let nextElem ← linkedListNext seq.seq (some elem)
  match nextElem with
  | none => pure { seq with items }
  | some nextElem => do
    let nextObj ← seq.seq.obj (some nextElem)
    let nextItem ← items.load nextObj
    let item ← items.load obj
    if nextItem.firstSeqNo - 1 = item.lastSeqNo then do
      let items ← setLastSeqNo items obj nextItem.lastSeqNo
      sequencerDrop { seq with items } nextElem nextObj
    else pure { seq with items }

/-- The branch of `sequencer_add` that extends the range of an element downwards. -/
def sequencerExtendFirst (seq : Sequencer Addr) (seqNo : UInt32) (elem : Addr) (obj : Option Addr) :
    Except (HeapFault Addr) (Sequencer Addr) := do
  let items ← setFirstSeqNo seq.items obj seqNo
  let prevElem ← linkedListPrev seq.seq (some elem)
  match prevElem with
  | none => pure { seq with items }
  | some prevElem => do
    let prevObj ← seq.seq.obj (some prevElem)
    let prevItem ← items.load prevObj
    let item ← items.load obj
    if prevItem.lastSeqNo + 1 = item.firstSeqNo then do
      let items ← setFirstSeqNo items obj prevItem.firstSeqNo
      sequencerDrop { seq with items } prevElem prevObj
    else pure { seq with items }

/-- The branch of `sequencer_add` for an element whose range does not touch the
number. There is a result if the loop ends here. -/
def sequencerInsert (seq : Sequencer Addr) (seqNo : UInt32) (allocation : ObjectAllocation Addr) (elem : Addr)
    (obj : Option Addr) : Except (HeapFault Addr) (Option (Sequencer Addr)) := do
  let nextElem ← linkedListNext seq.seq (some elem)
  match nextElem with
  | some nextElem => do
    let nextObj ← seq.seq.obj (some nextElem)
    let item ← seq.items.load obj
    if item.lastSeqNo < seqNo then do
      -- the next range is looked at only now
      let nextItem ← seq.items.load nextObj
      if seqNo < nextItem.firstSeqNo then do
        let (range, items) := createSequencerRange seq.items allocation.obj seqNo seqNo
        let (_, list) ← linkedListInsertBefore seq.seq range (some nextElem) allocation.elem
        pure (some { seq with seq := list, items })
      else pure none
    else pure none
  | none => do
    let item ← seq.items.load obj
    if item.lastSeqNo < seqNo then do
      let (range, items) := createSequencerRange seq.items allocation.obj seqNo seqNo
      let (_, list) ← linkedListAppend seq.seq range allocation.elem
      pure (some { seq with seq := list, items })
    else pure none

/-- One iteration of the loop of `sequencer_add`; there is a result if it returns. -/
def sequencerAddRound (seq : Sequencer Addr) (seqNo : UInt32) (allocation : ObjectAllocation Addr) (elem : Addr) :
    Except (HeapFault Addr) (Option (Sequencer Addr)) := do
  let obj ← seq.seq.obj (some elem)
  let item ← seq.items.load obj
  if item.lastSeqNo + 1 = seqNo then do
    let seq ← sequencerExtendLast seq seqNo elem obj
    pure (some seq)
  else if item.firstSeqNo - 1 = seqNo then do
    let seq ← sequencerExtendFirst seq seqNo elem obj
    pure (some seq)
  else sequencerInsert seq seqNo allocation elem obj

/-- The loop of `sequencer_add`, for as many iterations as there is fuel. -/
def sequencerAddLoop (seq : Sequencer Addr) (seqNo : UInt32) (allocation : ObjectAllocation Addr) :
    Nat → Option Addr → Except (HeapFault Addr) (Bool × Sequencer Addr)
  | _, none => pure (false, seq)
  | 0, some _ => .error .outOfFuel
  | fuel + 1, some elem => do
    let returned ← sequencerAddRound seq seqNo allocation elem
    match returned with
    | some seq => pure (true, seq)
    | none => do
      let nextElem ← linkedListNext seq.seq (some elem)
      sequencerAddLoop seq seqNo allocation fuel nextElem

def sequencerAdd (fuel : Nat) (seq : Sequencer Addr) (seqNo : UInt32) (isLast : Bool)
    (allocation : ObjectAllocation Addr) : Except (HeapFault Addr) (Bool × Sequencer Addr) := do
  let seq := sequencerAddBounds seq seqNo isLast
  let recorded ← sequencerCheck fuel seq seqNo
  if recorded then pure (false, seq)
  else do
    let empty ← linkedListEmpty seq.seq
    if empty then do
      let (range, items) := createSequencerRange seq.items allocation.obj seqNo seqNo
      let (_, list) ← linkedListAppend seq.seq range allocation.elem
      pure (true, { seq with seq := list, items })
    else do
      let elem ← linkedListFirst seq.seq
      sequencerAddLoop seq seqNo allocation fuel elem

/-- One iteration of the merging pass of `sequencer_complete`. -/
def sequencerCompleteRound (seq : Sequencer Addr) (elem : Addr) : Except (HeapFault Addr) (Sequencer Addr) := do
  let obj ← seq.seq.obj (some elem)
  let nextElem ← linkedListNext seq.seq (some elem)
  match nextElem with
  | none => pure seq
  | some nextElem => do
    let nextObj ← seq.seq.obj (some nextElem)
    let item ← seq.items.load obj
    let nextItem ← seq.items.load nextObj
    if item.lastSeqNo + 1 = nextItem.firstSeqNo then do
      let items ← setLastSeqNo seq.items obj nextItem.lastSeqNo
      sequencerDrop { seq with items } nextElem nextObj
    else pure seq

/-- The merging pass of `sequencer_complete`, for as many iterations as there is fuel. -/
def sequencerCompleteLoop : Nat → Sequencer Addr → Option Addr → Except (HeapFault Addr) (Sequencer Addr)
  | _, seq, none => pure seq
  | 0, _, some _ => .error .outOfFuel
  | fuel + 1, seq, some elem => do
    let seq ← sequencerCompleteRound seq elem
    let nextElem ← linkedListNext seq.seq (some elem)
    sequencerCompleteLoop fuel seq nextElem

def sequencerComplete (fuel : Nat) (seq : Sequencer Addr) : Except (HeapFault Addr) (Bool × Sequencer Addr) := do
  let empty ← linkedListEmpty seq.seq
  if empty then pure (false, seq)
  else do
    let elem ← linkedListFirst seq.seq
    let seq ← sequencerCompleteLoop fuel seq elem
    if linkedListLength seq.seq = 1 then do
      let elem ← linkedListFirst seq.seq
      let obj ← seq.seq.obj elem
      let item ← seq.items.load obj
      pure (item.firstSeqNo == 0 && item.lastSeqNo == seq.expectedLastSeqNo, seq)
    else pure (false, seq)

/-- The loop of `sequencer_iterate_missing_segments` from `reqSeqNo` on. -/
def sequencerIterateLoop {Ctx : Type} (fuel : Nat) (seq : Sequencer Addr) (callback : UInt32 → Ctx → Ctx)
    (reqSeqNo : UInt32) (ctx : Ctx) : Except (HeapFault Addr) Ctx :=
  if reqSeqNo < seq.maxSeqNo then do
    let recorded ← sequencerCheck fuel seq reqSeqNo
    sequencerIterateLoop fuel seq callback (reqSeqNo + 1) (if !recorded then callback reqSeqNo ctx else ctx)
  else pure ctx
termination_by seq.maxSeqNo.toNat - reqSeqNo.toNat
decreasing_by
  rename_i below
  rw [UInt32.lt_iff_toNat_lt] at below
  have room := seq.maxSeqNo.toNat_lt
  simp only [UInt32.toNat_add, UInt32.reduceToNat]
  omega

def sequencerIterateMissingSegments {Ctx : Type} (fuel : Nat) (seq : Sequencer Addr) (callback : UInt32 → Ctx → Ctx)
    (ctx : Ctx) : Except (HeapFault Addr) Ctx := do
  let empty ← linkedListEmpty seq.seq
  if empty then pure ctx else sequencerIterateLoop fuel seq callback 0 ctx

/-- The loop of `sequencer_destroy`, which frees the ranges, for as many
iterations as there is fuel. -/
def sequencerFreeLoop : Nat → Sequencer Addr → Option Addr → Except (HeapFault Addr) (Sequencer Addr)
  | _, seq, none => pure seq
  | 0, _, some _ => .error .outOfFuel
  | fuel + 1, seq, some elem => do
    let obj ← seq.seq.obj (some elem)
    let items ← seq.items.free obj
    let nextElem ← linkedListNext seq.seq (some elem)
    sequencerFreeLoop fuel { seq with items } nextElem

/-- `sequencer_destroy`, with the memory that it leaves. -/
def sequencerDestroy (fuel : Nat) (seq : Sequencer Addr) : Except (HeapFault Addr) (Memory Addr SequencerItem) := do
  let elem ← linkedListFirst seq.seq
  let seq ← sequencerFreeLoop fuel seq elem
  let list ← linkedListUnlinkAll fuel seq.seq
  let heap ← list.heap.free (some list.anchor)
  pure { heap, objects := seq.items }

end Functions

end UCP.Pointer

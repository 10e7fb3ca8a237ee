import Mathlib.Data.List.Basic

namespace UCP

/-- `sequencer_item_t`, a range of recorded sequence numbers. -/
structure SequencerItem where
  firstSeqNo : UInt32
  lastSeqNo : UInt32
  deriving DecidableEq, Repr

/-- `sequencer_t`, with its linked list of ranges as the list of their values. -/
structure Sequencer where
  seq : List SequencerItem
  maxSeqNo : UInt32
  expectedLastSeqNo : UInt32
  deriving DecidableEq, Repr

def uint32Max : UInt32 := 0xFFFFFFFF

def sequencerInit : Sequencer := { seq := [], maxSeqNo := 0, expectedLastSeqNo := uint32Max }

def SequencerItem.contains (item : SequencerItem) (seqNo : UInt32) : Bool :=
  decide (item.firstSeqNo ≤ seqNo) && decide (seqNo ≤ item.lastSeqNo)

def sequencerCheck (seq : Sequencer) (seqNo : UInt32) : Bool := seq.seq.any (·.contains seqNo)

/-- The loop of `sequencer_add`, standing at the first element of its last
argument; `before` is the part of the list already walked past. The result is
the return value and the list the loop leaves. -/
def sequencerAddWalk (seqNo : UInt32) (before : List SequencerItem) :
    List SequencerItem → Bool × List SequencerItem
  | [] => (false, before)
  | item :: after =>
    if item.lastSeqNo + 1 = seqNo then
      let item := { item with lastSeqNo := seqNo }
      match after with
      | nextItem :: rest =>
        if nextItem.firstSeqNo - 1 = item.lastSeqNo then
          (true, before ++ { item with lastSeqNo := nextItem.lastSeqNo } :: rest)
        else (true, before ++ item :: after)
      | [] => (true, before ++ [item])
    else if item.firstSeqNo - 1 = seqNo then
      let item := { item with firstSeqNo := seqNo }
      match before.getLast? with
      | some prevItem =>
        if prevItem.lastSeqNo + 1 = item.firstSeqNo then
          (true, before.dropLast ++ { item with firstSeqNo := prevItem.firstSeqNo } :: after)
        else (true, before ++ item :: after)
      | none => (true, before ++ item :: after)
    else
      match after with
      | nextItem :: _ =>
        if item.lastSeqNo < seqNo ∧ seqNo < nextItem.firstSeqNo then
          (true, before ++ item :: ⟨seqNo, seqNo⟩ :: after)
        else sequencerAddWalk seqNo (before ++ [item]) after
      | [] =>
        if item.lastSeqNo < seqNo then (true, before ++ [item, ⟨seqNo, seqNo⟩])
        else sequencerAddWalk seqNo (before ++ [item]) after

/-- The update of the two bounds at the head of `sequencer_add`. -/
def sequencerAddBounds (seq : Sequencer) (seqNo : UInt32) (isLast : Bool) : Sequencer :=
  if isLast then { seq with expectedLastSeqNo := seqNo, maxSeqNo := seqNo }
  else if seq.maxSeqNo < seqNo then { seq with maxSeqNo := seqNo }
  else seq

/-- `sequencer_add` (allocations succeeding). -/
def sequencerAdd (seq : Sequencer) (seqNo : UInt32) (isLast : Bool) : Bool × Sequencer :=
  let seq := sequencerAddBounds seq seqNo isLast
  if sequencerCheck seq seqNo then (false, seq)
  else if seq.seq.isEmpty then (true, { seq with seq := [⟨seqNo, seqNo⟩] })
  else
    let (result, items) := sequencerAddWalk seqNo [] seq.seq
    (result, { seq with seq := items })

/-- The merging pass of `sequencer_complete`: after a merge the walk goes on
behind the merged pair, without comparing it to its new neighbour. -/
def sequencerCompleteWalk : List SequencerItem → List SequencerItem
  | item :: nextItem :: rest =>
    if item.lastSeqNo + 1 = nextItem.firstSeqNo then
      { item with lastSeqNo := nextItem.lastSeqNo } :: sequencerCompleteWalk rest
    else item :: sequencerCompleteWalk (nextItem :: rest)
  | items => items

def sequencerComplete (seq : Sequencer) : Bool × Sequencer :=
  if seq.seq.isEmpty then (false, seq)
  else
    let items := sequencerCompleteWalk seq.seq
    let result :=
      match items with
      | [item] => item.firstSeqNo == 0 && item.lastSeqNo == seq.expectedLastSeqNo
      | _ => false
    (result, { seq with seq := items })

/-- The arguments of the callback, in the order of the calls. -/
def sequencerIterateMissingSegments (seq : Sequencer) : List UInt32 :=
  if seq.seq.isEmpty then []
  else ((List.range seq.maxSeqNo.toNat).map UInt32.ofNat).filter (!sequencerCheck seq ·)

/-- The loop of `sequencer_iterate_missing_segments` from `reqSeqNo` on. The
callback gets no access to the sequencer, only to its own context. -/
def sequencerIterateLoop {Ctx : Type} (seq : Sequencer) (callback : UInt32 → Ctx → Ctx) (reqSeqNo : UInt32)
    (ctx : Ctx) : Sequencer × Ctx :=
  if reqSeqNo < seq.maxSeqNo then
    sequencerIterateLoop seq callback (reqSeqNo + 1)
      (if !sequencerCheck seq reqSeqNo then callback reqSeqNo ctx else ctx)
  else (seq, ctx)
termination_by seq.maxSeqNo.toNat - reqSeqNo.toNat
decreasing_by
  rename_i below
  rw [UInt32.lt_iff_toNat_lt] at below
  have room := seq.maxSeqNo.toNat_lt
  simp only [UInt32.toNat_add, UInt32.reduceToNat]
  omega

/-- `sequencer_iterate_missing_segments`. -/
def sequencerIterateMissingSegmentsWith {Ctx : Type} (seq : Sequencer) (callback : UInt32 → Ctx → Ctx) (ctx : Ctx) :
    Sequencer × Ctx :=
  if seq.seq.isEmpty then (seq, ctx) else sequencerIterateLoop seq callback 0 ctx

end UCP

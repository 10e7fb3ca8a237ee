import UCP.Sequencer

namespace UCP.Nullable

/-- `sequencer_t` with the objects of its list as pointers, which may be null.
The functions on it have no result when they follow a null pointer. -/
structure Sequencer where
  seq : List (Option SequencerItem)
  maxSeqNo : UInt32
  expectedLastSeqNo : UInt32
  deriving DecidableEq

def sequencerInit : Sequencer := { seq := [], maxSeqNo := 0, expectedLastSeqNo := uint32Max }

/-- `create_sequencer_range`; it returns null when `malloc` does. -/
def createSequencerRange (allocates : Bool) (firstSeq lastSeq : UInt32) : Option SequencerItem :=
  if allocates then some ⟨firstSeq, lastSeq⟩ else none

def sequencerCheckLoop (seqNo : UInt32) : List (Option SequencerItem) → Option Bool
  | [] => some false
  | obj :: rest => do
    let item ← obj
    if item.contains seqNo then some true else sequencerCheckLoop seqNo rest

def sequencerCheck (seq : Sequencer) (seqNo : UInt32) : Option Bool := sequencerCheckLoop seqNo seq.seq

/-- The loop of `sequencer_add`. `newRange` is what `create_sequencer_range`
returns when one of the three insertion sites calls it. -/
def sequencerAddWalk (newRange : Option SequencerItem) (seqNo : UInt32) (before : List (Option SequencerItem)) :
    List (Option SequencerItem) → Option (Bool × List (Option SequencerItem))
  | [] => some (false, before)
  | obj :: after => do
    let item ← obj
    if item.lastSeqNo + 1 = seqNo then
      let item := { item with lastSeqNo := seqNo }
      match after with
      | nextObj :: rest => do
        let nextItem ← nextObj
        if nextItem.firstSeqNo - 1 = item.lastSeqNo then
          some (true, before ++ some { item with lastSeqNo := nextItem.lastSeqNo } :: rest)
        else some (true, before ++ some item :: after)
      | [] => some (true, before ++ [some item])
    else if item.firstSeqNo - 1 = seqNo then
      let item := { item with firstSeqNo := seqNo }
      match before.getLast? with
      | some prevObj => do
        let prevItem ← prevObj
        if prevItem.lastSeqNo + 1 = item.firstSeqNo then
          some (true, before.dropLast ++ some { item with firstSeqNo := prevItem.firstSeqNo } :: after)
        else some (true, before ++ some item :: after)
      | none => some (true, before ++ some item :: after)
    else
      match after with
      | nextObj :: _ =>
        -- the second comparison, and with it the next range, only when the first holds
        if item.lastSeqNo < seqNo then do
          let nextItem ← nextObj
          if seqNo < nextItem.firstSeqNo then some (true, before ++ some item :: newRange :: after)
          else sequencerAddWalk newRange seqNo (before ++ [some item]) after
        else sequencerAddWalk newRange seqNo (before ++ [some item]) after
      | [] =>
        if item.lastSeqNo < seqNo then some (true, before ++ [some item, newRange])
        else sequencerAddWalk newRange seqNo (before ++ [some item]) after

def sequencerAddBounds (seq : Sequencer) (seqNo : UInt32) (isLast : Bool) : Sequencer :=
  if isLast then { seq with expectedLastSeqNo := seqNo, maxSeqNo := seqNo }
  else if seq.maxSeqNo < seqNo then { seq with maxSeqNo := seqNo }
  else seq

/-- `sequencer_add`; `allocates` says how `malloc` turns out for a new range. The
nodes of the list themselves are always allocated. -/
def sequencerAdd (seq : Sequencer) (seqNo : UInt32) (isLast : Bool) (allocates : Bool) :
    Option (Bool × Sequencer) := do
  let seq := sequencerAddBounds seq seqNo isLast
  let newRange := createSequencerRange allocates seqNo seqNo
  let recorded ← sequencerCheck seq seqNo
  if recorded then some (false, seq)
  else if seq.seq.isEmpty then some (true, { seq with seq := [newRange] })
  else
    let (result, objs) ← sequencerAddWalk newRange seqNo [] seq.seq
    some (result, { seq with seq := objs })

def sequencerCompleteWalk : List (Option SequencerItem) → Option (List (Option SequencerItem))
  | obj :: nextObj :: rest => do
    let item ← obj
    let nextItem ← nextObj
    if item.lastSeqNo + 1 = nextItem.firstSeqNo then
      let merged ← sequencerCompleteWalk rest
      some (some { item with lastSeqNo := nextItem.lastSeqNo } :: merged)
    else
      let merged ← sequencerCompleteWalk (nextObj :: rest)
      some (obj :: merged)
  | objs => some objs

def sequencerComplete (seq : Sequencer) : Option (Bool × Sequencer) :=
  if seq.seq.isEmpty then some (false, seq)
  else do
    let objs ← sequencerCompleteWalk seq.seq
    let result ←
      match objs with
      | [obj] => do
        let item ← obj
        some (item.firstSeqNo == 0 && item.lastSeqNo == seq.expectedLastSeqNo)
      | _ => some false
    some (result, { seq with seq := objs })

end UCP.Nullable

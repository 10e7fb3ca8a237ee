import Mathlib.Algebra.Group.Nat.Defs
import UCP.NullableSequencer
import UCP.PointerSequencer

namespace UCP.Pointer

/-- The sequencer in memory holds these cells, whose objects are its ranges. -/
abbrev Holds {Addr : Type} (base : Memory Addr SequencerItem) (seq : Sequencer Addr)
    (cells : List (Cell Addr SequencerItem)) : Prop :=
  UCP.Holds base seq.seq seq.items cells

/-- What the sequencer in memory means. -/
def Sequencer.nullable {Addr : Type} (seq : Sequencer Addr) (cells : List (Cell Addr SequencerItem)) :
    Nullable.Sequencer where
  seq := cells.map Cell.value
  maxSeqNo := seq.maxSeqNo
  expectedLastSeqNo := seq.expectedLastSeqNo

/-- The sequencer in memory means this state, and owns nothing but the cells of it. -/
def Refines {Addr : Type} (base : Memory Addr SequencerItem) (seq : Sequencer Addr)
    (state : Nullable.Sequencer) : Prop :=
  ∃ cells, Holds base seq cells ∧ state = seq.nullable cells

/-- A call on the sequencer in memory does what the call on its state does; where
that follows a null pointer, so does the one in memory. -/
inductive Agrees {Addr α : Type} (base : Memory Addr SequencerItem) :
    Except (HeapFault Addr) (α × Sequencer Addr) → Option (α × Nullable.Sequencer) → Prop
  | fault : Agrees base (.error .nullPointer) none
  | returned {answer seq state} : Refines base seq state → Agrees base (.ok (answer, seq)) (some (answer, state))

theorem newRange_value {Addr : Type} (allocation : ObjectAllocation Addr) (addr : Addr) (s : UInt32) :
    (allocation.cell addr (⟨s, s⟩ : SequencerItem)).value = Nullable.createSequencerRange allocation.obj.isSome s s := by
  rcases allocation with ⟨_ | obj, elem⟩ <;> rfl

theorem sequencerDrop_eq {Addr : Type} [DecidableEq Addr] {seq : Sequencer Addr} {elem : Addr} {obj : Option Addr}
    {list : LinkedList Addr Addr} {items : ObjectHeap Addr SequencerItem}
    (unlinked : linkedListUnlink seq.seq (some elem) = .ok list) (freed : seq.items.free obj = .ok items) :
    sequencerDrop seq elem obj = .ok { seq with seq := list, items } := by
  rw [sequencerDrop, unlinked, Except.ok_bind, freed]
  rfl

section Loops

variable {Addr : Type} [DecidableEq Addr] {base : Memory Addr SequencerItem} {seq : Sequencer Addr}
  {cells left right : List (Cell Addr SequencerItem)}
  {addr obj : Addr} {item : SequencerItem} {s : UInt32} {fuel : Nat}

theorem Holds.checkLoop (holds : Holds base seq (left ++ right)) (enough : right.length ≤ fuel) (s : UInt32) :
    sequencerCheckLoop seq s fuel (right.head?.map Cell.addr) =
      (Nullable.sequencerCheckLoop s (right.map Cell.value)).elim (.error .nullPointer) .ok := by
  induction right generalizing left fuel with
  | nil => cases fuel <;> rfl
  | cons cell right ih =>
    obtain ⟨fuel, rfl⟩ : ∃ rest, fuel = rest + 1 := ⟨fuel - 1, by rw [List.length_cons] at enough; omega⟩
    have onward : Holds base seq ((left ++ [cell]) ++ right) := by rwa [List.append_assoc, List.singleton_append]
    have rest := ih onward (Nat.le_of_succ_le_succ enough)
    rw [List.head?_cons, Option.map_some, sequencerCheckLoop, holds.objAt, Except.ok_bind, List.map_cons,
      Nullable.sequencerCheckLoop]
    rcases cell with ⟨addr, _ | ⟨obj, item⟩⟩
    · rfl
    · have loaded : seq.items.load (Cell.obj ⟨addr, some (obj, item)⟩) = .ok item := holds.load
      have value : Cell.value ⟨addr, some (obj, item)⟩ = some item := rfl
      rw [loaded, Except.ok_bind, value, Option.bind_eq_bind, Option.bind_some]
      by_cases here : item.contains s = true
      · rw [if_pos here, if_pos here]
        rfl
      · rw [if_neg here, if_neg here, holds.next, Except.ok_bind]
        exact rest

theorem Holds.check (holds : Holds base seq cells) (enough : cells.length ≤ fuel) (s : UInt32) :
    sequencerCheck fuel seq s = (Nullable.sequencerCheck (seq.nullable cells) s).elim (.error .nullPointer) .ok := by
  have holds : Holds base seq ([] ++ cells) := holds
  rw [sequencerCheck, holds.first, Except.ok_bind]
  exact holds.checkLoop enough s

theorem Holds.extendLast (holds : Holds base seq (left ++ ⟨addr, some (obj, item)⟩ :: right))
    (touches : item.lastSeqNo + 1 = s) (newRange : Option SequencerItem) :
    Agrees base ((true, ·) <$> sequencerExtendLast seq s addr (some obj))
      ((Nullable.sequencerAddWalk newRange s (left.map Cell.value) (some item :: right.map Cell.value)).map
        fun (result, objs) => (result, ⟨objs, seq.maxSeqNo, seq.expectedLastSeqNo⟩)) := by
  obtain ⟨items, stored, holds'⟩ := holds.store fun old => { old with lastSeqNo := s }
  have stored : setLastSeqNo seq.items (some obj) s = .ok items := stored
  rw [Nullable.sequencerAddWalk, Option.bind_eq_bind, Option.bind_some, if_pos touches, sequencerExtendLast, stored,
    Except.ok_bind, holds.next, Except.ok_bind]
  rcases right with _ | ⟨⟨nextAddr, _ | ⟨nextObj, nextItem⟩⟩, right⟩
  · refine .returned ⟨_, holds', ?_⟩
    simp [Sequencer.nullable]
  · have atNext : seq.seq.obj (some nextAddr) = .ok none := holds'.onward.objAt
    simp only [List.head?_cons, Option.map_some, atNext, Except.ok_bind]
    exact .fault
  · have atNext : seq.seq.obj (some nextAddr) = .ok (some nextObj) := holds'.onward.objAt
    have loadNext : items.load (some nextObj) = .ok nextItem := holds'.onward.load
    have load : items.load (some obj) = .ok { item with lastSeqNo := s } := holds'.load
    simp only [List.head?_cons, List.map_cons, Option.map_some, atNext, loadNext, load, Except.ok_bind,
      Cell.value_some, Option.bind_some]
    by_cases touching : nextItem.firstSeqNo - 1 = s
    · obtain ⟨items', stored', list, items'', unlinked, freed, merged⟩ :=
        holds'.mergeNext fun old => { old with lastSeqNo := nextItem.lastSeqNo }
      have stored' : setLastSeqNo items (some obj) nextItem.lastSeqNo = .ok items' := stored'
      have dropped : sequencerDrop { seq with items := items' } nextAddr (some nextObj) =
          .ok { seq with seq := list, items := items'' } := sequencerDrop_eq unlinked freed
      rw [if_pos touching, if_pos touching, stored', Except.ok_bind, dropped, Except.ok_map]
      refine .returned ⟨_, merged, ?_⟩
      simp [Sequencer.nullable]
    · rw [if_neg touching, if_neg touching]
      refine .returned ⟨_, holds', ?_⟩
      simp [Sequencer.nullable]

theorem Holds.extendFirst (holds : Holds base seq (left ++ ⟨addr, some (obj, item)⟩ :: right))
    (apart : item.lastSeqNo + 1 ≠ s) (touches : item.firstSeqNo - 1 = s) (newRange : Option SequencerItem) :
    Agrees base ((true, ·) <$> sequencerExtendFirst seq s addr (some obj))
      ((Nullable.sequencerAddWalk newRange s (left.map Cell.value) (some item :: right.map Cell.value)).map
        fun (result, objs) => (result, ⟨objs, seq.maxSeqNo, seq.expectedLastSeqNo⟩)) := by
  obtain ⟨items, stored, holds'⟩ := holds.store fun old => { old with firstSeqNo := s }
  have stored : setFirstSeqNo seq.items (some obj) s = .ok items := stored
  rw [Nullable.sequencerAddWalk, Option.bind_eq_bind, Option.bind_some, if_neg apart, if_pos touches,
    sequencerExtendFirst, stored, Except.ok_bind, holds.prev, Except.ok_bind, List.getLast?_map]
  rcases List.eq_nil_or_concat left with rfl | ⟨left, ⟨prevAddr, range⟩, rfl⟩
  · refine .returned ⟨_, holds', ?_⟩
    simp [Sequencer.nullable]
  rw [List.concat_eq_append] at holds' ⊢
  have first : Holds base { seq with items } (left ++ ⟨prevAddr, range⟩ ::
      ⟨addr, some (obj, { item with firstSeqNo := s })⟩ :: right) := by
    rwa [List.append_assoc, List.singleton_append] at holds'
  rcases range with _ | ⟨prevObj, prevItem⟩
  · have atPrev : seq.seq.obj (some prevAddr) = .ok none := first.objAt
    simp only [List.getLast?_concat, Option.map_some, atPrev, Except.ok_bind]
    exact .fault
  · have atPrev : seq.seq.obj (some prevAddr) = .ok (some prevObj) := first.objAt
    have loadPrev : items.load (some prevObj) = .ok prevItem := first.load
    have load : items.load (some obj) = .ok { item with firstSeqNo := s } := holds'.load
    simp only [List.getLast?_concat, Option.map_some, atPrev, loadPrev, load, Except.ok_bind, Cell.value_some,
      Option.bind_some]
    by_cases touching : prevItem.lastSeqNo + 1 = s
    · obtain ⟨items', stored', list, items'', unlinked, freed, merged⟩ :=
        holds'.mergePrev fun old => { old with firstSeqNo := prevItem.firstSeqNo }
      have stored' : setFirstSeqNo items (some obj) prevItem.firstSeqNo = .ok items' := stored'
      have dropped : sequencerDrop { seq with items := items' } prevAddr (some prevObj) =
          .ok { seq with seq := list, items := items'' } := sequencerDrop_eq unlinked freed
      rw [if_pos touching, if_pos touching, stored', Except.ok_bind, dropped, Except.ok_map]
      refine .returned ⟨_, merged, ?_⟩
      simp [Sequencer.nullable]
    · rw [if_neg touching, if_neg touching]
      refine .returned ⟨_, holds', ?_⟩
      simp [Sequencer.nullable]

variable {allocation : ObjectAllocation Addr}

/-- An iteration that does not return leaves the walk one element further on. -/
theorem Holds.insert (holds : Holds base seq (left ++ ⟨addr, some (obj, item)⟩ :: right))
    (apartLast : item.lastSeqNo + 1 ≠ s) (apartFirst : item.firstSeqNo - 1 ≠ s)
    (fresh : allocation.Fresh seq.seq seq.items)
    {newRange : Option SequencerItem} (new : newRange = Nullable.createSequencerRange allocation.obj.isSome s s) :
    (sequencerInsert seq s allocation addr (some obj) = .ok none ∧
      Nullable.sequencerAddWalk newRange s (left.map Cell.value) (some item :: right.map Cell.value) =
        Nullable.sequencerAddWalk newRange s (left.map Cell.value ++ [some item]) (right.map Cell.value)) ∨
    ∃ result, sequencerInsert seq s allocation addr (some obj) = some <$> result ∧
      Agrees base ((true, ·) <$> result)
        ((Nullable.sequencerAddWalk newRange s (left.map Cell.value) (some item :: right.map Cell.value)).map
          fun (result, objs) => (result, ⟨objs, seq.maxSeqNo, seq.expectedLastSeqNo⟩)) := by
  have load : seq.items.load (some obj) = .ok item := holds.load
  rw [Nullable.sequencerAddWalk, Option.bind_eq_bind, Option.bind_some, if_neg apartLast, if_neg apartFirst,
    sequencerInsert, holds.next, Except.ok_bind]
  rcases right with _ | ⟨⟨nextAddr, range⟩, right⟩
  · simp only [List.head?_nil, Option.map_none, load, Except.ok_bind, List.map_nil]
    by_cases above : item.lastSeqNo < s
    · obtain ⟨list, newAddr, appended, holds'⟩ := holds.append fresh (⟨s, s⟩ : SequencerItem)
      have appended : linkedListAppend seq.seq (createSequencerRange seq.items allocation.obj s s).1 allocation.elem =
          .ok (true, list) := appended
      rw [if_pos above, if_pos above]
      refine Or.inr ⟨.ok { seq with
        seq := list, items := (createSequencerRange seq.items allocation.obj s s).2 }, ?_, .returned ⟨_, holds', ?_⟩⟩
      · rw [appended, Except.ok_bind]
        rfl
      · simp [Sequencer.nullable, newRange_value, new]
    · rw [if_neg above, if_neg above]
      exact Or.inl ⟨rfl, rfl⟩
  have atNext : seq.seq.obj (some nextAddr) = .ok (Cell.obj ⟨nextAddr, range⟩) := holds.onward.objAt
  simp only [List.head?_cons, Option.map_some, load, atNext, Except.ok_bind, List.map_cons]
  by_cases above : item.lastSeqNo < s
  · rw [if_pos above, if_pos above]
    rcases range with _ | ⟨nextObj, nextItem⟩
    · exact Or.inr ⟨.error .nullPointer, rfl, .fault⟩
    have loadNext : seq.items.load (some nextObj) = .ok nextItem := holds.onward.load
    simp only [Cell.obj_some, loadNext, Except.ok_bind, Cell.value_some, Option.bind_some]
    by_cases below : s < nextItem.firstSeqNo
    · obtain ⟨list, newAddr, inserted, holds'⟩ := holds.onward.insertBefore fresh (⟨s, s⟩ : SequencerItem)
      have inserted : linkedListInsertBefore seq.seq (createSequencerRange seq.items allocation.obj s s).1
          (some nextAddr) allocation.elem = .ok (true, list) := inserted
      rw [if_pos below, if_pos below]
      refine Or.inr ⟨.ok { seq with
        seq := list, items := (createSequencerRange seq.items allocation.obj s s).2 }, ?_, .returned ⟨_, holds', ?_⟩⟩
      · rw [inserted, Except.ok_bind]
        rfl
      · simp [Sequencer.nullable, newRange_value, new]
    · rw [if_neg below, if_neg below]
      exact Or.inl ⟨rfl, rfl⟩
  · rw [if_neg above, if_neg above]
    exact Or.inl ⟨rfl, rfl⟩

theorem Holds.addRound {cell : Cell Addr SequencerItem} (holds : Holds base seq (left ++ cell :: right))
    (fresh : allocation.Fresh seq.seq seq.items) {newRange : Option SequencerItem}
    (new : newRange = Nullable.createSequencerRange allocation.obj.isSome s s) :
    (sequencerAddRound seq s allocation cell.addr = .ok none ∧
      Nullable.sequencerAddWalk newRange s (left.map Cell.value) (cell.value :: right.map Cell.value) =
        Nullable.sequencerAddWalk newRange s (left.map Cell.value ++ [cell.value]) (right.map Cell.value)) ∨
    ∃ result, sequencerAddRound seq s allocation cell.addr = some <$> result ∧
      Agrees base ((true, ·) <$> result)
        ((Nullable.sequencerAddWalk newRange s (left.map Cell.value) (cell.value :: right.map Cell.value)).map
          fun (result, objs) => (result, ⟨objs, seq.maxSeqNo, seq.expectedLastSeqNo⟩)) := by
  rw [sequencerAddRound, holds.objAt, Except.ok_bind]
  rcases cell with ⟨addr, _ | ⟨obj, item⟩⟩
  · exact Or.inr ⟨.error .nullPointer, rfl, .fault⟩
  have load : seq.items.load (some obj) = .ok item := holds.load
  rw [Cell.obj_some, Cell.value_some, load, Except.ok_bind]
  by_cases last : item.lastSeqNo + 1 = s
  · rw [if_pos last]
    refine Or.inr ⟨_, ?_, holds.extendLast last newRange⟩
    cases sequencerExtendLast seq s addr (some obj) <;> rfl
  rw [if_neg last]
  by_cases first : item.firstSeqNo - 1 = s
  · rw [if_pos first]
    refine Or.inr ⟨_, ?_, holds.extendFirst last first newRange⟩
    cases sequencerExtendFirst seq s addr (some obj) <;> rfl
  rw [if_neg first]
  exact holds.insert last first fresh new

/-- The loop of `sequencer_add` over the elements that are left, by induction on them. -/
theorem Holds.addLoop (holds : Holds base seq (left ++ right)) (enough : right.length ≤ fuel)
    (fresh : allocation.Fresh seq.seq seq.items) {newRange : Option SequencerItem}
    (new : newRange = Nullable.createSequencerRange allocation.obj.isSome s s) :
    Agrees base (sequencerAddLoop seq s allocation fuel (right.head?.map Cell.addr))
      ((Nullable.sequencerAddWalk newRange s (left.map Cell.value) (right.map Cell.value)).map
        fun (result, objs) => (result, ⟨objs, seq.maxSeqNo, seq.expectedLastSeqNo⟩)) := by
  induction right generalizing left fuel with
  | nil =>
    have stays : sequencerAddLoop seq s allocation fuel none = .ok (false, seq) := by cases fuel <;> rfl
    refine stays ▸ .returned ⟨_, holds, ?_⟩
    simp [Sequencer.nullable]
  | cons cell right ih =>
    obtain ⟨fuel, rfl⟩ : ∃ rest, fuel = rest + 1 := ⟨fuel - 1, by rw [List.length_cons] at enough; omega⟩
    rw [List.head?_cons, Option.map_some, sequencerAddLoop, List.map_cons]
    rcases holds.addRound fresh new with ⟨goesOn, walks⟩ | ⟨result, round, agrees⟩
    · rw [goesOn, Except.ok_bind, walks, holds.next, Except.ok_bind]
      have rest := ih holds.onward (Nat.le_of_succ_le_succ enough)
      rwa [List.map_append, List.map_singleton] at rest
    · rw [round]
      cases result <;> exact agrees

/-- An iteration of the merging pass with an element behind: what is left for the
iterations after it begins with that element, or behind it when it is merged. -/
theorem Holds.completeRound {cell next : Cell Addr SequencerItem}
    (holds : Holds base seq (left ++ cell :: next :: right)) :
    (sequencerCompleteRound seq cell.addr = .error .nullPointer ∧
      Nullable.sequencerCompleteWalk (cell.value :: next.value :: right.map Cell.value) = none) ∨
    ∃ seq' cell' rest, sequencerCompleteRound seq cell.addr = .ok seq' ∧ cell'.addr = cell.addr ∧
      Nullable.sequencerCompleteWalk (cell.value :: next.value :: right.map Cell.value) =
        (Nullable.sequencerCompleteWalk (rest.map Cell.value)).map (cell'.value :: ·) ∧
      Holds base seq' (left ++ cell' :: rest) ∧ rest.length ≤ right.length + 1 ∧
      seq'.maxSeqNo = seq.maxSeqNo ∧ seq'.expectedLastSeqNo = seq.expectedLastSeqNo := by
  rw [sequencerCompleteRound, holds.objAt, Except.ok_bind, holds.next, Except.ok_bind, Nullable.sequencerCompleteWalk]
  simp only [List.head?_cons, Option.map_some, holds.onward.objAt, Except.ok_bind]
  rcases cell with ⟨addr, _ | ⟨obj, item⟩⟩
  · exact Or.inl ⟨rfl, rfl⟩
  have load : seq.items.load (some obj) = .ok item := holds.load
  simp only [Cell.obj_some, load, Except.ok_bind, Cell.value_some, Option.bind_eq_bind, Option.bind_some]
  rcases next with ⟨nextAddr, _ | ⟨nextObj, nextItem⟩⟩
  · exact Or.inl ⟨rfl, rfl⟩
  have loadNext : seq.items.load (some nextObj) = .ok nextItem := holds.onward.load
  simp only [Cell.obj_some, loadNext, Except.ok_bind, Cell.value_some, Option.bind_some]
  by_cases touching : item.lastSeqNo + 1 = nextItem.firstSeqNo
  · obtain ⟨items, stored, list, items', unlinked, freed, holds'⟩ :=
      holds.mergeNext fun old => { old with lastSeqNo := nextItem.lastSeqNo }
    have stored : setLastSeqNo seq.items (some obj) nextItem.lastSeqNo = .ok items := stored
    have dropped : sequencerDrop { seq with items } nextAddr (some nextObj) =
        .ok { seq with seq := list, items := items' } := sequencerDrop_eq unlinked freed
    rw [if_pos touching, if_pos touching, stored, Except.ok_bind, dropped]
    refine Or.inr ⟨_, _, right, rfl, rfl, ?_, holds', Nat.le_succ _, rfl, rfl⟩
    rw [Cell.value_some, Option.map_eq_bind]
    rfl
  · rw [if_neg touching, if_neg touching]
    refine Or.inr ⟨_, _, _, rfl, rfl, ?_, holds, Nat.le_refl _, rfl, rfl⟩
    rw [Cell.value_some, Option.map_eq_bind]
    rfl

/-- The merging pass over the elements that are left, by induction on the fuel: a
merge takes two of them at once. -/
theorem Holds.completeLoop (holds : Holds base seq (left ++ right)) (enough : right.length ≤ fuel) :
    (sequencerCompleteLoop fuel seq (right.head?.map Cell.addr) = .error .nullPointer ∧
      Nullable.sequencerCompleteWalk (right.map Cell.value) = none) ∨
    ∃ seq' merged, sequencerCompleteLoop fuel seq (right.head?.map Cell.addr) = .ok seq' ∧
      Nullable.sequencerCompleteWalk (right.map Cell.value) = some (merged.map Cell.value) ∧
      Holds base seq' (left ++ merged) ∧ merged.length ≤ right.length ∧
      seq'.maxSeqNo = seq.maxSeqNo ∧ seq'.expectedLastSeqNo = seq.expectedLastSeqNo := by
  induction fuel generalizing seq left right with
  | zero =>
    obtain rfl := List.length_eq_zero_iff.mp (Nat.le_zero.mp enough)
    exact Or.inr ⟨seq, [], rfl, rfl, holds, Nat.le_refl _, rfl, rfl⟩
  | succ fuel ih =>
    rcases right with _ | ⟨cell, _ | ⟨next, right⟩⟩
    · exact Or.inr ⟨seq, [], rfl, rfl, holds, Nat.le_refl _, rfl, rfl⟩
    · refine Or.inr ⟨seq, [cell], ?_, rfl, holds, Nat.le_refl _, rfl, rfl⟩
      rw [List.head?_cons, Option.map_some, sequencerCompleteLoop, sequencerCompleteRound, holds.objAt, Except.ok_bind,
        holds.next, Except.ok_bind]
      simp only [List.head?_nil, Option.map_none, pure, Except.pure, Except.ok_bind, holds.next]
      cases fuel <;> rfl
    · rw [List.head?_cons, Option.map_some, sequencerCompleteLoop, List.map_cons, List.map_cons]
      rcases holds.completeRound with ⟨faults, walks⟩ | ⟨seq', cell', rest, round, same, walks, holds', fewer, max, last⟩
      · rw [faults, walks]
        exact Or.inl ⟨rfl, rfl⟩
      have atNext := holds'.next
      rw [same] at atNext
      rw [round, Except.ok_bind, walks, atNext, Except.ok_bind]
      rw [List.length_cons, List.length_cons] at enough ⊢
      rcases ih holds'.onward (by omega) with ⟨faults, nothing⟩ | ⟨seq'', merged, ran, merges, holds'', less, max', last'⟩
      · rw [faults, nothing]
        exact Or.inl ⟨rfl, rfl⟩
      · rw [ran, merges]
        rw [List.append_assoc, List.singleton_append] at holds''
        refine Or.inr ⟨seq'', cell' :: merged, rfl, rfl, holds'', ?_, max'.trans max, last'.trans last⟩
        rw [List.length_cons]
        omega

end Loops

section Calls

variable {Addr : Type} {base : Memory Addr SequencerItem} {seq : Sequencer Addr} {state : Nullable.Sequencer}
  {allocation : ObjectAllocation Addr} {fuel : Nat}

theorem Holds.addBounds {cells : List (Cell Addr SequencerItem)} (holds : Holds base seq cells) (s : UInt32)
    (isLast : Bool) :
    Holds base (sequencerAddBounds seq s isLast) cells ∧
      (sequencerAddBounds seq s isLast).nullable cells = Nullable.sequencerAddBounds (seq.nullable cells) s isLast ∧
      (sequencerAddBounds seq s isLast).seq = seq.seq ∧ (sequencerAddBounds seq s isLast).items = seq.items := by
  cases isLast with
  | true => exact ⟨⟨holds.list, holds.objects⟩, rfl, rfl, rfl⟩
  | false =>
    have above' : (seq.nullable cells).maxSeqNo < s ↔ seq.maxSeqNo < s := Iff.rfl
    by_cases above : seq.maxSeqNo < s
    · have raised : sequencerAddBounds seq s false = { seq with maxSeqNo := s } := by
        rw [sequencerAddBounds, if_neg Bool.false_ne_true, if_pos above]
      rw [raised, Nullable.sequencerAddBounds, if_neg Bool.false_ne_true, if_pos (above'.mpr above)]
      exact ⟨⟨holds.list, holds.objects⟩, rfl, rfl, rfl⟩
    · have stays : sequencerAddBounds seq s false = seq := by
        rw [sequencerAddBounds, if_neg Bool.false_ne_true, if_neg above]
      rw [stays, Nullable.sequencerAddBounds, if_neg Bool.false_ne_true, if_neg (above'.not.mpr above)]
      exact ⟨holds, rfl, rfl, rfl⟩

variable [DecidableEq Addr]

theorem Refines.check (refines : Refines base seq state) (enough : state.seq.length ≤ fuel) (s : UInt32) :
    sequencerCheck fuel seq s = (Nullable.sequencerCheck state s).elim (.error .nullPointer) .ok := by
  obtain ⟨cells, holds, rfl⟩ := refines
  exact holds.check (by simpa [Sequencer.nullable] using enough) s

theorem Refines.add (refines : Refines base seq state) (enough : state.seq.length ≤ fuel)
    (fresh : allocation.Fresh seq.seq seq.items) (s : UInt32) (isLast : Bool) :
    Agrees base (sequencerAdd fuel seq s isLast allocation)
      (Nullable.sequencerAdd state s isLast allocation.obj.isSome) := by
  obtain ⟨cells, holds, rfl⟩ := refines
  obtain ⟨holds', bounds, list, items⟩ := holds.addBounds s isLast
  have enough : cells.length ≤ fuel := by simpa [Sequencer.nullable] using enough
  have fresh' : allocation.Fresh (sequencerAddBounds seq s isLast).seq (sequencerAddBounds seq s isLast).items := by
    rw [list, items]
    exact fresh
  rw [sequencerAdd, Nullable.sequencerAdd, ← bounds]
  generalize sequencerAddBounds seq s isLast = seq at holds' fresh'
  simp only [holds'.check enough s]
  cases Nullable.sequencerCheck (seq.nullable cells) s with
  | none => exact .fault
  | some recorded =>
    simp only [Option.elim_some, Except.ok_bind, Option.bind_eq_bind, Option.bind_some]
    cases recorded with
    | true => exact .returned ⟨cells, holds', rfl⟩
    | false =>
      have empty : (seq.nullable cells).seq.isEmpty = cells.isEmpty := List.isEmpty_map
      rw [if_neg Bool.false_ne_true, if_neg Bool.false_ne_true, holds'.empty, Except.ok_bind, empty]
      cases none : cells.isEmpty with
      | true =>
        obtain rfl := List.isEmpty_iff.mp none
        obtain ⟨list, newAddr, appended, holds''⟩ := holds'.append fresh' (⟨s, s⟩ : SequencerItem)
        have appended : linkedListAppend seq.seq (createSequencerRange seq.items allocation.obj s s).1
            allocation.elem = .ok (true, list) := appended
        rw [if_pos rfl, if_pos rfl, appended]
        refine .returned ⟨_, holds'', ?_⟩
        simp [Sequencer.nullable, newRange_value]
      | false =>
        have holds' : Holds base seq ([] ++ cells) := holds'
        have agrees := holds'.addLoop enough fresh' (s := s) rfl
        rw [if_neg Bool.false_ne_true, if_neg Bool.false_ne_true, holds'.first]
        rw [List.map_nil, Option.map_eq_bind (x := Nullable.sequencerAddWalk ..)] at agrees
        exact agrees

theorem Refines.complete (refines : Refines base seq state) (enough : state.seq.length ≤ fuel)
    (bounded : state.seq.length < 2 ^ 31) :
    Agrees base (sequencerComplete fuel seq) (Nullable.sequencerComplete state) := by
  obtain ⟨cells, holds, rfl⟩ := refines
  have length : (seq.nullable cells).seq.length = cells.length := List.length_map _
  rw [length] at enough bounded
  have empty : (seq.nullable cells).seq.isEmpty = cells.isEmpty := List.isEmpty_map
  rw [sequencerComplete, Nullable.sequencerComplete, holds.empty, Except.ok_bind, empty]
  cases none : cells.isEmpty with
  | true => exact .returned ⟨cells, holds, rfl⟩
  | false =>
    have holds : Holds base seq ([] ++ cells) := holds
    rw [if_neg Bool.false_ne_true, if_neg Bool.false_ne_true, holds.first, Except.ok_bind]
    rcases holds.completeLoop enough with ⟨faults, nothing⟩ | ⟨seq', merged, ran, merges, holds', fewer, max, last⟩
    · have nothing : Nullable.sequencerCompleteWalk (seq.nullable cells).seq = .none := nothing
      rw [List.nil_append, faults, nothing]
      exact .fault
    · have merges : Nullable.sequencerCompleteWalk (seq.nullable cells).seq = some (merged.map Cell.value) := merges
      rw [List.nil_append] at holds'
      rw [List.nil_append, ran, merges, Except.ok_bind, Option.bind_eq_bind, Option.bind_some]
      have refines : Refines base seq' { seq.nullable cells with seq := merged.map Cell.value } := by
        refine ⟨merged, holds', ?_⟩
        simp only [Sequencer.nullable, max, last]
      have count : linkedListLength seq'.seq = 1 ↔ merged.length = 1 := by
        have one : (1 : Int32).toInt = 1 := rfl
        rw [← Int32.toInt_inj, holds'.count (by omega), one]
        omega
      rcases merged with _ | ⟨⟨addr, range⟩, _ | ⟨next, merged⟩⟩
      · rw [if_neg (count.not.mpr (by simp))]
        exact .returned refines
      · have holds' : Holds base seq' ([] ++ ⟨addr, range⟩ :: []) := holds'
        rw [if_pos (count.mpr rfl), holds'.first, List.nil_append, List.head?_cons, Option.map_some, Except.ok_bind,
          holds'.objAt, Except.ok_bind]
        rcases range with _ | ⟨obj, item⟩
        · exact .fault
        · have load : seq'.items.load (some obj) = .ok item := holds'.load
          rw [Cell.obj_some, load, Except.ok_bind, last]
          exact .returned refines
      · rw [if_neg (count.not.mpr (by simp))]
        exact .returned refines

end Calls

end UCP.Pointer

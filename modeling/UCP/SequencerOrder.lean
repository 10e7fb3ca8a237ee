import UCP.Lib.Lists
import UCP.SequencerRuns

namespace UCP

/-- Every range is in order and lies below the next one. -/
def Ordered (items : List SequencerItem) : Prop :=
  (∀ item ∈ items, item.firstSeqNo ≤ item.lastSeqNo) ∧
    items.IsChain fun item nextItem => item.lastSeqNo < nextItem.firstSeqNo

/-- The additions that `sequencer_add` takes around the end of the number space:
the list is extended above `UINT32_MAX` to 0, or below 0 to `UINT32_MAX`. -/
def Wraps (items : List SequencerItem) (s : UInt32) : Prop :=
  s ∉ recorded items ∧
    ((s = 0 ∧ (∃ item ∈ items.getLast?, item.lastSeqNo = uint32Max) ∧
        (items.length = 1 ∨ ∀ item ∈ items.head?, item.firstSeqNo ≠ 1)) ∨
      (s = uint32Max ∧ ∃ item ∈ items.head?, item.firstSeqNo = 0 ∧ item.lastSeqNo + 1 ≠ uint32Max))

section Ordered

variable {before after : List SequencerItem} {item nextItem new : SequencerItem}

theorem Ordered.replace (ordered : Ordered (before ++ item :: after)) (nonempty : new.firstSeqNo ≤ new.lastSeqNo)
    (left : ∀ x ∈ before.getLast?, x.lastSeqNo < item.firstSeqNo → x.lastSeqNo < new.firstSeqNo)
    (right : ∀ y ∈ after.head?, item.lastSeqNo < y.firstSeqNo → new.lastSeqNo < y.firstSeqNo) :
    Ordered (before ++ new :: after) := by
  obtain ⟨nonempties, chain⟩ := ordered
  refine ⟨?_, chain.replace left right⟩
  simp only [List.forall_mem_append, List.forall_mem_cons] at nonempties ⊢
  exact ⟨nonempties.1, nonempty, nonempties.2.2⟩

theorem Ordered.join (ordered : Ordered (before ++ item :: nextItem :: after)) :
    Ordered (before ++ ⟨item.firstSeqNo, nextItem.lastSeqNo⟩ :: after) := by
  obtain ⟨nonempties, chain⟩ := ordered
  refine ⟨?_, chain.join (fun x _ below => below) fun y _ below => below⟩
  simp only [List.forall_mem_append, List.forall_mem_cons] at nonempties ⊢
  obtain ⟨front, here, next, back⟩ := nonempties
  have order := (List.isChain_cons_cons.mp (List.isChain_append.mp chain).2.1).1
  exact ⟨front, UInt32.le_trans here (UInt32.le_trans (UInt32.le_of_lt order) next), back⟩

theorem Ordered.join_head (ordered : Ordered (item :: nextItem :: after)) :
    Ordered (⟨item.firstSeqNo, nextItem.lastSeqNo⟩ :: after) :=
  have ordered : Ordered ([] ++ item :: nextItem :: after) := ordered
  ordered.join

theorem Ordered.insert (ordered : Ordered (before ++ item :: after)) (nonempty : new.firstSeqNo ≤ new.lastSeqNo)
    (above : item.lastSeqNo < new.firstSeqNo) (right : ∀ y ∈ after.head?, new.lastSeqNo < y.firstSeqNo) :
    Ordered (before ++ item :: new :: after) := by
  obtain ⟨nonempties, chain⟩ := ordered
  refine ⟨?_, chain.insert above right⟩
  simp only [List.forall_mem_append, List.forall_mem_cons] at nonempties ⊢
  exact ⟨nonempties.1, nonempties.2.1, nonempty, nonempties.2.2⟩

theorem Ordered.next_lt (ordered : Ordered (before ++ item :: nextItem :: after)) :
    item.lastSeqNo < nextItem.firstSeqNo :=
  (List.isChain_cons_cons.mp (List.isChain_append.mp ordered.2).2.1).1

theorem ordered_nil : Ordered [] := ⟨fun _ none => absurd none List.not_mem_nil, .nil⟩

theorem ordered_cons {items : List SequencerItem} :
    Ordered (item :: items) ↔ item.firstSeqNo ≤ item.lastSeqNo ∧
      (∀ y ∈ items.head?, item.lastSeqNo < y.firstSeqNo) ∧ Ordered items := by
  rw [Ordered, List.forall_mem_cons, List.isChain_cons, and_assoc]
  exact and_congr_right fun _ => and_left_comm

theorem Ordered.head_lt (ordered : Ordered (item :: after)) (member : nextItem ∈ after) :
    item.lastSeqNo < nextItem.firstSeqNo := by
  induction after generalizing item with
  | nil => exact absurd member List.not_mem_nil
  | cons x after ih =>
    obtain ⟨-, below, ordered⟩ := ordered_cons.mp ordered
    have below := below x rfl
    rcases List.mem_cons.mp member with rfl | later
    · exact below
    · have nonempty := (ordered_cons.mp ordered).1
      exact UInt32.lt_trans (UInt32.lt_of_lt_of_le below nonempty) (ih ordered later)

theorem Ordered.nonempty (ordered : Ordered (before ++ item :: after)) : item.firstSeqNo ≤ item.lastSeqNo :=
  ordered.1 item (List.mem_append_right _ (List.mem_cons_self ..))

end Ordered

theorem eq_or_mem_of_head? {before after : List SequencerItem} {item head : SequencerItem}
    (first : head ∈ (before ++ item :: after).head?) : before = [] ∧ head = item ∨ head ∈ before := by
  cases before with
  | nil =>
    cases first
    exact Or.inl ⟨rfl, rfl⟩
  | cons x before =>
    cases first
    exact Or.inr (List.mem_cons_self ..)

theorem not_wraps {items : List SequencerItem} {s : UInt32} (positive : s ≠ 0)
    (down : s = uint32Max → ∀ head ∈ items.head?, head.firstSeqNo = 0 → head.lastSeqNo + 1 = uint32Max) :
    ¬Wraps items s := by
  rintro ⟨-, ⟨zero, -⟩ | ⟨max, head, first, atStart, apart⟩⟩
  · exact positive zero
  · exact apart (down max head first atStart)

section Walk

variable {s : UInt32} {before after : List SequencerItem} {item : SequencerItem}

theorem not_contains_of_new {items : List SequencerItem} (new : s ∉ recorded items) {x : SequencerItem}
    (member : x ∈ items) :
    ¬(x.firstSeqNo ≤ s ∧ s ≤ x.lastSeqNo) :=
  fun contained => new ⟨x, member, SequencerItem.contains_iff.mpr contained⟩

/-- The branch that extends a range upwards spoils the order when it comes from
`UINT32_MAX` to 0. -/
theorem Ordered.extendUp_iff (ordered : Ordered (before ++ item :: after))
    (new : s ∉ recorded (before ++ item :: after))
    (passed : ∀ x ∈ before, x.lastSeqNo + 1 ≠ s ∧ s + 1 ≠ x.firstSeqNo) (adjacent : item.lastSeqNo + 1 = s) :
    Ordered (before ++ ⟨item.firstSeqNo, s⟩ :: after) ↔ ¬Wraps (before ++ item :: after) s := by
  have nonempty := ordered.nonempty
  have notHere := not_contains_of_new new (List.mem_append_right _ (List.mem_cons_self ..))
  by_cases atEnd : item.lastSeqNo = uint32Max
  · have zero : s = 0 := by grind [uint32Max]
    have final : after = [] := by
      cases after with
      | nil => rfl
      | cons nextItem after =>
        have order := ordered.next_lt
        grind [uint32Max]
    subst final
    refine iff_of_false (fun spoiled => ?_) (not_not_intro ⟨new, Or.inl ⟨zero, ⟨item, ?_, atEnd⟩, ?_⟩⟩)
    · have order : item.firstSeqNo ≤ s := spoiled.nonempty
      grind [uint32Max]
    · exact List.getLast?_concat ..
    · cases before with
      | nil => exact Or.inl rfl
      | cons head before =>
        refine Or.inr fun x first => ?_
        cases first
        have apart := (passed head (List.mem_cons_self ..)).2
        rw [zero] at apart
        exact fun one => apart one.symm
  · refine iff_of_true (ordered.replace ?_ (fun x _ below => below) fun y head below => ?_) (not_wraps ?_ ?_)
    · dsimp only
      grind [uint32Max]
    · have member := List.mem_append_right before (List.mem_cons_of_mem item (List.mem_of_head? head))
      have apart := not_contains_of_new new member
      have nonempty := ordered.1 y member
      dsimp only
      grind [uint32Max]
    · grind [uint32Max]
    · intro max head first atStart
      rcases eq_or_mem_of_head? first with ⟨-, rfl⟩ | earlier
      · rw [adjacent, max]
      · exact absurd (by grind [uint32Max]) (passed head earlier).2

/-- The branch that extends a range downwards spoils the order when it comes
from 0 to `UINT32_MAX`. -/
theorem Ordered.extendDown_iff (ordered : Ordered (before ++ item :: after))
    (new : s ∉ recorded (before ++ item :: after)) (notAbove : item.lastSeqNo + 1 ≠ s)
    (touching : s + 1 = item.firstSeqNo) :
    Ordered (before ++ ⟨s, item.lastSeqNo⟩ :: after) ↔ ¬Wraps (before ++ item :: after) s := by
  have nonempty := ordered.nonempty
  have notHere := not_contains_of_new new (List.mem_append_right _ (List.mem_cons_self ..))
  by_cases atStart : item.firstSeqNo = 0
  · have max : s = uint32Max := by grind [uint32Max]
    have first : before = [] := by
      rcases List.eq_nil_or_concat before with none | ⟨earlier, prevItem, rfl⟩
      · exact none
      · rw [List.concat_eq_append, List.append_assoc, List.singleton_append] at ordered
        have order := ordered.next_lt
        grind
    subst first
    refine iff_of_false (fun spoiled => ?_) (not_not_intro ⟨new, Or.inr ⟨max, item, rfl, atStart, max ▸ notAbove⟩⟩)
    have order : s ≤ item.lastSeqNo := spoiled.nonempty
    grind [uint32Max]
  · refine iff_of_true (ordered.replace ?_ (fun x last below => ?_) fun y _ below => below) ?_
    · dsimp only
      grind [uint32Max]
    · have member := List.mem_append_left (item :: after) (List.mem_of_getLast? last)
      have apart := not_contains_of_new new member
      have nonempty := ordered.1 x member
      dsimp only
      grind [uint32Max]
    · rintro ⟨-, ⟨zero, ⟨x, last, atEnd⟩, single | apart⟩ | ⟨max, -⟩⟩
      · obtain ⟨rfl, rfl⟩ : before = [] ∧ after = [] := by
          rw [List.length_append, List.length_cons] at single
          exact ⟨List.eq_nil_of_length_eq_zero (by omega), List.eq_nil_of_length_eq_zero (by omega)⟩
        cases last
        exact notAbove (by grind [uint32Max])
      · have one : item.firstSeqNo = 1 := by grind
        cases before with
        | nil => exact apart item rfl one
        | cons head before =>
          have apart := not_contains_of_new new (List.mem_append_left _ (List.mem_cons_self ..))
          have below := ordered.head_lt (List.mem_append_right before (List.mem_cons_self ..))
          have nonempty := ordered.1 head (List.mem_append_left _ (List.mem_cons_self ..))
          grind
      · exact atStart (by grind [uint32Max])

end Walk

/-- From where the walk stands it goes around the end of the number space
exactly when it spoils the order. -/
theorem WalkEffect.ordered_iff {s : UInt32} {before items out : List SequencerItem} {result : Bool}
    (effect : WalkEffect s before items result out) (ordered : Ordered (before ++ items))
    (new : s ∉ recorded (before ++ items))
    (passed : ∀ x ∈ before, x.lastSeqNo + 1 ≠ s ∧ s + 1 ≠ x.firstSeqNo) :
    Ordered out ↔ ¬Wraps (before ++ items) s := by
  induction effect with
  | @missed before =>
    rw [List.append_nil] at ordered ⊢
    refine iff_of_true ordered ?_
    rintro ⟨-, ⟨zero, ⟨item, last, atEnd⟩, -⟩ | ⟨max, item, first, atStart, -⟩⟩
    · exact (passed item (List.mem_of_getLast? last)).1 (by grind [uint32Max])
    · exact (passed item (List.mem_of_head? first)).2 (by grind [uint32Max])
  | extendedUp adjacent _ => exact ordered.extendUp_iff new passed adjacent
  | joinedNext adjacent touching =>
    have order := ordered.next_lt
    refine iff_of_true ordered.join (not_wraps ?_ fun max => ?_)
    · grind [uint32Max]
    · grind [uint32Max]
  | extendedDown notAbove touching _ => exact ordered.extendDown_iff new notAbove touching
  | joinedPrev _ touching adjacent =>
    rw [List.append_assoc, List.singleton_append] at ordered ⊢
    have order := ordered.next_lt
    refine iff_of_true ordered.join (not_wraps ?_ fun max => ?_)
    · grind [uint32Max]
    · grind [uint32Max]
  | inserted notAbove notBelow above gap =>
    refine iff_of_true (ordered.insert (UInt32.le_refl s) above gap) (not_wraps ?_ fun max head first atStart => ?_)
    · grind
    · rcases eq_or_mem_of_head? first with ⟨-, rfl⟩ | earlier
      · exact absurd (by grind [uint32Max]) notBelow
      · exact absurd (by grind [uint32Max]) (passed head earlier).2
  | passed notAbove notBelow _ _ ih =>
    rw [List.append_assoc, List.singleton_append] at ih
    refine ih ordered new fun x member => ?_
    rcases List.mem_append.mp member with earlier | here
    · exact passed x earlier
    · rw [List.mem_singleton.mp here]
      exact ⟨notAbove, notBelow⟩

theorem sequencerAdd_ordered_iff {seq : Sequencer} (ordered : Ordered seq.seq) (s : UInt32) (isLast : Bool) :
    Ordered (sequencerAdd seq s isLast).2.seq ↔ ¬Wraps seq.seq s := by
  rw [sequencerAdd_seq]
  split
  · rename_i old
    exact iff_of_true ordered fun wraps => wraps.1 (sequencerCheck_iff.mp old)
  rename_i new
  split
  · rename_i empty
    rw [List.isEmpty_iff.mp empty]
    refine iff_of_true (ordered_cons.mpr ⟨UInt32.le_refl s, fun _ none => (by cases none), ordered_nil⟩) ?_
    rintro ⟨-, ⟨-, ⟨_, none, -⟩, -⟩ | ⟨-, _, none, -⟩⟩
    · cases none
    · cases none
  · exact (sequencerAddWalk_effect s [] seq.seq).ordered_iff ordered
      (fun member => new (sequencerCheck_iff.mpr member)) fun _ none => absurd none List.not_mem_nil

theorem Ordered.complete {items : List SequencerItem} (ordered : Ordered items) :
    Ordered (sequencerCompleteWalk items) := by
  induction items using sequencerCompleteWalk.induct with
  | case1 item nextItem rest adjacent ih =>
    rw [sequencerCompleteWalk, if_pos adjacent]
    have joined := ordered_cons.mp (ordered.join_head)
    refine ordered_cons.mpr ⟨joined.1, fun y head => ?_, ih joined.2.2⟩
    obtain ⟨x, first, same⟩ := sequencerCompleteWalk_head y head
    exact same ▸ joined.2.1 x first
  | case2 item nextItem rest apart ih =>
    rw [sequencerCompleteWalk, if_neg apart]
    obtain ⟨nonempty, below, ordered⟩ := ordered_cons.mp ordered
    refine ordered_cons.mpr ⟨nonempty, fun y head => ?_, ih ordered⟩
    obtain ⟨x, first, same⟩ := sequencerCompleteWalk_head y head
    exact same ▸ below x first
  | case3 items short =>
    rw [sequencerCompleteWalk_short short]
    exact ordered

/-- The list stays in order exactly as long as no addition wraps. -/
theorem sequencer_ordered_iff (calls : List SequencerCall) :
    (∀ before, before <+: calls → Ordered (sequencerRun before).seq) ↔
      ∀ before s isLast, before ++ [.add s isLast] <+: calls → ¬Wraps (sequencerRun before).seq s := by
  constructor
  · intro ordered before s isLast first
    have after := ordered _ first
    rw [sequencerRun_add] at after
    exact (sequencerAdd_ordered_iff (ordered before ((List.prefix_append ..).trans first)) s isLast).mp after
  · intro straight before earlier
    have straight : ∀ before' s isLast, before' ++ [.add s isLast] <+: before → ¬Wraps (sequencerRun before').seq s :=
      fun before' s isLast first => straight before' s isLast (first.trans earlier)
    clear earlier
    induction before using sequencerRun_induction with
    | start => exact ordered_nil
    | add before s isLast ih =>
      have ordered := ih fun before' s' isLast' first =>
        straight before' s' isLast' (first.trans (List.prefix_append ..))
      exact (sequencerAdd_ordered_iff ordered s isLast).mpr (straight before s isLast (List.prefix_refl _))
    | complete before ih =>
      rw [sequencerComplete_seq]
      exact Ordered.complete (ih fun before' s' isLast' first =>
        straight before' s' isLast' (first.trans (List.prefix_append ..)))

/-- The number 0 is put above `UINT32_MAX`. -/
theorem sequencer_order_wraps : ¬Ordered (sequencerRun [.add 0xFFFFFFFF false, .add 0 false]).seq := by
  have list : (sequencerRun [.add 0xFFFFFFFF false, .add 0 false]).seq = [⟨0xFFFFFFFF, 0⟩] := by decide
  rw [list, ordered_cons]
  exact fun spoiled => absurd spoiled.1 (by decide)

end UCP

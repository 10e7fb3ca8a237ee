import UCP.SequencerRecord

namespace UCP

section Interval

variable {last : UInt32} {item nextItem : SequencerItem} {items : List SequencerItem}

theorem Ascending.first_of_interval (ascending : Ascending (item :: items))
    (interval : ∀ s, s ∈ recorded (item :: items) ↔ s ≤ last) : item.firstSeqNo = 0 := by
  have lower := ascending.first_le ((interval 0).mpr UInt32.zero_le)
  exact UInt32.le_antisymm lower UInt32.zero_le

theorem Ascending.single_of_interval (ascending : Ascending [item])
    (interval : ∀ s, s ∈ recorded [item] ↔ s ≤ last) : item = ⟨0, last⟩ := by
  have first := ascending.first_of_interval interval
  have nonempty := ascending.nonempty
  simp only [recorded_cons, recorded_nil, Set.mem_empty_iff_false, or_false] at interval
  have above := (interval last).mpr (UInt32.le_refl _)
  have within := (interval item.lastSeqNo).mp ⟨nonempty, UInt32.le_refl _⟩
  cases item
  grind

theorem Ascending.pair_of_interval (ascending : Ascending [item, nextItem])
    (interval : ∀ s, s ∈ recorded [item, nextItem] ↔ s ≤ last) :
    item.firstSeqNo = 0 ∧ item.lastSeqNo + 1 = nextItem.firstSeqNo ∧ nextItem.lastSeqNo = last := by
  have first := ascending.first_of_interval interval
  have small := (ascending.item_bounds item (List.mem_cons_self ..)).2
  have nonempty := ascending.tail.nonempty
  cases ascending with | cons _ _ later _ =>
  have order := later nextItem.firstSeqNo (recorded_cons.mpr (Or.inl ⟨UInt32.le_refl _, nonempty⟩))
  simp only [recorded_cons, recorded_nil, Set.mem_empty_iff_false, or_false] at interval
  have within := (interval nextItem.lastSeqNo).mp (Or.inr ⟨nonempty, UInt32.le_refl _⟩)
  have above := (interval last).mpr (UInt32.le_refl _)
  have between := (interval (item.lastSeqNo + 1)).mpr (by grind [uint32Max])
  refine ⟨first, ?_, ?_⟩
  · grind [uint32Max]
  · grind

/-- When just the numbers up to the last one are recorded, one pass makes one
range of up to two, and of no more. -/
theorem sequencerCompleteWalk_single_iff (ascending : Ascending items)
    (interval : ∀ s, s ∈ recorded items ↔ s ≤ last) :
    sequencerCompleteWalk items = [⟨0, last⟩] ↔ items.length ≤ 2 := by
  constructor
  · intro single
    have bound := length_le_sequencerCompleteWalk items
    rw [single] at bound
    exact bound
  · intro few
    match items with
    | [] =>
      have zero := (interval 0).mpr UInt32.zero_le
      rw [recorded_nil] at zero
      exact absurd zero (Set.notMem_empty 0)
    | [item] =>
      rw [ascending.single_of_interval interval, sequencerCompleteWalk_singleton]
    | [item, nextItem] =>
      obtain ⟨first, touching, same⟩ := ascending.pair_of_interval interval
      rw [sequencerCompleteWalk, if_pos touching, first, same, sequencerCompleteWalk_nil]
    | _ :: _ :: _ :: _ =>
      simp only [List.length_cons] at few
      omega

end Interval

/-- A complete sequencer says so exactly when it holds at most two ranges. -/
theorem sequencerComplete_recognised_iff {calls : List SequencerCall} (below : BelowMax calls)
    (all : ∀ s, sequencerCheck (sequencerRun calls) s = true ↔ s ≤ (sequencerRun calls).expectedLastSeqNo) :
    (sequencerComplete (sequencerRun calls)).1 = true ↔ (sequencerRun calls).seq.length ≤ 2 := by
  rw [sequencerComplete_iff]
  exact sequencerCompleteWalk_single_iff (sequencerRun_ascending below) fun s =>
    sequencerCheck_iff.symm.trans (all s)

theorem sequencerComplete_recognised_pair :
    (sequencerComplete (sequencerRun [.add 1 true, .add 0 false])).1 = true ↔
      (sequencerRun [.add 1 true, .add 0 false]).seq.length ≤ 2 := by
  refine sequencerComplete_recognised_iff (by decide) fun s => ?_
  have list : (sequencerRun [.add 1 true, .add 0 false]).seq = [⟨0, 1⟩] := by decide
  have expected : (sequencerRun [.add 1 true, .add 0 false]).expectedLastSeqNo = 1 := by decide
  rw [sequencerCheck_iff, list, expected, recorded_cons, recorded_nil, Set.mem_empty_iff_false, or_false]
  exact and_iff_right UInt32.zero_le

/-- Numbers that come in from both ends leave three ranges. -/
theorem sequencerComplete_unrecognised :
    let calls : List SequencerCall := [.add 0 false, .add 4 true, .add 3 false, .add 2 false, .add 1 false]
    BelowMax calls ∧
      (∀ s, sequencerCheck (sequencerRun calls) s = true ↔ s ≤ (sequencerRun calls).expectedLastSeqNo) ∧
      (sequencerComplete (sequencerRun calls)).1 = false := by
  refine ⟨by decide, fun s => ?_, by decide⟩
  have list : (sequencerRun [.add 0 false, .add 4 true, .add 3 false, .add 2 false, .add 1 false]).seq =
      [⟨0, 2⟩, ⟨3, 3⟩, ⟨4, 4⟩] := by decide
  have expected : (sequencerRun [.add 0 false, .add 4 true, .add 3 false, .add 2 false, .add 1 false]).expectedLastSeqNo =
      4 := by decide
  rw [sequencerCheck_iff, list, expected, recorded_cons, recorded_cons, recorded_cons, recorded_nil,
    Set.mem_empty_iff_false, or_false]
  grind

end UCP

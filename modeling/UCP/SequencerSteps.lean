import UCP.Sequencer

namespace UCP

theorem SequencerItem.contains_iff {item : SequencerItem} {s : UInt32} :
    item.contains s = true ↔ item.firstSeqNo ≤ s ∧ s ≤ item.lastSeqNo := by
  rw [contains, Bool.and_eq_true, decide_eq_true_iff, decide_eq_true_iff]

theorem sub_one_eq_iff {x y : UInt32} : x - 1 = y ↔ y + 1 = x := by
  constructor
  · rintro rfl
    exact UInt32.sub_add_cancel x 1
  · rintro rfl
    exact UInt32.add_sub_cancel y 1

/-- What the loop of `sequencer_add` does from where it stands: it widens or joins
ranges next to the new number, puts a new range behind the one it stands at, or
goes on to the next one. -/
inductive WalkEffect (s : UInt32) : List SequencerItem → List SequencerItem → Bool → List SequencerItem → Prop
  | missed {before} : WalkEffect s before [] false before
  | extendedUp {before item after} : item.lastSeqNo + 1 = s → (∀ nextItem ∈ after.head?, s + 1 ≠ nextItem.firstSeqNo) →
      WalkEffect s before (item :: after) true (before ++ ⟨item.firstSeqNo, s⟩ :: after)
  | joinedNext {before item nextItem after} : item.lastSeqNo + 1 = s → s + 1 = nextItem.firstSeqNo →
      WalkEffect s before (item :: nextItem :: after) true (before ++ ⟨item.firstSeqNo, nextItem.lastSeqNo⟩ :: after)
  | extendedDown {before item after} : item.lastSeqNo + 1 ≠ s → s + 1 = item.firstSeqNo →
      (∀ prevItem ∈ before.getLast?, prevItem.lastSeqNo + 1 ≠ s) →
      WalkEffect s before (item :: after) true (before ++ ⟨s, item.lastSeqNo⟩ :: after)
  | joinedPrev {before prevItem item after} : item.lastSeqNo + 1 ≠ s → s + 1 = item.firstSeqNo →
      prevItem.lastSeqNo + 1 = s →
      WalkEffect s (before ++ [prevItem]) (item :: after) true
        (before ++ ⟨prevItem.firstSeqNo, item.lastSeqNo⟩ :: after)
  | inserted {before item after} : item.lastSeqNo + 1 ≠ s → s + 1 ≠ item.firstSeqNo → item.lastSeqNo < s →
      (∀ nextItem ∈ after.head?, s < nextItem.firstSeqNo) →
      WalkEffect s before (item :: after) true (before ++ item :: ⟨s, s⟩ :: after)
  | passed {before item after result out} : item.lastSeqNo + 1 ≠ s → s + 1 ≠ item.firstSeqNo →
      ¬(item.lastSeqNo < s ∧ ∀ nextItem ∈ after.head?, s < nextItem.firstSeqNo) →
      WalkEffect s (before ++ [item]) after result out → WalkEffect s before (item :: after) result out

theorem sequencerAddWalk_effect (s : UInt32) (before items : List SequencerItem) :
    WalkEffect s before items (sequencerAddWalk s before items).1 (sequencerAddWalk s before items).2 := by
  induction items generalizing before with
  | nil => exact .missed
  | cons item after ih =>
    unfold sequencerAddWalk
    split
    · rename_i adjacent
      cases after with
      | nil => exact .extendedUp adjacent fun nextItem absent => by cases absent
      | cons nextItem after =>
        dsimp only
        split
        · rename_i touching
          exact .joinedNext adjacent (sub_one_eq_iff.mp touching)
        · rename_i apart
          refine .extendedUp adjacent fun next first => ?_
          cases first
          exact fun touching => apart (sub_one_eq_iff.mpr touching)
    rename_i notAbove
    split
    · rename_i touching
      have touching := sub_one_eq_iff.mp touching
      dsimp only
      split
      · rename_i prevItem last
        obtain ⟨before, rfl⟩ := List.getLast?_eq_some_iff.mp last
        split
        · rename_i adjacent
          rw [List.dropLast_concat]
          exact .joinedPrev notAbove touching adjacent
        · rename_i apart
          refine .extendedDown notAbove touching fun prev atEnd => ?_
          rw [last] at atEnd
          cases atEnd
          exact apart
      · rename_i first
        refine .extendedDown notAbove touching fun prev atEnd => ?_
        rw [first] at atEnd
        cases atEnd
    rename_i notBelow
    have notBelow : s + 1 ≠ item.firstSeqNo := fun touching => notBelow (sub_one_eq_iff.mpr touching)
    cases after with
    | nil =>
      dsimp only
      split
      · rename_i above
        exact .inserted notAbove notBelow above fun nextItem absent => by cases absent
      · rename_i under
        exact .passed notAbove notBelow (fun between => under between.1) (ih _)
    | cons nextItem after =>
      dsimp only
      split
      · rename_i between
        refine .inserted notAbove notBelow between.1 fun next first => ?_
        cases first
        exact between.2
      · rename_i elsewhere
        exact .passed notAbove notBelow (fun between => elsewhere ⟨between.1, between.2 nextItem rfl⟩) (ih _)

theorem sequencerAddBounds_seq (seq : Sequencer) (s : UInt32) (isLast : Bool) :
    (sequencerAddBounds seq s isLast).seq = seq.seq := by
  unfold sequencerAddBounds
  split
  · rfl
  split
  · rfl
  · rfl

theorem sequencerAddBounds_check (seq : Sequencer) (s : UInt32) (isLast : Bool) (x : UInt32) :
    sequencerCheck (sequencerAddBounds seq s isLast) x = sequencerCheck seq x := by
  rw [sequencerCheck, sequencerAddBounds_seq, sequencerCheck]

/-- The list after `sequencer_add`. -/
theorem sequencerAdd_seq (seq : Sequencer) (s : UInt32) (isLast : Bool) :
    (sequencerAdd seq s isLast).2.seq =
      if sequencerCheck seq s then seq.seq
      else if seq.seq.isEmpty then [⟨s, s⟩]
      else (sequencerAddWalk s [] seq.seq).2 := by
  unfold sequencerAdd
  simp only [sequencerAddBounds_check, sequencerAddBounds_seq]
  split
  · exact sequencerAddBounds_seq seq s isLast
  split
  · rfl
  · rfl

/-- The return value of `sequencer_add`. -/
theorem sequencerAdd_result (seq : Sequencer) (s : UInt32) (isLast : Bool) :
    (sequencerAdd seq s isLast).1 =
      if sequencerCheck seq s then false
      else if seq.seq.isEmpty then true
      else (sequencerAddWalk s [] seq.seq).1 := by
  unfold sequencerAdd
  simp only [sequencerAddBounds_check, sequencerAddBounds_seq]
  split
  · rfl
  split
  · rfl
  · rfl

/-- Whatever becomes of the number, the two bounds are updated. -/
theorem sequencerAdd_bounds (seq : Sequencer) (s : UInt32) (isLast : Bool) :
    (sequencerAdd seq s isLast).2 =
    { sequencerAddBounds seq s isLast with seq := (sequencerAdd seq s isLast).2.seq } := by
  unfold sequencerAdd
  dsimp only
  split
  · rfl
  split
  · rfl
  · rfl

theorem sequencerAdd_expectedLastSeqNo (seq : Sequencer) (s : UInt32) (isLast : Bool) :
    (sequencerAdd seq s isLast).2.expectedLastSeqNo = if isLast then s else seq.expectedLastSeqNo := by
  rw [sequencerAdd_bounds]
  dsimp only
  unfold sequencerAddBounds
  split
  · rfl
  split
  · rfl
  · rfl

theorem sequencerComplete_expectedLastSeqNo (seq : Sequencer) :
    (sequencerComplete seq).2.expectedLastSeqNo = seq.expectedLastSeqNo := by
  unfold sequencerComplete
  split
  · rfl
  · rfl

theorem sequencerComplete_seq (seq : Sequencer) :
    (sequencerComplete seq).2.seq = sequencerCompleteWalk seq.seq := by
  unfold sequencerComplete
  split
  · rename_i empty
    rw [List.isEmpty_iff.mp empty]
    rfl
  · rfl

theorem sequencerCompleteWalk_short {items : List SequencerItem}
    (short : ∀ item nextItem rest, items = item :: nextItem :: rest → False) :
    sequencerCompleteWalk items = items := by
  rw [sequencerCompleteWalk]
  exact short

@[simp] theorem sequencerCompleteWalk_nil : sequencerCompleteWalk [] = [] :=
  sequencerCompleteWalk_short fun _ _ _ several => by cases several

@[simp] theorem sequencerCompleteWalk_singleton (item : SequencerItem) : sequencerCompleteWalk [item] = [item] :=
  sequencerCompleteWalk_short fun _ _ _ several => by cases several

/-- The merging pass moves no lower bound of the first range. -/
theorem sequencerCompleteWalk_head {items : List SequencerItem} :
    ∀ y ∈ (sequencerCompleteWalk items).head?, ∃ x ∈ items.head?, x.firstSeqNo = y.firstSeqNo := by
  intro y head
  match items with
  | [] => cases head
  | [item] =>
    rw [sequencerCompleteWalk_singleton] at head
    exact ⟨y, head, rfl⟩
  | item :: nextItem :: rest =>
    rw [sequencerCompleteWalk] at head
    split at head
    · cases head
      exact ⟨_, rfl, rfl⟩
    · cases head
      exact ⟨_, rfl, rfl⟩

/-- The single pass of `sequencer_complete` joins ranges two by two at most. -/
theorem length_le_sequencerCompleteWalk (items : List SequencerItem) :
    items.length ≤ 2 * (sequencerCompleteWalk items).length := by
  induction items using sequencerCompleteWalk.induct with
  | case1 item nextItem rest adjacent ih =>
    rw [sequencerCompleteWalk, if_pos adjacent]
    simp only [List.length_cons]
    omega
  | case2 item nextItem rest apart ih =>
    rw [sequencerCompleteWalk, if_neg apart]
    simp only [List.length_cons] at ih ⊢
    omega
  | case3 items short =>
    rw [sequencerCompleteWalk_short short]
    omega

theorem sequencerCompleteWalk_ne_nil {items : List SequencerItem} (started : items ≠ []) :
    sequencerCompleteWalk items ≠ [] := by
  intro none
  have length := length_le_sequencerCompleteWalk items
  rw [none] at length
  exact started (List.eq_nil_of_length_eq_zero (Nat.le_zero.mp length))

/-- `sequencer_complete` says yes on one range from 0 to the expected last number only. -/
theorem sequencerComplete_iff (seq : Sequencer) :
    (sequencerComplete seq).1 = true ↔ sequencerCompleteWalk seq.seq = [⟨0, seq.expectedLastSeqNo⟩] := by
  unfold sequencerComplete
  split
  · rename_i empty
    rw [List.isEmpty_iff.mp empty]
    simp [sequencerCompleteWalk]
  · dsimp only
    split
    · rename_i item single
      rw [single, Bool.and_eq_true, beq_iff_eq, beq_iff_eq, List.singleton_inj, SequencerItem.mk.injEq]
    · rename_i several
      simp only [Bool.false_eq_true, false_iff]
      exact several _

end UCP

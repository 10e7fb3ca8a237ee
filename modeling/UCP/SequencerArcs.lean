import UCP.Lib.Word
import UCP.SequencerSteps

namespace UCP

/-- The numbers of a range, read around the end of the number space: a range
whose bounds have wrapped past each other still stands for what it was made of. -/
def SequencerItem.arc (item : SequencerItem) : Set UInt32 := Word.arc item.firstSeqNo item.lastSeqNo

theorem SequencerItem.mem_arc {item : SequencerItem} {s : UInt32} (contained : item.contains s = true) :
    s ∈ item.arc := by
  obtain ⟨lower, upper⟩ := contains_iff.mp contained
  exact Word.mem_arc_of_between lower upper

/-- The ranges that can be made of given ones by joining neighbours. -/
inductive Joined (items : List SequencerItem) : SequencerItem → Prop
  | item {x} : x ∈ items → Joined items x
  | join {a b} : Joined items a → Joined items b → a.lastSeqNo + 1 = b.firstSeqNo →
      Joined items ⟨a.firstSeqNo, b.lastSeqNo⟩

theorem Joined.mono {items more : List SequencerItem} {x : SequencerItem} (joined : Joined items x)
    (sub : ∀ y ∈ items, y ∈ more) : Joined more x := by
  induction joined with
  | item member => exact .item (sub _ member)
  | join _ _ adjacent left right => exact .join left right adjacent

theorem Joined.arc_subset {items : List SequencerItem} {x : SequencerItem} {added : Set UInt32}
    (joined : Joined items x) (arcs : ∀ y ∈ items, y.arc ⊆ added) : x.arc ⊆ added := by
  induction joined with
  | item member => exact arcs _ member
  | join _ _ adjacent left right => exact (Word.arc_join_subset adjacent).trans (Set.union_subset left right)

/-- Whatever branch `sequencer_add` takes, it leaves ranges joined from the old
ones and the new number. -/
theorem WalkEffect.joined {s : UInt32} {before items out : List SequencerItem} {result : Bool}
    (effect : WalkEffect s before items result out) : ∀ x ∈ out, Joined (⟨s, s⟩ :: (before ++ items)) x := by
  have new {items : List SequencerItem} : Joined (⟨s, s⟩ :: items) ⟨s, s⟩ := .item (List.mem_cons_self ..)
  have old (items : List SequencerItem) : ∀ y ∈ items, Joined (⟨s, s⟩ :: items) y :=
    fun y member => .item (List.mem_cons_of_mem _ member)
  induction effect with
  | @missed before =>
    rw [List.append_nil]
    exact old before
  | @extendedUp before item after adjacent _ =>
    obtain ⟨inBefore, inRest⟩ := List.forall_mem_append.mp (old (before ++ item :: after))
    obtain ⟨here, inAfter⟩ := List.forall_mem_cons.mp inRest
    exact List.forall_mem_append.mpr ⟨inBefore, List.forall_mem_cons.mpr ⟨here.join new adjacent, inAfter⟩⟩
  | @joinedNext before item nextItem after adjacent touching =>
    obtain ⟨inBefore, inRest⟩ := List.forall_mem_append.mp (old (before ++ item :: nextItem :: after))
    obtain ⟨here, inRest⟩ := List.forall_mem_cons.mp inRest
    obtain ⟨next, inAfter⟩ := List.forall_mem_cons.mp inRest
    have joined := (here.join new adjacent).join next touching
    exact List.forall_mem_append.mpr ⟨inBefore, List.forall_mem_cons.mpr ⟨joined, inAfter⟩⟩
  | @extendedDown before item after _ touching _ =>
    obtain ⟨inBefore, inRest⟩ := List.forall_mem_append.mp (old (before ++ item :: after))
    obtain ⟨here, inAfter⟩ := List.forall_mem_cons.mp inRest
    exact List.forall_mem_append.mpr ⟨inBefore, List.forall_mem_cons.mpr ⟨new.join here touching, inAfter⟩⟩
  | @joinedPrev before prevItem item after _ touching adjacent =>
    rw [List.append_assoc, List.singleton_append]
    obtain ⟨inBefore, inRest⟩ := List.forall_mem_append.mp (old (before ++ prevItem :: item :: after))
    obtain ⟨prev, inRest⟩ := List.forall_mem_cons.mp inRest
    obtain ⟨here, inAfter⟩ := List.forall_mem_cons.mp inRest
    have joined := prev.join (new.join here touching) adjacent
    exact List.forall_mem_append.mpr ⟨inBefore, List.forall_mem_cons.mpr ⟨joined, inAfter⟩⟩
  | @inserted before item after _ _ _ _ =>
    obtain ⟨inBefore, inRest⟩ := List.forall_mem_append.mp (old (before ++ item :: after))
    obtain ⟨here, inAfter⟩ := List.forall_mem_cons.mp inRest
    exact List.forall_mem_append.mpr
      ⟨inBefore, List.forall_mem_cons.mpr ⟨here, List.forall_mem_cons.mpr ⟨new, inAfter⟩⟩⟩
  | passed _ _ _ _ ih =>
    rw [List.append_assoc, List.singleton_append] at ih
    exact ih

theorem sequencerCompleteWalk_joined {items : List SequencerItem} {x : SequencerItem}
    (member : x ∈ sequencerCompleteWalk items) : Joined items x := by
  induction items using sequencerCompleteWalk.induct with
  | case1 item nextItem rest adjacent ih =>
    rw [sequencerCompleteWalk, if_pos adjacent] at member
    rcases List.mem_cons.mp member with rfl | inRest
    · exact .join (.item (List.mem_cons_self ..)) (.item (List.mem_cons_of_mem _ (List.mem_cons_self ..))) adjacent
    · exact (ih inRest).mono fun y later => List.mem_cons_of_mem _ (List.mem_cons_of_mem _ later)
  | case2 item nextItem rest apart ih =>
    rw [sequencerCompleteWalk, if_neg apart] at member
    rcases List.mem_cons.mp member with rfl | inRest
    · exact .item (List.mem_cons_self ..)
    · exact (ih inRest).mono fun y later => List.mem_cons_of_mem _ later
  | case3 items short =>
    rw [sequencerCompleteWalk_short short] at member
    exact .item member

/-- Every range in the list is made of numbers from `added`. -/
def InventsNothing (added : Set UInt32) (seq : Sequencer) : Prop := ∀ item ∈ seq.seq, item.arc ⊆ added

theorem InventsNothing.start : InventsNothing ∅ sequencerInit := fun _ member => absurd member (List.not_mem_nil)

theorem InventsNothing.check {added : Set UInt32} {seq : Sequencer} (inv : InventsNothing added seq) {s : UInt32}
    (recorded : sequencerCheck seq s = true) : s ∈ added := by
  obtain ⟨item, member, contained⟩ := List.any_eq_true.mp recorded
  exact inv item member (SequencerItem.mem_arc contained)

theorem InventsNothing.add {added : Set UInt32} {seq : Sequencer} (inv : InventsNothing added seq) (s : UInt32)
    (isLast : Bool) : InventsNothing (insert s added) (sequencerAdd seq s isLast).2 := by
  have arcs : ∀ y ∈ (⟨s, s⟩ : SequencerItem) :: seq.seq, y.arc ⊆ insert s added := by
    intro y member
    rcases List.mem_cons.mp member with rfl | old
    · rw [SequencerItem.arc, Word.arc_self, Set.singleton_subset_iff]
      exact Set.mem_insert s added
    · exact (inv y old).trans (Set.subset_insert s added)
  intro item member
  rw [sequencerAdd_seq] at member
  split at member
  · exact arcs item (List.mem_cons_of_mem _ member)
  split at member
  · rw [List.mem_singleton.mp member]
    exact arcs _ (List.mem_cons_self ..)
  · exact ((sequencerAddWalk_effect s [] seq.seq).joined item member).arc_subset arcs

theorem InventsNothing.complete {added : Set UInt32} {seq : Sequencer} (inv : InventsNothing added seq) :
    InventsNothing added (sequencerComplete seq).2 := by
  intro item member
  rw [sequencerComplete_seq] at member
  exact (sequencerCompleteWalk_joined member).arc_subset inv

theorem InventsNothing.complete_all {added : Set UInt32} {seq : Sequencer} (inv : InventsNothing added seq)
    (done : (sequencerComplete seq).1 = true) {s : UInt32} (within : s ≤ seq.expectedLastSeqNo) : s ∈ added := by
  have single := (sequencerComplete_iff seq).mp done
  have member : ⟨0, seq.expectedLastSeqNo⟩ ∈ sequencerCompleteWalk seq.seq := by
    rw [single]
    exact List.mem_singleton_self _
  exact (sequencerCompleteWalk_joined member).arc_subset inv
    (SequencerItem.mem_arc (SequencerItem.contains_iff.mpr ⟨UInt32.zero_le, within⟩))

end UCP

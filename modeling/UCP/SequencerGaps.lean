import UCP.Lib.Lists
import UCP.SequencerRecord

namespace UCP

/-- A number between the two ranges is missing. -/
def Gap (item nextItem : SequencerItem) : Prop := item.lastSeqNo + 1 < nextItem.firstSeqNo

/-- Gaps between all neighbours, or all but two. -/
def AtMostOneTouching (items : List SequencerItem) : Prop :=
  ∃ front back, items = front ++ back ∧ front.IsChain Gap ∧ back.IsChain Gap

theorem AtMostOneTouching.of_isChain {items : List SequencerItem} (gaps : items.IsChain Gap) :
    AtMostOneTouching items :=
  ⟨items, [], (List.append_nil items).symm, gaps, .nil⟩

/-- Between ranges with gaps between them the walk of `sequencer_add` makes two
touch only by a new range right below another one. -/
theorem WalkEffect.atMostOneTouching {s : UInt32} {before items out : List SequencerItem} {result : Bool}
    (effect : WalkEffect s before items result out) (gaps : (before ++ items).IsChain Gap)
    (bounds : ∀ item ∈ before ++ items, item.firstSeqNo ≤ item.lastSeqNo ∧ item.lastSeqNo < uint32Max) :
    AtMostOneTouching out := by
  induction effect with
  | missed =>
    rw [List.append_nil] at gaps
    exact .of_isChain gaps
  | @extendedUp before item after adjacent notNext =>
    refine .of_isChain (gaps.replace (fun x _ gap => gap) fun y head gap => ?_)
    have apart := notNext y head
    unfold Gap at gap ⊢
    grind [uint32Max]
  | joinedNext adjacent touching =>
    exact .of_isChain (gaps.join (fun x _ gap => gap) fun y head gap => gap)
  | @extendedDown before item after _ touching notPrev =>
    refine .of_isChain (gaps.replace (fun x last gap => ?_) fun y head gap => gap)
    have apart := notPrev x last
    unfold Gap at gap ⊢
    grind [uint32Max]
  | joinedPrev _ touching adjacent =>
    rw [List.append_assoc, List.singleton_append] at gaps
    exact .of_isChain (gaps.join (fun x _ gap => gap) fun y head gap => gap)
  | @inserted before item after notAbove _ above _ =>
    obtain ⟨front, rest, junction⟩ := List.isChain_append.mp gaps
    have below := (bounds item (List.mem_append_right _ (List.mem_cons_self ..))).2
    have here : Gap item ⟨s, s⟩ := by
      unfold Gap
      grind [uint32Max]
    refine ⟨before ++ [item, ⟨s, s⟩], after, by simp, ?_, rest.tail⟩
    refine List.isChain_append.mpr ⟨front, List.isChain_pair.mpr here, fun x last y head => ?_⟩
    cases head
    exact junction x last item rfl
  | passed _ _ _ _ ih =>
    rw [List.append_assoc] at ih
    exact ih gaps bounds

theorem sequencerAdd_atMostOneTouching {seq : Sequencer} {s : UInt32} (gaps : seq.seq.IsChain Gap)
    (ascending : Ascending seq.seq) (isLast : Bool) : AtMostOneTouching (sequencerAdd seq s isLast).2.seq := by
  rw [sequencerAdd_seq]
  split
  · exact .of_isChain gaps
  split
  · exact .of_isChain (List.isChain_singleton _)
  · exact (sequencerAddWalk_effect s [] seq.seq).atMostOneTouching gaps ascending.item_bounds

theorem sequencerCompleteWalk_of_gaps {items : List SequencerItem} (gaps : items.IsChain Gap) :
    sequencerCompleteWalk items = items := by
  induction items using sequencerCompleteWalk.induct with
  | case1 item nextItem rest adjacent ih =>
    have gap : Gap item nextItem := (List.isChain_cons_cons.mp gaps).1
    exact absurd adjacent (UInt32.ne_of_lt gap)
  | case2 item nextItem rest apart ih =>
    rw [sequencerCompleteWalk, if_neg apart, ih (List.isChain_cons_cons.mp gaps).2]
  | case3 items short => exact sequencerCompleteWalk_short short

/-- The single pass of `sequencer_complete` repairs one touching pair. -/
theorem sequencerCompleteWalk_gaps {front back : List SequencerItem} (ascending : Ascending (front ++ back))
    (frontGaps : front.IsChain Gap) (backGaps : back.IsChain Gap) :
    (sequencerCompleteWalk (front ++ back)).IsChain Gap := by
  induction front with
  | nil =>
    rw [List.nil_append, sequencerCompleteWalk_of_gaps backGaps]
    exact backGaps
  | cons item front ih =>
    have ih := ih ascending.tail frontGaps.tail
    cases front with
    | cons nextItem front =>
      have gap : Gap item nextItem := (List.isChain_cons_cons.mp frontGaps).1
      rw [List.cons_append, List.cons_append, sequencerCompleteWalk, if_neg (UInt32.ne_of_lt gap)]
      refine List.isChain_cons.mpr ⟨fun y head => ?_, ih⟩
      obtain ⟨x, first, same⟩ := sequencerCompleteWalk_head y head
      cases first
      rw [Gap, ← same]
      exact gap
    | nil =>
      cases back with
      | nil =>
        rw [List.append_nil, sequencerCompleteWalk_of_gaps (List.isChain_singleton item)]
        exact List.isChain_singleton item
      | cons nextItem back =>
        rw [List.singleton_append, sequencerCompleteWalk]
        obtain ⟨next, backGaps'⟩ := List.isChain_cons.mp backGaps
        split
        · rw [sequencerCompleteWalk_of_gaps backGaps']
          exact List.isChain_cons.mpr ⟨next, backGaps'⟩
        · rename_i apart
          rw [sequencerCompleteWalk_of_gaps backGaps]
          refine List.isChain_cons_cons.mpr ⟨?_, backGaps⟩
          cases ascending with | cons _ below later ascending =>
          have above := later _ (recorded_cons.mpr (Or.inl ⟨UInt32.le_refl _, ascending.nonempty⟩))
          unfold Gap
          grind [uint32Max]

/-- Every `sequencer_add` comes directly after a `sequencer_complete`, as in the
loop of `sequencing_thread`. -/
def Alternating (calls : List SequencerCall) : Prop :=
  ∀ before s isLast, before ++ [.add s isLast] <+: calls → ∃ earlier, before = earlier ++ [.complete]

section Run

variable {calls before : List SequencerCall}

theorem Alternating.restrict (alternating : Alternating calls) (earlier : before <+: calls) : Alternating before :=
  fun _ s isLast first => alternating _ s isLast (first.trans earlier)

theorem Alternating.nil : Alternating [] :=
  fun _ _ _ first => absurd (List.prefix_nil.mp first) (List.concat_ne_nil _ _)

theorem Alternating.complete (alternating : Alternating calls) : Alternating (calls ++ [.complete]) := by
  intro before s isLast first
  rcases List.prefix_concat_iff.mp first with same | earlier
  · cases (List.append_inj' same rfl).2
  · exact alternating before s isLast earlier

theorem Alternating.add (alternating : Alternating (calls ++ [.complete])) (s : UInt32) (isLast : Bool) :
    Alternating (calls ++ [.complete] ++ [.add s isLast]) := by
  intro before s' isLast' first
  rcases List.prefix_concat_iff.mp first with same | earlier
  · exact ⟨calls, (List.append_inj' same rfl).1⟩
  · exact alternating before s' isLast' earlier

theorem sequencerComplete_gaps (touching : AtMostOneTouching (sequencerRun calls).seq) (below : BelowMax calls) :
    (sequencerRun (calls ++ [.complete])).seq.IsChain Gap := by
  obtain ⟨front, back, list, frontGaps, backGaps⟩ := touching
  have ascending := sequencerRun_ascending below
  rw [list] at ascending
  rw [sequencerRun_complete, sequencerComplete_seq, list]
  exact sequencerCompleteWalk_gaps ascending frontGaps backGaps

/-- Between two calls of `sequencer_complete` at most one pair comes to touch. -/
theorem Alternating.gaps (alternating : Alternating calls) (below : BelowMax calls) :
    AtMostOneTouching (sequencerRun calls).seq ∧
      ∀ earlier, calls = earlier ++ [.complete] → (sequencerRun calls).seq.IsChain Gap := by
  induction calls using sequencerRun_induction with
  | start => exact ⟨.of_isChain .nil, fun _ _ => .nil⟩
  | add calls s isLast ih =>
    obtain ⟨-, repaired⟩ := ih (alternating.restrict (List.prefix_append ..)) below.of_add.1
    obtain ⟨earlier, same⟩ := alternating calls s isLast (List.prefix_refl _)
    refine ⟨?_, fun earlier' same' => by cases (List.append_inj' same' rfl).2⟩
    exact sequencerAdd_atMostOneTouching (repaired earlier same) (sequencerRun_ascending below.of_add.1) isLast
  | complete calls ih =>
    have below := below.restrict (List.prefix_append ..)
    obtain ⟨touching, -⟩ := ih (alternating.restrict (List.prefix_append ..)) below
    have repaired := sequencerComplete_gaps touching below
    rw [sequencerRun_complete] at repaired
    exact ⟨.of_isChain repaired, fun _ _ => repaired⟩

end Run

/-- A range of numbers from the set that no wider range of them contains. -/
structure MaximalRun (numbers : Set UInt32) (item : SequencerItem) : Prop where
  nonempty : item.firstSeqNo ≤ item.lastSeqNo
  within : ∀ s, item.contains s = true → s ∈ numbers
  maximal : ∀ wider : SequencerItem, (∀ s, wider.contains s = true → s ∈ numbers) →
    (∀ s, item.contains s = true → wider.contains s = true) → wider = item

section Maximal

variable {items : List SequencerItem} {item : SequencerItem}

theorem recorded_of_mem {s : UInt32} (member : item ∈ items) (lower : item.firstSeqNo ≤ s)
    (upper : s ≤ item.lastSeqNo) :
    s ∈ recorded items :=
  ⟨item, member, SequencerItem.contains_iff.mpr ⟨lower, upper⟩⟩

/-- The numbers on both sides of a range are not recorded. -/
theorem Ascending.beside_gaps (ascending : Ascending items) (gaps : items.IsChain Gap) (member : item ∈ items) :
    item.lastSeqNo + 1 ∉ recorded items ∧ (0 < item.firstSeqNo → item.firstSeqNo - 1 ∉ recorded items) := by
  induction ascending with
  | nil => exact absurd member List.not_mem_nil
  | @cons head items nonempty below later ascending ih =>
    obtain ⟨next, gaps⟩ := List.isChain_cons.mp gaps
    have beyond := ascending.beyond_of_head next
    rw [recorded_cons, recorded_cons, not_or, not_or]
    rcases List.mem_cons.mp member with rfl | inRest
    · refine ⟨⟨by grind [uint32Max], fun above => ?_⟩, fun positive => ⟨by grind, fun above => ?_⟩⟩
      · exact absurd (beyond _ above) (UInt32.lt_irrefl _)
      · have above := later _ above
        grind
    · obtain ⟨notAbove, notBelow⟩ := ih gaps inRest
      obtain ⟨nonempty, small⟩ := ascending.item_bounds item inRest
      have apart := beyond item.firstSeqNo (recorded_of_mem inRest (UInt32.le_refl _) nonempty)
      exact ⟨⟨by grind [uint32Max], notAbove⟩, fun positive => ⟨by grind [uint32Max], notBelow positive⟩⟩

/-- With a gap between all neighbours the ranges are the maximal runs of the
recorded numbers. -/
theorem maximalRun_iff (ascending : Ascending items) (gaps : items.IsChain Gap) :
    MaximalRun (recorded items) item ↔ item ∈ items := by
  have wider_le {x wider : SequencerItem} (member : x ∈ items)
      (within : ∀ s, wider.contains s = true → s ∈ recorded items) {s : UInt32} (shared : x.contains s = true)
      (inWider : wider.contains s = true) : x.firstSeqNo ≤ wider.firstSeqNo ∧ wider.lastSeqNo ≤ x.lastSeqNo := by
    simp only [SequencerItem.contains_iff] at within shared inWider
    obtain ⟨notAbove, notBelow⟩ := ascending.beside_gaps gaps member
    obtain ⟨nonempty, small⟩ := ascending.item_bounds x member
    constructor
    · by_contra under
      exact notBelow (by grind) (within _ (by grind))
    · by_contra above
      exact notAbove (within _ (by grind [uint32Max]))
  constructor
  · intro run
    obtain ⟨x, member, shared⟩ :=
      run.within item.firstSeqNo (SequencerItem.contains_iff.mpr ⟨UInt32.le_refl _, run.nonempty⟩)
    obtain ⟨lower, upper⟩ := wider_le member run.within shared
      (SequencerItem.contains_iff.mpr ⟨UInt32.le_refl _, run.nonempty⟩)
    have same : x = item := by
      refine run.maximal x (fun s contained => ⟨x, member, contained⟩) fun s contained => ?_
      rw [SequencerItem.contains_iff] at contained ⊢
      grind
    exact same ▸ member
  · intro member
    obtain ⟨nonempty, small⟩ := ascending.item_bounds item member
    refine ⟨nonempty, fun s contained => ⟨item, member, contained⟩, fun wider within covers => ?_⟩
    have here : item.contains item.firstSeqNo = true := SequencerItem.contains_iff.mpr ⟨UInt32.le_refl _, nonempty⟩
    obtain ⟨lower, upper⟩ := wider_le member within here (covers _ here)
    have first := SequencerItem.contains_iff.mp (covers _ here)
    have last :=
      SequencerItem.contains_iff.mp (covers item.lastSeqNo (SequencerItem.contains_iff.mpr ⟨nonempty, UInt32.le_refl _⟩))
    cases wider
    cases item
    grind

end Maximal

/-- In a loop that calls `sequencer_complete` before every `sequencer_add` the
list is minimal after each of these calls. -/
theorem sequencerComplete_minimal {calls before : List SequencerCall} (alternating : Alternating calls)
    (below : BelowMax calls) (called : before ++ [.complete] <+: calls) :
    (∀ item, item ∈ (sequencerRun (before ++ [.complete])).seq ↔
        MaximalRun {s | sequencerCheck (sequencerRun (before ++ [.complete])) s = true} item) ∧
      (sequencerRun (before ++ [.complete])).seq.IsChain
      (fun item nextItem => item.lastSeqNo + 1 < nextItem.firstSeqNo) ∧
      ∀ s, sequencerCheck (sequencerRun (before ++ [.complete])) s = sequencerCheck (sequencerRun before) s := by
  have below := below.restrict called
  have gaps := ((alternating.restrict called).gaps below).2 before rfl
  have numbers : {s | sequencerCheck (sequencerRun (before ++ [.complete])) s = true} =
      recorded (sequencerRun (before ++ [.complete])).seq := Set.ext fun s => sequencerCheck_iff
  refine ⟨fun item => ?_, gaps, fun s => ?_⟩
  · rw [numbers]
    exact (maximalRun_iff (sequencerRun_ascending below) gaps).symm
  · rw [Bool.eq_iff_iff, sequencerCheck_iff, sequencerCheck_iff, sequencerRun_complete,
      sequencerComplete_recorded (below.restrict (List.prefix_append ..))]

/-- The last call joins the ranges of 6 and 7. -/
theorem sequencerComplete_minimal_joined :
    let calls : List SequencerCall := [.complete, .add 3 false, .complete, .add 7 true, .complete, .add 6 false]
    (sequencerRun calls).seq = [⟨3, 3⟩, ⟨6, 6⟩, ⟨7, 7⟩] ∧
      (sequencerRun (calls ++ [.complete])).seq = [⟨3, 3⟩, ⟨6, 7⟩] ∧
      (∀ item, item ∈ (sequencerRun (calls ++ [.complete])).seq ↔
        MaximalRun {s | sequencerCheck (sequencerRun (calls ++ [.complete])) s = true} item) ∧
      ∀ s, sequencerCheck (sequencerRun (calls ++ [.complete])) s = sequencerCheck (sequencerRun calls) s := by
  intro calls
  have alternating : Alternating (calls ++ [.complete]) :=
    ((((Alternating.nil.complete.add 3 false).complete).add 7 true).complete.add 6 false).complete
  have last : calls ++ [.complete] <+: calls ++ [.complete] := List.prefix_refl _
  obtain ⟨maximal, _, same⟩ := sequencerComplete_minimal alternating (by decide) last
  exact ⟨rfl, rfl, maximal, same⟩

end UCP

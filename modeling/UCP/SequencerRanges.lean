import UCP.SequencerArcs

namespace UCP

/-- The numbers for which `sequencer_check` answers yes. -/
def recorded (items : List SequencerItem) : Set UInt32 := {s | ∃ item ∈ items, item.contains s = true}

theorem sequencerCheck_iff {seq : Sequencer} {s : UInt32} : sequencerCheck seq s = true ↔ s ∈ recorded seq.seq :=
  List.any_eq_true

theorem recorded_nil : recorded [] = ∅ := by
  ext s
  simp [recorded]

theorem recorded_cons {item : SequencerItem} {items : List SequencerItem} {s : UInt32} :
    s ∈ recorded (item :: items) ↔ (item.firstSeqNo ≤ s ∧ s ≤ item.lastSeqNo) ∨ s ∈ recorded items := by
  change (∃ x ∈ item :: items, x.contains s = true) ↔ _
  rw [List.exists_mem_cons_iff, SequencerItem.contains_iff]
  rfl

/-- The shape `sequencer_add` keeps on numbers below `UINT32_MAX`: nonempty
ranges in ascending order. Neighbours may touch. -/
inductive Ascending : List SequencerItem → Prop
  | nil : Ascending []
  | cons {item items} : item.firstSeqNo ≤ item.lastSeqNo → item.lastSeqNo < uint32Max →
      (∀ s ∈ recorded items, item.lastSeqNo < s) → Ascending items → Ascending (item :: items)

theorem Ascending.nonempty {item : SequencerItem} {items : List SequencerItem}
    (ascending : Ascending (item :: items)) : item.firstSeqNo ≤ item.lastSeqNo := by
  cases ascending with
  | cons nonempty _ _ _ => exact nonempty

theorem Ascending.tail {item : SequencerItem} {items : List SequencerItem} (ascending : Ascending (item :: items)) :
    Ascending items := by
  cases ascending with
  | cons _ _ _ tail => exact tail

theorem Ascending.first_le {item : SequencerItem} {items : List SequencerItem}
    (ascending : Ascending (item :: items)) {s : UInt32} (member : s ∈ recorded (item :: items)) :
    item.firstSeqNo ≤ s := by
  cases ascending with
  | cons nonempty _ above _ =>
    rcases recorded_cons.mp member with ⟨lower, _⟩ | later
    · exact lower
    · exact UInt32.le_trans nonempty (UInt32.le_of_lt (above s later))

theorem Ascending.item_bounds {items : List SequencerItem} (ascending : Ascending items) :
    ∀ item ∈ items, item.firstSeqNo ≤ item.lastSeqNo ∧ item.lastSeqNo < uint32Max := by
  induction ascending with
  | nil => exact fun _ member => absurd member List.not_mem_nil
  | cons nonempty below _ _ ih => exact List.forall_mem_cons.mpr ⟨⟨nonempty, below⟩, ih⟩

/-- There is one number at least in each range, so no more ranges than numbers. -/
theorem Ascending.length_le {items : List SequencerItem} (ascending : Ascending items) (low high : Nat)
    (within : ∀ s ∈ recorded items, low ≤ s.toNat ∧ s.toNat < high) : items.length ≤ high - low := by
  induction ascending generalizing low with
  | nil => exact Nat.zero_le _
  | @cons item items nonempty _ later _ ih =>
    obtain ⟨lower, upper⟩ := within _ (recorded_cons.mpr (.inl ⟨nonempty, UInt32.le_refl _⟩))
    have rest := ih (item.lastSeqNo.toNat + 1) fun s member =>
      ⟨UInt32.lt_iff_toNat_lt.mp (later s member), (within s (recorded_cons.mpr (.inr member))).2⟩
    rw [List.length_cons]
    omega

theorem Ascending.singleton {s : UInt32} (small : s < uint32Max) : Ascending [⟨s, s⟩] :=
  .cons (UInt32.le_refl s) small
    (fun x member => by rw [recorded_nil] at member; exact absurd member (Set.notMem_empty x)) .nil

/-- What a walk leaves of `items` when it records the number `s`. -/
structure Inserted (s : UInt32) (items out : List SequencerItem) : Prop where
  ascending : Ascending out
  mem_iff : ∀ x, x ∈ recorded out ↔ x = s ∨ x ∈ recorded items

section Inserted

variable {s : UInt32} {item : SequencerItem} {items out : List SequencerItem}

theorem Inserted.extendUp (ascending : Ascending (item :: items)) (adjacent : item.lastSeqNo + 1 = s)
    (small : s < uint32Max) (beyond : ∀ x ∈ recorded items, s < x) :
    Inserted s (item :: items) (⟨item.firstSeqNo, s⟩ :: items) := by
  cases ascending with | cons nonempty below _ ascending =>
  refine ⟨.cons (by grind [uint32Max]) small beyond ascending, fun x => ?_⟩
  simp only [recorded_cons]
  grind

theorem Inserted.joinNext {nextItem : SequencerItem} (ascending : Ascending (item :: nextItem :: items))
    (adjacent : item.lastSeqNo + 1 = s) (touching : s + 1 = nextItem.firstSeqNo) :
    Inserted s (item :: nextItem :: items) (⟨item.firstSeqNo, nextItem.lastSeqNo⟩ :: items) := by
  cases ascending with | cons nonempty below later ascending =>
  have nextNonempty := ascending.nonempty
  have order : item.lastSeqNo < nextItem.firstSeqNo :=
    later _ (recorded_cons.mpr (Or.inl ⟨UInt32.le_refl _, nextNonempty⟩))
  cases ascending with | cons _ nextBelow beyond ascending =>
  refine ⟨.cons (by grind) nextBelow beyond ascending, fun x => ?_⟩
  simp only [recorded_cons]
  grind

theorem Inserted.extendDown (ascending : Ascending (item :: items)) (small : s < uint32Max)
    (touching : s + 1 = item.firstSeqNo) : Inserted s (item :: items) (⟨s, item.lastSeqNo⟩ :: items) := by
  cases ascending with | cons nonempty below later ascending =>
  refine ⟨.cons (by grind [uint32Max]) below later ascending, fun x => ?_⟩
  simp only [recorded_cons]
  grind [uint32Max]

theorem Inserted.between (ascending : Ascending (item :: items)) (above : item.lastSeqNo < s)
    (small : s < uint32Max)
    (beyond : ∀ x ∈ recorded items, s < x) : Inserted s (item :: items) (item :: ⟨s, s⟩ :: items) := by
  cases ascending with | cons nonempty below later ascending =>
  refine ⟨.cons nonempty below (fun x member => ?_) (.cons (UInt32.le_refl s) small beyond ascending), fun x => ?_⟩
  · rcases recorded_cons.mp member with ⟨lower, _⟩ | member
    · exact UInt32.lt_of_lt_of_le above lower
    · exact later x member
  · simp only [recorded_cons]
    grind

/-- What is inserted behind a range leaves that range alone. -/
theorem Inserted.behind (ascending : Ascending (item :: items)) (above : item.lastSeqNo < s)
    (inserted : Inserted s items out) : Inserted s (item :: items) (item :: out) := by
  cases ascending with | cons nonempty below later _ =>
  refine ⟨.cons nonempty below (fun x member => ?_) inserted.ascending, fun x => ?_⟩
  · rcases (inserted.mem_iff x).mp member with rfl | member
    · exact above
    · exact later x member
  · rw [recorded_cons, inserted.mem_iff x]
    exact or_left_comm.trans (or_congr_right recorded_cons.symm)

end Inserted

/-- The number lies in front of everything behind a gap that it lies in. -/
theorem Ascending.beyond_of_head {s : UInt32} {items : List SequencerItem} (ascending : Ascending items)
    (gap : ∀ nextItem ∈ items.head?, s < nextItem.firstSeqNo) : ∀ x ∈ recorded items, s < x := by
  intro x member
  cases items with
  | nil =>
    rw [recorded_nil] at member
    exact absurd member (Set.notMem_empty x)
  | cons nextItem items => exact UInt32.lt_of_lt_of_le (gap nextItem rfl) (ascending.first_le member)

/-- From a range that starts at or below the new number the walk always finds
a place for it. -/
theorem WalkEffect.above {s : UInt32} {before items out : List SequencerItem} {result : Bool}
    (effect : WalkEffect s before items result out) (ascending : Ascending items) (small : s < uint32Max)
    (new : s ∉ recorded items) (reached : ∃ item ∈ items.head?, item.firstSeqNo ≤ s) :
    result = true ∧ ∃ rest, out = before ++ rest ∧ Inserted s items rest := by
  induction effect with
  | missed =>
    obtain ⟨item, absent, _⟩ := reached
    cases absent
  | @extendedUp before item after adjacent _ =>
    refine ⟨rfl, _, rfl, .extendUp ascending adjacent small fun x member => ?_⟩
    cases ascending with | cons _ _ later _ =>
    have above := later x member
    have different : x ≠ s := fun same => new (recorded_cons.mpr (Or.inr (same ▸ member)))
    grind
  | joinedNext adjacent touching => exact ⟨rfl, _, rfl, .joinNext ascending adjacent touching⟩
  | extendedDown _ touching _ =>
    obtain ⟨_, head, reached⟩ := reached
    cases head
    grind [uint32Max]
  | joinedPrev _ touching _ =>
    obtain ⟨_, head, reached⟩ := reached
    cases head
    grind [uint32Max]
  | inserted _ _ above gap =>
    have beyond := ascending.tail.beyond_of_head gap
    exact ⟨rfl, _, rfl, .between ascending above small beyond⟩
  | @passed before item after result out _ _ elsewhere _ ih =>
    obtain ⟨_, head, reached⟩ := reached
    cases head
    have above : item.lastSeqNo < s :=
      UInt32.not_le.mp fun under => new (recorded_cons.mpr (Or.inl ⟨reached, under⟩))
    have next : ∃ nextItem ∈ after.head?, nextItem.firstSeqNo ≤ s := by
      by_contra none
      exact elsewhere ⟨above, fun nextItem head => UInt32.not_le.mp fun under => none ⟨nextItem, head, under⟩⟩
    obtain ⟨found, rest, rfl, inserted⟩ :=
      ih ascending.tail (fun member => new (recorded_cons.mpr (Or.inr member))) next
    exact ⟨found, item :: rest, List.append_assoc .., inserted.behind ascending above⟩

theorem Ascending.not_adjacent {s : UInt32} {item : SequencerItem} {items : List SequencerItem}
    (ascending : Ascending (item :: items)) (below : s < item.firstSeqNo) : item.lastSeqNo + 1 ≠ s := by
  cases ascending with | cons nonempty small _ _ =>
  grind [uint32Max]

/-- A number right below the first range widens it. -/
theorem WalkEffect.touching {s : UInt32} {item : SequencerItem} {after out : List SequencerItem} {result : Bool}
    (effect : WalkEffect s [] (item :: after) result out) (ascending : Ascending (item :: after))
    (small : s < uint32Max) (touching : s + 1 = item.firstSeqNo) :
    result = true ∧ Inserted s (item :: after) out := by
  have notAbove : item.lastSeqNo + 1 ≠ s := ascending.not_adjacent (by grind [uint32Max])
  generalize none : [] = before at effect
  cases effect with
  | extendedUp adjacent => exact absurd adjacent notAbove
  | joinedNext adjacent => exact absurd adjacent notAbove
  | extendedDown =>
    subst none
    exact ⟨rfl, .extendDown ascending small touching⟩
  | joinedPrev => exact absurd none.symm (List.concat_ne_nil _ _)
  | inserted _ notBelow => exact absurd touching notBelow
  | passed _ notBelow => exact absurd touching notBelow

/-- A number further below is not taken: no range and no gap between ranges
is next to it. -/
theorem WalkEffect.under {s : UInt32} {before items out : List SequencerItem} {result : Bool}
    (effect : WalkEffect s before items result out) (ascending : Ascending items) (small : s < uint32Max)
    (far : ∀ x ∈ recorded items, s + 1 < x) : result = false ∧ out = before ++ items := by
  have headFar {item : SequencerItem} {after : List SequencerItem} (ascending : Ascending (item :: after))
      (far : ∀ x ∈ recorded (item :: after), s + 1 < x) : s + 1 < item.firstSeqNo :=
    far _ (recorded_cons.mpr (Or.inl ⟨UInt32.le_refl _, ascending.nonempty⟩))
  induction effect with
  | missed => exact ⟨rfl, (List.append_nil _).symm⟩
  | extendedUp adjacent =>
    have below := headFar ascending far
    exact absurd adjacent (ascending.not_adjacent (by grind [uint32Max]))
  | joinedNext adjacent =>
    have below := headFar ascending far
    exact absurd adjacent (ascending.not_adjacent (by grind [uint32Max]))
  | extendedDown _ touching => exact absurd touching (UInt32.ne_of_lt (headFar ascending far))
  | joinedPrev _ touching => exact absurd touching (UInt32.ne_of_lt (headFar ascending far))
  | inserted _ _ above =>
    have below := headFar ascending far
    have nonempty := ascending.nonempty
    grind [uint32Max]
  | passed _ _ _ _ ih =>
    obtain ⟨missed, rfl⟩ := ih ascending.tail fun x member => far x (recorded_cons.mpr (Or.inr member))
    exact ⟨missed, List.append_assoc ..⟩

/-- `sequencer_add` gives away a number that lies more than one below the first
range. -/
def FarBelow (items : List SequencerItem) (s : UInt32) : Prop :=
  match items with
  | [] => False
  | item :: _ => s + 1 < item.firstSeqNo

instance (items : List SequencerItem) (s : UInt32) : Decidable (FarBelow items s) :=
  match items with
  | [] => inferInstanceAs (Decidable False)
  | item :: _ => inferInstanceAs (Decidable (s + 1 < item.firstSeqNo))

section Add

variable {seq : Sequencer} {s : UInt32}

/-- What `sequencer_add` does with a number below `UINT32_MAX`: it gives away a
number that is recorded or too far below the first range, and says so. -/
theorem sequencerAdd_cases (ascending : Ascending seq.seq) (small : s < uint32Max) (isLast : Bool) :
    ((s ∈ recorded seq.seq ∨ FarBelow seq.seq s) ∧ (sequencerAdd seq s isLast).1 = false ∧
      (sequencerAdd seq s isLast).2.seq = seq.seq) ∨
    (s ∉ recorded seq.seq ∧ ¬FarBelow seq.seq s ∧ (sequencerAdd seq s isLast).1 = true ∧
      Inserted s seq.seq (sequencerAdd seq s isLast).2.seq) := by
  rw [sequencerAdd_result, sequencerAdd_seq]
  by_cases old : sequencerCheck seq s = true
  · rw [if_pos old, if_pos old]
    exact Or.inl ⟨Or.inl (sequencerCheck_iff.mp old), rfl, rfl⟩
  rw [if_neg old, if_neg old]
  have new : s ∉ recorded seq.seq := fun member => old (sequencerCheck_iff.mpr member)
  cases list : seq.seq with
  | nil =>
    refine Or.inr ⟨list ▸ new, fun far => far.elim, rfl, .singleton small, fun x => ?_⟩
    simp only [List.isEmpty_nil, if_true, recorded_cons, recorded_nil, Set.mem_empty_iff_false, or_false]
    grind
  | cons item after =>
    rw [list] at ascending new
    rw [if_neg (by simp), if_neg (by simp)]
    have effect := sequencerAddWalk_effect s [] (item :: after)
    by_cases reached : item.firstSeqNo ≤ s
    · obtain ⟨found, rest, same, inserted⟩ := effect.above ascending small new ⟨item, rfl, reached⟩
      rw [same]
      refine Or.inr ⟨new, fun far => ?_, found, inserted⟩
      change s + 1 < item.firstSeqNo at far
      grind [uint32Max]
    by_cases touching : s + 1 = item.firstSeqNo
    · obtain ⟨found, inserted⟩ := effect.touching ascending small touching
      exact Or.inr ⟨new, fun far => UInt32.ne_of_lt far touching, found, inserted⟩
    · have far : s + 1 < item.firstSeqNo := by grind [uint32Max]
      have missed := effect.under ascending small fun x member =>
        UInt32.lt_of_lt_of_le far (ascending.first_le member)
      exact Or.inl ⟨Or.inr far, missed⟩

theorem farBelow_iff {items : List SequencerItem} (ascending : Ascending items) :
    FarBelow items s ↔ (∃ x, x ∈ recorded items) ∧ ∀ x ∈ recorded items, s + 1 < x := by
  cases items with
  | nil =>
    refine iff_of_false (fun far => far) fun ⟨⟨x, member⟩, _⟩ => ?_
    rw [recorded_nil] at member
    exact Set.notMem_empty x member
  | cons item items =>
    have head : item.firstSeqNo ∈ recorded (item :: items) :=
      recorded_cons.mpr (Or.inl ⟨UInt32.le_refl _, ascending.nonempty⟩)
    exact ⟨fun far => ⟨⟨_, head⟩, fun x member => UInt32.lt_of_lt_of_le far (ascending.first_le member)⟩,
      fun far => far.2 _ head⟩

/-- On numbers below `UINT32_MAX` a number is recorded unless it lies too far
below the first range, and then nothing changes. -/
theorem sequencerAdd_effect (ascending : Ascending seq.seq) (small : s < uint32Max) (isLast : Bool) :
    (¬FarBelow seq.seq s → Inserted s seq.seq (sequencerAdd seq s isLast).2.seq) ∧
      (FarBelow seq.seq s → (sequencerAdd seq s isLast).2.seq = seq.seq) := by
  rcases sequencerAdd_cases ascending small isLast with ⟨known | far, _, same⟩ | ⟨_, near, _, inserted⟩
  · rw [same]
    refine ⟨fun _ => ⟨ascending, fun x => ?_⟩, fun _ => rfl⟩
    exact (or_iff_right_of_imp fun same => same ▸ known).symm
  · exact ⟨fun near => absurd far near, fun _ => same⟩
  · exact ⟨fun _ => inserted, fun far => absurd far near⟩

theorem sequencerAdd_ascending (ascending : Ascending seq.seq) (small : s < uint32Max) (isLast : Bool) :
    Ascending (sequencerAdd seq s isLast).2.seq := by
  obtain ⟨near, far⟩ := sequencerAdd_effect ascending small isLast
  by_cases away : FarBelow seq.seq s
  · rw [far away]
    exact ascending
  · exact (near away).ascending

theorem sequencerAdd_keeps (ascending : Ascending seq.seq) (small : s < uint32Max) (isLast : Bool) {x : UInt32}
    (member : x ∈ recorded seq.seq) : x ∈ recorded (sequencerAdd seq s isLast).2.seq := by
  obtain ⟨near, far⟩ := sequencerAdd_effect ascending small isLast
  by_cases away : FarBelow seq.seq s
  · rw [far away]
    exact member
  · exact ((near away).mem_iff x).mpr (Or.inr member)

/-- Even when the number itself is given away, one at least as large is
recorded. -/
theorem sequencerAdd_reaches (ascending : Ascending seq.seq) (small : s < uint32Max) (isLast : Bool) :
    ∃ x ∈ recorded (sequencerAdd seq s isLast).2.seq, s ≤ x := by
  obtain ⟨near, far⟩ := sequencerAdd_effect ascending small isLast
  by_cases away : FarBelow seq.seq s
  · rw [far away]
    obtain ⟨⟨x, member⟩, above⟩ := (farBelow_iff ascending).mp away
    have above := above x member
    exact ⟨x, member, by grind [uint32Max]⟩
  · exact ⟨s, ((near away).mem_iff s).mpr (Or.inl rfl), UInt32.le_refl s⟩

end Add

theorem sequencerCompleteWalk_recorded {items : List SequencerItem} (ascending : Ascending items) :
    Ascending (sequencerCompleteWalk items) ∧ recorded (sequencerCompleteWalk items) = recorded items := by
  induction items using sequencerCompleteWalk.induct with
  | case1 item nextItem rest adjacent ih =>
    rw [sequencerCompleteWalk, if_pos adjacent]
    have nextNonempty : nextItem.firstSeqNo ≤ nextItem.lastSeqNo := by
      cases ascending with | cons _ _ _ next => exact next.nonempty
    cases ascending with
    | cons nonempty below later ascendingNext =>
      cases ascendingNext with
      | cons _ nextBelow restAbove ascendingRest =>
        obtain ⟨kept, same⟩ := ih ascendingRest
        refine ⟨.cons (by grind) nextBelow (by rw [same]; exact restAbove) kept, ?_⟩
        ext x
        rw [recorded_cons, same, recorded_cons, recorded_cons, ← or_assoc]
        grind
  | case2 item nextItem rest apart ih =>
    rw [sequencerCompleteWalk, if_neg apart]
    cases ascending with
    | cons nonempty below later ascendingNext =>
      obtain ⟨kept, same⟩ := ih ascendingNext
      refine ⟨.cons nonempty below (by rw [same]; exact later) kept, ?_⟩
      ext x
      rw [recorded_cons, same]
      exact recorded_cons.symm
  | case3 items short =>
    rw [sequencerCompleteWalk_short short]
    exact ⟨ascending, rfl⟩

end UCP

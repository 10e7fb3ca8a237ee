import UCP.SequencerRuns

namespace UCP

section Loop

variable {Ctx : Type} (seq : Sequencer) (callback : UInt32 → Ctx → Ctx)

theorem sequencerIterateLoop_eq (reqSeqNo : UInt32) (ctx : Ctx) :
    sequencerIterateLoop seq callback reqSeqNo ctx =
      (seq, (((List.range' reqSeqNo.toNat (seq.maxSeqNo.toNat - reqSeqNo.toNat)).map UInt32.ofNat).filter
        (!sequencerCheck seq ·)).foldl (fun ctx s => callback s ctx) ctx) := by
  induction reqSeqNo, ctx using sequencerIterateLoop.induct seq callback with
  | case1 reqSeqNo ctx below ih =>
    simp only [dite_eq_ite] at ih
    rw [sequencerIterateLoop, if_pos below, ih]
    rw [UInt32.lt_iff_toNat_lt] at below
    have room := seq.maxSeqNo.toNat_lt
    have next : (reqSeqNo + 1).toNat = reqSeqNo.toNat + 1 := by
      simp only [UInt32.toNat_add, UInt32.reduceToNat]
      omega
    have count : seq.maxSeqNo.toNat - reqSeqNo.toNat = seq.maxSeqNo.toNat - (reqSeqNo.toNat + 1) + 1 := by omega
    rw [next, count, List.range'_succ, List.map_cons, UInt32.ofNat_toNat, List.filter_cons]
    split
    · rfl
    · rfl
  | case2 reqSeqNo ctx above =>
    rw [sequencerIterateLoop, if_neg above]
    rw [UInt32.not_lt, UInt32.le_iff_toNat_le] at above
    rw [Nat.sub_eq_zero_of_le above]
    rfl

/-- The callback is called on the missing numbers in their order, and the
sequencer stays as it is. -/
theorem sequencerIterateMissingSegmentsWith_eq (ctx : Ctx) :
    sequencerIterateMissingSegmentsWith seq callback ctx =
      (seq, (sequencerIterateMissingSegments seq).foldl (fun ctx s => callback s ctx) ctx) := by
  unfold sequencerIterateMissingSegmentsWith sequencerIterateMissingSegments
  split
  · rfl
  · rw [sequencerIterateLoop_eq, List.range_eq_range']
    rfl

end Loop

theorem toNat_ofNat_of_mem_range {bound : UInt32} {i : Nat} (member : i ∈ List.range bound.toNat) :
    (UInt32.ofNat i).toNat = i :=
  UInt32.toNat_ofNat_of_lt' ((List.mem_range.mp member).trans bound.toNat_lt)

theorem sequencerIterateMissingSegments_sorted (seq : Sequencer) :
    (sequencerIterateMissingSegments seq).Pairwise (· < ·) := by
  unfold sequencerIterateMissingSegments
  split
  · exact .nil
  · refine .filter _ (List.pairwise_map.mpr ?_)
    refine List.Pairwise.imp_of_mem (fun {i j} memberI memberJ below => ?_) List.pairwise_lt_range
    rw [UInt32.lt_iff_toNat_lt, toNat_ofNat_of_mem_range memberI, toNat_ofNat_of_mem_range memberJ]
    exact below

theorem mem_sequencerIterateMissingSegments {seq : Sequencer} (started : seq.seq ≠ []) {s : UInt32} :
    s ∈ sequencerIterateMissingSegments seq ↔ s < seq.maxSeqNo ∧ sequencerCheck seq s = false := by
  unfold sequencerIterateMissingSegments
  rw [if_neg (by simpa using started), List.mem_filter, List.mem_map, Bool.not_eq_true']
  refine and_congr_left fun _ => ⟨?_, fun below => ?_⟩
  · rintro ⟨i, member, rfl⟩
    rw [UInt32.lt_iff_toNat_lt, toNat_ofNat_of_mem_range member]
    exact List.mem_range.mp member
  · exact ⟨s.toNat, List.mem_range.mpr (UInt32.lt_iff_toNat_lt.mp below), UInt32.ofNat_toNat⟩

section Run

variable {seq : Sequencer} {calls : List SequencerCall}

theorem sequencerAdd_maxSeqNo (seq : Sequencer) (s : UInt32) (isLast : Bool) :
    (sequencerAdd seq s isLast).2.maxSeqNo = if isLast ∨ seq.maxSeqNo < s then s else seq.maxSeqNo := by
  rw [sequencerAdd_bounds]
  dsimp only
  unfold sequencerAddBounds
  grind

theorem sequencerComplete_maxSeqNo (seq : Sequencer) : (sequencerComplete seq).2.maxSeqNo = seq.maxSeqNo := by
  unfold sequencerComplete
  split
  · rfl
  · rfl

theorem WalkEffect.ne_nil {s : UInt32} {before items out : List SequencerItem} {result : Bool}
    (effect : WalkEffect s before items result out) (started : before ++ items ≠ []) : out ≠ [] := by
  induction effect with
  | missed =>
    rw [List.append_nil] at started
    exact started
  | passed _ _ _ _ ih => exact ih (by simp)
  | _ => simp

theorem sequencerAdd_ne_nil (seq : Sequencer) (s : UInt32) (isLast : Bool) :
    (sequencerAdd seq s isLast).2.seq ≠ [] := by
  rw [sequencerAdd_seq]
  split
  · rename_i old
    obtain ⟨item, member, -⟩ := List.any_eq_true.mp old
    exact List.ne_nil_of_mem member
  split
  · exact List.cons_ne_nil _ _
  · rename_i started
    exact (sequencerAddWalk_effect s [] seq.seq).ne_nil (by simpa using started)

/-- The flag for the last packet comes only with a number that no other number
exceeds. -/
def LastIsLargest (calls : List SequencerCall) : Prop := ∀ s, .add s true ∈ calls → ∀ x ∈ added calls, x ≤ s

theorem LastIsLargest.restrict {before : List SequencerCall} (largest : LastIsLargest calls)
    (earlier : before <+: calls) :
    LastIsLargest before :=
  fun s last x member => largest s (earlier.subset last) x (added_mono earlier member)

/-- `maxSeqNo` is the largest number added so far. -/
theorem LastIsLargest.maxSeqNo (largest : LastIsLargest calls) :
    (∀ x ∈ added calls, x ≤ (sequencerRun calls).maxSeqNo) ∧
      (added calls = [] ∧ (sequencerRun calls).maxSeqNo = 0 ∨ (sequencerRun calls).maxSeqNo ∈ added calls) := by
  induction calls using sequencerRun_induction with
  | start => exact ⟨fun _ none => absurd none List.not_mem_nil, Or.inl ⟨rfl, rfl⟩⟩
  | add calls s isLast ih =>
    obtain ⟨bound, reached⟩ := ih (largest.restrict (List.prefix_append ..))
    rw [sequencerAdd_maxSeqNo, added_add]
    simp only [List.mem_append, List.mem_singleton]
    split
    · rename_i replaced
      refine ⟨?_, Or.inr (Or.inr rfl)⟩
      rintro x (earlier | rfl)
      · rcases replaced with rfl | above
        · exact largest s List.mem_concat_self x (by rw [added_add]; exact List.mem_append_left _ earlier)
        · exact UInt32.le_of_lt (UInt32.lt_of_le_of_lt (bound x earlier) above)
      · exact UInt32.le_refl x
    · rename_i kept
      have within : s ≤ (sequencerRun calls).maxSeqNo := UInt32.not_lt.mp fun above => kept (Or.inr above)
      refine ⟨?_, Or.inr ?_⟩
      · rintro x (earlier | rfl)
        · exact bound x earlier
        · exact within
      · rcases reached with ⟨-, zero⟩ | reached
        · right
          rw [zero] at within ⊢
          exact UInt32.le_antisymm UInt32.zero_le within
        · exact Or.inl reached
  | complete calls ih =>
    rw [sequencerComplete_maxSeqNo, added_complete]
    exact ih (largest.restrict (List.prefix_append ..))

theorem sequencerRun_ne_nil (some : added calls ≠ []) : (sequencerRun calls).seq ≠ [] := by
  induction calls using sequencerRun_induction with
  | start => exact absurd rfl some
  | add calls s isLast ih => exact sequencerAdd_ne_nil (sequencerRun calls) s isLast
  | complete calls ih =>
    rw [added_complete] at some
    rw [sequencerComplete_seq]
    exact sequencerCompleteWalk_ne_nil (ih some)

/-- The missing segments are reported once each, in ascending order: the numbers
below the largest one added that are not recorded. -/
theorem missing_segments_are_the_gaps {Ctx : Type} (callback : UInt32 → Ctx → Ctx) (ctx : Ctx)
    (some : added calls ≠ []) (largest : LastIsLargest calls) :
    sequencerIterateMissingSegmentsWith (sequencerRun calls) callback ctx =
        (sequencerRun calls,
          (sequencerIterateMissingSegments (sequencerRun calls)).foldl (fun ctx s => callback s ctx) ctx) ∧
      (sequencerIterateMissingSegments (sequencerRun calls)).Pairwise (· < ·) ∧
      ∀ s, s ∈ sequencerIterateMissingSegments (sequencerRun calls) ↔
        (∃ x ∈ added calls, s < x) ∧ sequencerCheck (sequencerRun calls) s = false := by
  refine ⟨sequencerIterateMissingSegmentsWith_eq .., sequencerIterateMissingSegments_sorted _, fun s => ?_⟩
  rw [mem_sequencerIterateMissingSegments (sequencerRun_ne_nil some)]
  obtain ⟨bound, reached⟩ := largest.maxSeqNo
  refine and_congr_left fun _ => ⟨fun below => ?_, fun ⟨x, member, below⟩ => UInt32.lt_of_lt_of_le below (bound x member)⟩
  exact ⟨_, reached.resolve_left fun none => some none.1, below⟩

theorem missing_segments_are_the_gaps_two_ranges :
    let calls : List SequencerCall := [.add 1 false, .complete, .add 4 true]
    sequencerIterateMissingSegmentsWith (sequencerRun calls) (fun s sent => sent ++ [s]) [] =
        (sequencerRun calls,
          (sequencerIterateMissingSegments (sequencerRun calls)).foldl (fun sent s => sent ++ [s]) []) ∧
      (sequencerIterateMissingSegments (sequencerRun calls)).Pairwise (· < ·) ∧
      ∀ s, s ∈ sequencerIterateMissingSegments (sequencerRun calls) ↔
        (∃ x ∈ added calls, s < x) ∧ sequencerCheck (sequencerRun calls) s = false := by
  refine missing_segments_are_the_gaps _ _ (by decide) ?_
  intro s last
  simp only [List.mem_cons, SequencerCall.add.injEq, reduceCtorEq, List.not_mem_nil, or_false, false_or,
    Bool.true_eq_false, and_false, and_true] at last
  subst last
  simp [added, SequencerCall.seqNo?]

end Run

end UCP

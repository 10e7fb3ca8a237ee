import UCP.SequencerRuns

namespace UCP

/-- All added numbers lie below `UINT32_MAX`. -/
def BelowMax (calls : List SequencerCall) : Prop := ∀ s ∈ added calls, s < uint32Max

instance (calls : List SequencerCall) : Decidable (BelowMax calls) := List.decidableBAll _ (added calls)

section Run

variable {calls before : List SequencerCall} {s : UInt32} {isLast : Bool}

theorem BelowMax.restrict (below : BelowMax calls) (earlier : before <+: calls) : BelowMax before :=
  fun s member => below s (added_mono earlier member)

theorem BelowMax.of_add (below : BelowMax (calls ++ [.add s isLast])) : BelowMax calls ∧ s < uint32Max := by
  refine ⟨below.restrict (List.prefix_append ..), below s ?_⟩
  rw [added_add]
  exact List.mem_concat_self

theorem BelowMax.add (below : BelowMax calls) {s : UInt32} (small : s < uint32Max) (isLast : Bool) :
    BelowMax (calls ++ [.add s isLast]) := by
  intro x member
  rw [added_add] at member
  rcases List.mem_append.mp member with earlier | new
  · exact below x earlier
  · exact List.mem_singleton.mp new ▸ small

theorem BelowMax.complete (below : BelowMax calls) : BelowMax (calls ++ [.complete]) := by
  intro x member
  rw [added_complete] at member
  exact below x member

theorem sequencerRun_ascending (below : BelowMax calls) : Ascending (sequencerRun calls).seq := by
  induction calls using sequencerRun_induction with
  | start => exact .nil
  | add calls s isLast ih =>
    obtain ⟨below, small⟩ := below.of_add
    exact sequencerAdd_ascending (ih below) small isLast
  | complete calls ih =>
    rw [sequencerComplete_seq]
    exact (sequencerCompleteWalk_recorded (ih (below.restrict (List.prefix_append ..)))).1

theorem sequencerComplete_recorded (below : BelowMax calls) :
    recorded (sequencerComplete (sequencerRun calls)).2.seq = recorded (sequencerRun calls).seq := by
  rw [sequencerComplete_seq]
  exact (sequencerCompleteWalk_recorded (sequencerRun_ascending below)).2

theorem sequencerCheck_false {seq : Sequencer} : sequencerCheck seq s = false ↔ s ∉ recorded seq.seq := by
  rw [← sequencerCheck_iff, Bool.not_eq_true]

/-- `sequencer_add` says yes exactly when it records its number and nothing
else, and leaves the list alone when it says no. -/
theorem sequencerAdd_tells_effect (below : BelowMax calls) (small : s < uint32Max) (isLast : Bool) :
    ((sequencerAdd (sequencerRun calls) s isLast).1 = true ↔
      sequencerCheck (sequencerRun calls) s = false ∧
        ∀ x, sequencerCheck (sequencerAdd (sequencerRun calls) s isLast).2 x = true ↔
          x = s ∨ sequencerCheck (sequencerRun calls) x = true) ∧
    ((sequencerAdd (sequencerRun calls) s isLast).1 = false →
      (sequencerAdd (sequencerRun calls) s isLast).2.seq = (sequencerRun calls).seq ∧
        ∀ x, sequencerCheck (sequencerAdd (sequencerRun calls) s isLast).2 x =
          sequencerCheck (sequencerRun calls) x) := by
  have ascending := sequencerRun_ascending below
  rcases sequencerAdd_cases ascending small isLast with ⟨_, missed, same⟩ | ⟨new, _, found, inserted⟩
  · have unchanged : ∀ x, sequencerCheck (sequencerAdd (sequencerRun calls) s isLast).2 x =
        sequencerCheck (sequencerRun calls) x := fun x => by rw [sequencerCheck, same, sequencerCheck]
    refine ⟨?_, fun _ => ⟨same, unchanged⟩⟩
    rw [missed]
    refine ⟨fun yes => Bool.noConfusion yes, ?_⟩
    rintro ⟨new, grown⟩
    have here := (grown s).mpr (Or.inl rfl)
    rw [unchanged, new] at here
    exact here
  · refine ⟨⟨fun _ => ⟨sequencerCheck_false.mpr new, fun x => ?_⟩, fun _ => found⟩, fun no => ?_⟩
    · rw [sequencerCheck_iff, sequencerCheck_iff]
      exact inserted.mem_iff x
    · rw [found] at no
      cases no

/-- The number between two ranges is recorded, and a number in one of them is not. -/
theorem sequencerAdd_tells_effect_between :
    let seq := sequencerRun [.add 3 false, .complete, .add 5 false]
    (sequencerAdd seq 4 true).1 = true ∧ (sequencerAdd seq 4 true).2.seq = [⟨3, 5⟩] ∧
      (∀ x, sequencerCheck (sequencerAdd seq 4 true).2 x = true ↔ x = 4 ∨ sequencerCheck seq x = true) ∧
      (sequencerAdd seq 5 true).1 = false ∧ (sequencerAdd seq 5 true).2.seq = [⟨3, 3⟩, ⟨5, 5⟩] ∧
      ∀ x, sequencerCheck (sequencerAdd seq 5 true).2 x = sequencerCheck seq x := by
  intro seq
  have below : BelowMax [.add 3 false, .complete, .add 5 false] := by decide
  have inside := sequencerAdd_tells_effect below (show (4 : UInt32) < uint32Max by decide) true
  have again := sequencerAdd_tells_effect below (show (5 : UInt32) < uint32Max by decide) true
  exact ⟨rfl, rfl, (inside.1.mp rfl).2, rfl, rfl, (again.2 rfl).2⟩

/-- No number comes more than one below all those added before it. -/
def AddedNear (calls : List SequencerCall) : Prop :=
  ∀ before s isLast, before ++ [.add s isLast] <+: calls → added before = [] ∨ ∃ x ∈ added before, x ≤ s + 1

theorem AddedNear.restrict (near : AddedNear calls) (earlier : before <+: calls) : AddedNear before :=
  fun _ s isLast first => near _ s isLast (first.trans earlier)

theorem AddedNear.records (near : AddedNear calls) (below : BelowMax calls) :
    ∀ s ∈ added calls, s ∈ recorded (sequencerRun calls).seq := by
  induction calls using sequencerRun_induction with
  | start => exact fun _ member => absurd member List.not_mem_nil
  | add calls n isLast ih =>
    have ih := ih (near.restrict (List.prefix_append ..)) below.of_add.1
    obtain ⟨below, small⟩ := below.of_add
    have ascending := sequencerRun_ascending below
    have taken : ¬FarBelow (sequencerRun calls).seq n := by
      intro far
      obtain ⟨⟨x, member⟩, above⟩ := (farBelow_iff ascending).mp far
      have some : added calls ≠ [] := List.ne_nil_of_mem (added_of_recorded member)
      obtain ⟨x, earlier, close⟩ := (near calls n isLast (List.prefix_refl _)).resolve_left some
      exact UInt32.not_lt.mpr close (above x (ih x earlier))
    intro s member
    rw [((sequencerAdd_effect ascending small isLast).1 taken).mem_iff]
    rw [added_add, List.mem_append, List.mem_singleton] at member
    exact member.symm.imp_right (ih s)
  | complete calls ih =>
    intro s member
    rw [sequencerComplete_recorded (below.restrict (List.prefix_append ..))]
    rw [added_complete] at member
    exact ih (near.restrict (List.prefix_append ..)) (below.restrict (List.prefix_append ..)) s member

/-- A sequencer forgets nothing exactly when no number comes too far below
all the earlier ones. -/
theorem sequencer_forgets_nothing_iff (below : BelowMax calls) :
    (∀ before, before <+: calls → ∀ s ∈ added before, sequencerCheck (sequencerRun before) s = true) ↔
      AddedNear calls := by
  constructor
  · intro keeps before s isLast first
    by_contra far
    rw [not_or, not_exists] at far
    obtain ⟨notFirst, far⟩ := far
    have kept := keeps before ((List.prefix_append ..).trans first)
    have below := below.restrict first
    obtain ⟨below, small⟩ := below.of_add
    have ascending := sequencerRun_ascending below
    have above : ∀ x ∈ recorded (sequencerRun before).seq, s + 1 < x := fun x member =>
      UInt32.not_le.mp fun close => far x ⟨added_of_recorded member, close⟩
    obtain ⟨x, member⟩ := List.exists_mem_of_ne_nil _ notFirst
    have away := (farBelow_iff ascending).mpr ⟨⟨x, sequencerCheck_iff.mp (kept x member)⟩, above⟩
    have now := keeps _ first s (by rw [added_add]; exact List.mem_concat_self)
    rw [sequencerRun_add, sequencerCheck_iff, (sequencerAdd_effect ascending small isLast).2 away] at now
    have same := above s now
    grind [uint32Max]
  · intro near before earlier s member
    exact sequencerCheck_iff.mpr ((near.restrict earlier).records (below.restrict earlier) s member)

theorem sequencer_forgets_nothing_iff_down :
    BelowMax [.add 3 false, .complete, .add 2 true] ∧
      ((∀ before, before <+: [.add 3 false, .complete, .add 2 true] →
        ∀ s ∈ added before, sequencerCheck (sequencerRun before) s = true) ↔
        AddedNear [.add 3 false, .complete, .add 2 true]) :=
  have below : BelowMax [.add 3 false, .complete, .add 2 true] := by decide
  ⟨below, sequencer_forgets_nothing_iff below⟩

/-- The number 0, two below the first range, is not recorded. -/
theorem sequencer_forgets_far_number :
    BelowMax [.add 2 false, .add 0 false] ∧
      ¬∀ before, before <+: [.add 2 false, .add 0 false] →
        ∀ s ∈ added before, sequencerCheck (sequencerRun before) s = true :=
  ⟨by decide, fun keeps => absurd (keeps _ (List.prefix_refl _) 0 (by decide)) (by decide)⟩

end Run

end UCP

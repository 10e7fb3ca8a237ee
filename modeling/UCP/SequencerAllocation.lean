import UCP.NullableSequencer
import UCP.SequencerRuns

namespace UCP

/-- A sequencer without null pointers among its ranges. -/
def Sequencer.nullable (seq : Sequencer) : Nullable.Sequencer where
  seq := seq.seq.map some
  maxSeqNo := seq.maxSeqNo
  expectedLastSeqNo := seq.expectedLastSeqNo

/-- The loop of `sequencer_add` comes to one of its two insertion sites: it meets
no range next to the number before it stands in the gap where the number lies. -/
def walkCreatesRange (seqNo : UInt32) : List SequencerItem → Bool
  | [] => false
  | item :: after =>
    if item.lastSeqNo + 1 = seqNo ∨ item.firstSeqNo - 1 = seqNo then false
    else if item.lastSeqNo < seqNo ∧ ∀ nextItem ∈ after.head?, seqNo < nextItem.firstSeqNo then true
    else walkCreatesRange seqNo after

/-- `sequencer_add` calls `create_sequencer_range` for this number. -/
def needsRange (seq : Sequencer) (seqNo : UInt32) : Bool :=
  !sequencerCheck seq seqNo && (seq.seq.isEmpty || walkCreatesRange seqNo seq.seq)

section Walk

variable {s : UInt32} {items : List SequencerItem}

theorem nullable_checkLoop (s : UInt32) (items : List SequencerItem) :
    Nullable.sequencerCheckLoop s (items.map some) = some (items.any (·.contains s)) := by
  induction items with
  | nil => rfl
  | cons item rest ih =>
    simp only [List.map_cons, Nullable.sequencerCheckLoop, Option.bind_eq_bind, Option.bind_some, ih, List.any_cons]
    cases item.contains s <;> rfl

theorem nullable_check (seq : Sequencer) (s : UInt32) :
    Nullable.sequencerCheck seq.nullable s = some (sequencerCheck seq s) :=
  nullable_checkLoop s seq.seq

/-- Where the walk neither extends a range nor inserts one it goes on. -/
theorem addWalk_passes {item : SequencerItem} {after : List SequencerItem} (above : item.lastSeqNo + 1 ≠ s)
    (below : item.firstSeqNo - 1 ≠ s)
    (outside : ¬(item.lastSeqNo < s ∧ ∀ nextItem ∈ after.head?, s < nextItem.firstSeqNo))
    (before : List SequencerItem) :
    sequencerAddWalk s before (item :: after) = sequencerAddWalk s (before ++ [item]) after ∧
      ∀ newRange, Nullable.sequencerAddWalk newRange s (before.map some) ((item :: after).map some) =
        Nullable.sequencerAddWalk newRange s ((before ++ [item]).map some) (after.map some) := by
  cases after with
  | nil =>
    have notBehind : ¬item.lastSeqNo < s := by simpa using outside
    simp [Nullable.sequencerAddWalk, sequencerAddWalk, above, below, notBehind]
  | cons nextItem rest =>
    by_cases behind : item.lastSeqNo < s
    · have notGap : ¬s < nextItem.firstSeqNo := by simpa [behind] using outside
      constructor
      · conv_lhs => rw [sequencerAddWalk.eq_def]
        simp only [above, below, behind, notGap, if_false, and_false]
      · intro newRange
        rw [List.map_append, List.map_singleton]
        conv_lhs => rw [List.map_cons, Nullable.sequencerAddWalk.eq_def]
        simp [above, below, notGap]
    · constructor
      · conv_lhs => rw [sequencerAddWalk.eq_def]
        simp only [above, below, behind, if_false, false_and]
      · intro newRange
        rw [List.map_append, List.map_singleton]
        conv_lhs => rw [List.map_cons, Nullable.sequencerAddWalk.eq_def]
        simp [above, below, behind]

/-- A walk that creates no range is the same walk, whatever a new range were. -/
theorem nullable_addWalk_spared (spared : walkCreatesRange s items = false) (newRange : Option SequencerItem)
    (before : List SequencerItem) :
    Nullable.sequencerAddWalk newRange s (before.map some) (items.map some) =
      some ((sequencerAddWalk s before items).1, (sequencerAddWalk s before items).2.map some) := by
  induction items generalizing before with
  | nil => rfl
  | cons item after ih =>
    rw [walkCreatesRange] at spared
    by_cases above : item.lastSeqNo + 1 = s
    · cases after with
      | nil => simp [Nullable.sequencerAddWalk, sequencerAddWalk, above]
      | cons nextItem rest =>
        by_cases touching : nextItem.firstSeqNo - 1 = s
        · simp [Nullable.sequencerAddWalk, sequencerAddWalk, above, touching]
        · simp [Nullable.sequencerAddWalk, sequencerAddWalk, above, touching]
    by_cases below : item.firstSeqNo - 1 = s
    · cases last : before.getLast? with
      | none => simp [Nullable.sequencerAddWalk, sequencerAddWalk, above, below, last]
      | some prevItem =>
        by_cases touching : prevItem.lastSeqNo + 1 = s
        · simp [Nullable.sequencerAddWalk, sequencerAddWalk, above, below, last, touching]
        · simp [Nullable.sequencerAddWalk, sequencerAddWalk, above, below, last, touching]
    rw [if_neg (not_or.mpr ⟨above, below⟩)] at spared
    split at spared
    · cases spared
    rename_i outside
    obtain ⟨walk, nullable⟩ := addWalk_passes above below outside before
    rw [walk, nullable]
    exact ih spared (before ++ [item])

/-- A walk that creates a range inserts what `create_sequencer_range` returns,
and says yes. -/
theorem nullable_addWalk_created (creates : walkCreatesRange s items = true) (before : List SequencerItem) :
    ∃ left right, sequencerAddWalk s before items = (true, left ++ ⟨s, s⟩ :: right) ∧
      ∀ newRange, Nullable.sequencerAddWalk newRange s (before.map some) (items.map some) =
        some (true, left.map some ++ newRange :: right.map some) := by
  induction items generalizing before with
  | nil => cases creates
  | cons item after ih =>
    rw [walkCreatesRange] at creates
    split at creates
    · cases creates
    rename_i apart
    obtain ⟨above, below⟩ := not_or.mp apart
    split at creates
    · rename_i gap
      obtain ⟨behind, gap⟩ := gap
      cases after with
      | nil =>
        refine ⟨before ++ [item], [], ?_, fun newRange => ?_⟩
        · simp [sequencerAddWalk, above, below, behind]
        · simp [Nullable.sequencerAddWalk, above, below, behind]
      | cons nextItem rest =>
        refine ⟨before ++ [item], nextItem :: rest, ?_, fun newRange => ?_⟩
        · simp [sequencerAddWalk, above, below, behind, gap nextItem rfl]
        · simp [Nullable.sequencerAddWalk, above, below, behind, gap nextItem rfl]
    · rename_i outside
      obtain ⟨walk, nullable⟩ := addWalk_passes above below outside before
      obtain ⟨left, right, created, inserted⟩ := ih creates (before ++ [item])
      exact ⟨left, right, walk.trans created, fun newRange => (nullable newRange).trans (inserted newRange)⟩

end Walk

section Add

variable {seq : Sequencer} {s : UInt32}

theorem nullable_addBounds (seq : Sequencer) (s : UInt32) (isLast : Bool) :
    Nullable.sequencerAddBounds seq.nullable s isLast = (sequencerAddBounds seq s isLast).nullable := by
  cases isLast with
  | true => rfl
  | false =>
    by_cases grows : seq.maxSeqNo < s
    · simp [Nullable.sequencerAddBounds, sequencerAddBounds, Sequencer.nullable, grows]
    · simp [Nullable.sequencerAddBounds, sequencerAddBounds, Sequencer.nullable, grows]

/-- `sequencer_add` on a list without null pointers, where only a new range can
be null. -/
theorem nullable_add (seq : Sequencer) (s : UInt32) (isLast allocates : Bool) :
    Nullable.sequencerAdd seq.nullable s isLast allocates =
      if sequencerCheck seq s then some (false, (sequencerAddBounds seq s isLast).nullable)
      else if seq.seq.isEmpty then
        some (true, { (sequencerAddBounds seq s isLast).nullable with
          seq := [Nullable.createSequencerRange allocates s s] })
      else
        (Nullable.sequencerAddWalk (Nullable.createSequencerRange allocates s s) s [] (seq.seq.map some)).map
          fun (result, objs) => (result, { (sequencerAddBounds seq s isLast).nullable with seq := objs }) := by
  have list : (sequencerAddBounds seq s isLast).nullable.seq = seq.seq.map some :=
    congrArg (List.map some) (sequencerAddBounds_seq seq s isLast)
  simp only [Nullable.sequencerAdd, nullable_addBounds, nullable_check, sequencerAddBounds_check, Option.bind_eq_bind,
    Option.bind_some, list, List.isEmpty_map, Option.map_eq_bind]
  rfl

/-- Where no range is created or `malloc` succeeds, null pointers do not come in. -/
theorem nullable_add_spared {allocates : Bool} (spared : allocates = true ∨ needsRange seq s = false)
    (isLast : Bool) :
    Nullable.sequencerAdd seq.nullable s isLast allocates =
      some ((sequencerAdd seq s isLast).1, (sequencerAdd seq s isLast).2.nullable) := by
  rw [nullable_add, sequencerAdd]
  simp only [sequencerAddBounds_check, sequencerAddBounds_seq]
  by_cases recorded : sequencerCheck seq s = true
  · rw [if_pos recorded, if_pos recorded]
  rw [if_neg recorded, if_neg recorded]
  by_cases empty : seq.seq.isEmpty = true
  · have allocates : allocates = true := spared.resolve_right (by simp [needsRange, recorded, empty])
    rw [if_pos empty, if_pos empty, allocates]
    rfl
  rw [if_neg empty, if_neg empty]
  cases creates : walkCreatesRange s seq.seq with
  | false =>
    have walk := nullable_addWalk_spared creates (Nullable.createSequencerRange allocates s s) []
    rw [List.map_nil] at walk
    rw [walk]
    rfl
  | true =>
    have allocates : allocates = true := spared.resolve_right (by simp [needsRange, recorded, creates])
    obtain ⟨left, right, walk, nullable⟩ := nullable_addWalk_created creates []
    have nullable := nullable (some ⟨s, s⟩)
    rw [List.map_nil] at nullable
    rw [allocates, Nullable.createSequencerRange, if_pos rfl, nullable, walk]
    simp [Sequencer.nullable]

/-- Where a range is created and `malloc` fails, `sequencer_add` puts the null
pointer into the list and says yes. -/
theorem nullable_add_failed (needs : needsRange seq s = true) (isLast : Bool) :
    ∃ seq', Nullable.sequencerAdd seq.nullable s isLast false = some (true, seq') ∧ none ∈ seq'.seq := by
  rw [needsRange, Bool.and_eq_true, Bool.not_eq_true', Bool.or_eq_true] at needs
  obtain ⟨new, inserts⟩ := needs
  rw [nullable_add, new, if_neg Bool.false_ne_true]
  by_cases empty : seq.seq.isEmpty = true
  · rw [if_pos empty]
    exact ⟨_, rfl, List.mem_singleton_self _⟩
  · rw [if_neg empty]
    obtain ⟨left, right, _, nullable⟩ := nullable_addWalk_created (inserts.resolve_left empty) []
    have nullable := nullable none
    rw [List.map_nil] at nullable
    rw [Nullable.createSequencerRange, if_neg Bool.false_ne_true, nullable]
    exact ⟨_, rfl, List.mem_append_right _ (List.mem_cons_self ..)⟩

end Add

theorem nullable_completeWalk (items : List SequencerItem) :
    Nullable.sequencerCompleteWalk (items.map some) = some ((sequencerCompleteWalk items).map some) := by
  induction items using sequencerCompleteWalk.induct with
  | case1 item nextItem rest touching ih =>
    simp only [List.map_cons, Nullable.sequencerCompleteWalk, sequencerCompleteWalk, Option.bind_eq_bind,
      Option.bind_some, touching, if_true, ih]
  | case2 item nextItem rest apart ih =>
    rw [List.map_cons] at ih
    simp only [List.map_cons, Nullable.sequencerCompleteWalk, sequencerCompleteWalk, Option.bind_eq_bind,
      Option.bind_some, apart, if_false, ih]
  | case3 items short =>
    rw [sequencerCompleteWalk_short short]
    rcases items with _ | ⟨item, _ | ⟨nextItem, rest⟩⟩
    · rfl
    · rfl
    · exact (short item nextItem rest rfl).elim

theorem nullable_complete (seq : Sequencer) :
    Nullable.sequencerComplete seq.nullable = some ((sequencerComplete seq).1, (sequencerComplete seq).2.nullable) := by
  have walk := nullable_completeWalk seq.seq
  by_cases empty : seq.seq.isEmpty = true
  · simp only [Nullable.sequencerComplete, sequencerComplete, Sequencer.nullable, List.isEmpty_map, empty, if_true]
  · simp only [Nullable.sequencerComplete, sequencerComplete, Sequencer.nullable, List.isEmpty_map, empty, walk,
      Option.bind_eq_bind, Option.bind_some]
    rcases sequencerCompleteWalk seq.seq with _ | ⟨_, _ | ⟨_, _⟩⟩ <;> rfl

/-- A call on the sequencer, with how `malloc` turns out if it asks for a range. -/
inductive AllocationCall
  | add (seqNo : UInt32) (isLast allocates : Bool)
  | complete
  deriving DecidableEq

def AllocationCall.call : AllocationCall → SequencerCall
  | .add seqNo isLast _ => .add seqNo isLast
  | .complete => .complete

def nullableCall (seq : Nullable.Sequencer) : AllocationCall → Option Nullable.Sequencer
  | .add seqNo isLast allocates => (Nullable.sequencerAdd seq seqNo isLast allocates).map (·.2)
  | .complete => (Nullable.sequencerComplete seq).map (·.2)

def nullableRun (calls : List AllocationCall) : Option Nullable.Sequencer :=
  calls.foldlM nullableCall Nullable.sequencerInit

/-- After every call all elements of the list carry a range, so that no later
call can follow a null pointer, and an addition whose allocation fails says no
and leaves the list alone. -/
def SurvivesFailures (calls : List AllocationCall) : Prop :=
  ∀ before, before <+: calls → ∃ state, nullableRun before = some state ∧ none ∉ state.seq ∧
    (∀ s, (Nullable.sequencerCheck state s).isSome) ∧ (Nullable.sequencerComplete state).isSome ∧
    ∀ seq s isLast, state = seq.nullable → before ++ [.add s isLast false] <+: calls → needsRange seq s = true →
      ∃ state', Nullable.sequencerAdd state s isLast false = some (false, state') ∧ state'.seq = state.seq

/-- No addition whose allocation fails asks for a range. -/
def FailsUnasked (calls : List AllocationCall) : Prop :=
  ∀ before s isLast, before ++ [.add s isLast false] <+: calls →
    needsRange (sequencerRun (before.map AllocationCall.call)) s = false

section Run

variable {calls before : List AllocationCall}

theorem nullableRun_append (calls : List AllocationCall) (call : AllocationCall) :
    nullableRun (calls ++ [call]) = (nullableRun calls).bind (nullableCall · call) := by
  rw [nullableRun, List.foldlM_append]
  simp only [List.foldlM_cons, List.foldlM_nil, bind_pure]
  rfl

theorem FailsUnasked.restrict (unasked : FailsUnasked calls) (earlier : before <+: calls) : FailsUnasked before :=
  fun _ s isLast first => unasked _ s isLast (first.trans earlier)

/-- As long as no failing allocation is asked for, failures make no difference. -/
theorem FailsUnasked.run (unasked : FailsUnasked calls) :
    nullableRun calls = some (sequencerRun (calls.map AllocationCall.call)).nullable := by
  induction calls using List.reverseRecOn with
  | nil => rfl
  | append_singleton calls call ih =>
    have ih := ih (unasked.restrict (List.prefix_append ..))
    rw [nullableRun_append, ih, List.map_append, List.map_singleton]
    cases call with
    | add s isLast allocates =>
      have spared : allocates = true ∨ needsRange (sequencerRun (calls.map AllocationCall.call)) s = false := by
        cases allocates with
        | true => exact Or.inl rfl
        | false => exact Or.inr (unasked calls s isLast (List.prefix_refl _))
      rw [AllocationCall.call, sequencerRun_add, Option.bind_some, nullableCall, nullable_add_spared spared isLast]
      rfl
    | complete =>
      rw [AllocationCall.call, sequencerRun_complete, Option.bind_some, nullableCall, nullable_complete]
      rfl

theorem Sequencer.nullable_inj {seq seq' : Sequencer} (same : seq.nullable = seq'.nullable) : seq = seq' := by
  cases seq
  cases seq'
  simp only [Sequencer.nullable, Nullable.Sequencer.mk.injEq] at same
  obtain ⟨list, rfl, rfl⟩ := same
  rw [List.map_injective_iff.mpr (fun _ _ => Option.some.inj) list]

theorem SurvivesFailures.restrict (survives : SurvivesFailures calls) (earlier : before <+: calls) :
    SurvivesFailures before := by
  intro early first
  obtain ⟨state, run, carried, checks, completes, failed⟩ := survives early (first.trans earlier)
  exact ⟨state, run, carried, checks, completes, fun seq s isLast here next =>
    failed seq s isLast here (next.trans earlier)⟩

theorem SurvivesFailures.unasked (survives : SurvivesFailures calls) : FailsUnasked calls := by
  induction calls using List.reverseRecOn with
  | nil => exact fun before s isLast first => absurd first (by simp)
  | append_singleton calls call ih =>
    have unasked := ih (survives.restrict (List.prefix_append ..))
    intro before s isLast first
    rcases List.prefix_concat_iff.mp first with last | earlier
    · obtain ⟨rfl, same⟩ := List.append_inj' last rfl
      cases same
      rw [Bool.eq_false_iff]
      intro needs
      obtain ⟨state, run, carried, _⟩ := survives _ (List.prefix_refl _)
      obtain ⟨state', added, null⟩ := nullable_add_failed needs isLast
      rw [nullableRun_append, unasked.run, Option.bind_some, nullableCall, added] at run
      cases run
      exact carried null
    · exact unasked before s isLast earlier

theorem FailsUnasked.survives (unasked : FailsUnasked calls) : SurvivesFailures calls := by
  intro before earlier
  refine ⟨_, (unasked.restrict earlier).run, ?_, fun s => ?_, ?_, fun seq s isLast here next needs => ?_⟩
  · simp [Sequencer.nullable]
  · rw [nullable_check]
    rfl
  · rw [nullable_complete]
    rfl
  · rw [← Sequencer.nullable_inj here, unasked before s isLast next] at needs
    cases needs

end Run

/-- The sequencer survives failing allocations exactly when it does not ask for
them: each one that it asks for leaves a null pointer among the ranges. -/
theorem failures_survived_iff (calls : List AllocationCall) :
    (SurvivesFailures calls ↔ FailsUnasked calls) ∧
      ∀ seq s isLast, needsRange seq s = true →
        ∃ state, Nullable.sequencerAdd seq.nullable s isLast false = some (true, state) ∧ none ∈ state.seq := by
  exact ⟨⟨SurvivesFailures.unasked, FailsUnasked.survives⟩, fun seq s isLast needs => nullable_add_failed needs isLast⟩

/-- The first addition of all is one that asks; the next look at the list then
follows the null pointer. -/
theorem failed_allocation_corrupts :
    ¬SurvivesFailures [.add 5 false false] ∧
      ∃ state, nullableRun [.add 5 false false] = some state ∧ Nullable.sequencerCheck state 5 = none := by
  refine ⟨fun survives => ?_, ⟨[none], 5, uint32Max⟩, by decide, by decide⟩
  obtain ⟨state, run, carried, _⟩ := survives _ (List.prefix_refl _)
  have run : some (⟨[none], 5, uint32Max⟩ : Nullable.Sequencer) = some state := run
  cases run
  exact carried (List.mem_singleton_self _)

end UCP

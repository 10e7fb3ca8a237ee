import Mathlib.Data.List.Induction
import UCP.SequencerRanges

namespace UCP

/-- A call that changes the sequencer, with its arguments. -/
inductive SequencerCall
  | add (seqNo : UInt32) (isLast : Bool)
  | complete
  deriving DecidableEq, Repr

def sequencerCall (seq : Sequencer) : SequencerCall → Sequencer
  | .add seqNo isLast => (sequencerAdd seq seqNo isLast).2
  | .complete => (sequencerComplete seq).2

/-- The sequencer after these calls on a new one. -/
def sequencerRun (calls : List SequencerCall) : Sequencer := calls.foldl sequencerCall sequencerInit

def SequencerCall.seqNo? : SequencerCall → Option UInt32
  | .add seqNo _ => some seqNo
  | .complete => none

/-- The arguments of the `sequencer_add` calls. -/
def added (calls : List SequencerCall) : List UInt32 := calls.filterMap SequencerCall.seqNo?

section Run

variable {calls : List SequencerCall} {s : UInt32} {isLast : Bool}

@[simp] theorem sequencerRun_add :
    sequencerRun (calls ++ [.add s isLast]) = (sequencerAdd (sequencerRun calls) s isLast).2 :=
  List.foldl_append

@[simp] theorem sequencerRun_complete :
    sequencerRun (calls ++ [.complete]) = (sequencerComplete (sequencerRun calls)).2 :=
  List.foldl_append

theorem added_append (calls more : List SequencerCall) : added (calls ++ more) = added calls ++ added more :=
  List.filterMap_append

@[simp] theorem added_add : added (calls ++ [.add s isLast]) = added calls ++ [s] := added_append ..

@[simp] theorem added_complete : added (calls ++ [.complete]) = added calls :=
  (added_append ..).trans (List.append_nil _)

theorem added_mono {before : List SequencerCall} (earlier : before <+: calls) (member : s ∈ added before) :
    s ∈ added calls := by
  obtain ⟨after, rfl⟩ := earlier
  rw [added_append]
  exact List.mem_append_left _ member

/-- What a new sequencer has and both kinds of calls keep, any calls keep. -/
theorem sequencerRun_induction {inv : List SequencerCall → Sequencer → Prop} (start : inv [] sequencerInit)
    (add : ∀ calls s isLast, inv calls (sequencerRun calls) →
      inv (calls ++ [.add s isLast]) (sequencerAdd (sequencerRun calls) s isLast).2)
    (complete : ∀ calls, inv calls (sequencerRun calls) →
      inv (calls ++ [.complete]) (sequencerComplete (sequencerRun calls)).2)
    (calls : List SequencerCall) : inv calls (sequencerRun calls) := by
  induction calls using List.reverseRecOn with
  | nil => exact start
  | append_singleton calls call ih =>
    cases call with
    | add s isLast =>
      rw [sequencerRun_add]
      exact add calls s isLast ih
    | complete =>
      rw [sequencerRun_complete]
      exact complete calls ih

theorem sequencerRun_inventsNothing (calls : List SequencerCall) :
    InventsNothing {s | s ∈ added calls} (sequencerRun calls) := by
  induction calls using sequencerRun_induction with
  | start => exact fun _ member => absurd member List.not_mem_nil
  | add calls s isLast ih =>
    have grown : {x | x ∈ added (calls ++ [.add s isLast])} = insert s {x | x ∈ added calls} := by
      ext x
      simp only [added_add, List.mem_append, List.mem_singleton, Set.mem_ofPred_eq, Set.mem_insert_iff]
      exact or_comm
    rw [grown]
    exact ih.add s isLast
  | complete calls ih =>
    rw [added_complete]
    exact ih.complete

theorem added_of_recorded (member : s ∈ recorded (sequencerRun calls).seq) : s ∈ added calls :=
  (sequencerRun_inventsNothing calls).check (sequencerCheck_iff.mpr member)

/-- Only added numbers are recorded, and `sequencer_complete` says yes only
when all up to the expected last one have been added. -/
theorem sequencer_invents_nothing (calls : List SequencerCall) :
    (∀ s, sequencerCheck (sequencerRun calls) s = true → s ∈ added calls) ∧
      ((sequencerComplete (sequencerRun calls)).1 = true →
        ∀ s, s ≤ (sequencerRun calls).expectedLastSeqNo → s ∈ added calls) := by
  have inv := sequencerRun_inventsNothing calls
  exact ⟨fun s => inv.check, fun done s => inv.complete_all done⟩

end Run

end UCP

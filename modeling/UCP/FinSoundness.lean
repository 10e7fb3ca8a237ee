import UCP.Lib.Lists
import UCP.ServerSchedule

namespace UCP

/-- Packet `i` of the partition has been saved by a call of
`file_io_save_packet` that returned true. -/
def Saved (c : List UInt8) (events : List ServerEvent) (i : Nat) : Prop :=
  ∃ q, .saved q true ∈ events ∧ q.SameFields (segment c i)

theorem Saved.append {c : List UInt8} {events : List ServerEvent} {i : Nat} (saved : Saved c events i)
    (more : List ServerEvent) : Saved c (events ++ more) i := by
  obtain ⟨q, member, same⟩ := saved
  exact ⟨q, List.mem_append_left _ member, same⟩

/-- A failed save of packet `i` that cannot pass for the end of the transfer:
a packet before `i` is still missing, or one behind it has come, or all there
was left to save is a second copy of the last packet. -/
def HarmlessFailure (c : List UInt8) (last : Nat) (events : List ServerEvent) (i : Nat) : Prop :=
  (i = last ∧ Saved c events last) ∨ (∃ t, t < i ∧ ¬Saved c events t) ∨
    ∃ t, i < t ∧ t < segmentCount c ∧ Saved c events t

def FailuresHarmless (c : List UInt8) (last : Nat) (events : List ServerEvent) : Prop :=
  ∀ before q after i, events = before ++ .saved q false :: after → i < segmentCount c →
    q.SameFields (segment c i) → HarmlessFailure c last before i

/-- FIN is sent only when all packets up to the last one have been saved. -/
def FinSound (c : List UInt8) (last : Nat) (events : List ServerEvent) : Prop :=
  ∀ before seqNo after, events = before ++ .sent seqNo ucpFlagFin :: after → ∀ i, i ≤ last → Saved c before i

theorem lastMarked_unmarked {items : List SequencingQueueItem}
    (unmarked : ∀ item ∈ items, item.flag ≠ ucpFlagDataEnd) :
    lastMarked items = uint32Max := by
  induction items using List.reverseRecOn with
  | nil => rfl
  | append_singleton items item ih =>
    have plain := unmarked item (List.mem_append_right _ (List.mem_singleton_self item))
    rw [lastMarked, List.foldl_append, List.foldl_cons, List.foldl_nil, if_neg plain]
    exact ih fun old member => unmarked old (List.mem_append_left _ member)

theorem lastMarked_concat (items : List SequencingQueueItem) {item : SequencingQueueItem}
    (marks : item.flag = ucpFlagDataEnd) : lastMarked (items ++ [item]) = item.seqNo := by
  rw [lastMarked, List.foldl_append, List.foldl_cons, List.foldl_nil, if_pos marks]

section Fin

variable {c : List UInt8} {events : List ServerEvent} {s : ServerState} {processed : List SequencingQueueItem}

/-- Where the loop has been left, the items processed are exactly the numbers
up to the one that the server takes for the last. -/
theorem ServerInv.fin_numbers (inv : ServerInv c events s processed) (atFin : s.sequencing.pc = .fin) :
    (∀ x, x ≤ lastMarked processed → ∃ item ∈ processed, item.seqNo = x) ∧
      ∀ item ∈ processed, item.seqNo ≤ lastMarked processed := by
  have range := inv.complete atFin
  rw [inv.tracks.marked] at range
  have member : ⟨0, lastMarked processed⟩ ∈ s.sequencing.sequencer.seq := by
    rw [range]
    exact List.mem_singleton_self _
  constructor
  · intro x below
    have contained : SequencerItem.contains ⟨0, lastMarked processed⟩ x = true :=
      SequencerItem.contains_iff.mpr ⟨UInt32.zero_le, below⟩
    exact inv.tracks.invents _ member (SequencerItem.mem_arc contained)
  · intro item inProcessed
    obtain ⟨x, inRecorded, above⟩ := inv.tracks.reaches item inProcessed
    rw [range, recorded_cons, recorded_nil] at inRecorded
    rcases inRecorded with ⟨_, upper⟩ | nothing
    · exact UInt32.le_trans above upper
    · exact nothing.elim

/-- The loop is never left on unmarked items: the number `UINT32_MAX` that the
server waits for then is none of a packet. -/
theorem ServerInv.fin_marked (inv : ServerInv c events s processed) (few : segmentCount c < 2 ^ 32)
    (atFin : s.sequencing.pc = .fin) : ¬∀ item ∈ processed, item.flag ≠ ucpFlagDataEnd := by
  intro unmarked
  have all := (inv.fin_numbers atFin).1
  rw [lastMarked_unmarked unmarked] at all
  obtain ⟨item, member, same⟩ := all uint32Max (UInt32.le_refl _)
  have small := inv.seqNo_small few (inv.processed_saved member)
  rw [same] at small
  exact absurd small (UInt32.lt_irrefl _)

theorem ServerInv.good_unmarked (inv : ServerInv c events s processed) (none : ∀ q, .saved q false ∉ events) :
    ∀ item ∈ processed, item.flag ≠ ucpFlagDataEnd := by
  intro item member
  obtain ⟨q, result, saved, rfl⟩ := mem_savedItems.mp (inv.processed_saved member)
  cases result with
  | false => exact absurd saved (none q)
  | true => exact show ucpFlagAck ≠ ucpFlagDataEnd by decide

theorem savedItem_segment {c : List UInt8} {i : Nat} {q : UcpPacket} (same : q.SameFields (segment c i))
    (result : Bool) : (savedItem q result).seqNo = UInt32.ofNat i := by
  obtain ⟨_, seqNo, -⟩ := same.data_eq rfl
  rw [savedItem_seqNo, seqNo]
  rfl

/-- Where the loop has been left, a save has failed, and it was the last one:
what was processed is what was saved before it and then the failed packet. -/
theorem ServerInv.fin_failed (inv : ServerInv c events s processed) (few : segmentCount c < 2 ^ 32)
    (atFin : s.sequencing.pc = .fin) :
    ∃ before q after, events = before ++ .saved q false :: after ∧ (∀ q', .saved q' false ∉ before) ∧
      processed = savedItems before ++ [savedItem q false] := by
  cases inv.outcome with
  | good none => exact absurd (inv.good_unmarked none) (inv.fin_marked few atFin)
  | @failed before q after split first nothing _ =>
    refine ⟨before, q, after, split, first, ?_⟩
    have items : savedItems events = savedItems before ++ [savedItem q false] := by
      have tail : savedItems (.saved q false :: after) = savedItem q false :: savedItems after := rfl
      rw [split, savedItems_append, tail, nothing]
    have nothingInHand : s.sequencing.inHand = [] := by rw [SequencingThread.inHand, atFin]
    have flow := inv.flow
    rw [items, nothingInHand, List.append_nil, List.append_assoc] at flow
    rcases List.eq_nil_or_concat (s.seqQueue ++ s.receiving.inHand) with drained | ⟨rest, y, waiting⟩
    · rwa [drained, List.append_nil] at flow
    -- were the failed save still waiting, nothing processed would be marked
    · rw [waiting, List.concat_eq_append, ← List.append_assoc] at flow
      obtain ⟨same, _⟩ := List.append_inj' flow rfl
      refine absurd (fun item member => ?_) (inv.fin_marked few atFin)
      have saved : item ∈ savedItems before := by
        rw [← same]
        exact List.mem_append_left _ member
      obtain ⟨q', result, inBefore, rfl⟩ := mem_savedItems.mp saved
      cases result with
      | false => exact absurd inBefore (first q')
      | true => exact show ucpFlagAck ≠ ucpFlagDataEnd by decide

/-- FIN is sound in the state in which it is sent, when the save that failed
before it was harmless. -/
theorem ServerInv.fin_sound (inv : ServerInv c events s processed) (few : segmentCount c < 2 ^ 32)
    (atFin : s.sequencing.pc = .fin) {last : Nat} (harmless : FailuresHarmless c last events) :
    ∀ i, i ≤ last → Saved c events i := by
  obtain ⟨before, q, after, rfl, first, items⟩ := inv.fin_failed few atFin
  obtain ⟨i, within, same⟩ := inv.drawn q false (List.mem_append_right _ (List.mem_cons_self ..))
  obtain ⟨below, above⟩ := inv.fin_numbers atFin
  rw [items, lastMarked_concat _ rfl, savedItem_segment same] at below above
  have savedBelow : ∀ t, t < i → Saved c before t := by
    intro t earlier
    obtain ⟨item, member, number⟩ := below _ ((Word.ofNat_le_iff (by omega) (by omega)).mpr (Nat.le_of_lt earlier))
    rcases List.mem_append.mp member with inBefore | failed
    · obtain ⟨q', result, saved, rfl⟩ := mem_savedItems.mp inBefore
      cases result with
      | false => exact absurd saved (first q')
      | true =>
        obtain ⟨i', within', same'⟩ := inv.drawn q' true (List.mem_append_left _ saved)
        rw [savedItem_segment same'] at number
        exact ⟨q', saved, Word.ofNat_inj (by omega) (by omega) number ▸ same'⟩
    · rw [List.mem_singleton.mp failed, savedItem_segment same] at number
      exact absurd (Word.ofNat_inj (by omega) (by omega) number) (Nat.ne_of_gt earlier)
  rcases harmless before q after i rfl within same with ⟨rfl, saved⟩ | ⟨t, earlier, missing⟩ | ⟨t, later, bound, saved⟩
  · intro t upTo
    rcases Nat.lt_or_eq_of_le upTo with earlier | rfl
    · exact (savedBelow t earlier).append _
    · exact saved.append _
  · exact absurd (savedBelow t earlier) missing
  · obtain ⟨q', member, same'⟩ := saved
    have processed :=
      above (savedItem q' true) (List.mem_append_left _ (mem_savedItems.mpr ⟨q', true, member, rfl⟩))
    rw [savedItem_segment same', Word.ofNat_le_iff (by omega) (by omega)] at processed
    omega

theorem ServerStep.running_of_sent {arrives : List UInt8 → Prop} {s' : ServerState} {seqNo flag : UInt32}
    (step : ServerStep arrives s (.sent seqNo flag) s') : s.sequencing.pc ≠ .returned := by
  intro returned
  generalize sentControl : ServerEvent.sent seqNo flag = e at step
  cases step with
  | save => cases sentControl
  | ignore => cases sentControl
  | receiveError => cases sentControl
  | push => cases sentControl
  | cancel => cases sentControl
  | sequence taken =>
    rw [sequencingThreadStep, returned] at taken
    cases taken

/-- Only the last step of `sequencing_thread` sends FIN. -/
theorem ServerInv.sends_fin (inv : ServerInv c events s processed) {s' : ServerState} {seqNo : UInt32}
    (step : ServerStep (SegmentDatagram c) s (.sent seqNo ucpFlagFin) s') : s.sequencing.pc = .fin := by
  generalize sentFin : ServerEvent.sent seqNo ucpFlagFin = e at step
  cases step with
  | save => cases sentFin
  | ignore => cases sentFin
  | receiveError => cases sentFin
  | push => cases sentFin
  | cancel => cases sentFin
  | @sequence thread seqQueue sent taken =>
    cases sequencingThreadStep_iff.mp taken with
    | tested => cases sentFin
    | popped => cases sentFin
    | idle => cases sentFin
    | added => cases sentFin
    | rested => cases sentFin
    | finished atFin => exact atFin
    | reported => exact absurd (ServerEvent.sent.inj sentFin).2 (by decide)
    | replied atReply =>
      have flag := (ServerEvent.sent.inj sentFin).2
      have member : ⟨s.sequencing.seqNo, s.sequencing.flag, s.sequencing.isLast⟩ ∈ savedItems events := by
        rw [← inv.flow, SequencingThread.inHand, atReply]
        simp
      obtain ⟨q, result, _, same⟩ := mem_savedItems.mp member
      have itemFlag := congrArg SequencingQueueItem.flag same
      dsimp only at itemFlag
      rw [← flag] at itemFlag
      cases result with
      | false => exact absurd itemFlag (show ucpFlagNack ≠ ucpFlagFin by decide)
      | true => exact absurd itemFlag (show ucpFlagAck ≠ ucpFlagFin by decide)

end Fin

/-- In every run whose failed saves are all harmless, FIN is sent only when all
packets up to the one flagged as the last have been saved. -/
theorem fin_sound_of_harmless_failures {c : List UInt8} {handle : FileIoPartitionHandle} {events : List ServerEvent}
    {s : ServerState} (few : segmentCount c < 2 ^ 32) (run : ServerRun c handle events s) :
    ∀ last, last < segmentCount c → (segment c last).dataPacket.flag = ucpFlagDataEnd →
      FailuresHarmless c last events → FinSound c last events := by
  intro last _ _ harmless before seqNo after split
  subst split
  obtain ⟨s1, s2, earlier, step⟩ := Run.split run
  obtain ⟨processed, inv⟩ := serverRun_inv few earlier step.running_of_sent
  refine inv.fin_sound few (inv.sends_fin step) fun before' q after' i split => ?_
  exact harmless before' q _ i (by rw [split, List.append_assoc, List.cons_append])

theorem saved_quiet {c : List UInt8} {events more : List ServerEvent} (quiet : ∀ e ∈ more, e.Quiet) {i : Nat} :
    Saved c (events ++ more) i ↔ Saved c events i := by
  constructor
  · rintro ⟨q, member, same⟩
    rcases List.mem_append.mp member with old | new
    · exact ⟨q, old, same⟩
    · exact absurd rfl (quiet _ new q true)
  · exact fun saved => saved.append more

/-- A packet that comes to a server with nothing on its way is saved, or not, and
processed. -/
theorem ServerRun.handle {c : List UInt8} {file : FileIoPartitionHandle} {events : List ServerEvent} {s : ServerState}
    (run : ServerRun c file events s) {i : Nat} (within : i < segmentCount c) (waiting : s.receiving.pc = .receive)
    (drained : s.seqQueue = []) (atTest : s.sequencing.pc = .test)
    (incomplete : (sequencerComplete s.sequencing.sequencer).1 = false) (result : Bool) :
    ∃ q more s', q.SameFields (segment c i) ∧ (∀ e ∈ more, e.Quiet) ∧
      ServerRun c file (events ++ .saved q result :: more) s' ∧
      s'.receiving.pc = (if result then .receive else .returned) ∧ s'.seqQueue = [] ∧ s'.sequencing.pc = .test ∧
      s'.sequencing.sequencer =
        (sequencerAdd (sequencerComplete s.sequencing.sequencer).2 (UInt32.ofNat i) (!result)).2 := by
  obtain ⟨q, s1, same, delivered, sequencing, queue, receiving⟩ := run.deliver within waiting result
  rw [drained, List.nil_append] at queue
  rw [← sequencing] at atTest incomplete
  obtain ⟨more, s2, quiet, processed, receiving', empty, atTest', sequencer⟩ :=
    delivered.process atTest queue incomplete
  have marks : ((savedItem q result).flag == ucpFlagDataEnd) = !result := by cases result <;> rfl
  rw [savedItem_segment same, sequencing, marks] at sequencer
  rw [List.append_assoc] at processed
  refine ⟨q, .silent :: more, s2, same, ?_, processed, ?_, empty, atTest', sequencer⟩
  · exact List.forall_mem_cons.mpr ⟨fun _ _ => ServerEvent.noConfusion, quiet⟩
  · rw [receiving', receiving]

/-- Both of two packets can come in order and be processed. -/
theorem two_packets_processed {c : List UInt8} (count : segmentCount c = 2) (file : FileIoPartitionHandle) :
    ∃ events s, ServerRun c file events s ∧ (∀ q, .saved q false ∉ events) ∧ Saved c events 1 ∧
      s.receiving.pc = .receive ∧ s.seqQueue = [] ∧ s.sequencing.pc = .test ∧
      s.sequencing.sequencer = ⟨[⟨0, 1⟩], 1, uint32Max⟩ := by
  have initial : ServerRun c file [] (serverStart file) := .start
  obtain ⟨q0, more0, s1, _, quiet0, run, waiting, drained, atTest, sequencer⟩ :=
    initial.handle (show 0 < segmentCount c by omega) rfl rfl rfl rfl true
  obtain ⟨q1, more1, s2, same, quiet1, run, waiting, drained, atTest, sequencer'⟩ :=
    run.handle (show 1 < segmentCount c by omega) waiting drained atTest (by rw [sequencer]; rfl) true
  have saves {q : UcpPacket} {more : List ServerEvent} (quiet : ∀ e ∈ more, e.Quiet) (q' : UcpPacket) :
      .saved q' false ∉ .saved q true :: more := by
    intro member
    rcases List.mem_cons.mp member with first | later
    · cases first
    · exact quiet _ later q' false rfl
  rw [sequencer] at sequencer'
  refine ⟨_, s2, run, fun q member => ?_, ⟨q1, by simp, same⟩, waiting, drained, atTest, sequencer'⟩
  rcases List.mem_append.mp member with first | second
  · exact saves quiet0 q first
  · exact saves quiet1 q second

/-- Both packets have been saved when the save of a copy of the second one fails
and the server sends FIN. -/
theorem fin_sound_of_harmless_failures_two_packets :
    ∃ events s q seqNo, ServerRun twoPackets (openPartition []) events s ∧ .saved q false ∈ events ∧
      .sent seqNo ucpFlagFin ∈ events ∧ FinSound twoPackets 1 events := by
  have count := segmentCount_twoPackets
  obtain ⟨events, s, run, unfailed, saved, waiting, drained, atTest, sequencer⟩ :=
    two_packets_processed count (openPartition [])
  obtain ⟨q, more, s', same, quiet, run, _, _, atTest, sequencer'⟩ :=
    run.handle (show 1 < segmentCount twoPackets by omega) waiting drained atTest (by rw [sequencer]; rfl) false
  have complete : (sequencerComplete s'.sequencing.sequencer).1 = true := by
    rw [sequencer', sequencer]
    rfl
  have tested := run.sequence (.tested atTest)
  rw [complete] at tested
  obtain ⟨seqNo, s'', finished⟩ : ∃ seqNo s'', ServerRun twoPackets (openPartition [])
      (events ++ .saved q false :: (more ++ [.silent, .sent seqNo ucpFlagFin])) s'' := by
    have finished := tested.sequence (.finished rfl)
    rw [List.append_assoc, List.append_assoc] at finished
    exact ⟨_, _, finished⟩
  refine ⟨_, s'', q, seqNo, finished, by simp, by simp, ?_⟩
  refine fin_sound_of_harmless_failures (by omega) finished 1 (by omega) (segment_two_packets_flag 7) ?_
  intro before q' after i split within same'
  have rest : ∀ e ∈ more ++ [.silent, .sent seqNo ucpFlagFin], ¬∃ q, e = .saved q false := by
    rintro _ member ⟨q, rfl⟩
    rcases List.mem_append.mp member with old | new
    · exact quiet _ old q false rfl
    · simp at new
  obtain ⟨rfl, copy⟩ := List.split_unique (fun e => ∃ q, e = .saved q false) split
    (fun e member ⟨q, failed⟩ => unfailed q (failed ▸ member)) rest ⟨q', rfl⟩
  cases copy
  have number := (savedItem_segment same false).symm.trans (savedItem_segment same' false)
  obtain rfl : 1 = i := Word.ofNat_inj (by omega) (by omega) number
  exact .inl ⟨rfl, saved⟩

/-- The first packet of two comes, cannot be saved, and is taken for the end:
FIN is sent although nothing has been saved. -/
theorem fin_after_failed_save :
    (segment (List.replicate 9175 0) 1).dataPacket.flag = ucpFlagDataEnd ∧
      ∃ events s, ServerRun (List.replicate 9175 0) (openPartition []) events s ∧
        ¬FinSound (List.replicate 9175 0) 1 events := by
  refine ⟨segment_two_packets_flag 0, ?_⟩
  have count := segmentCount_two_packets 0
  have initial : ServerRun (List.replicate 9175 0) (openPartition []) [] (serverStart (openPartition [])) := .start
  obtain ⟨q, more, s, _, quiet, handled, -, -, atTest, sequencer⟩ :=
    initial.handle (show 0 < segmentCount (List.replicate 9175 0) by omega) rfl rfl rfl rfl false
  have complete : (sequencerComplete s.sequencing.sequencer).1 = true := by rw [sequencer]; rfl
  have tested := handled.sequence (.tested atTest)
  rw [complete] at tested
  refine ⟨_, _, tested.sequence (.finished rfl), fun sound => ?_⟩
  have saved := sound _ _ [] rfl 0 (Nat.zero_le 1)
  have silent : ∀ e ∈ [sentEvent none], e.Quiet :=
    fun e member => List.mem_singleton.mp member ▸ sentEvent_quiet none
  rw [List.nil_append, ← List.singleton_append, saved_quiet silent, saved_quiet quiet] at saved
  obtain ⟨q', member, -⟩ := saved
  simp at member

end UCP

import UCP.ClientWindows
import UCP.Lib.Cycle

namespace UCP

/-- The first `k` packets sent when nothing comes back: the pending ones, those
left in the file, then all of them round and round. -/
def schedule (pending inFlight remaining : List UcpPacket) (k : Nat) : List UcpPacket :=
  (pending ++ remaining ++ (inFlight ++ pending ++ remaining).endless k).take k

theorem schedule_pending (p : UcpPacket) (pending inFlight remaining : List UcpPacket) (k : Nat) :
    schedule (p :: pending) inFlight remaining (k + 1) = p :: schedule pending (inFlight ++ [p]) remaining k := by
  have moved : inFlight ++ p :: pending ++ remaining = inFlight ++ [p] ++ pending ++ remaining := by
    rw [List.append_cons]
  rw [schedule, schedule, moved, List.cons_append, List.cons_append, List.take_succ_cons,
    List.take_append_endless _ _ (Nat.le_succ k)]

theorem schedule_remaining (p : UcpPacket) (inFlight remaining : List UcpPacket) (k : Nat) :
    schedule [] inFlight (p :: remaining) (k + 1) = p :: schedule [] (inFlight ++ [p]) remaining k := by
  have same := schedule_pending p remaining inFlight [] k
  simpa only [schedule, List.append_nil, List.nil_append] using same

theorem schedule_inFlight (p : UcpPacket) (inFlight : List UcpPacket) (k : Nat) :
    schedule [] (p :: inFlight) [] (k + 1) = p :: schedule [] (inFlight ++ [p]) [] k := by
  simp only [schedule, List.append_nil, List.nil_append, List.endless_cons_succ, List.take_succ_cons]

theorem schedule_nil (k : Nat) : schedule [] [] [] k = [] := by
  simp only [schedule, List.append_nil, List.endless_nil, List.take_nil]

theorem mem_schedule {pending inFlight remaining : List UcpPacket} {k : Nat} {p : UcpPacket}
    (member : p ∈ schedule pending inFlight remaining k) : p ∈ inFlight ++ pending ++ remaining := by
  have member := List.mem_of_mem_take member
  rw [List.append_assoc, List.mem_append]
  rcases List.mem_append.mp member with once | again
  · exact Or.inr once
  · rw [List.append_assoc] at again
    obtain ⟨copy, repeated, inside⟩ := List.mem_flatten.mp (List.mem_of_mem_take again)
    rw [List.eq_of_mem_replicate repeated] at inside
    exact List.mem_append.mp inside

section Loop

variable {Sent : Type} {send : UcpPacket → Except MemFault Sent} {w w' : ClientWindows}
  {h h' : FileIoPartitionHandle}

theorem getNextPacket_remaining {p : UcpPacket} {inFlight remaining : List UcpPacket} {done : Bool}
    (reads : ReadsUntilNull h (p :: remaining)) :
    ∃ h', getNextPacket ⟨[], inFlight, done⟩ h = .ok (some p, ⟨[], inFlight, done⟩, h') ∧
      ReadsUntilNull h' remaining := by
  obtain ⟨h', run, reads⟩ := ReadsUntilNull.cons_iff.mp reads
  refine ⟨h', ?_, reads⟩
  simp only [getNextPacket, run]
  rfl

theorem ReadsUntilNull.again (reads : ReadsUntilNull h []) :
    ∃ h', fileIoGetNextPacket h = .ok (none, h') ∧ ReadsUntilNull h' [] := by
  by_cases left : h.fp.pos < h.fp.content.length
  · obtain ⟨p, h', run, _⟩ := fileIoGetNextPacket_left left
    obtain ⟨ps, further⟩ := exists_readsUntilNull h'
    exact nomatch reads.unique (.packet run further)
  · obtain ⟨h', run, spent⟩ := fileIoGetNextPacket_spent (Nat.not_lt.mp left)
    obtain ⟨_, again, _⟩ := fileIoGetNextPacket_spent spent
    exact ⟨h', run, .null again⟩

theorem getNextPacket_inFlight {p : UcpPacket} {inFlight : List UcpPacket} {done : Bool}
    (reads : ReadsUntilNull h []) :
    ∃ h', getNextPacket ⟨[], p :: inFlight, done⟩ h = .ok (some p, ⟨[], inFlight, done⟩, h') ∧
      ReadsUntilNull h' [] := by
  obtain ⟨h', run, reads⟩ := reads.again
  refine ⟨h', ?_, reads⟩
  simp only [getNextPacket, run]
  rfl

theorem getNextPacket_nothing (done : Bool) (reads : ReadsUntilNull h []) :
    ∃ h', getNextPacket ⟨[], [], done⟩ h = .ok (none, ⟨[], [], done⟩, h') ∧ ReadsUntilNull h' [] := by
  obtain ⟨h', run, reads⟩ := reads.again
  refine ⟨h', ?_, reads⟩
  simp only [getNextPacket, run]
  rfl

/-- One iteration of the loop is one `blockThreadSend`. -/
theorem blockThreadLoop_one (w : ClientWindows) (h : FileIoPartitionHandle) (buf : Buffer udpPacketSize) :
    blockThreadLoop (sendDatagram · buf) w h 1 =
      (blockThreadSend w h buf).map fun (sent, w, h) => (sent.toList, w, h) := by
  simp only [blockThreadLoop, blockThreadSend]
  cases getNextPacket w h with
  | error fault => rfl
  | ok result =>
    obtain ⟨next, w, h⟩ := result
    cases next with
    | none => rfl
    | some p =>
      simp only [bind, Except.bind]
      cases sendDatagram p buf with
      | error fault => rfl
      | ok datagram =>
        dsimp only
        split <;> rfl

theorem ReadsUntilNull.encodable {ps : List UcpPacket} (reads : ReadsUntilNull h ps) : ∀ p ∈ ps, p.Encodable := by
  induction reads with
  | null => exact fun _ member => absurd member List.not_mem_nil
  | @packet h _ p _ run _ ih =>
    intro q member
    rcases List.mem_cons.mp member with rfl | later
    · by_cases left : h.fp.pos < h.fp.content.length
      · obtain ⟨_, _, run', encodable, _⟩ := fileIoGetNextPacket_left left
        rw [run] at run'
        cases run'
        exact encodable
      · obtain ⟨_, none, _⟩ := fileIoGetNextPacket_spent (Nat.not_lt.mp left)
        rw [run] at none
        cases none
    · exact ih q later

theorem blockThreadLoop_next {k : Nat} {p : UcpPacket} {s : Sent} {sent : List Sent} {w'' : ClientWindows}
    {h'' : FileIoPartitionHandle} (next : getNextPacket w h = .ok (some p, w', h')) (first : send p = .ok s)
    (going : w'.done = false) (rest : blockThreadLoop send (appendInFlight w' p) h' k = .ok (sent, w'', h'')) :
    blockThreadLoop send w h (k + 1) = .ok (s :: sent, w'', h'') := by
  have going : (appendInFlight w' p).done = false := going
  simp only [blockThreadLoop, next, bind, Except.bind, first, going, rest]
  rfl

/-- What `send` makes of the packets changes nothing about their order. -/
theorem blockThreadLoop_send {wire : UcpPacket → Sent} {k : Nat} {sent : List UcpPacket}
    (run : blockThreadLoop pure w h k = .ok (sent, w', h')) (sends : ∀ p ∈ sent, send p = .ok (wire p)) :
    blockThreadLoop send w h k = .ok (sent.map wire, w', h') := by
  induction k generalizing w h sent with
  | zero =>
    cases run
    rfl
  | succ k ih =>
    cases next : getNextPacket w h with
    | error fault =>
      simp only [blockThreadLoop, next, bind, Except.bind] at run
      cases run
    | ok result =>
      obtain ⟨_ | p, w1, h1⟩ := result
      · simp only [blockThreadLoop, next, bind, Except.bind] at run ⊢
        cases run
        rfl
      · by_cases stopped : (appendInFlight w1 p).done = true
        · simp only [blockThreadLoop, next, bind, Except.bind, pure, Except.pure, stopped, if_true] at run ⊢
          cases run
          rw [sends p (List.mem_singleton_self p)]
          rfl
        · simp only [blockThreadLoop, next, bind, Except.bind, pure, Except.pure, stopped] at run ⊢
          obtain ⟨⟨more, w2, h2⟩, rest, same⟩ := Except.bind_eq_ok.mp run
          cases same
          have further := ih rest fun q member => sends q (List.mem_cons_of_mem p member)
          rw [sends p (List.mem_cons_self ..), further]
          rfl

/-- The loop goes through the pending packets, then through the file, then
round and round through the in-flight window. -/
theorem blockThreadLoop_schedule (k : Nat) (pending inFlight : List UcpPacket) {remaining : List UcpPacket}
    (reads : ReadsUntilNull h remaining) :
    ∃ w' h', blockThreadLoop pure ⟨pending, inFlight, false⟩ h k = .ok (schedule pending inFlight remaining k, w', h') ∧
      (pending.length + remaining.length ≤ k →
        w'.pendingPacketList = [] ∧ w'.inFlightPacketList ~r (inFlight ++ pending ++ remaining)) := by
  induction k generalizing pending inFlight remaining h with
  | zero =>
    refine ⟨_, _, rfl, fun enough => ?_⟩
    obtain rfl := List.eq_nil_of_length_eq_zero (by omega : pending.length = 0)
    obtain rfl := List.eq_nil_of_length_eq_zero (by omega : remaining.length = 0)
    rw [List.append_nil, List.append_nil]
    exact ⟨rfl, .refl _⟩
  | succ k ih =>
    cases pending with
    | cons p pending =>
      obtain ⟨w', h', run, after⟩ := ih pending (inFlight ++ [p]) reads
      refine ⟨w', h', ?_, fun enough => ?_⟩
      · rw [schedule_pending]
        exact blockThreadLoop_next rfl rfl rfl run
      · rw [List.append_cons]
        exact after (by rw [List.length_cons] at enough; omega)
    | nil =>
      cases remaining with
      | cons p remaining =>
        obtain ⟨h1, next, reads⟩ := getNextPacket_remaining reads
        obtain ⟨w', h', run, after⟩ := ih [] (inFlight ++ [p]) reads
        refine ⟨w', h', ?_, fun enough => ?_⟩
        · rw [schedule_remaining]
          exact blockThreadLoop_next next rfl rfl run
        · have rotated := after (by rw [List.length_cons] at enough; simpa using enough)
          rwa [List.append_nil, ← List.append_cons, ← List.append_nil inFlight] at rotated
      | nil =>
        cases inFlight with
        | cons p inFlight =>
          obtain ⟨h1, next, reads⟩ := getNextPacket_inFlight reads
          obtain ⟨w', h', run, after⟩ := ih [] (inFlight ++ [p]) reads
          refine ⟨w', h', ?_, fun enough => ?_⟩
          · rw [schedule_inFlight]
            exact blockThreadLoop_next next rfl rfl run
          · obtain ⟨empty, rotated⟩ := after (Nat.zero_le _)
            simp only [List.append_nil] at rotated ⊢
            exact ⟨empty, rotated.trans (List.isRotated_concat p inFlight)⟩
        | nil =>
          obtain ⟨h1, next, _⟩ := getNextPacket_nothing false reads
          refine ⟨⟨[], [], false⟩, h1, ?_, fun _ => ⟨rfl, .refl _⟩⟩
          simp only [blockThreadLoop, next, bind, Except.bind, schedule_nil]
          rfl

end Loop

/-- Whatever the windows hold and the file has left, the loop sends all of it
in turn, with no packet left out or sent twice in a round. -/
theorem retransmission_schedule (pending inFlight : List UcpPacket) (handle : FileIoPartitionHandle) :
    ∃ remaining, (∀ ps, ReadsUntilNull handle ps ↔ ps = remaining) ∧
      (inFlight ++ pending ++ remaining = [] →
        ∃ handle', getNextPacket ⟨pending, inFlight, false⟩ handle = .ok (none, ⟨pending, inFlight, false⟩, handle')) ∧
      ∀ k, ∃ windows' handle',
        blockThreadLoop pure ⟨pending, inFlight, false⟩ handle k =
          .ok (schedule pending inFlight remaining k, windows', handle') ∧
        (pending.length + remaining.length ≤ k →
          windows'.pendingPacketList = [] ∧ windows'.inFlightPacketList ~r (inFlight ++ pending ++ remaining)) ∧
        ((∀ p ∈ pending ++ inFlight, p.Encodable) → ∀ buf,
          blockThreadLoop (sendDatagram · buf) ⟨pending, inFlight, false⟩ handle k =
            .ok ((schedule pending inFlight remaining k).map UcpPacket.wire, windows', handle')) := by
  obtain ⟨remaining, reads⟩ := exists_readsUntilNull handle
  refine ⟨remaining, fun ps => ⟨fun other => other.unique reads, fun same => same ▸ reads⟩, fun empty => ?_, fun k => ?_⟩
  · simp only [List.append_eq_nil_iff] at empty
    obtain ⟨⟨rfl, rfl⟩, rfl⟩ := empty
    obtain ⟨handle', next, _⟩ := getNextPacket_nothing false reads
    exact ⟨handle', next⟩
  · obtain ⟨windows', handle', run, after⟩ := blockThreadLoop_schedule k pending inFlight reads
    refine ⟨windows', handle', run, after, fun encodable buf => ?_⟩
    refine blockThreadLoop_send run fun p member => sendDatagram_eq ?_ buf
    rcases List.mem_append.mp (mem_schedule member) with held | left
    · exact encodable p (List.mem_append.mpr (List.mem_append.mp held).symm)
    · exact reads.encodable p left

end UCP

import UCP.ClientThreads

namespace UCP

/-- The packets of thread `j` in the two windows. -/
def OwnedWindows.of (w : OwnedWindows) (j : Fin numThreads) : List OwnedPacket × List OwnedPacket :=
  (w.pendingPacketList.filter (·.owner = j), w.inFlightPacketList.filter (·.owner = j))

/-- The loop of thread `j` is over, or breaks at its next test of `done`. -/
def OwnedProcess.Ending (s : OwnedProcess) (j : Fin numThreads) : Prop :=
  (s.threads j).pc = .left ∨ s.windows.done = true

/-- A step does not concern the other threads: what it sends has been read from
its own partition, and a control packet leaves the packets of the others where
they are and their loops as they were. -/
def Undisturbed (s : OwnedProcess) (event : Fin numThreads × OwnedEvent) (s' : OwnedProcess) : Prop :=
  match event.2 with
  | .sent packet _ => packet.owner = event.1
  | .received _ => ∀ j, j ≠ event.1 → s'.windows.of j = s.windows.of j ∧ (s'.Ending j ↔ s.Ending j)
  | .silent => True

def FileIoPartitionHandle.AllRead (handle : FileIoPartitionHandle) : Prop :=
  handle.fp.content.length ≤ handle.fp.pos

/-- The packet that thread `i` would take next is its own. -/
def NextIsOwn (s : OwnedProcess) (i : Fin numThreads) : Prop :=
  match s.windows.pendingPacketList with
  | packet :: _ => packet.owner = i
  | [] => (s.threads i).handle.AllRead → ∀ packet ∈ s.windows.inFlightPacketList.head?, packet.owner = i

/-- A step that finds only packets of its own thread where it looks for one, and
a FIN that comes when the other loops are over or ending anyway. -/
def KeepsToOwn (s : OwnedProcess) (event : Fin numThreads × OwnedEvent) : Prop :=
  match event.2 with
  | .sent _ _ => NextIsOwn s event.1
  | .received ctrlPacket =>
    (ctrlPacket.flag = ucpFlagAck ∨ ctrlPacket.flag = ucpFlagNack →
      ∀ packet ∈ s.windows.find ctrlPacket.seqNo, packet.owner = event.1) ∧
    (ctrlPacket.flag = ucpFlagFin → s.windows.done = true ∨ ∀ j, j ≠ event.1 → (s.threads j).pc = .left)
  | .silent => True

theorem filter_eraseP_iff {α : Type*} {found keep : α → Bool} {l : List α} {a : α}
    (first : l.find? found = some a) :
    (l.eraseP found).filter keep = l.filter keep ↔ keep a = false := by
  obtain ⟨isFound, before, after, rfl, none⟩ := List.find?_eq_some_iff_append.mp first
  have none : ∀ b ∈ before, ¬found b = true := fun b member => by simpa using none b member
  rw [List.eraseP_append_right _ none, List.eraseP_cons_of_pos isFound, List.filter_append, List.filter_append,
    List.append_cancel_left_eq, List.filter_cons]
  split
  · rename_i kept
    refine iff_of_false (fun same => ?_) (by rw [kept]; exact Bool.noConfusion)
    have length := congrArg List.length same
    rw [List.length_cons] at length
    omega
  · rename_i dropped
    exact iff_of_true rfl (Bool.eq_false_iff.mpr dropped)

section Step

variable {s s' : OwnedProcess} {i : Fin numThreads}

theorem fileIoGetNextPacket_none_iff {handle handle' : FileIoPartitionHandle} {next : Option UcpPacket}
    (read : fileIoGetNextPacket handle = .ok (next, handle')) : next = none ↔ handle.AllRead := by
  have empty : ((handle.fp.content.drop handle.fp.pos).take udpPacketDataSize).length = 0 ↔ handle.AllRead := by
    have positive : 0 < udpPacketDataSize := by decide
    rw [List.length_take, List.length_drop, FileIoPartitionHandle.AllRead]
    omega
  rw [← empty]
  unfold fileIoGetNextPacket at read
  dsimp only [FileStream.fread] at read
  split at read
  · rename_i nothing
    cases read
    exact iff_of_true rfl nothing
  · rename_i some
    refine iff_of_false (fun none => ?_) some
    subst none
    obtain ⟨packet, -, made⟩ := Except.bind_eq_ok.mp read
    cases made

theorem nextIsOwn_cons {packet : OwnedPacket} {rest : List OwnedPacket}
    (list : s.windows.pendingPacketList = packet :: rest) : NextIsOwn s i ↔ packet.owner = i := by
  unfold NextIsOwn
  rw [list]

theorem nextIsOwn_nil (list : s.windows.pendingPacketList = []) :
    NextIsOwn s i ↔
      ((s.threads i).handle.AllRead → ∀ packet ∈ s.windows.inFlightPacketList.head?, packet.owner = i) := by
  unfold NextIsOwn
  rw [list]

theorem OwnedWindows.next_own_iff {w' : OwnedWindows} {handle' : FileIoPartitionHandle} {packet : OwnedPacket}
    (taken : s.windows.next i (s.threads i).handle = .ok (some packet, w', handle')) :
    packet.owner = i ↔ NextIsOwn s i := by
  unfold OwnedWindows.next at taken
  split at taken
  · rename_i first rest list
    rw [nextIsOwn_cons list]
    cases taken
    exact Iff.rfl
  · rename_i list
    rw [nextIsOwn_nil list]
    cases read : fileIoGetNextPacket (s.threads i).handle with
    | error fault =>
      rw [read] at taken
      cases taken
    | ok result =>
      obtain ⟨filePacket, handle''⟩ := result
      have all := fileIoGetNextPacket_none_iff read
      rw [read] at taken
      cases filePacket with
      | some filePacket =>
        cases taken
        exact iff_of_true rfl fun allRead => by cases all.mpr allRead
      | none =>
        simp only [bind, Except.bind] at taken
        split at taken
        · rename_i first rest list
          cases taken
          rw [list]
          simp only [all.mp rfl, List.head?_cons, Option.mem_some_iff, forall_eq', forall_const]
        · cases taken

theorem OwnedWindows.unlink_of {w : OwnedWindows} {seqNo : UInt32} {packet : OwnedPacket} {j : Fin numThreads}
    (found : w.find seqNo = some packet) :
    (w.unlink seqNo).filter (·.owner = j) = w.inFlightPacketList.filter (·.owner = j) ↔ packet.owner ≠ j :=
  (filter_eraseP_iff found).trans (decide_eq_false_iff_not ..)

theorem OwnedWindows.receive_of {w : OwnedWindows} {ctrlPacket : UcpCtrlPacket} {j : Fin numThreads} :
    (w.receive ctrlPacket).of j = w.of j ↔
      (ctrlPacket.flag = ucpFlagAck ∨ ctrlPacket.flag = ucpFlagNack →
        ∀ packet ∈ w.find ctrlPacket.seqNo, packet.owner ≠ j) := by
  unfold OwnedWindows.receive
  cases found : w.find ctrlPacket.seqNo with
  | none =>
    refine iff_of_true ?_ fun _ _ none => by cases none
    split
    · rfl
    split
    · rfl
    split
    · rfl
    · rfl
  | some packet =>
    simp only [Option.mem_some_iff, forall_eq']
    split
    · rename_i isAck
      rw [forall_prop_of_true (Or.inl isAck), ← unlink_of found, OwnedWindows.of, OwnedWindows.of, Prod.mk.injEq]
      exact and_iff_right rfl
    rename_i notAck
    split
    · rename_i isNack
      rw [forall_prop_of_true (Or.inr isNack), ← unlink_of found, OwnedWindows.of, OwnedWindows.of, Prod.mk.injEq]
      refine and_iff_right_of_imp fun apart => ?_
      have other := (unlink_of found).mp apart
      simp only [List.filter_append, List.filter_cons, List.filter_nil, other, decide_false, Bool.false_eq_true, if_false,
        List.append_nil]
    · rename_i notNack
      have neither : ¬(ctrlPacket.flag = ucpFlagAck ∨ ctrlPacket.flag = ucpFlagNack) := not_or.mpr ⟨notAck, notNack⟩
      refine iff_of_true ?_ fun either => absurd either neither
      split
      · rfl
      · rfl

theorem OwnedWindows.receive_done {w : OwnedWindows} {ctrlPacket : UcpCtrlPacket} :
    (w.receive ctrlPacket).done = true ↔ ctrlPacket.flag = ucpFlagFin ∨ w.done = true := by
  unfold OwnedWindows.receive
  split
  · rename_i isAck
    rw [isAck]
    split
    · exact (or_iff_right (by decide)).symm
    · exact (or_iff_right (by decide)).symm
  split
  · rename_i isNack
    rw [isNack]
    split
    · exact (or_iff_right (by decide)).symm
    · exact (or_iff_right (by decide)).symm
  split
  · rename_i isFin
    exact iff_of_true rfl (Or.inl isFin)
  · rename_i notFin
    exact (or_iff_right notFin).symm

/-- What a step does to the others is decided by what it finds. -/
theorem OwnedStep.undisturbed_iff {event : Fin numThreads × OwnedEvent} (step : OwnedStep s event s') :
    Undisturbed s event s' ↔ KeepsToOwn s event := by
  cases step with
  | send buf atNext taken sent => exact OwnedWindows.next_own_iff taken
  | @receive i ctrlPacket atTick small =>
    constructor
    · intro apart
      refine ⟨fun about packet found => ?_, fun isFin => ?_⟩
      · by_contra foreign
        exact OwnedWindows.receive_of.mp (apart packet.owner foreign).1 about packet found rfl
      · by_contra running
        rw [not_or, not_forall] at running
        obtain ⟨notDone, j, running⟩ := running
        rw [Classical.not_imp] at running
        obtain ⟨other, stays⟩ := running
        have ends := (apart j other).2.mp (Or.inr (OwnedWindows.receive_done.mpr (Or.inl isFin)))
        exact ends.elim stays notDone
    · rintro ⟨about, ends⟩ j other
      refine ⟨OwnedWindows.receive_of.mpr fun either packet found same => ?_, ?_⟩
      · exact other (same ▸ about either packet found)
      · unfold OwnedProcess.Ending
        dsimp only at other ⊢
        rw [OwnedWindows.receive_done, Function.update_of_ne other]
        constructor
        · rintro (left | isFin | done)
          · exact Or.inl left
          · exact (ends isFin).symm.imp_left fun left => left j other
          · exact Or.inr done
        · exact Or.imp_right Or.inr
  | finish _ _ => exact Iff.rfl
  | idle _ => exact Iff.rfl
  | test _ => exact Iff.rfl

end Step

/-- Where all partitions are empty, the threads find nothing to send. -/
structure Idle (s : OwnedProcess) : Prop where
  pending : s.windows.pendingPacketList = []
  inFlight : s.windows.inFlightPacketList = []
  reading : ∀ i, ReadHandle [] 0 (s.threads i).handle
  outside : ∀ i, (s.threads i).pc = .next ∨ (s.threads i).pc = .left

theorem Idle.next {s : OwnedProcess} (idle : Idle s) (i : Fin numThreads) :
    ∃ handle, s.windows.next i (s.threads i).handle = .ok (none, s.windows, handle) ∧ ReadHandle [] 0 handle := by
  obtain ⟨handle, read, reading⟩ := (idle.reading i).exhausted (show segmentCount [] ≤ 0 by decide)
  refine ⟨handle, ?_, reading⟩
  simp only [OwnedWindows.next, idle.pending, idle.inFlight, read]
  rfl

theorem Idle.step {s s' : OwnedProcess} {event : Fin numThreads × OwnedEvent} (idle : Idle s)
    (step : OwnedStep s event s') : event.2 = .silent ∧ Idle s' := by
  have notInside {i : Fin numThreads} (inside : (s.threads i).pc = .tick ∨ (s.threads i).pc = .test) : False := by
    rcases idle.outside i with atNext | left
    · rw [atNext] at inside
      exact inside.elim BlockThreadPc.noConfusion BlockThreadPc.noConfusion
    · rw [left] at inside
      exact inside.elim BlockThreadPc.noConfusion BlockThreadPc.noConfusion
  cases step with
  | @send i _ _ _ _ _ _ taken _ =>
    obtain ⟨handle, none, -⟩ := idle.next i
    rw [none] at taken
    cases taken
  | @finish i _ _ _ taken =>
    obtain ⟨handle, none, reading⟩ := idle.next i
    rw [none] at taken
    cases taken
    refine ⟨rfl, idle.pending, idle.inFlight, ?_, ?_⟩
    · exact (Function.forall_update_iff s.threads fun _ thread => ReadHandle [] 0 thread.handle).mpr
        ⟨reading, fun j _ => idle.reading j⟩
    · exact (Function.forall_update_iff s.threads fun _ thread => thread.pc = .next ∨ thread.pc = .left).mpr
        ⟨Or.inr rfl, fun j _ => idle.outside j⟩
  | receive atTick _ => exact (notInside (Or.inl atTick)).elim
  | idle atTick => exact (notInside (Or.inl atTick)).elim
  | test atTest => exact (notInside (Or.inr atTest)).elim

section Run

variable {c : Fin numThreads → List UInt8}

theorem OwnedRun.idle (empty : ∀ i, c i = []) {events : List (Fin numThreads × OwnedEvent)} {s : OwnedProcess}
    (run : OwnedRun c events s) : Idle s := by
  refine Run.invariant (fun _ => Idle) ⟨rfl, rfl, fun i => ?_, fun _ => Or.inl rfl⟩
    (fun _ idle step => (idle.step step).2) run
  have reading := openPartition_readHandle (c i)
  rw [empty i] at reading
  change ReadHandle [] 0 (openPartition (c i))
  rw [empty i]
  exact reading

theorem OwnedStep.fresh {s : OwnedProcess} {i : Fin numThreads} {k : Nat} (atNext : (s.threads i).pc = .next)
    (none : s.windows.pendingPacketList = []) (reading : ReadHandle (c i) k (s.threads i).handle)
    (within : k < segmentCount (c i)) :
    ∃ handle, OwnedStep s (i, .sent ⟨i, segment (c i) k⟩ (segment (c i) k).wire)
      { windows := s.windows.append ⟨i, segment (c i) k⟩, threads := Function.update s.threads i ⟨handle, .tick⟩ } := by
  obtain ⟨handle, read, -⟩ := reading.next within
  refine ⟨handle, .send (Buffer.zeros _) atNext ?_ (sendDatagram_eq (segment_encodable (c i) k) _)⟩
  simp only [OwnedWindows.next, none, read]
  rfl

theorem OwnedStep.resend {s : OwnedProcess} {i : Fin numThreads} {k : Nat} {packet : OwnedPacket}
    {rest : List OwnedPacket} (atNext : (s.threads i).pc = .next) (none : s.windows.pendingPacketList = [])
    (reading : ReadHandle (c i) k (s.threads i).handle) (finished : segmentCount (c i) ≤ k)
    (list : s.windows.inFlightPacketList = packet :: rest) (encodable : packet.packet.Encodable) :
    ∃ s', OwnedStep s (i, .sent packet packet.packet.wire) s' := by
  obtain ⟨handle, read, -⟩ := reading.exhausted finished
  have taken : s.windows.next i (s.threads i).handle =
      .ok (some packet, { s.windows with inFlightPacketList := rest }, handle) := by
    simp only [OwnedWindows.next, none, read, list]
    rfl
  exact ⟨_, .send (Buffer.zeros _) atNext taken (sendDatagram_eq encodable _)⟩

theorem exists_other (i : Fin numThreads) : ∃ j, j ≠ i := by
  by_cases first : i = ⟨0, by decide⟩
  · exact ⟨⟨1, by decide⟩, by rw [first]; decide⟩
  · exact ⟨_, Ne.symm first⟩

/-- One packet is enough: another thread either sends it for want of packets of
its own, or unlinks it when its own first packet is acknowledged. -/
theorem exists_disturbed {i j : Fin numThreads} (other : j ≠ i) (some : c i ≠ []) :
    ∃ events s event s', OwnedRun c events s ∧ OwnedStep s event s' ∧ ¬Undisturbed s event s' := by
  have start (i : Fin numThreads) : ReadHandle (c i) 0 ((ownedStart c).threads i).handle :=
    openPartition_readHandle (c i)
  have within {i : Fin numThreads} (some : c i ≠ []) : 0 < segmentCount (c i) :=
    lt_segmentCount_iff.mpr (List.length_pos_iff.mpr some)
  obtain ⟨handle, first⟩ := OwnedStep.fresh (s := ownedStart c) rfl rfl (start i) (within some)
  have run := Run.next .start first
  set s : OwnedProcess := ⟨(ownedStart c).windows.append ⟨i, segment (c i) 0⟩,
    Function.update (ownedStart c).threads i ⟨handle, .tick⟩⟩
  have thread : s.threads j = (ownedStart c).threads j := Function.update_of_ne other _ _
  have atNext : (s.threads j).pc = .next := by
    rw [thread]
    rfl
  have reading : ReadHandle (c j) 0 (s.threads j).handle := by
    rw [thread]
    exact start j
  by_cases empty : c j = []
  · have finished : segmentCount (c j) ≤ 0 := by
      rw [empty]
      decide
    obtain ⟨s', resent⟩ := OwnedStep.resend atNext rfl reading finished rfl (segment_encodable (c i) 0)
    exact ⟨_, s, _, s', run, resent, fun same => other same.symm⟩
  · obtain ⟨handle', second⟩ := OwnedStep.fresh atNext rfl reading (within empty)
    have atTick : (Function.update s.threads j ⟨handle', .tick⟩ j).pc = .tick := by rw [Function.update_self]
    have acknowledged : OwnedStep ⟨s.windows.append ⟨j, segment (c j) 0⟩, Function.update s.threads j ⟨handle', .tick⟩⟩
        (j, .received ⟨0, ucpFlagAck⟩) _ := .receive atTick (by decide)
    refine ⟨_, _, _, _, .next run second, acknowledged, fun apart => ?_⟩
    have own := (acknowledged.undisturbed_iff.mp apart).1 (Or.inl rfl) ⟨i, segment (c i) 0⟩ rfl
    exact other own.symm

/-- The threads leave each other alone in every interleaving only when none of
them has anything to send; and in a single run just as long as every thread
finds packets of its own where it looks for one. -/
theorem threads_undisturbed_iff (c : Fin numThreads → List UInt8) :
    ((∀ events s event s', OwnedRun c events s → OwnedStep s event s' → Undisturbed s event s') ↔ ∀ i, c i = []) ∧
      ∀ events s, Run (fun s event s' => OwnedStep s event s' ∧ KeepsToOwn s event) (ownedStart c) events s ↔
        Run (fun s event s' => OwnedStep s event s' ∧ Undisturbed s event s') (ownedStart c) events s := by
  refine ⟨⟨fun apart i => ?_, fun empty events s event s' run step => ?_⟩, fun events s => ⟨?_, ?_⟩⟩
  · by_contra some
    obtain ⟨j, other⟩ := exists_other i
    obtain ⟨events, s, event, s', run, step, disturbed⟩ := exists_disturbed other some
    exact disturbed (apart events s event s' run step)
  · have silent := (OwnedRun.idle empty run).step step
    rw [Undisturbed, silent.1]
    trivial
  · exact Run.mono fun taken => ⟨taken.1, taken.1.undisturbed_iff.mpr taken.2⟩
  · exact Run.mono fun taken => ⟨taken.1, taken.1.undisturbed_iff.mp taken.2⟩

end Run

/-- Partitions of one byte each, with one packet each: the ACK for the second
thread's packet removes the one of the first. -/
theorem threads_disturbed :
    ¬∀ events s event s', OwnedRun (fun i => [UInt8.ofNat i]) events s → OwnedStep s event s' →
      Undisturbed s event s' := by
  intro apart
  have other : (⟨1, by decide⟩ : Fin numThreads) ≠ ⟨0, by decide⟩ := by decide
  obtain ⟨events, s, event, s', run, step, disturbed⟩ :=
    exists_disturbed (c := fun i => [UInt8.ofNat i]) other (List.cons_ne_nil _ _)
  exact disturbed (apart events s event s' run step)

end UCP

import UCP.ControlStream

namespace UCP

/-- A control packet that keeps its word: an ACK is for a packet that the
server is done with. -/
structure Backed (c : List UInt8) (done : Nat → Prop) (seqNo flag : UInt32) : Prop where
  flagSmall : flag < 256
  ack : flag = ucpFlagAck → ∃ i, i < segmentCount c ∧ seqNo = UInt32.ofNat i ∧ done i

section Backed

variable {c : List UInt8} {done more : Nat → Prop} {seqNo flag : UInt32}

theorem Backed.mono (backed : Backed c done seqNo flag) (sub : ∀ i, done i → more i) :
    Backed c more seqNo flag := by
  refine ⟨backed.flagSmall, fun isAck => ?_⟩
  obtain ⟨i, within, number, already⟩ := backed.ack isAck
  exact ⟨i, within, number, sub i already⟩

theorem Backed.of_not_ack (flagSmall : flag < 256) (notAck : flag ≠ ucpFlagAck) : Backed c done seqNo flag :=
  ⟨flagSmall, fun isAck => absurd isAck notAck⟩

theorem Backed.nack (seqNo : UInt32) : Backed c done seqNo ucpFlagNack := .of_not_ack (by decide) (by decide)

theorem Backed.fin (seqNo : UInt32) : Backed c done seqNo ucpFlagFin := .of_not_ack (by decide) (by decide)

end Backed

/-- As long as reads have started at the boundaries of control packets, the
unread bytes are whole control packets, each of them backed. -/
def BackedStream (c : List UInt8) (done : Nat → Prop) (stream : List UInt8) : Prop :=
  6 ∣ stream.length → ∃ packets : List UcpCtrlPacket, stream = packets.flatMap UcpCtrlPacket.wire ∧
    ∀ control ∈ packets, Backed c done control.seqNo control.flag

section Stream

variable {c : List UInt8} {done more : Nat → Prop} {stream : List UInt8}

theorem BackedStream.empty : BackedStream c done [] :=
  fun _ => ⟨[], rfl, fun _ member => absurd member List.not_mem_nil⟩

theorem BackedStream.mono (unread : BackedStream c done stream) (sub : ∀ i, done i → more i) :
    BackedStream c more stream := by
  intro aligned
  obtain ⟨packets, wires, backed⟩ := unread aligned
  exact ⟨packets, wires, fun control member => (backed control member).mono sub⟩

theorem BackedStream.append (unread : BackedStream c done stream) {sent : List UcpCtrlPacket}
    (backed : ∀ control ∈ sent, Backed c done control.seqNo control.flag) :
    BackedStream c done (stream ++ sent.flatMap UcpCtrlPacket.wire) := by
  intro aligned
  rw [List.length_append, length_wires, Nat.dvd_add_left (Nat.dvd_mul_right 6 sent.length)] at aligned
  obtain ⟨packets, wires, backedOld⟩ := unread aligned
  refine ⟨packets ++ sent, by rw [List.flatMap_append, ← wires], fun control member => ?_⟩
  rcases List.mem_append.mp member with old | new
  · exact backedOld control old
  · exact backed control new

/-- A read from a packet boundary takes at least the first unread packet. -/
theorem BackedStream.read (unread : BackedStream c done stream) {incoming rest : List UInt8}
    (split : stream = incoming ++ rest) (aligned : 6 ∣ stream.length) (whole : 6 ≤ incoming.length) :
    ∃ control : UcpCtrlPacket, incoming = control.wire ++ incoming.drop 6 ∧
      Backed c done control.seqNo control.flag ∧ BackedStream c done rest := by
  obtain ⟨packets, wires, backed⟩ := unread aligned
  obtain ⟨control, member, first, left⟩ := wires_read (wires.symm.trans split) whole
  refine ⟨control, first, backed control member, fun alignedRest => ?_⟩
  obtain ⟨later, wires', sub⟩ := left alignedRest
  exact ⟨later, wires', fun p inLater => backed p (sub p inLater)⟩

end Stream

/-- The client has read `k` packets; each of them is in a window or in hand, or
the server is done with it. -/
structure ClientAccount (c : List UInt8) (k : Nat) (done : Nat → Prop) (windows : ClientWindows)
    (inHand : List UcpPacket) : Prop where
  reached : k ≤ segmentCount c
  drawn : ∀ p ∈ windows.held ++ inHand, ∃ i, i < k ∧ segment c i = p
  accounted : ∀ i, i < k → segment c i ∈ windows.held ++ inHand ∨ done i

section Account

variable {c : List UInt8} {k : Nat} {done more : Nat → Prop} {windows : ClientWindows} {inHand : List UcpPacket}

theorem ClientAccount.start (c : List UInt8) (done : Nat → Prop) : ClientAccount c 0 done clientWindowsInit [] where
  reached := Nat.zero_le _
  drawn := fun _ member => absurd member List.not_mem_nil
  accounted := fun _ before => absurd before (Nat.not_lt_zero _)

theorem ClientAccount.mono (account : ClientAccount c k done windows inHand) (sub : ∀ i, done i → more i) :
    ClientAccount c k more windows inHand :=
  ⟨account.reached, account.drawn, fun i before => (account.accounted i before).imp_right (sub i)⟩

/-- Moving packets between the windows and the hand changes nothing. -/
theorem ClientAccount.move (account : ClientAccount c k done windows inHand) {windows' : ClientWindows}
    {inHand' : List UcpPacket} (moved : (windows'.held ++ inHand').Perm (windows.held ++ inHand)) :
    ClientAccount c k done windows' inHand' :=
  ⟨account.reached, fun p member => account.drawn p (moved.mem_iff.mp member),
    fun i before => (account.accounted i before).imp_left moved.mem_iff.mpr⟩

/-- A packet read from the file is accounted for when it is kept. -/
theorem ClientAccount.fresh (account : ClientAccount c k done windows inHand) (within : k < segmentCount c)
    {windows' : ClientWindows} {inHand' : List UcpPacket}
    (added : (windows'.held ++ inHand').Perm (segment c k :: (windows.held ++ inHand))) :
    ClientAccount c (k + 1) done windows' inHand' where
  reached := within
  drawn := by
    intro p member
    rcases List.mem_cons.mp (added.mem_iff.mp member) with rfl | old
    · exact ⟨k, Nat.lt_succ_self k, rfl⟩
    · obtain ⟨i, before, same⟩ := account.drawn p old
      exact ⟨i, by omega, same⟩
  accounted := by
    intro i before
    rcases Nat.lt_succ_iff_lt_or_eq.mp before with earlier | rfl
    · exact (account.accounted i earlier).imp_left fun kept => added.mem_iff.mpr (List.mem_cons_of_mem _ kept)
    · exact Or.inl (added.mem_iff.mpr (List.mem_cons_self ..))

/-- The windows after a backed control packet: what is dropped is done with. -/
theorem ClientAccount.control (account : ClientAccount c k done windows []) (few : segmentCount c < 2 ^ 32)
    {control : UcpCtrlPacket} (backed : Backed c done control.seqNo control.flag) :
    ClientAccount c k done (onCtrlPacket windows control) [] := by
  obtain ⟨reached, drawn, accounted⟩ := account
  rcases onCtrlPacket_effect windows control with ⟨kept, -⟩ | ⟨p, isAck, -, same, split⟩
  · exact ClientAccount.move ⟨reached, drawn, accounted⟩ (kept.append_right [])
  · rw [List.append_nil] at drawn accounted
    refine ⟨reached, fun q left => ?_, fun i before => ?_⟩
    · rw [List.append_nil] at left
      exact drawn q (split.mem_iff.mpr (List.mem_cons_of_mem _ left))
    · rw [List.append_nil]
      rcases accounted i before with held | already
      · rcases List.mem_cons.mp (split.mem_iff.mp held) with rfl | left
        · obtain ⟨j, within, number, already⟩ := backed.ack isAck
          have equal : i = j := Word.ofNat_inj (by omega) (by omega) (same.trans number)
          exact Or.inr (equal ▸ already)
        · exact Or.inl left
      · exact Or.inr already

end Account

end UCP

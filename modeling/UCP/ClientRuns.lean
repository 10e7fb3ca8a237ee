import Mathlib.Data.List.Induction
import Mathlib.Data.List.Nodup
import UCP.ClientWindows

namespace UCP

/-- A client thread at a loop boundary. `ended` is set when the loop ends
because `get_next_packet` returned `NULL`. -/
structure ClientState where
  windows : ClientWindows
  handle : FileIoPartitionHandle
  ended : Bool

def clientStart (c : List UInt8) : ClientState where
  windows := clientWindowsInit
  handle := openPartition c
  ended := false

inductive ClientInput
  | send (buf : Buffer udpPacketSize)
  | ctrl (seqNo : UInt32) (flag : UInt8) (rspPkt : UcpPacket)

def clientStep (s : ClientState) : ClientInput → Except MemFault ClientState
  | .send buf =>
    if s.ended || s.windows.done then pure s
    else do
      let (sent, windows, handle) ← blockThreadSend s.windows s.handle buf
      pure { windows, handle, ended := sent.isNone }
  | .ctrl seqNo flag rspPkt =>
    if s.ended then pure s
    else do
      let windows ← clientReceive s.windows (UcpCtrlPacket.wire ⟨seqNo, flag.toUInt32⟩) rspPkt
      pure { s with windows }

def clientRun (c : List UInt8) (inputs : List ClientInput) : Except MemFault ClientState :=
  inputs.foldlM clientStep (clientStart c)

theorem clientRun_append (c : List UInt8) (inputs : List ClientInput) (i : ClientInput) :
    clientRun c (inputs ++ [i]) = (clientRun c inputs).bind (clientStep · i) := by
  rw [clientRun, List.foldlM_append]
  simp only [List.foldlM_cons, List.foldlM_nil, bind_pure]
  rfl

theorem clientRun_next {c : List UInt8} {inputs : List ClientInput} {i : ClientInput} {s s' : ClientState}
    (run : clientRun c inputs = .ok s) (step : clientStep s i = .ok s') : clientRun c (inputs ++ [i]) = .ok s' := by
  rw [clientRun_append, run]
  exact step

/-- An ACK with the number of `p` has been handled while `p` was in flight. -/
def Acked (c : List UInt8) (inputs : List ClientInput) (p : UcpPacket) : Prop :=
  ∃ before flag rspPkt after s, inputs = before ++ .ctrl p.dataPacket.seqNo flag rspPkt :: after ∧
    flag.toUInt32 = ucpFlagAck ∧ clientRun c before = .ok s ∧ p ∈ s.windows.inFlightPacketList

/-- The windows hold exactly the packets that have been read and not been
acknowledged, each of them once. -/
structure WindowsInv (c : List UInt8) (k : Nat) (acked : UcpPacket → Prop) (s : ClientState) : Prop where
  reading : ReadHandle c k s.handle
  nodup : s.windows.held.Nodup
  held_iff : ∀ p, p ∈ s.windows.held ↔ (∃ i, i < k ∧ segment c i = p) ∧ ¬acked p
  acked_read : ∀ p, acked p → ∃ i, i < k ∧ segment c i = p
  ended : s.ended = true → s.windows.held = [] ∧ segmentCount c ≤ k

theorem segment_seqNo_inj {c : List UInt8} {i j : Nat} (few : segmentCount c < 2 ^ 32) (hi : i < segmentCount c)
    (hj : j < segmentCount c) (same : (segment c i).dataPacket.seqNo = (segment c j).dataPacket.seqNo) : i = j :=
  Word.ofNat_inj (hi.trans few) (hj.trans few) same

theorem WindowsInv.start (c : List UInt8) : WindowsInv c 0 (fun _ => False) (clientStart c) where
  reading := openPartition_readHandle c
  nodup := List.nodup_nil
  held_iff := by simp [clientStart, clientWindowsInit, ClientWindows.held]
  acked_read := fun _ absurdity => absurdity.elim
  ended := by simp [clientStart]

section Step

variable {c : List UInt8} {k : Nat} {acked : UcpPacket → Prop} {s : ClientState}

theorem WindowsInv.held_encodable (inv : WindowsInv c k acked s) {p : UcpPacket} (member : p ∈ s.windows.held) :
    p.Encodable := by
  obtain ⟨⟨i, _, rfl⟩, _⟩ := (inv.held_iff p).mp member
  exact segment_encodable c i

theorem WindowsInv.not_held_next (inv : WindowsInv c k acked s) (few : segmentCount c < 2 ^ 32)
    (within : k < segmentCount c) : segment c k ∉ s.windows.held ∧ ¬acked (segment c k) := by
  have unread : ¬∃ i, i < k ∧ segment c i = segment c k := by
    rintro ⟨i, before, same⟩
    have := segment_seqNo_inj few (before.trans within) within (by rw [same])
    omega
  exact ⟨fun held => unread ((inv.held_iff _).mp held).1, fun old => unread (inv.acked_read _ old)⟩

theorem WindowsInv.send (inv : WindowsInv c k acked s) (few : segmentCount c < 2 ^ 32)
    (buf : Buffer udpPacketSize) :
    ∃ s' k', clientStep s (.send buf) = .ok s' ∧ WindowsInv c k' acked s' := by
  by_cases stopped : (s.ended || s.windows.done) = true
  · exact ⟨s, k, if_pos stopped, inv⟩
  obtain ⟨sent, w', h', k', run, reading, effect⟩ :=
    blockThreadSend_effect inv.reading (fun p => inv.held_encodable) buf
  simp only [clientStep, if_neg stopped, run, bind, Except.bind]
  refine ⟨_, k', rfl, ?_⟩
  cases effect with
  | resent _ kept =>
    refine ⟨reading, kept.nodup_iff.mpr inv.nodup, fun q => ?_, inv.acked_read, by simp⟩
    exact kept.mem_iff.trans (inv.held_iff q)
  | fresh within added =>
    obtain ⟨absent, new⟩ := inv.not_held_next few within
    refine ⟨reading, added.nodup_iff.mpr (List.nodup_cons.mpr ⟨absent, inv.nodup⟩), fun q => ?_,
      fun q old => ?_, by simp⟩
    · rw [added.mem_iff, List.mem_cons, inv.held_iff q]
      constructor
      · rintro (rfl | ⟨⟨i, before, same⟩, kept⟩)
        · exact ⟨⟨k, Nat.lt_succ_self k, rfl⟩, new⟩
        · exact ⟨⟨i, by omega, same⟩, kept⟩
      · rintro ⟨⟨i, before, same⟩, kept⟩
        rcases Nat.lt_succ_iff_lt_or_eq.mp before with earlier | rfl
        · exact Or.inr ⟨⟨i, earlier, same⟩, kept⟩
        · exact Or.inl same.symm
    · obtain ⟨i, before, same⟩ := inv.acked_read q old
      exact ⟨i, by omega, same⟩
  | exhausted empty finished =>
    exact ⟨reading, inv.nodup, inv.held_iff, inv.acked_read, fun _ => ⟨empty, finished⟩⟩

theorem WindowsInv.held_seqNo_inj (inv : WindowsInv c k acked s) (few : segmentCount c < 2 ^ 32)
    {p q : UcpPacket} (hp : p ∈ s.windows.held) (hq : q ∈ s.windows.held)
    (same : p.dataPacket.seqNo = q.dataPacket.seqNo) : p = q := by
  obtain ⟨⟨i, hi, rfl⟩, _⟩ := (inv.held_iff p).mp hp
  obtain ⟨⟨j, hj, rfl⟩, _⟩ := (inv.held_iff q).mp hq
  have reached := inv.reading.reached
  rw [segment_seqNo_inj few (by omega) (by omega) same]

theorem clientStep_ctrl (going : ¬s.ended = true) (seqNo : UInt32) (flag : UInt8) (rspPkt : UcpPacket) :
    clientStep s (.ctrl seqNo flag rspPkt) =
      .ok { s with windows := onCtrlPacket s.windows ⟨seqNo, flag.toUInt32⟩ } := by
  have handled := clientReceive_wire (c := ⟨seqNo, flag.toUInt32⟩) (toUInt32_lt flag) s.windows rspPkt
  simp only [clientStep, if_neg going, handled]
  rfl

/-- A control packet takes from the windows what it acknowledges in flight, and
nothing else. -/
theorem WindowsInv.ctrl (inv : WindowsInv c k acked s) (few : segmentCount c < 2 ^ 32)
    (seqNo : UInt32) (flag : UInt8) (rspPkt : UcpPacket) :
    ∃ s', clientStep s (.ctrl seqNo flag rspPkt) = .ok s' ∧
      WindowsInv c k (fun p => acked p ∨ flag.toUInt32 = ucpFlagAck ∧
        p ∈ s.windows.inFlightPacketList ∧ p.dataPacket.seqNo = seqNo) s' := by
  have inHeld {p : UcpPacket} (member : p ∈ s.windows.inFlightPacketList) : p ∈ s.windows.held :=
    List.mem_append_right _ member
  have ackedRead : ∀ p, acked p ∨ flag.toUInt32 = ucpFlagAck ∧
      p ∈ s.windows.inFlightPacketList ∧ p.dataPacket.seqNo = seqNo → ∃ i, i < k ∧ segment c i = p := by
    rintro p (old | ⟨_, member, _⟩)
    · exact inv.acked_read p old
    · exact ((inv.held_iff p).mp (inHeld member)).1
  by_cases stopped : s.ended = true
  · refine ⟨s, if_pos stopped, inv.reading, inv.nodup, fun p => ?_, ackedRead, inv.ended⟩
    have empty := (inv.ended stopped).1
    have nothing : p ∉ s.windows.inFlightPacketList := fun member => by
      have held := inHeld member
      rw [empty] at held
      cases held
    simp only [nothing, false_and, and_false, or_false]
    exact inv.held_iff p
  refine ⟨_, clientStep_ctrl stopped seqNo flag rspPkt, ?_⟩
  rcases onCtrlPacket_effect s.windows ⟨seqNo, flag.toUInt32⟩ with ⟨kept, unmatched⟩ | ⟨p, isAck, member, same, split⟩
  · refine ⟨inv.reading, kept.nodup_iff.mpr inv.nodup, fun q => ?_, ackedRead, fun left => absurd left stopped⟩
    have unchanged : ¬(flag.toUInt32 = ucpFlagAck ∧ q ∈ s.windows.inFlightPacketList ∧
        q.dataPacket.seqNo = seqNo) := fun ⟨isAck, member, same⟩ => unmatched isAck q member same
    rw [kept.mem_iff, inv.held_iff q, or_iff_left unchanged]
  · have distinct := split.nodup_iff.mp inv.nodup
    obtain ⟨gone, rest⟩ := List.nodup_cons.mp distinct
    refine ⟨inv.reading, rest, fun q => ?_, ackedRead, fun left => absurd left stopped⟩
    have dropped : q ∈ (onCtrlPacket s.windows ⟨seqNo, flag.toUInt32⟩).held ↔ q ∈ s.windows.held ∧ q ≠ p := by
      rw [split.mem_iff, List.mem_cons]
      constructor
      · exact fun member => ⟨Or.inr member, fun equal => gone (equal ▸ member)⟩
      · exact fun ⟨member, other⟩ => member.resolve_left other
    rw [dropped, inv.held_iff q, and_assoc]
    refine and_congr_right fun _ => ?_
    rw [not_or]
    refine and_congr_right fun _ => ?_
    constructor
    · rintro other ⟨_, flying, number⟩
      exact other (inv.held_seqNo_inj few (inHeld flying) (inHeld member) (number.trans same.symm))
    · rintro unacked rfl
      exact unacked ⟨isAck, member, same⟩

end Step

theorem acked_append {c : List UInt8} {inputs : List ClientInput} {i : ClientInput} {p : UcpPacket} :
    Acked c (inputs ++ [i]) p ↔ Acked c inputs p ∨ ∃ flag rspPkt s,
      i = .ctrl p.dataPacket.seqNo flag rspPkt ∧ flag.toUInt32 = ucpFlagAck ∧
        clientRun c inputs = .ok s ∧ p ∈ s.windows.inFlightPacketList := by
  constructor
  · rintro ⟨before, flag, rspPkt, after, s, split, isAck, run, member⟩
    rcases List.eq_nil_or_concat after with rfl | ⟨rest, last, rfl⟩
    · obtain ⟨rfl, same⟩ := List.append_inj' split rfl
      exact Or.inr ⟨flag, rspPkt, s, List.head_eq_of_cons_eq same, isAck, run, member⟩
    · rw [List.concat_eq_append, ← List.cons_append, ← List.append_assoc] at split
      obtain ⟨rfl, _⟩ := List.append_inj' split rfl
      exact Or.inl ⟨before, flag, rspPkt, rest, s, rfl, isAck, run, member⟩
  · rintro (⟨before, flag, rspPkt, after, s, rfl, isAck, run, member⟩ | ⟨flag, rspPkt, s, rfl, isAck, run, member⟩)
    · exact ⟨before, flag, rspPkt, after ++ [i], s, by simp, isAck, run, member⟩
    · exact ⟨inputs, flag, rspPkt, [], s, rfl, isAck, run, member⟩

theorem Acked.append {c : List UInt8} {inputs : List ClientInput} {p : UcpPacket} (acked : Acked c inputs p)
    (later : List ClientInput) : Acked c (inputs ++ later) p := by
  obtain ⟨before, flag, rspPkt, after, s, rfl, isAck, run, member⟩ := acked
  exact ⟨before, flag, rspPkt, after ++ later, s, by simp, isAck, run, member⟩

/-- The client never faults, and the windows invariant holds after every run of
sends and control packets. -/
theorem clientRun_windowsInv {c : List UInt8} (few : segmentCount c < 2 ^ 32) (inputs : List ClientInput) :
    ∃ s k, clientRun c inputs = .ok s ∧ WindowsInv c k (Acked c inputs) s := by
  induction inputs using List.reverseRecOn with
  | nil =>
    have none : Acked c [] = fun _ => False := by
      funext p
      simp [Acked]
    exact ⟨_, 0, rfl, none ▸ .start c⟩
  | append_singleton inputs i ih =>
    obtain ⟨s, k, run, inv⟩ := ih
    rw [clientRun_append, run]
    cases i with
    | send buf =>
      obtain ⟨s', k', step, next⟩ := inv.send few buf
      have same : Acked c (inputs ++ [.send buf]) = Acked c inputs := by
        funext p
        simp [acked_append]
      exact ⟨s', k', step, same ▸ next⟩
    | ctrl seqNo flag rspPkt =>
      obtain ⟨s', step, next⟩ := inv.ctrl few seqNo flag rspPkt
      refine ⟨s', k, step, ?_⟩
      convert next using 1
      funext p
      rw [acked_append, eq_iff_iff]
      refine or_congr_right ⟨?_, ?_⟩
      · rintro ⟨_, _, s1, same, isAck, run1, member⟩
        cases same
        cases run.symm.trans run1
        exact ⟨isAck, member, rfl⟩
      · rintro ⟨isAck, member, rfl⟩
        exact ⟨flag, rspPkt, s, rfl, isAck, run, member⟩

theorem WindowsInv.lastSeqNo {c : List UInt8} {k : Nat} {acked : UcpPacket → Prop} {s : ClientState}
    (inv : WindowsInv c k acked s) (few : segmentCount c < 2 ^ 32) : s.handle.lastSeqNo.toNat = k := by
  have reached := inv.reading.reached
  rw [inv.reading.lastSeqNo]
  exact UInt32.toNat_ofNat_of_lt' (reached.trans_lt few)

theorem mem_take_segments {c : List UInt8} {k : Nat} {p : UcpPacket} (reached : k ≤ segmentCount c) :
    p ∈ (segments c).take k ↔ ∃ i, i < k ∧ segment c i = p := by
  rw [segments, ← List.map_take, List.take_range, Nat.min_eq_left reached, List.mem_map]
  simp only [List.mem_range]

/-- At every loop boundary the windows hold no packet and no sequence number
twice; a packet that has been read is in exactly one of them unless an ACK for
it was handled while it was in flight, and then it is in neither for good; and
the loop runs out of packets only when all of them have been acknowledged. -/
theorem client_window_invariant {c : List UInt8} {packets : List UcpPacket} (inputs : List ClientInput)
    (reads : ReadsUntilNull (openPartition c) packets) (few : packets.length < 2 ^ 32) :
    ∃ s, clientRun c inputs = .ok s ∧
      s.windows.held.Nodup ∧ (s.windows.held.map (·.dataPacket.seqNo)).Nodup ∧
      (∀ p ∈ s.windows.held, p ∈ packets.take s.handle.lastSeqNo.toNat) ∧
      (∀ p ∈ packets.take s.handle.lastSeqNo.toNat,
        (¬Acked c inputs p →
          Xor (p ∈ s.windows.pendingPacketList) (p ∈ s.windows.inFlightPacketList)) ∧
        (Acked c inputs p → ∀ later s', clientRun c (inputs ++ later) = .ok s' → p ∉ s'.windows.held)) ∧
      (s.ended = true → ∀ p ∈ packets, Acked c inputs p) := by
  obtain rfl := readsUntilNull_iff.mp reads
  rw [segments, List.length_map, List.length_range] at few
  obtain ⟨s, k, run, inv⟩ := clientRun_windowsInv few inputs
  have reached := inv.reading.reached
  refine ⟨s, run, inv.nodup, ?_, ?_⟩
  · exact inv.nodup.map_on fun p hp q hq same => inv.held_seqNo_inj few hp hq same
  rw [inv.lastSeqNo few]
  refine ⟨fun p member => ?_, fun p member => ⟨fun unacked => ?_, fun acked => ?_⟩, fun left p member => ?_⟩
  · exact (mem_take_segments reached).mpr ((inv.held_iff p).mp member).1
  · have held := (inv.held_iff p).mpr ⟨(mem_take_segments reached).mp member, unacked⟩
    have apart := List.disjoint_of_nodup_append inv.nodup
    rcases List.mem_append.mp held with pending | flying
    · exact Or.inl ⟨pending, fun flying => apart pending flying⟩
    · exact Or.inr ⟨flying, fun pending => apart pending flying⟩
  · intro later s' laterRun held
    obtain ⟨s1, k1, run1, inv1⟩ := clientRun_windowsInv few (inputs ++ later)
    cases laterRun.symm.trans run1
    exact ((inv1.held_iff p).mp held).2 (acked.append later)
  · obtain ⟨empty, finished⟩ := inv.ended left
    obtain ⟨i, within, same⟩ := mem_segments.mp member
    by_contra unacked
    have held := (inv.held_iff p).mpr ⟨⟨i, by omega, same⟩, unacked⟩
    rw [empty] at held
    cases held

theorem clientStep_fresh {c : List UInt8} {k : Nat} {h : FileIoPartitionHandle} (reading : ReadHandle c k h)
    (within : k < segmentCount c) (inFlight : List UcpPacket) (buf : Buffer udpPacketSize) :
    ∃ h', clientStep ⟨⟨[], inFlight, false⟩, h, false⟩ (.send buf) =
        .ok ⟨⟨[], inFlight ++ [segment c k], false⟩, h', false⟩ ∧ ReadHandle c (k + 1) h' := by
  obtain ⟨h', next, reading⟩ := getNextPacket_fresh reading within inFlight false
  have sent := blockThreadSend_of_next next (segment_encodable c k) buf
  refine ⟨h', ?_, reading⟩
  simp only [clientStep, Bool.or_self, Bool.false_eq_true, if_false, sent]
  rfl

/-- Two packets are sent; the second one is acknowledged, and the first one is not. -/
theorem client_window_invariant_two_packets :
    let inputs : List ClientInput := [.send (Buffer.zeros _), .send (Buffer.zeros _), .ctrl 1 1 (ucpPacketInit 0),
      .ctrl 0 2 (ucpPacketInit 0)]
    ∃ s, clientRun twoPackets inputs = .ok s ∧ s.windows.pendingPacketList = [segment twoPackets 0] ∧
      s.windows.inFlightPacketList = [] ∧
      ∀ later s', clientRun twoPackets (inputs ++ later) = .ok s' → segment twoPackets 1 ∉ s'.windows.held := by
  intro inputs
  have count := segmentCount_twoPackets
  generalize twoPackets = c at count ⊢
  obtain ⟨h1, first, reading⟩ := clientStep_fresh (openPartition_readHandle c) (by omega) [] (Buffer.zeros _)
  obtain ⟨h2, second, reading⟩ := clientStep_fresh reading (by omega) [segment c 0] (Buffer.zeros _)
  have start : clientRun c [] = .ok ⟨⟨[], [], false⟩, openPartition c, false⟩ := rfl
  have sent := clientRun_next (clientRun_next start first) second
  have handled {windows windows' : ClientWindows} {seqNo : UInt32} (flag : UInt8)
      (next : onCtrlPacket windows ⟨seqNo, flag.toUInt32⟩ = windows') :
      clientStep ⟨windows, h2, false⟩ (.ctrl seqNo flag (ucpPacketInit 0)) = .ok ⟨windows', h2, false⟩ := by
    rw [clientStep_ctrl Bool.false_ne_true, next]
  have acked := clientRun_next sent (handled 1 (onCtrlPacket_ack_segments c [] [0, 1] 1))
  have whole := clientRun_next acked (handled 2 (onCtrlPacket_nack_segments c [] [0] 0))
  have few : (segments c).length < 2 ^ 32 := by
    rw [segments, List.length_map, List.length_range]
    omega
  obtain ⟨s, run, _, _, _, placed, _⟩ := client_window_invariant inputs (readsUntilNull_iff.mpr rfl) few
  obtain rfl := Except.ok.inj (whole.symm.trans run)
  have isAck : Acked c inputs (segment c 1) :=
    ⟨_, 1, ucpPacketInit 0, [.ctrl 0 2 (ucpPacketInit 0)], _, rfl, by decide, sent,
      List.mem_cons_of_mem _ (List.mem_singleton_self _)⟩
  refine ⟨_, run, rfl, rfl, (placed _ ?_).2 isAck⟩
  rw [reading.lastSeqNo]
  exact (mem_take_segments count.ge).mpr ⟨1, by decide, rfl⟩

end UCP

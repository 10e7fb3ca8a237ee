import Mathlib.Data.Fintype.Fin
import Mathlib.Logic.Function.Basic
import UCP.ClientWindows
import UCP.Lib.Run

namespace UCP

def numThreads : Nat := 10

/-- Where a `block_thread` stands in its send loop: at `get_next_packet`, in
`tcp_server_tick`, at the test of `done`, or behind the loop. -/
inductive BlockThreadPc
  | next
  | tick
  | test
  | left
  deriving DecidableEq, Repr

structure BlockThread where
  handle : FileIoPartitionHandle
  pc : BlockThreadPc

/-- The client process: the statics that its threads share, and the threads. -/
structure ClientProcess where
  windows : ClientWindows
  threads : Fin numThreads → BlockThread

def processStart (c : Fin numThreads → List UInt8) : ClientProcess where
  windows := clientWindowsInit
  threads i := { handle := openPartition (c i), pc := .next }

inductive ThreadEvent
  | sent (datagram : List UInt8)
  | received (ctrlPacket : UcpCtrlPacket)
  | silent

/-- One step of one of the threads: it takes, sends and appends a packet, handles
one control packet from its connection, or passes the test of `done`. -/
inductive ProcessStep (s : ClientProcess) : Fin numThreads × ThreadEvent → ClientProcess → Prop
  | send {i datagram windows handle} (buf : Buffer udpPacketSize) : (s.threads i).pc = .next →
      blockThreadSend s.windows (s.threads i).handle buf = .ok (some datagram, windows, handle) →
      ProcessStep s (i, .sent datagram) { windows, threads := Function.update s.threads i ⟨handle, .tick⟩ }
  | finish {i windows handle} (buf : Buffer udpPacketSize) : (s.threads i).pc = .next →
      blockThreadSend s.windows (s.threads i).handle buf = .ok (none, windows, handle) →
      ProcessStep s (i, .silent) { windows, threads := Function.update s.threads i ⟨handle, .left⟩ }
  | receive {i ctrlPacket windows} (rspPkt : UcpPacket) : (s.threads i).pc = .tick → ctrlPacket.flag < 256 →
      clientReceive s.windows ctrlPacket.wire rspPkt = .ok windows →
      ProcessStep s (i, .received ctrlPacket)
        { windows, threads := Function.update s.threads i { s.threads i with pc := .test } }
  | idle {i} : (s.threads i).pc = .tick →
      ProcessStep s (i, .silent) { s with threads := Function.update s.threads i { s.threads i with pc := .test } }
  | test {i} : (s.threads i).pc = .test →
      ProcessStep s (i, .silent)
        { s with threads := Function.update s.threads i
                    { s.threads i with pc := if s.windows.done then .left else .next } }

/-- A packet together with the thread that has read it from its partition. -/
structure OwnedPacket where
  owner : Fin numThreads
  packet : UcpPacket

/-- The shared statics, with the origin of every packet. -/
structure OwnedWindows where
  pendingPacketList : List OwnedPacket
  inFlightPacketList : List OwnedPacket
  done : Bool

def OwnedWindows.erase (w : OwnedWindows) : ClientWindows where
  pendingPacketList := w.pendingPacketList.map (·.packet)
  inFlightPacketList := w.inFlightPacketList.map (·.packet)
  done := w.done

/-- `get_next_packet` called by the thread `i`. -/
def OwnedWindows.next (w : OwnedWindows) (i : Fin numThreads) (handle : FileIoPartitionHandle) :
    Except MemFault (Option OwnedPacket × OwnedWindows × FileIoPartitionHandle) :=
  match w.pendingPacketList with
  | packet :: rest => pure (some packet, { w with pendingPacketList := rest }, handle)
  | [] => do
    let (filePacket, handle) ← fileIoGetNextPacket handle
    match filePacket with
    | some packet => pure (some ⟨i, packet⟩, w, handle)
    | none =>
      match w.inFlightPacketList with
      | packet :: rest => pure (some packet, { w with inFlightPacketList := rest }, handle)
      | [] => pure (none, w, handle)

def OwnedWindows.append (w : OwnedWindows) (packet : OwnedPacket) : OwnedWindows :=
  { w with inFlightPacketList := w.inFlightPacketList ++ [packet] }

/-- The in-flight packet that a control packet with this number is about. -/
def OwnedWindows.find (w : OwnedWindows) (seqNo : UInt32) : Option OwnedPacket :=
  w.inFlightPacketList.find? (hasSeqNo seqNo ·.packet)

def OwnedWindows.unlink (w : OwnedWindows) (seqNo : UInt32) : List OwnedPacket :=
  w.inFlightPacketList.eraseP (hasSeqNo seqNo ·.packet)

/-- `on_ack_received` on a control packet. -/
def OwnedWindows.receive (w : OwnedWindows) (ctrlPacket : UcpCtrlPacket) : OwnedWindows :=
  if ctrlPacket.flag = ucpFlagAck then
    match w.find ctrlPacket.seqNo with
    | some _ => { w with inFlightPacketList := w.unlink ctrlPacket.seqNo }
    | none => w
  else if ctrlPacket.flag = ucpFlagNack then
    match w.find ctrlPacket.seqNo with
    | some packet =>
      { w with pendingPacketList := w.pendingPacketList ++ [packet], inFlightPacketList := w.unlink ctrlPacket.seqNo }
    | none => w
  else if ctrlPacket.flag = ucpFlagFin then { w with done := true }
  else w

/-- What is left of the result when the origins are forgotten. -/
def eraseNext (r : Option OwnedPacket × OwnedWindows × FileIoPartitionHandle) :
    Option UcpPacket × ClientWindows × FileIoPartitionHandle :=
  (r.1.map (·.packet), r.2.1.erase, r.2.2)

theorem getNextPacket_erase (w : OwnedWindows) (i : Fin numThreads) (handle : FileIoPartitionHandle) :
    getNextPacket w.erase handle = (w.next i handle).map eraseNext := by
  obtain ⟨pending, inFlight, done⟩ := w
  cases pending with
  | cons packet rest => rfl
  | nil =>
    simp only [getNextPacket, OwnedWindows.next, OwnedWindows.erase, List.map_nil]
    cases fileIoGetNextPacket handle with
    | error fault => rfl
    | ok read =>
      obtain ⟨filePacket, handle⟩ := read
      cases filePacket with
      | some packet => rfl
      | none =>
        cases inFlight with
        | nil => rfl
        | cons packet rest => rfl

theorem findPacket_erase (w : OwnedWindows) (seqNo : UInt32) :
    findPacket w.erase.inFlightPacketList seqNo = (w.find seqNo).map (·.packet) := List.find?_map

theorem unlinkPacket_erase (w : OwnedWindows) (seqNo : UInt32) :
    unlinkPacket w.erase.inFlightPacketList seqNo = (w.unlink seqNo).map (·.packet) := List.eraseP_map

theorem onCtrlPacket_erase (w : OwnedWindows) (ctrlPacket : UcpCtrlPacket) :
    onCtrlPacket w.erase ctrlPacket = (w.receive ctrlPacket).erase := by
  unfold onCtrlPacket OwnedWindows.receive
  rw [findPacket_erase, unlinkPacket_erase]
  cases w.find ctrlPacket.seqNo with
  | none =>
    dsimp only [Option.map_none]
    split
    · rfl
    split
    · rfl
    split
    · rfl
    · rfl
  | some packet =>
    dsimp only [Option.map_some]
    split
    · rfl
    split
    · simp only [OwnedWindows.erase, List.map_append, List.map_cons, List.map_nil]
    split
    · rfl
    · rfl

structure OwnedProcess where
  windows : OwnedWindows
  threads : Fin numThreads → BlockThread

def OwnedProcess.erase (s : OwnedProcess) : ClientProcess where
  windows := s.windows.erase
  threads := s.threads

def ownedStart (c : Fin numThreads → List UInt8) : OwnedProcess where
  windows := { pendingPacketList := [], inFlightPacketList := [], done := false }
  threads i := { handle := openPartition (c i), pc := .next }

inductive OwnedEvent
  | sent (packet : OwnedPacket) (datagram : List UInt8)
  | received (ctrlPacket : UcpCtrlPacket)
  | silent

def OwnedEvent.erase : OwnedEvent → ThreadEvent
  | .sent _ datagram => .sent datagram
  | .received ctrlPacket => .received ctrlPacket
  | .silent => .silent

/-- The steps of the process, with the origin of every packet. -/
inductive OwnedStep (s : OwnedProcess) : Fin numThreads × OwnedEvent → OwnedProcess → Prop
  | send {i packet datagram windows handle} (buf : Buffer udpPacketSize) : (s.threads i).pc = .next →
      s.windows.next i (s.threads i).handle = .ok (some packet, windows, handle) →
      sendDatagram packet.packet buf = .ok datagram →
      OwnedStep s (i, .sent packet datagram)
        { windows := windows.append packet, threads := Function.update s.threads i ⟨handle, .tick⟩ }
  | finish {i windows handle} : (s.threads i).pc = .next →
      s.windows.next i (s.threads i).handle = .ok (none, windows, handle) →
      OwnedStep s (i, .silent) { windows, threads := Function.update s.threads i ⟨handle, .left⟩ }
  | receive {i ctrlPacket} : (s.threads i).pc = .tick → ctrlPacket.flag < 256 →
      OwnedStep s (i, .received ctrlPacket)
        { windows := s.windows.receive ctrlPacket,
          threads := Function.update s.threads i { s.threads i with pc := .test } }
  | idle {i} : (s.threads i).pc = .tick →
      OwnedStep s (i, .silent) { s with threads := Function.update s.threads i { s.threads i with pc := .test } }
  | test {i} : (s.threads i).pc = .test →
      OwnedStep s (i, .silent)
        { s with threads := Function.update s.threads i
                    { s.threads i with pc := if s.windows.done then .left else .next } }

/-- A run of the sending threads on these partitions, in any interleaving. -/
def OwnedRun (c : Fin numThreads → List UInt8) : List (Fin numThreads × OwnedEvent) → OwnedProcess → Prop :=
  Run OwnedStep (ownedStart c)

section Erase

variable {s s' : OwnedProcess}

/-- What the head of the send loop does once `get_next_packet` has returned. -/
def OwnedWindows.sendNext (buf : Buffer udpPacketSize) :
    Option OwnedPacket × OwnedWindows × FileIoPartitionHandle →
      Except MemFault (Option (List UInt8) × ClientWindows × FileIoPartitionHandle)
  | (some packet, windows, handle) =>
    (sendDatagram packet.packet buf).bind fun datagram => .ok (some datagram, (windows.append packet).erase, handle)
  | (none, windows, handle) => .ok (none, windows.erase, handle)

theorem blockThreadSend_erase (w : OwnedWindows) (i : Fin numThreads) (handle : FileIoPartitionHandle)
    (buf : Buffer udpPacketSize) :
    blockThreadSend w.erase handle buf = (w.next i handle).bind (OwnedWindows.sendNext buf) := by
  simp only [blockThreadSend, getNextPacket_erase w i]
  cases w.next i handle with
  | error fault => rfl
  | ok result =>
    obtain ⟨next, windows, handle'⟩ := result
    cases next with
    | none => rfl
    | some packet =>
      have appended : appendInFlight windows.erase packet.packet = (windows.append packet).erase := by
        simp only [appendInFlight, OwnedWindows.append, OwnedWindows.erase, List.map_append, List.map_cons, List.map_nil]
      simp only [Except.map, eraseNext, bind, Except.bind, Option.map_some, appended, OwnedWindows.sendNext]
      cases sendDatagram packet.packet buf with
      | error fault => rfl
      | ok datagram => rfl

theorem blockThreadSend_erase_some {w : OwnedWindows} (i : Fin numThreads) {handle handle' : FileIoPartitionHandle}
    {buf : Buffer udpPacketSize} {datagram : List UInt8} {windows : ClientWindows} :
    blockThreadSend w.erase handle buf = .ok (some datagram, windows, handle') ↔
      ∃ packet w', w.next i handle = .ok (some packet, w', handle') ∧ sendDatagram packet.packet buf = .ok datagram ∧
        (w'.append packet).erase = windows := by
  rw [blockThreadSend_erase w i, Except.bind_eq_ok]
  constructor
  · rintro ⟨⟨_ | packet, w', handle''⟩, taken, sent⟩
    · cases sent
    · obtain ⟨bytes, encoded, same⟩ := Except.bind_eq_ok.mp sent
      cases same
      exact ⟨packet, w', taken, encoded, rfl⟩
  · rintro ⟨packet, w', taken, encoded, rfl⟩
    exact ⟨_, taken, Except.bind_eq_ok.mpr ⟨datagram, encoded, rfl⟩⟩

theorem blockThreadSend_erase_none {w : OwnedWindows} (i : Fin numThreads) {handle handle' : FileIoPartitionHandle}
    {buf : Buffer udpPacketSize} {windows : ClientWindows} :
    blockThreadSend w.erase handle buf = .ok (none, windows, handle') ↔
      ∃ w', w.next i handle = .ok (none, w', handle') ∧ w'.erase = windows := by
  rw [blockThreadSend_erase w i, Except.bind_eq_ok]
  constructor
  · rintro ⟨⟨_ | packet, w', handle''⟩, taken, sent⟩
    · cases sent
      exact ⟨w', taken, rfl⟩
    · obtain ⟨bytes, _, same⟩ := Except.bind_eq_ok.mp sent
      cases same
  · rintro ⟨w', taken, rfl⟩
    exact ⟨_, taken, rfl⟩

/-- A step with origins is a step of the process when they are forgotten. -/
theorem OwnedStep.erase {i : Fin numThreads} {e : OwnedEvent} (step : OwnedStep s (i, e) s') :
    ProcessStep s.erase (i, e.erase) s'.erase := by
  cases step with
  | send buf atNext taken sent =>
    exact .send buf atNext ((blockThreadSend_erase_some i).mpr ⟨_, _, taken, sent, rfl⟩)
  | finish atNext taken =>
    exact .finish (Buffer.zeros _) atNext ((blockThreadSend_erase_none i).mpr ⟨_, taken, rfl⟩)
  | receive atTick small =>
    refine .receive (ucpPacketInit 0) atTick small ?_
    rw [OwnedProcess.erase, clientReceive_wire small, onCtrlPacket_erase]
  | idle atTick => exact .idle atTick
  | test atTest => exact .test atTest

/-- Every step of the process is one with origins. -/
theorem ProcessStep.owned {t : ClientProcess} {event : Fin numThreads × ThreadEvent}
    (step : ProcessStep s.erase event t) :
    ∃ e s', OwnedStep s (event.1, e) s' ∧ e.erase = event.2 ∧ s'.erase = t := by
  cases step with
  | @send i datagram windows handle buf atNext sent =>
    obtain ⟨packet, w', taken, encoded, rfl⟩ := (blockThreadSend_erase_some i).mp sent
    exact ⟨_, _, .send buf atNext taken encoded, rfl, rfl⟩
  | @finish i windows handle buf atNext sent =>
    obtain ⟨w', taken, rfl⟩ := (blockThreadSend_erase_none i).mp sent
    exact ⟨_, _, .finish atNext taken, rfl, rfl⟩
  | @receive i ctrlPacket windows rspPkt atTick small handled =>
    change clientReceive s.windows.erase _ _ = _ at handled
    rw [clientReceive_wire small, onCtrlPacket_erase] at handled
    cases handled
    exact ⟨_, _, .receive atTick small, rfl, rfl⟩
  | idle atTick => exact ⟨_, _, .idle atTick, rfl, rfl⟩
  | test atTest => exact ⟨_, _, .test atTest, rfl, rfl⟩

end Erase

def eraseEvent (event : Fin numThreads × OwnedEvent) : Fin numThreads × ThreadEvent := (event.1, event.2.erase)

/-- The runs of the process are the runs with origins, when these are forgotten. -/
theorem processRun_iff {c : Fin numThreads → List UInt8} {events : List (Fin numThreads × ThreadEvent)}
    {t : ClientProcess} :
    Run ProcessStep (processStart c) events t ↔
      ∃ owned s, OwnedRun c owned s ∧ owned.map eraseEvent = events ∧ s.erase = t := by
  constructor
  · intro run
    refine Run.lift OwnedProcess.erase eraseEvent (fun {s event t'} step => ?_) run
    obtain ⟨e, s', step', label, same⟩ := step.owned
    exact ⟨(event.1, e), s', step', Prod.ext rfl label, same⟩
  · rintro ⟨owned, s, run, rfl, rfl⟩
    exact Run.map OwnedProcess.erase eraseEvent OwnedStep.erase run

/-- The packet comes from the partition of the thread it is ascribed to. -/
def OwnedPacket.Genuine (c : Fin numThreads → List UInt8) (p : OwnedPacket) : Prop :=
  ∃ k, k < segmentCount (c p.owner) ∧ segment (c p.owner) k = p.packet

structure OwnedWindows.Genuine (c : Fin numThreads → List UInt8) (w : OwnedWindows) : Prop where
  pending : ∀ p ∈ w.pendingPacketList, p.Genuine c
  inFlight : ∀ p ∈ w.inFlightPacketList, p.Genuine c

section Genuine

variable {c : Fin numThreads → List UInt8} {w w' : OwnedWindows}

theorem OwnedWindows.Genuine.next (genuine : w.Genuine c) {i : Fin numThreads} {k : Nat}
    {handle handle' : FileIoPartitionHandle} {next : Option OwnedPacket} (reading : ReadHandle (c i) k handle)
    (taken : w.next i handle = .ok (next, w', handle')) :
    w'.Genuine c ∧ (∀ p ∈ next, p.Genuine c) ∧ ∃ k', ReadHandle (c i) k' handle' := by
  obtain ⟨pendingGenuine, inFlightGenuine⟩ := genuine
  unfold OwnedWindows.next at taken
  split at taken
  · rename_i packet rest list
    cases taken
    rw [list, List.forall_mem_cons] at pendingGenuine
    refine ⟨⟨pendingGenuine.2, inFlightGenuine⟩, fun p same => ?_, k, reading⟩
    cases same
    exact pendingGenuine.1
  by_cases within : k < segmentCount (c i)
  · obtain ⟨handle'', read, reading⟩ := reading.next within
    rw [read] at taken
    cases taken
    refine ⟨⟨pendingGenuine, inFlightGenuine⟩, fun p same => ?_, k + 1, reading⟩
    cases same
    exact ⟨k, within, rfl⟩
  · obtain ⟨handle'', read, reading⟩ := reading.exhausted (Nat.not_lt.mp within)
    rw [read] at taken
    simp only [bind, Except.bind] at taken
    split at taken
    · rename_i packet rest list
      cases taken
      rw [list, List.forall_mem_cons] at inFlightGenuine
      refine ⟨⟨pendingGenuine, inFlightGenuine.2⟩, fun p same => ?_, k, reading⟩
      cases same
      exact inFlightGenuine.1
    · cases taken
      exact ⟨⟨pendingGenuine, inFlightGenuine⟩, fun p none => (by cases none), k, reading⟩

theorem OwnedWindows.Genuine.append (genuine : w.Genuine c) {p : OwnedPacket} (new : p.Genuine c) :
    (w.append p).Genuine c := by
  refine ⟨genuine.pending, List.forall_mem_append.mpr ⟨genuine.inFlight, fun q member => ?_⟩⟩
  rw [List.mem_singleton.mp member]
  exact new

theorem OwnedWindows.Genuine.receive (genuine : w.Genuine c) (ctrlPacket : UcpCtrlPacket) :
    (w.receive ctrlPacket).Genuine c := by
  have kept : ∀ p ∈ w.unlink ctrlPacket.seqNo, p.Genuine c :=
    fun p member => genuine.inFlight p (List.mem_of_mem_eraseP member)
  unfold OwnedWindows.receive
  split
  · split
    · exact ⟨genuine.pending, kept⟩
    · exact genuine
  split
  · split
    · rename_i packet found
      refine ⟨List.forall_mem_append.mpr ⟨genuine.pending, fun q member => ?_⟩, kept⟩
      rw [List.mem_singleton.mp member]
      exact genuine.inFlight packet (List.mem_of_find?_eq_some found)
    · exact genuine
  split
  · exact ⟨genuine.pending, genuine.inFlight⟩
  · exact genuine

structure OwnedProcess.Genuine (c : Fin numThreads → List UInt8) (s : OwnedProcess) : Prop where
  windows : s.windows.Genuine c
  reading : ∀ i, ∃ k, ReadHandle (c i) k (s.threads i).handle

theorem OwnedProcess.Genuine.step {s s' : OwnedProcess} {event : Fin numThreads × OwnedEvent}
    (genuine : s.Genuine c)
    (step : OwnedStep s event s') : s'.Genuine c := by
  have moved {i : Fin numThreads} {thread : BlockThread} (reading : ∃ k, ReadHandle (c i) k thread.handle) :
      ∀ j, ∃ k, ReadHandle (c j) k (Function.update s.threads i thread j).handle :=
    (Function.forall_update_iff s.threads fun j thread => ∃ k, ReadHandle (c j) k thread.handle).mpr
      ⟨reading, fun j _ => genuine.reading j⟩
  cases step with
  | @send i _ _ _ _ _ _ taken _ =>
    obtain ⟨k, reading⟩ := genuine.reading i
    obtain ⟨windows, new, reading⟩ := genuine.windows.next reading taken
    exact ⟨windows.append (new _ rfl), moved reading⟩
  | @finish i _ _ _ taken =>
    obtain ⟨k, reading⟩ := genuine.reading i
    obtain ⟨windows, -, reading⟩ := genuine.windows.next reading taken
    exact ⟨windows, moved reading⟩
  | @receive i ctrlPacket _ _ => exact ⟨genuine.windows.receive ctrlPacket, moved (genuine.reading i)⟩
  | @idle i _ => exact ⟨genuine.windows, moved (genuine.reading i)⟩
  | @test i _ => exact ⟨genuine.windows, moved (genuine.reading i)⟩

/-- In every run the origins are the true ones. -/
theorem OwnedRun.genuine {events : List (Fin numThreads × OwnedEvent)} {s : OwnedProcess}
    (run : OwnedRun c events s) :
    s.Genuine c := by
  refine Run.invariant (fun _ s => s.Genuine c) ?_ (fun _ genuine step => genuine.step step) run
  exact ⟨⟨fun _ none => absurd none List.not_mem_nil, fun _ none => absurd none List.not_mem_nil⟩,
    fun i => ⟨0, openPartition_readHandle (c i)⟩⟩

/-- What a thread sends is a packet of the partition it is ascribed to. -/
theorem OwnedRun.sent_genuine {events : List (Fin numThreads × OwnedEvent)} {s s' : OwnedProcess}
    {i : Fin numThreads}
    {packet : OwnedPacket} {datagram : List UInt8} (run : OwnedRun c events s)
    (step : OwnedStep s (i, .sent packet datagram) s') : packet.Genuine c ∧ datagram = packet.packet.wire := by
  cases step with
  | send buf atNext taken sent =>
    obtain ⟨k, reading⟩ := run.genuine.reading i
    obtain ⟨-, new, -⟩ := run.genuine.windows.next reading taken
    have genuine := new packet rfl
    obtain ⟨k, -, same⟩ := genuine
    rw [← same, sendDatagram_eq (segment_encodable ..)] at sent
    cases sent
    rw [same]
    exact ⟨new packet rfl, rfl⟩

end Genuine

end UCP

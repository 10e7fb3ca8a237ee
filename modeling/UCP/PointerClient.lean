import UCP.Client
import UCP.ObjectHeap

namespace UCP.Pointer

/-- The file-level statics of the client, with the memory for the elements of the
two windows and for the packets that they point to. -/
structure ClientWindows (Addr : Type) where
  pendingPacketList : ListHead Addr
  inFlightPacketList : ListHead Addr
  done : Bool
  heap : Heap Addr Addr
  packets : ObjectHeap Addr UcpPacket

/-- A fault of a pointer, or one inside a packet buffer. -/
inductive ClientFault (Addr : Type)
  | heap (fault : HeapFault Addr)
  | mem (fault : MemFault)

def ofHeap {Addr α : Type} (result : Except (HeapFault Addr) α) : Except (ClientFault Addr) α :=
  result.mapError .heap

def ofMem {Addr α : Type} (result : Except MemFault α) : Except (ClientFault Addr) α :=
  result.mapError .mem

section Windows

variable {Addr : Type}

def ClientWindows.pending (windows : ClientWindows Addr) : LinkedList Addr Addr :=
  windows.pendingPacketList.at windows.heap

def ClientWindows.inFlight (windows : ClientWindows Addr) : LinkedList Addr Addr :=
  windows.inFlightPacketList.at windows.heap

def ClientWindows.setPending (windows : ClientWindows Addr) (list : LinkedList Addr Addr) : ClientWindows Addr :=
  { windows with pendingPacketList := list.head, heap := list.heap }

def ClientWindows.setInFlight (windows : ClientWindows Addr) (list : LinkedList Addr Addr) : ClientWindows Addr :=
  { windows with inFlightPacketList := list.head, heap := list.heap }

variable [DecidableEq Addr]

/-- What `main` does to the windows, whose anchors are static. -/
def clientWindowsInit (memory : Memory Addr UcpPacket) (pending inFlight : Addr) :
    Except (HeapFault Addr) (ClientWindows Addr) := do
  let zeroed := memory.heap.set inFlight (some ⟨none, none, none⟩)
  let (_, inFlightList) ← linkedListInit { numMembers := 0, anchor := inFlight, heap := zeroed }
  let zeroed := inFlightList.heap.set pending (some ⟨none, none, none⟩)
  let (_, pendingList) ← linkedListInit { numMembers := 0, anchor := pending, heap := zeroed }
  pure { pendingPacketList := pendingList.head, inFlightPacketList := inFlightList.head, done := false,
         heap := pendingList.heap, packets := memory.objects }

/-- What `get_next_packet` does to a window that is not empty: the first element
is unlinked, and its packet returned. -/
def takeFirst (list : LinkedList Addr Addr) :
    Except (HeapFault Addr) (Option (Option Addr × LinkedList Addr Addr)) := do
  let empty ← linkedListEmpty list
  if empty then pure none
  else do
    let elem ← linkedListFirst list
    let packet ← list.obj elem
    let list ← linkedListUnlink list elem
    pure (some (packet, list))

/-- `file_io_get_next_packet`, with the result of the `malloc` for the packet.
Without memory it fails when it comes to set a flag, and skips the segment
otherwise. -/
def fileIoGetNextPacket (packets : ObjectHeap Addr UcpPacket) (handle : FileIoPartitionHandle)
    (allocation : Option Addr) :
    Except (ClientFault Addr) (Option Addr × ObjectHeap Addr UcpPacket × FileIoPartitionHandle) := do
  let (packet, handle') ← ofMem (UCP.fileIoGetNextPacket handle)
  match packet with
  | none => pure (none, packets, handle')
  | some packet =>
    let (obj, packets) := packets.malloc allocation packet
    if obj = none ∧ (handle.fp.pos = 0 ∨ handle'.fp.eof = true) then .error (.heap .nullPointer)
    else pure (obj, packets, handle')

/-- Pending packets go first, then the file, then the in-flight window. -/
def getNextPacket (windows : ClientWindows Addr) (handle : FileIoPartitionHandle) (allocation : Option Addr) :
    Except (ClientFault Addr) (Option Addr × ClientWindows Addr × FileIoPartitionHandle) := do
  let pending ← ofHeap (takeFirst windows.pending)
  match pending with
  | some (packet, list) => pure (packet, windows.setPending list, handle)
  | none => do
    let (filePacket, packets, handle) ← fileIoGetNextPacket windows.packets handle allocation
    let windows := { windows with packets }
    if filePacket.isSome then pure (filePacket, windows, handle)
    else do
      let inFlight ← ofHeap (takeFirst windows.inFlight)
      match inFlight with
      | some (packet, list) => pure (packet, windows.setInFlight list, handle)
      | none => pure (none, windows, handle)

/-- The loop of `find_packet`, for as many iterations as there is fuel. It runs
round to the anchor. -/
def findPacketLoop (list : LinkedList Addr Addr) (packets : ObjectHeap Addr UcpPacket) (seqNo : UInt32) :
    Nat → Option Addr → Except (HeapFault Addr) (Option Addr)
  | 0, _ => .error .outOfFuel
  | fuel + 1, elem =>
    if elem = some list.anchor then pure none
    else do
      let obj ← list.obj elem
      let packet ← packets.load obj
      if hasSeqNo seqNo packet then pure elem
      else do
        let atElem ← list.heap.load elem
        findPacketLoop list packets seqNo fuel atElem.next

def findPacket (fuel : Nat) (list : LinkedList Addr Addr) (packets : ObjectHeap Addr UcpPacket) (seqNo : UInt32) :
    Except (HeapFault Addr) (Option Addr) := do
  let anchor ← list.heap.load (some list.anchor)
  findPacketLoop list packets seqNo fuel anchor.next

/-- The part of `on_ack_received` that handles a decoded control packet, with
what `malloc` returns for the element that a NACK needs. -/
def onCtrlPacket (fuel : Nat) (windows : ClientWindows Addr) (ctrlPacket : UcpCtrlPacket)
    (allocation : Allocation Addr Addr) : Except (HeapFault Addr) (ClientWindows Addr) :=
  if ctrlPacket.flag = ucpFlagAck then do
    let elem ← findPacket fuel windows.inFlight windows.packets ctrlPacket.seqNo
    if elem = none then pure windows
    else do
      let list ← linkedListUnlink windows.inFlight elem
      pure (windows.setInFlight list)
  else if ctrlPacket.flag = ucpFlagNack then do
    let elem ← findPacket fuel windows.inFlight windows.packets ctrlPacket.seqNo
    if elem = none then pure windows
    else do
      let packet ← windows.inFlight.obj elem
      let (_, list) ← linkedListAppend windows.pending packet allocation
      let windows := windows.setPending list
      let list ← linkedListUnlink windows.inFlight elem
      pure (windows.setInFlight list)
  else if ctrlPacket.flag = ucpFlagFin then pure { windows with done := true }
  else pure windows

def onAckReceived (fuel : Nat) (windows : ClientWindows Addr) (resSgmnt : TcpSgmnt) (rspPkt : UcpPacket)
    (allocation : Allocation Addr Addr) : Except (ClientFault Addr) (ClientWindows Addr) := do
  let rspPkt ← ofMem (ucpPacketDecode resSgmnt.data.bytes resSgmnt.dataLen rspPkt)
  if rspPkt.type = ucpPacketTypeCtrl then ofHeap (onCtrlPacket fuel windows rspPkt.ctrlPacket allocation)
  else pure windows

def clientReceive (fuel : Nat) (windows : ClientWindows Addr) (incoming : List UInt8) (rspPkt : UcpPacket)
    (allocation : Allocation Addr Addr) : Except (ClientFault Addr) (ClientWindows Addr) := do
  let sgmnt ← ofMem (tcpServerReceiveSgmnt incoming)
  onAckReceived fuel windows sgmnt rspPkt allocation

/-- `block_thread` appends every packet it has sent to the in-flight window. -/
def appendInFlight (windows : ClientWindows Addr) (packet : Option Addr) (allocation : Allocation Addr Addr) :
    Except (HeapFault Addr) (ClientWindows Addr) := do
  let (_, list) ← linkedListAppend windows.inFlight packet allocation
  pure (windows.setInFlight list)

/-- The datagram of the packet behind the pointer. -/
def sendDatagram (windows : ClientWindows Addr) (packet : Option Addr) (buf : Buffer udpPacketSize) :
    Except (ClientFault Addr) (List UInt8) := do
  let packet ← ofHeap (windows.packets.load packet)
  ofMem (UCP.sendDatagram packet buf)

end Windows

end UCP.Pointer

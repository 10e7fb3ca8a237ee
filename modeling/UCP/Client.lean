import UCP.FileIo
import UCP.Sockets

namespace UCP

/-- The file-level statics of the client: the two windows, which hold pointers
to packets of which every one is in one place at a time, and the done flag. -/
structure ClientWindows where
  pendingPacketList : List UcpPacket
  inFlightPacketList : List UcpPacket
  done : Bool

def clientWindowsInit : ClientWindows where
  pendingPacketList := []
  inFlightPacketList := []
  done := false

def hasSeqNo (seqNo : UInt32) (packet : UcpPacket) : Bool := packet.dataPacket.seqNo == seqNo

/-- `find_packet`; unlinking the element it finds is `unlinkPacket`. -/
def findPacket (packetList : List UcpPacket) (seqNo : UInt32) : Option UcpPacket :=
  packetList.find? (hasSeqNo seqNo)

def unlinkPacket (packetList : List UcpPacket) (seqNo : UInt32) : List UcpPacket :=
  packetList.eraseP (hasSeqNo seqNo)

/-- Pending packets go first, then the file, then the in-flight window. -/
def getNextPacket (windows : ClientWindows) (handle : FileIoPartitionHandle) :
    Except MemFault (Option UcpPacket × ClientWindows × FileIoPartitionHandle) :=
  match windows.pendingPacketList with
  | packet :: rest => pure (some packet, { windows with pendingPacketList := rest }, handle)
  | [] => do
    let (filePacket, handle) ← fileIoGetNextPacket handle
    match filePacket with
    | some packet => pure (some packet, windows, handle)
    | none =>
      match windows.inFlightPacketList with
      | packet :: rest => pure (some packet, { windows with inFlightPacketList := rest }, handle)
      | [] => pure (none, windows, handle)

/-- The part of `on_ack_received` that handles a decoded control packet. -/
def onCtrlPacket (windows : ClientWindows) (ctrlPacket : UcpCtrlPacket) : ClientWindows :=
  if ctrlPacket.flag = ucpFlagAck then
    match findPacket windows.inFlightPacketList ctrlPacket.seqNo with
    | some _ =>
      { windows with inFlightPacketList := unlinkPacket windows.inFlightPacketList ctrlPacket.seqNo }
    | none => windows
  else if ctrlPacket.flag = ucpFlagNack then
    match findPacket windows.inFlightPacketList ctrlPacket.seqNo with
    | some packet =>
      { windows with
        pendingPacketList := windows.pendingPacketList ++ [packet]
        inFlightPacketList := unlinkPacket windows.inFlightPacketList ctrlPacket.seqNo }
    | none => windows
  else if ctrlPacket.flag = ucpFlagFin then { windows with done := true }
  else windows

/-- `rspPkt` is what the uninitialised local variable of that name happens to
hold; the decoder may leave it as it is. -/
def onAckReceived (windows : ClientWindows) (resSgmnt : TcpSgmnt) (rspPkt : UcpPacket) :
    Except MemFault ClientWindows := do
  let rspPkt ← ucpPacketDecode resSgmnt.data.bytes resSgmnt.dataLen rspPkt
  pure (if rspPkt.type = ucpPacketTypeCtrl then onCtrlPacket windows rspPkt.ctrlPacket else windows)

/-- One `read` from the control connection, passed on to `on_ack_received`. -/
def clientReceive (windows : ClientWindows) (incoming : List UInt8) (rspPkt : UcpPacket) :
    Except MemFault ClientWindows := do
  let sgmnt ← tcpServerReceiveSgmnt incoming
  onAckReceived windows sgmnt rspPkt

/-- `block_thread` appends every packet it has sent to the in-flight window. -/
def appendInFlight (windows : ClientWindows) (packet : UcpPacket) : ClientWindows :=
  { windows with inFlightPacketList := windows.inFlightPacketList ++ [packet] }

/-- The datagram of `ucp_packet_encode` and `udp_socket_send`, over the old
contents of the send buffer. -/
def sendDatagram (packet : UcpPacket) (buf : Buffer udpPacketSize) : Except MemFault (List UInt8) := do
  let (len, buf) ← ucpPacketEncode packet buf.bytes udpPacketSize
  pure (udpSocketSend buf len)

/-- The head of one iteration of the send loop: take a packet, send it, append
it. The result is the datagram, or none when the loop ends for want of packets. -/
def blockThreadSend (windows : ClientWindows) (handle : FileIoPartitionHandle) (buf : Buffer udpPacketSize) :
    Except MemFault (Option (List UInt8) × ClientWindows × FileIoPartitionHandle) := do
  let (next, windows, handle) ← getNextPacket windows handle
  match next with
  | some packet => do
    let datagram ← sendDatagram packet buf
    pure (some datagram, appendInFlight windows packet, handle)
  | none => pure (none, windows, handle)

/-- At most `k` iterations of the send loop while no control packet comes in.
`send` stands for the encoding and sending of a packet; the result is what it
made of the packets sent, and the state they leave. -/
def blockThreadLoop {Sent : Type} (send : UcpPacket → Except MemFault Sent) (windows : ClientWindows)
    (handle : FileIoPartitionHandle) :
    Nat → Except MemFault (List Sent × ClientWindows × FileIoPartitionHandle)
  | 0 => pure ([], windows, handle)
  | k + 1 => do
    let (next, windows, handle) ← getNextPacket windows handle
    match next with
    | some packet => do
      let first ← send packet
      let windows := appendInFlight windows packet
      if windows.done then pure ([first], windows, handle)
      else do
        let (sent, windows, handle) ← blockThreadLoop send windows handle k
        pure (first :: sent, windows, handle)
    | none => pure ([], windows, handle)

end UCP

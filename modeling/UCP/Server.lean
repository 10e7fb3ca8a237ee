import UCP.FileIo
import UCP.Sequencer
import UCP.Sockets

namespace UCP

/-- `send_ctrl_packet` for the TCP connection: the bytes it writes. `buf` and
`data` are what its uninitialised local arrays happen to hold. -/
def sendCtrlPacket (seqNo flag : UInt32) (buf : Buffer 10) (data : Buffer tcpSegmentSize) :
    Except MemFault (List UInt8) := do
  let (dataLen, buf) ← ucpPacketEncode (ucpPacketInitCtrl seqNo flag) buf.bytes 10
  let encoded ← Mem.loadRange buf 0 dataLen
  let data ← data.memcpy encoded
  pure (tcpClientSend { data, dataLen })

structure SequencingQueueItem where
  seqNo : UInt32
  flag : UInt32
  isLast : Bool
  deriving DecidableEq, Repr

/-- `sequencing_queue_push` and `sequencing_queue_pop`; the mutex makes each of
them one step. -/
def sequencingQueuePush (queue : List SequencingQueueItem) (seqNo flag : UInt32) (isLast : Bool) :
    List SequencingQueueItem :=
  queue ++ [⟨seqNo, flag, isLast⟩]

def sequencingQueuePop : List SequencingQueueItem → Option (SequencingQueueItem × List SequencingQueueItem)
  | [] => none
  | item :: queue => some (item, queue)

/-- Where `receiving_thread` stands: waiting in `recvfrom`, done with a save
whose outcome it has still to push, or returned. -/
inductive ReceivingPc
  | receive
  | push (item : SequencingQueueItem)
  | returned
  deriving DecidableEq, Repr

/-- The local variables of `receiving_thread`, which live through its loop. -/
structure ReceivingThread where
  recvBuffer : Buffer udpPacketSize
  rcvPkt : UcpPacket
  pc : ReceivingPc

def receivingThreadStart : ReceivingThread where
  recvBuffer := Buffer.zeros _
  rcvPkt := ucpPacketInit 0
  pc := .receive

/-- The queue item that reports the outcome of a save. -/
def savedItem (packet : UcpPacket) (saved : Bool) : SequencingQueueItem :=
  if saved then ⟨packet.dataPacket.seqNo, ucpFlagAck, packet.dataPacket.flag == ucpFlagDataEnd⟩
  else ⟨packet.dataPacket.seqNo, ucpFlagNack, false⟩

/-- The loop body from the test of the decoded type to the end of
`file_io_save_packet`. -/
def receivingThreadSave (io : SaveIo) (thread : ReceivingThread) (handle : FileIoPartitionHandle) :
    Except MemFault (ReceivingThread × FileIoPartitionHandle) :=
  if thread.rcvPkt.type = ucpPacketTypeData then do
    let (saved, handle) ← fileIoSavePacket io handle thread.rcvPkt
    pure ({ thread with pc := .push (savedItem thread.rcvPkt saved) }, handle)
  else pure ({ thread with pc := .receive }, handle)

/-- The loop body up to the push, for a datagram that `recvfrom` has delivered;
an empty one ends the loop. The decoder is handed the whole receive buffer, not
the length that was received. -/
def receivingThreadReceive (datagram : List UInt8) (io : SaveIo) (thread : ReceivingThread)
    (handle : FileIoPartitionHandle) : Except MemFault (ReceivingThread × FileIoPartitionHandle) :=
  let received := udpSocketReceiveFrom thread.recvBuffer datagram
  let thread := { thread with recvBuffer := received.2 }
  if received.1 = 0 then pure ({ thread with pc := .returned }, handle)
  else do
    let rcvPkt ← ucpPacketDecode thread.recvBuffer.bytes udpPacketSize thread.rcvPkt
    receivingThreadSave io { thread with rcvPkt } handle

/-- The rest of the loop body. After a failed save the thread returns. -/
def receivingThreadPush (item : SequencingQueueItem) (thread : ReceivingThread)
    (queue : List SequencingQueueItem) : ReceivingThread × List SequencingQueueItem :=
  ({ thread with pc := if item.flag = ucpFlagNack then .returned else .receive },
    sequencingQueuePush queue item.seqNo item.flag item.isLast)

/-- Where `sequencing_thread` stands in its loop: before the loop test, the
pop, the reply to the popped item, the `sequencer_add`, the next of the
missing segments to be reported; and behind the loop. -/
inductive SequencingPc
  | test
  | pop
  | reply
  | add
  | missing (todo : List UInt32)
  | fin
  | returned
  deriving DecidableEq, Repr

structure SequencingThread where
  sequencer : Sequencer
  seqNo : UInt32
  flag : UInt32
  isLast : Bool
  pc : SequencingPc
  deriving DecidableEq, Repr

def sequencingThreadStart : SequencingThread where
  sequencer := sequencerInit
  seqNo := 0
  flag := 0
  isLast := false
  pc := .test

/-- One step of `sequencing_thread`, with the control packet it sends, if any.
The popped `isLast` is stored and never read. -/
def sequencingThreadStep (thread : SequencingThread) (queue : List SequencingQueueItem) :
    Option (SequencingThread × List SequencingQueueItem × Option (UInt32 × UInt32)) :=
  match thread.pc with
  | .test =>
    let (complete, sequencer) := sequencerComplete thread.sequencer
    some ({ thread with sequencer, pc := if complete then .fin else .pop }, queue, none)
  | .pop =>
    match sequencingQueuePop queue with
    | some (item, queue) =>
      some ({ thread with seqNo := item.seqNo, flag := item.flag, isLast := item.isLast, pc := .reply },
        queue, none)
    | none => some ({ thread with pc := .test }, queue, none)
  | .reply => some ({ thread with pc := .add }, queue, some (thread.seqNo, thread.flag))
  | .add =>
    let (_, sequencer) := sequencerAdd thread.sequencer thread.seqNo (thread.flag == ucpFlagDataEnd)
    some ({ thread with sequencer, pc := .missing (sequencerIterateMissingSegments sequencer) }, queue, none)
  | .missing (seqNo :: todo) =>
    some ({ thread with pc := .missing todo }, queue, some (seqNo, ucpFlagNack))
  | .missing [] => some ({ thread with pc := .test }, queue, none)
  | .fin =>
    some ({ thread with pc := .returned }, queue, some (thread.sequencer.expectedLastSeqNo, ucpFlagFin))
  | .returned => none

/-- One iteration of the loop of `sequencing_thread` with nothing in between,
and the control packets it sends; the last one leaves the loop. -/
def sequencingTurn (thread : SequencingThread) (queue : List SequencingQueueItem) :
    SequencingThread × List SequencingQueueItem × List UcpCtrlPacket :=
  let (complete, sequencer) := sequencerComplete thread.sequencer
  if complete then
    ({ thread with sequencer, pc := .returned }, queue, [⟨sequencer.expectedLastSeqNo, ucpFlagFin⟩])
  else
    match sequencingQueuePop queue with
    | some (item, queue) =>
      let (_, sequencer) := sequencerAdd sequencer item.seqNo (item.flag == ucpFlagDataEnd)
      ({ sequencer, seqNo := item.seqNo, flag := item.flag, isLast := item.isLast, pc := .test }, queue,
        ⟨item.seqNo, item.flag⟩ :: (sequencerIterateMissingSegments sequencer).map (⟨·, ucpFlagNack⟩))
    | none => ({ thread with sequencer, pc := .test }, queue, [])

end UCP

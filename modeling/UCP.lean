import UCP.AckSaved
import UCP.Agreement
import UCP.ClientInterference
import UCP.ClientMain
import UCP.DestinationName
import UCP.FinReached
import UCP.LinkedListSequence
import UCP.OffsetReaders
import UCP.RetransmissionSchedule
import UCP.SegmentTiling
import UCP.SequencerAllocation
import UCP.SequencerCompletion
import UCP.SequencerMissing
import UCP.SequencerOrder
import UCP.ServerSequencer
import UCP.SystemMemory
import UCP.TcpCallbacks
import UCP.TcpEndpoints
import UCP.TcpServerStop
import UCP.TcpWorldProgress
import UCP.WorldEnds

import Rudp.Lib.Serial
import Rudp.Lib.Run
import Rudp.Frame
import Rudp.SeqNo
import Rudp.Reassembly
import Rudp.Receive
import Rudp.Lib.Slice
import Rudp.Stream
import Rudp.SndFrame
import Rudp.Conn
import Rudp.Invariant
import Rudp.Window
import Rudp.Effects
import Rudp.Queue
import Rudp.Ids
import Rudp.Datagram
import Rudp.Announce
import Rudp.Opening
import Rudp.Owed
import Rudp.Ack
import Rudp.Flight
import Rudp.Sent
import Rudp.Segs
import Rudp.Handshake
import Rudp.States
import Rudp.Faults
import Rudp.Room
import Rudp.Atomic
import Rudp.Account
import Rudp.Lib.Octets
import Rudp.Header
import Rudp.Options
import Rudp.Wire
import Rudp.Timing
import Rudp.Retries
import Rudp.Rto
import Rudp.Cwnd
import Rudp.Ooseq
import Rudp.OosMerge
import Rudp.Failure
import Rudp.Lib.Retry
import Rudp.Lib.Scan
import Rudp.NewPort
import Rudp.Victim
import Rudp.Lib.Overwrite
import Rudp.Chain
import Rudp.ChainCopy
import Rudp.Pool
import Rudp.Update
import Rudp.Micro
import Rudp.Send
import Rudp.Lib.Log
import Rudp.Layer
import Rudp.Retried
import Rudp.Lifetime
import Rudp.Oversize
import Rudp.RightEdge
import Rudp.Credit
import Rudp.Carry
import Rudp.Lossless
import Rudp.Lib.Net
import Rudp.Acked
import Rudp.Reader
import Rudp.Transfer
import Rudp.Lib.Walk
import Rudp.Host
import Rudp.Linked
import Rudp.Lists
import Rudp.Timers
import Rudp.Each
import Rudp.Held
import Rudp.Used

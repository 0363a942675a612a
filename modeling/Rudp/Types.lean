import Rudp.Lib.Serial

/-!
# Data model of the stack

The types of `include/lwip/tcp.h` and `include/lwip/tcp_impl.h`, with the configuration of
`include/lwip/lwipopts.h` over `include/lwip/opt.h` (window scaling, timestamps, the listen backlog
and the effective send MSS are compiled out; `LWIP_DEBUG` is set by the Makefile, so
`TCP_OVERSIZE_DBGCHECK` is on and every `LWIP_ASSERT` aborts).

`u32_t` sequence numbers are `BitVec 32`. `u16_t` and `u8_t` counters are natural numbers with the
reduction written out (`u16`, `u8`) where the code can overflow, `s16_t` values are integers
reduced by `s16`.
-/

namespace Rudp

/-! ## Configuration -/

/-- `TCP_MSS` (opt.h). -/
def TCP_MSS : ℕ := 536

/-- `TCP_WND` (lwipopts.h): `10 * TCP_MSS`. -/
def TCP_WND : ℕ := 10 * TCP_MSS

/-- `TCP_SND_BUF` (lwipopts.h): `12 * TCP_MSS`. -/
def TCP_SND_BUF : ℕ := 12 * TCP_MSS

/-- `TCP_SND_QUEUELEN` (lwipopts.h). -/
def TCP_SND_QUEUELEN : ℕ := 40

/-- `TCP_SNDQUEUELEN_OVERFLOW` (tcp.h). -/
def TCP_SNDQUEUELEN_OVERFLOW : ℕ := 0xffff - 3

/-- `TCP_OVERSIZE` (opt.h): `TCP_MSS`. -/
def TCP_OVERSIZE : ℕ := TCP_MSS

/-- `TCP_WND_UPDATE_THRESHOLD` (opt.h). -/
def TCP_WND_UPDATE_THRESHOLD : ℕ := min (TCP_WND / 4) (TCP_MSS * 4)

/-- `TCP_MAXRTX` and `TCP_SYNMAXRTX` (opt.h). -/
def TCP_MAXRTX : ℕ := 12

@[inherit_doc TCP_MAXRTX] def TCP_SYNMAXRTX : ℕ := 6

/-- `TCP_SLOW_INTERVAL` (tcp_impl.h), milliseconds. -/
def TCP_SLOW_INTERVAL : ℕ := 500

/-- `TCP_FIN_WAIT_TIMEOUT`, `TCP_SYN_RCVD_TIMEOUT`, `TCP_MSL` (tcp_impl.h), milliseconds. -/
def TCP_FIN_WAIT_TIMEOUT : ℕ := 20000

@[inherit_doc TCP_FIN_WAIT_TIMEOUT] def TCP_SYN_RCVD_TIMEOUT : ℕ := 20000

@[inherit_doc TCP_FIN_WAIT_TIMEOUT] def TCP_MSL : ℕ := 60000

/-- `TCP_OOSEQ_TIMEOUT` (tcp_impl.h), in units of the RTO. -/
def TCP_OOSEQ_TIMEOUT : ℕ := 6

/-- `TCP_KEEPIDLE_DEFAULT`, `TCP_KEEPINTVL_DEFAULT`, `TCP_MAXIDLE` (tcp_impl.h). -/
def TCP_KEEPIDLE_DEFAULT : ℕ := 7200000

@[inherit_doc TCP_KEEPIDLE_DEFAULT] def TCP_KEEPINTVL_DEFAULT : ℕ := 75000

@[inherit_doc TCP_KEEPIDLE_DEFAULT] def TCP_MAXIDLE : ℕ := 9 * TCP_KEEPINTVL_DEFAULT

/-- `TCP_HLEN` (tcp_impl.h): the header without options. -/
def TCP_HLEN : ℕ := 20

/-! ## Machine integers -/

abbrev U32 := BitVec 32

abbrev Byte := UInt8

/-- Conversion of a length to `u32_t`. -/
def u32 (n : ℕ) : U32 := BitVec.ofNat 32 n

/-- Conversion to `u16_t`. -/
def u16 (n : ℕ) : ℕ := n % 65536

/-- Conversion to `u8_t`. -/
def u8 (n : ℕ) : ℕ := n % 256

/-- Conversion to `s16_t`. -/
def s16 (x : ℤ) : ℤ := x.bmod 65536

/-! ## Sequence number comparison (tcp_impl.h:102-108) -/

/-- `TCP_SEQ_LT(a,b)`. -/
def tcpSeqLt (a b : U32) : Prop := Serial.dist a b < 0

/-- `TCP_SEQ_LEQ(a,b)`. -/
def tcpSeqLeq (a b : U32) : Prop := Serial.dist a b ≤ 0

/-- `TCP_SEQ_GT(a,b)`. -/
def tcpSeqGt (a b : U32) : Prop := 0 < Serial.dist a b

/-- `TCP_SEQ_GEQ(a,b)`. -/
def tcpSeqGeq (a b : U32) : Prop := 0 ≤ Serial.dist a b

/-- `TCP_SEQ_BETWEEN(a,b,c)`: is `b <= a <= c`? -/
def tcpSeqBetween (a b c : U32) : Prop := tcpSeqGeq a b ∧ tcpSeqLeq a c

instance (a b : U32) : Decidable (tcpSeqLt a b) := inferInstanceAs (Decidable (_ < _))
instance (a b : U32) : Decidable (tcpSeqLeq a b) := inferInstanceAs (Decidable (_ ≤ _))
instance (a b : U32) : Decidable (tcpSeqGt a b) := inferInstanceAs (Decidable (_ < _))
instance (a b : U32) : Decidable (tcpSeqGeq a b) := inferInstanceAs (Decidable (_ ≤ _))
instance (a b c : U32) : Decidable (tcpSeqBetween a b c) := inferInstanceAs (Decidable (_ ∧ _))

/-! ## Enumerations -/

/-- `err_t` (err.h). -/
inductive Err
  | ok | mem | buf | timeout | rte | inProgress | val | wouldBlock | use | already | isConn
  | conn | abrt | rst | clsd | arg | netif
  deriving DecidableEq, Repr

/-- `enum tcp_state` (tcp.h), in the order of the source. -/
inductive TcpState
  | CLOSED | LISTEN | SYN_SENT | SYN_RCVD | ESTABLISHED | FIN_WAIT_1 | FIN_WAIT_2 | CLOSE_WAIT
  | CLOSING | LAST_ACK | TIME_WAIT
  deriving DecidableEq, Repr

/-- The numeric value of a state, used by `pcb->state >= ESTABLISHED` and
    `pcb->state < CLOSE_WAIT`. -/
def TcpState.num : TcpState → ℕ
  | CLOSED => 0 | LISTEN => 1 | SYN_SENT => 2 | SYN_RCVD => 3 | ESTABLISHED => 4
  | FIN_WAIT_1 => 5 | FIN_WAIT_2 => 6 | CLOSE_WAIT => 7 | CLOSING => 8 | LAST_ACK => 9
  | TIME_WAIT => 10

/-- Why the process stops: a failed `LWIP_ASSERT` (or `LWIP_ERROR`, which aborts as well in this
    configuration), an access through a null pointer, to a pcb that `memp_free` took back, or
    behind the end of an array, or a list that has become a ring. -/
inductive Fault
  | assert (message : String)
  | nullDeref
  | useAfterFree
  | outOfBounds
  | ring
  deriving DecidableEq, Repr

/-- `LWIP_ASSERT(message, assertion)`. -/
def lwipAssert (message : String) (assertion : Prop) [Decidable assertion] : Except Fault Unit :=
  if assertion then .ok () else .error (.assert message)

theorem lwipAssert_pos {message : String} {p : Prop} [Decidable p] (h : p) :
    lwipAssert message p = .ok () := if_pos h

theorem lwipAssert_ok {message : String} {p : Prop} [Decidable p] {u : Unit}
    (h : lwipAssert message p = .ok u) : p := by
  unfold lwipAssert at h
  split_ifs at h with hp
  exact hp

/-! ## Segments -/

/-- The control bits of a TCP header that the stack reads or sets (`TCP_FIN` … `TCP_ACK`). -/
structure TcpFlags where
  fin : Bool := false
  syn : Bool := false
  rst : Bool := false
  psh : Bool := false
  ack : Bool := false
  deriving DecidableEq, Repr

/-- `struct connect_id_t` (tcp.h). -/
structure ConnectId where
  connid1 : U32
  connid2 : U32
  deriving DecidableEq, Repr

/-- `struct tcp_hdr` (tcp_impl.h:165-173), fields in host byte order. -/
structure TcpHdr where
  connid1 : U32
  connid2 : U32
  seqno : U32
  ackno : U32
  /-- Header length in 32-bit words. -/
  hdrlen : ℕ
  flags : TcpFlags
  wnd : ℕ
  deriving DecidableEq, Repr

/-- One pbuf: the bytes behind `payload`, and how many bytes of its buffer lie unused behind them
    (only `tcp_pbuf_prealloc` leaves any). -/
structure Pbuf where
  payload : List Byte
  spare : ℕ := 0
  deriving DecidableEq, Repr

/-- `struct tcp_seg` (tcp_impl.h:289-313). `p` is the chain behind the TCP header and its options:
    the header itself is `tcphdr`. -/
structure TcpSeg where
  p : List Pbuf
  len : ℕ
  oversizeLeft : ℕ := 0
  /-- `TF_SEG_OPTS_MSS` of `seg->flags`, the only option compiled in. -/
  optsMss : Bool := false
  tcphdr : TcpHdr
  deriving DecidableEq, Repr

/-- `LWIP_TCP_OPT_LENGTH(seg->flags)`. -/
def TcpSeg.optlen (seg : TcpSeg) : ℕ := if seg.optsMss then 4 else 0

/-- The `+ 1` of `TCP_TCPLEN`: does the segment carry FIN or SYN? -/
def TcpFlags.finSyn (f : TcpFlags) : ℕ := if f.fin || f.syn then 1 else 0

/-- `TCP_TCPLEN(seg)`. -/
def TcpSeg.tcplen (seg : TcpSeg) : ℕ := seg.len + seg.tcphdr.flags.finSyn

/-! ## Protocol control block -/

/-- `struct tcp_pcb` (tcp.h), without the list pointer, the callback pointers and the addresses,
    which no function on a single pcb reads. -/
structure Pcb where
  state : TcpState
  prio : ℕ
  localPort : ℕ
  connId : ConnectId
  -- pcb->flags
  tfAckDelay : Bool := false
  tfAckNow : Bool := false
  tfInfr : Bool := false
  tfRxClosed : Bool := false
  tfFin : Bool := false
  tfNoDelay : Bool := false
  tfNagleMemErr : Bool := false
  -- timers
  polltmr : ℕ := 0
  pollinterval : ℕ := 0
  lastTimer : ℕ := 0
  tmr : U32 := 0
  -- receiver variables
  rcvNxt : U32
  rcvWnd : ℕ
  rcvAnnWnd : ℕ
  rcvAnnRightEdge : U32
  -- retransmission timer
  rtime : ℤ
  mss : ℕ
  -- round trip time estimation
  rttest : U32 := 0
  rtseq : U32 := 0
  sa : ℤ
  sv : ℤ
  rto : ℤ
  nrtx : ℕ := 0
  -- fast retransmit and recovery
  dupacks : ℕ := 0
  lastack : U32
  -- congestion control
  cwnd : ℕ
  ssthresh : ℕ
  -- sender variables
  sndNxt : U32
  sndWl1 : U32
  sndWl2 : U32
  sndLbb : U32
  sndWnd : ℕ
  sndWndMax : ℕ
  acked : ℕ := 0
  sndBuf : ℕ
  sndQueuelen : ℕ := 0
  unsentOversize : ℕ := 0
  unsent : List TcpSeg := []
  unacked : List TcpSeg := []
  ooseq : List TcpSeg := []
  /-- `refused_data` and whether its first pbuf carries `PBUF_FLAG_TCP_FIN`. -/
  refusedData : Option (List Pbuf × Bool) := none
  keepIdle : ℕ := TCP_KEEPIDLE_DEFAULT
  persistCnt : ℕ := 0
  persistBackoff : ℕ := 0
  keepCntSent : ℕ := 0

/-- What `ip_output_if` is handed: the header, the option bytes, and the pbuf chain, whose first
    pbuf starts with header and options. -/
structure Packet where
  tcphdr : TcpHdr
  options : List Byte := []
  p : List Pbuf := []
  deriving DecidableEq, Repr

end Rudp

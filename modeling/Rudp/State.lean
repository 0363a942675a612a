import Rudp.Pbuf

/-!
# The state of a pcb function

`St` is what the functions of `tcp.c`, `tcp_in.c` and `tcp_out.c` see while they work on one pcb:
the pcb, the static variables of `tcp_in.c` that concern it, and the environment. The environment
answers the fallible calls (`mem_malloc`, `memp_malloc`, `ip_output_if`) in order from `fails`:
`true` makes the call fail, and when the list is used up calls succeed.

The application is a parameter of the functions that call it back (`App`). It gets the whole state
and returns it changed, so a callback may call the API again. `W` is what the application keeps
between callbacks.
-/

namespace Rudp

/-- The callbacks into the application. -/
inductive Event
  | connected
  | accept
  | sent (len : ℕ)
  | recv (data : List Byte)
  /-- `TCP_EVENT_CLOSED`: recv with a `NULL` buffer. -/
  | closed
  | poll
  deriving DecidableEq, Repr

/-- An arriving segment after `tcp_input` has parsed its header: the option bytes of the header and
    the chain of its data. It came in one UDP datagram, which carries at most 65507 bytes. -/
structure InSegment where
  tcphdr : TcpHdr
  options : List Byte := []
  p : List Pbuf
  bound : totLen p ≤ 65507
  deriving DecidableEq

/-- Short chains are in bounds. -/
theorem noData_bound : totLen [] ≤ 65507 := Nat.zero_le _

@[inherit_doc noData_bound] theorem oneByte_bound : totLen [{ payload := [7] }] ≤ 65507 := by decide

@[inherit_doc noData_bound] theorem threeBytes_bound :
    totLen [{ payload := [7, 7, 7] }] ≤ 65507 := by decide

namespace InSegment

variable (seg : InSegment)

abbrev seqno : U32 := seg.tcphdr.seqno
abbrev ackno : U32 := seg.tcphdr.ackno
abbrev flags : TcpFlags := seg.tcphdr.flags

/-- `tcplen` (tcp_in.c:181). -/
def tcplen : ℕ := totLen seg.p + seg.flags.finSyn

/-- The structure `inseg` (tcp_in.c:274-278). -/
def inseg : TcpSeg := { p := seg.p, len := totLen seg.p, tcphdr := seg.tcphdr }

end InSegment

/-- The log of a run. -/
inductive Out
  /-- A packet handed to `ip_output_if`, whether `sendto` took it, and the state and the id of the
      pcb at that moment. -/
  | ipOutputIf (packet : Packet) (sent : Bool) (state : TcpState) (connId : ConnectId)
  /-- A callback and the value it returned. -/
  | event (e : Event) (ret : Err)
  /-- The err callback. -/
  | err (e : Err)
  /-- `tcp_write` returned `ERR_OK` for `arg`. -/
  | wrote (arg : List Byte)
  /-- `tcp_recved` was called with `len`, and the pcb before the call. -/
  | recved (len : ℕ) (pcb : Pcb)
  /-- `tcp_process` called `tcp_receive`: the pcb before the call, behind it, and at the end of
      `tcp_process`, and whether `TF_CLOSED` is set then. -/
  | process (seg : InSegment) (before received after : Pcb) (closed : Bool)

/-- The list a pcb is linked in (tcp.c:107-119). -/
inductive PcbList
  | none
  | bound
  | active
  | tw
  deriving DecidableEq, Repr

/-- The state that the functions working on one pcb read and write. -/
structure St (W : Type) where
  pcb : Pcb
  list : PcbList
  /-- `memp_free` has returned the pcb to its pool. -/
  freed : Bool := false
  /-- `tcp_input_pcb == pcb` -/
  inputPcb : Bool := false
  -- recv_flags
  recvReset : Bool := false
  recvClosed : Bool := false
  recvGotFin : Bool := false
  recvData : Option (List Pbuf) := none
  /-- `tcp_active_pcbs_changed` -/
  changed : Bool := false
  ticks : U32 := 0
  fails : List Bool := []
  trace : List Out := []
  world : W

/-- The application: its callbacks. -/
abbrev App (W : Type) := Event → St W → Except Fault (Err × St W)

variable {W : Type}

/-- The answer to the next fallible call: `true` makes it fail. -/
def St.pop (s : St W) : Bool × St W := (s.fails.headD false, { s with fails := s.fails.tail })

/-- Record what a run shows. -/
def St.emit (s : St W) (o : Out) : St W := { s with trace := s.trace ++ [o] }

/-- The `TCP_EVENT_...` macros (tcp_impl.h:241-283). -/
def tcpEvent (app : App W) (e : Event) (s : St W) : Except Fault (Err × St W) := do
  let (err, s) ← app e s
  .ok (err, s.emit (.event e err))

/-- The code goes on to use the pcb. -/
def St.live (s : St W) : Except Fault Unit :=
  if s.freed then .error .useAfterFree else .ok ()

/-- `tcp_ack_now(pcb)` (tcp_impl.h:473-476). -/
def tcpAckNow (s : St W) : St W := { s with pcb.tfAckNow := true }

/-- `tcp_ack(pcb)` (tcp_impl.h:462-471): acknowledge every second segment at once. -/
def tcpAck (s : St W) : St W :=
  if s.pcb.tfAckDelay then { s with pcb.tfAckDelay := false, pcb.tfAckNow := true }
  else { s with pcb.tfAckDelay := true }

end Rudp

import Rudp.SndFrame

/-!
# Runs of one connection

The application calls the API, from outside or from a callback, segments arrive and timers tick.
`connStep` is one such operation on a pcb, with the answers of the environment to the fallible calls
in it.

Results:
* `Calls.invariant`: what the API calls of a callback keep, the callback keeps.
-/

namespace Rudp

variable {W : Type}

/-! ## The state of a connection -/

/-- The part of a state that statements about runs speak of. -/
structure Core extends SndView where
  state : TcpState
  rcvNxt : U32
  rcvWnd : ℕ
  ooseq : List TcpSeg

/-- The view of a state. -/
def St.core (s : St W) : Core where
  toSndView := s.sndView
  state := s.pcb.state
  rcvNxt := s.pcb.rcvNxt
  rcvWnd := s.pcb.rcvWnd
  ooseq := s.pcb.ooseq

/-! ## The API -/

/-- A call of the application: `tcp_connect`, `tcp_write`, `tcp_output`, `tcp_recved`, `tcp_close`,
    `tcp_shutdown`, `tcp_abort`, and `tcp_nagle_disable` or `tcp_nagle_enable`. -/
inductive Api
  | connect (newPort : ℕ) (iss : U32)
  | write (arg : List Byte) (copy more : Bool)
  | output
  | recved (len : Fin 65536)
  | close
  | shutdown (shutRx shutTx : Bool)
  | abort
  | nagle (disable : Bool)

/-- The call. A write that is accepted is logged. -/
def apiCall (s : St W) (a : Api) : Except Fault (Err × St W) := do
  s.live
  match a with
  | .connect newPort iss => tcpConnect s newPort iss
  | .write arg copy more =>
    let (err, s) ← tcpWrite s arg copy more
    .ok (err, if err = .ok then s.emit (.wrote arg) else s)
  | .output => tcpOutput s
  | .recved len =>
    let s ← tcpRecved s len
    .ok (.ok, s)
  | .close => tcpClose s
  | .shutdown shutRx shutTx => tcpShutdown s shutRx shutTx
  | .abort =>
    let s ← tcpAbort s
    .ok (.abrt, s)
  | .nagle disable => .ok (.ok, { s with pcb.tfNoDelay := disable })

/-- What an application does in a callback: it makes calls, each meeting `P` in the state in which
    it is made, and changes what it keeps. -/
def Calls (P : Core → Api → Prop) : St W → St W → Prop :=
  Relation.ReflTransGen fun s s' =>
    (∃ w, s' = { s with world := w }) ∨ ∃ a err, P s.core a ∧ apiCall s a = .ok (err, s')

/-- An application whose callbacks only make calls that meet `P`. -/
def AppOk (P : Core → Api → Prop) (app : App W) : Prop :=
  ∀ e s ret s', app e s = .ok (ret, s') → Calls P s s'

/-- The rule for invariants. -/
theorem Calls.invariant {P : Core → Api → Prop} {I : St W → Prop}
    (hworld : ∀ s w, I s → I { s with world := w })
    (hapi : ∀ s a err s', I s → P s.core a → apiCall s a = .ok (err, s') → I s') {s s' : St W}
    (h : Calls P s s') (hI : I s) : I s' := by
  induction h with
  | refl => exact hI
  | tail _ hc ih =>
    rcases hc with ⟨w, rfl⟩ | ⟨a, err, hP, hc⟩
    · exact hworld _ w ih
    · exact hapi _ a err _ ih hP hc

/-! ## Operations -/

/-- What happens to a connection: a call of the application, a segment, the timers, and the removal
    by `tcp_alloc` for another connection. -/
inductive Op
  | api (a : Api)
  | input (seg : InSegment)
  | fasttmr
  | slowtmr
  | kill (reset : Bool)

/-- One operation. -/
def connOp (app : App W) (s : St W) : Op → Except Fault (St W)
  | .api a => Prod.snd <$> apiCall s a
  | .input seg =>
    match s.list with
    | .active => tcpInput app s seg
    | .tw => tcpTimewaitInput s seg
    | _ => .ok s
  | .fasttmr => if s.list = .active then tcpFasttmr app s else .ok s
  | .slowtmr =>
    let s := { s with ticks := s.ticks + 1 }
    match s.list with
    | .active => tcpSlowtmr app s
    | .tw => .ok (tcpSlowtmrTw s)
    | _ => .ok s
  | .kill reset => if s.list = .active ∨ s.list = .tw then tcpAbandon s reset else .ok s

/-- One operation, and the answers of the environment to its fallible calls. -/
def connStep (app : App W) (s : St W) (op : List Bool × Op) : Except Fault (St W) :=
  connOp app { s with fails := op.1 } op.2

/-- `t` is the state in which `tcp_input`, called in `s`, hands the segment to `tcp_receive`. -/
def Receives (app : App W) (s : St W) (seg : InSegment) (t : St W) : Prop :=
  ∃ s₁, tcpInputRefused app s.resetRecv seg = .ok (false, s₁) ∧ seg.flags.rst = false ∧
    ∃ s₂, s₂ = tcpProcessStart { s₁ with inputPcb := true } seg ∧
      ((TcpState.ESTABLISHED.num ≤ s₂.pcb.state.num ∧ s₂.pcb.state ≠ .TIME_WAIT ∧
          seg.flags.syn = false ∧ t = s₂) ∨
        (s₂.pcb.state = .SYN_RCVD ∧ seg.flags.ack = true ∧
          tcpSeqBetween seg.ackno (s₂.pcb.lastack + 1) s₂.pcb.sndNxt ∧
          tcpEvent app .accept { s₂ with pcb.state := .ESTABLISHED } = .ok (.ok, t)))

/-- `t` is the state in which `tcp_process` for `tcp_input`, called in `s`, has read the options of
    the segment. -/
def Processes (app : App W) (s : St W) (seg : InSegment) (t : St W) : Prop :=
  ∃ s₁, tcpInputRefused app s.resetRecv seg = .ok (false, s₁) ∧ seg.flags.rst = false ∧
    (seg.flags.syn = true → s₁.pcb.state = .SYN_SENT ∨ s₁.pcb.state = .SYN_RCVD) ∧
    t = tcpProcessStart { s₁ with inputPcb := true } seg

/-- The pcb is as `tcp_alloc` returns it, but for the port of a `tcp_bind`. -/
def Allocated (s : St W) : Prop :=
  (∃ prio iss ticks port, s.pcb = { tcpAllocPcb prio iss ticks with localPort := port }) ∧
    s.trace = []

/-- Where a connection begins: with a pcb of `tcp_alloc`, or with the pcb that `tcp_listen_input`
    makes of one for a SYN, which it has answered. -/
inductive Fresh : St W → Prop
  | alloc {s : St W} : Allocated s → Fresh s
  | listen {s s' : St W} {err : Err} (seg : InSegment) (localPort : ℕ) (serverId : U32) :
    Allocated s → tcpListenSynAck (tcpListenPcb s seg localPort serverId) = .ok (err, s') → Fresh s'

/-- Where an open connection begins: behind a `tcp_connect` that succeeded, or with the pcb of
    `tcp_listen_input` behind its SYN-ACK. -/
inductive Begun : St W → Prop
  | connect {s s' : St W} (newPort : ℕ) (iss : U32) :
    Allocated s → tcpConnect s newPort iss = .ok (.ok, s') → Begun s'
  | listen {s s' : St W} {err : Err} (seg : InSegment) (localPort : ℕ) (serverId : U32) :
    Allocated s → tcpListenSynAck (tcpListenPcb s seg localPort serverId) = .ok (err, s') →
      s'.freed = false → Begun s'

/-- The application does not connect the pcb again, which `tcp_connect` asserts. -/
def NoConnect (_ : Core) : Api → Prop
  | .connect .. => False
  | _ => True

/-! ### A client -/

/-- An application whose callbacks do nothing. -/
def idleApp : App Unit := fun _ s => .ok (.ok, s)

theorem appOk_idleApp {P : Core → Api → Prop} : AppOk P idleApp := by
  intro e s ret s' h
  cases h
  exact .refl

/-- A pcb of `tcp_alloc`. -/
def client : St Unit where
  pcb := tcpAllocPcb TCP_PRIO_NORMAL 0 0
  list := .none
  world := ()

theorem fresh_client : Fresh client := .alloc ⟨⟨_, _, _, 0, rfl⟩, rfl⟩

/-- The header of a segment from the server that gave the connection the id 7. -/
def serverHdr (seqno ackno : U32) (flags : TcpFlags) (wnd : ℕ) : TcpHdr where
  connid1 := 4000
  connid2 := 7
  seqno := seqno
  ackno := ackno
  hdrlen := 5
  flags := flags
  wnd := wnd

/-- `tcp_connect` with the first data byte at 1000. -/
def connectOp : List Bool × Op := ([], .api (.connect 4000 1000))

/-- The SYN-ACK. The first byte of the server has the sequence number 1. -/
def synAckOp (wnd : ℕ) : List Bool × Op :=
  ([], .input { tcphdr := serverHdr 0 1000 { syn := true, ack := true } wnd, p := [],
                bound := noData_bound })

end Rudp

import Rudp.Send
import Rudp.States
import Rudp.Failure
import Rudp.Lib.Log

/-!
# The rudp layer

A `rudp_fd` is a block of `mem_malloc` that belongs to a pcb, and the pcb points back to it with its
`callback_arg`. `layerStep` is one call of the application, one event of the stack, or one move of the
stack by itself, over all fds and pcbs at once. What the allocators return, what a block contains and
which calls for memory fail is part of the operation.

An fd is read only while it is allocated: a step that reads a freed one stops the run. A pcb may be
handed to a setter after `memp_free`, and the log says so.
-/

namespace Rudp.Layer

/-! ## The state -/

/-- The address of a block of `mem_malloc`, of a pcb, or of a function. -/
abbrev Addr := ℕ

/-- `struct rudp_state` (test/udp/rudp.h:23-33). -/
structure RudpFd where
  isClosing : Byte
  pcb : Addr
  recvCb : Addr
  acceptCb : Addr
  connectedCb : Addr

/-- A pcb with its callbacks. The layer registers one function for each, so what matters is whether it
    is set. -/
structure TcpPcb where
  st : St Unit
  callbackArg : Option Addr := none
  recv : Bool := false
  sent : Bool := false
  errf : Bool := false
  poll : Bool := false
  accept : Bool := false
  connected : Bool := false

/-- Who calls `tcp_close`: the application through `rudp_close`, `rudp_poll` or `rudp_sent`, or
    `on_accept`. -/
inductive Caller
  | app (fd : Addr)
  | retry (fd : Addr)
  | accept

/-- The log. -/
inductive Act
  /-- The block has become an fd. -/
  | made (fd : Addr)
  | freed (fd : Addr)
  /-- A pcb is handed to a setter or to `tcp_close`, and is it allocated? -/
  | pass (pcb : Addr) (live : Bool)
  | tcpClose (caller : Caller) (pcb : Addr) (err : Err)
  /-- `rudp_send` returns -1 without a `tcp_write`. -/
  | refused (fd : Addr)
  /-- A callback of the application. -/
  | callback (fn fd : Addr)

/-- All fds and all pcbs. -/
structure Sys where
  fds : Addr → Option RudpFd
  pcbs : Addr → TcpPcb
  log : List Act := []

namespace Sys

@[simp]
def emit (s : Sys) (a : Act) : Sys := { s with log := s.log ++ [a] }

/-- Read an fd. -/
def deref (s : Sys) (a : Addr) : Except Fault RudpFd :=
  match s.fds a with
  | some fd => .ok fd
  | none => .error .useAfterFree

@[simp]
def setFd (s : Sys) (a : Addr) (fd : RudpFd) : Sys := { s with fds := Function.update s.fds a (some fd) }

@[simp]
def setPcb (s : Sys) (p : Addr) (x : TcpPcb) : Sys := { s with pcbs := Function.update s.pcbs p x }

/-- The pcb is handed to a function of the stack. -/
@[simp]
def pass (s : Sys) (p : Addr) : Sys := s.emit (.pass p (!(s.pcbs p).st.freed))

end Sys

/-- `TCP_PRIO_MIN` (tcp.h). -/
def TCP_PRIO_MIN : ℕ := 1

/-! ## The setters (tcp.c:1301-1304 and 1571-1656) -/

def tcpArg (s : Sys) (p : Addr) (arg : Option Addr) : Sys :=
  (s.pass p).setPcb p { s.pcbs p with callbackArg := arg }

def tcpAccept (s : Sys) (p : Addr) : Sys := (s.pass p).setPcb p { s.pcbs p with accept := true }

def tcpSetprio (s : Sys) (p : Addr) (prio : ℕ) : Sys :=
  (s.pass p).setPcb p { s.pcbs p with st := { (s.pcbs p).st with pcb.prio := prio } }

/-- A setter that is not for listening pcbs. -/
def setCallback (message : String) (set : TcpPcb → TcpPcb) (s : Sys) (p : Addr) :
    Except Fault Sys := do
  lwipAssert message ((s.pcbs p).st.pcb.state ≠ .LISTEN)
  .ok ((s.pass p).setPcb p (set (s.pcbs p)))

def tcpRecv (s : Sys) (p : Addr) (recv : Bool) : Except Fault Sys :=
  setCallback "invalid socket state for recv callback" (fun x => { x with recv := recv }) s p

def tcpSent (s : Sys) (p : Addr) (sent : Bool) : Except Fault Sys :=
  setCallback "invalid socket state for sent callback" (fun x => { x with sent := sent }) s p

def tcpErr (s : Sys) (p : Addr) (errf : Bool) : Except Fault Sys :=
  setCallback "invalid socket state for err callback" (fun x => { x with errf := errf }) s p

def tcpPoll (s : Sys) (p : Addr) (poll : Bool) : Except Fault Sys :=
  setCallback "invalid socket state for poll" (fun x => { x with poll := poll }) s p

/-! ## The functions of the layer -/

/-- `setup_pcb` (test/udp/rudp.c:164-174). -/
def setupPcb (s : Sys) (a p : Addr) : Except Fault Sys := do
  let s := tcpArg s p (some a)
  let fd ← s.deref a
  let s := s.setFd a { fd with pcb := p }
  let s ← tcpRecv s p true
  let s ← tcpErr s p true
  let s ← tcpPoll s p true
  tcpSent s p true

/-- `rudp_socket` (test/udp/rudp.c:176-192). `block` is what `mem_malloc` returns, with the content of
    the block, `pcb` what `tcp_new` returns. -/
def rudpSocket (s : Sys) (block : Option (Addr × RudpFd)) (pcb : Option (Addr × St Unit)) :
    Except Fault Sys :=
  match block, pcb with
  | none, _ => .ok s
  -- mem_free(fd)
  | some _, none => .ok s
  | some (a, content), some (p, st) =>
    setupPcb (((s.setPcb p { st := st }).setFd a content).emit (.made a)) a p

/-- `rudp_bind` (test/udp/rudp.c:194-211). `udp` is whether `bind_udp` succeeds, `port` what
    `tcp_bind` binds to, or 0 if no port is left. -/
def rudpBind (s : Sys) (a : Addr) (udp : Bool) (port : ℕ) : Except Fault Sys := do
  let fd ← s.deref a
  if udp then
    let x := s.pcbs fd.pcb
    lwipAssert "tcp_bind: can only bind in state CLOSED" (x.st.pcb.state = .CLOSED)
    lwipAssert "0" (port ≠ 0)
    .ok (s.setPcb fd.pcb { x with st := { x.st with pcb.localPort := port, list := .bound } })
  else .ok s

/-- `rudp_listen` (test/udp/rudp.c:213-228). `tcp_listen` (tcp.c:537-586) moves the pcb to `lpcb`, or
    fails. -/
def rudpListen (s : Sys) (a : Addr) (lpcb : Option Addr) (acceptCb recvCb : Addr) :
    Except Fault Sys := do
  let fd ← s.deref a
  let x := s.pcbs fd.pcb
  lwipAssert "tcp_listen: pcb already connected" (x.st.pcb.state = .CLOSED)
  match lpcb with
  | none => .ok s
  | some l =>
    let s := s.setPcb fd.pcb { x with st := x.st.free }
    let s := s.setPcb l { st := { x.st with pcb.state := .LISTEN }, callbackArg := x.callbackArg }
    let s := s.setFd a { fd with pcb := l, recvCb := recvCb, acceptCb := acceptCb }
    .ok (tcpArg (tcpAccept s l) l (some a))

/-- `rudp_connect` (test/udp/rudp.c:325-337). -/
def rudpConnect (s : Sys) (a connectedCb recvCb : Addr) (newPort : ℕ) (iss : U32)
    (fails : List Bool) : Except Fault Sys := do
  let fd ← s.deref a
  let s := s.setFd a { fd with connectedCb := connectedCb, recvCb := recvCb }
  let x := s.pcbs fd.pcb
  let (_, st) ← tcpConnect { x.st with fails := fails } newPort iss
  .ok (s.setPcb fd.pcb { x with st := st, connected := true })

/-- `rudp_send` (test/udp/rudp.c:378-386). -/
def rudpSend (s : Sys) (a : Addr) (buf : List Byte) (fails : List Bool) : Except Fault Sys := do
  let fd ← s.deref a
  let x := s.pcbs fd.pcb
  let (_, st) ← Rudp.rudpSend (fd.isClosing ≠ 0) { x.st with fails := fails } buf
  let s := s.setPcb fd.pcb { x with st := st }
  .ok (if fd.isClosing ≠ 0 then s.emit (.refused a) else s)

/-- `tcp_close` (tcp.c:285-299). A listening pcb is removed and freed (tcp.c:225-230). -/
def closeSt (st : St Unit) : Except Fault (Err × St Unit) :=
  if st.pcb.state = .LISTEN then .ok (.ok, { st with pcb.state := .CLOSED }.free)
  else Rudp.tcpClose st

@[inherit_doc closeSt]
def tcpClose (s : Sys) (p : Addr) (caller : Caller) (fails : List Bool) :
    Except Fault (Err × Sys) := do
  let x := s.pcbs p
  let (err, st) ← closeSt { x.st with fails := fails }
  .ok (err, ((s.pass p).setPcb p { x with st := st }).emit (.tcpClose caller p err))

/-- `rudp_free` (test/udp/rudp.c:516-527). -/
def rudpFree (s : Sys) (a : Addr) : Except Fault Sys := do
  let fd ← s.deref a
  let s := tcpArg s fd.pcb none
  let s ← tcpSent s fd.pcb false
  let s ← tcpRecv s fd.pcb false
  let s ← tcpErr s fd.pcb false
  let s ← tcpPoll s fd.pcb false
  .ok ({ s with fds := Function.update s.fds a none }.emit (.freed a))

/-- `rudp_close` (test/udp/rudp.c:498-514). -/
def rudpClose (s : Sys) (a : Addr) (caller : Caller) (fails : List Bool) : Except Fault Sys := do
  let fd ← s.deref a
  let (err, s) ← tcpClose s fd.pcb caller fails
  if err = .ok then rudpFree s a
  -- possible fail, try again by using poll or sent cb
  else .ok (s.setFd a { fd with isClosing := 1 })

/-! ## Its callbacks -/

/-- `on_accept` (test/udp/rudp.c:230-258). It ends with the `accept_cb` of the application. -/
def onAccept (s : Sys) (arg : Option Addr) (newpcb : Addr) (block : Option (Addr × RudpFd))
    (fails : List Bool) : Except Fault Sys := do
  let s := tcpSetprio s newpcb TCP_PRIO_MIN
  match block with
  | none => Prod.snd <$> tcpClose s newpcb .accept fails
  | some (a, content) =>
    let s ← setupPcb ((s.setFd a content).emit (.made a)) a newpcb
    match arg with
    | none => .error .nullDeref
    | some l =>
      let listenFd ← s.deref l
      let newFd ← s.deref a
      .ok ((s.setFd a { newFd with recvCb := listenFd.recvCb }).emit (.callback listenFd.acceptCb a))

/-- `on_recv` (test/udp/rudp.c:267-323). `len` is the length of the data, or `none` for a `NULL` pbuf. -/
def onRecv (s : Sys) (arg : Option Addr) (p : Addr) (len : Option ℕ) : Except Fault Sys :=
  match arg, len with
  | none, none => .ok s
  | none, some _ => .error (.assert "0")
  | some a, none => do
    let fd ← s.deref a
    .ok (s.emit (.callback fd.recvCb a))
  | some a, some n => do
    let fd ← s.deref a
    let st ← tcpRecved (s.pcbs p).st (u16 n)
    .ok ((s.setPcb p { s.pcbs p with st := st }).emit (.callback fd.recvCb a))

/-- `on_connect` (test/udp/rudp.c:339-347). -/
def onConnect (s : Sys) (arg : Option Addr) : Except Fault Sys :=
  match arg with
  | none => .error .nullDeref
  | some a => do
    let fd ← s.deref a
    .ok (s.emit (.callback fd.connectedCb a))

/-- `rudp_error` (test/udp/rudp.c:421-429). -/
def rudpError (s : Sys) (arg : Option Addr) : Except Fault Sys :=
  match arg with
  | none => .error (.assert "fd != NULL")
  | some a => rudpFree s a

/-- The body that `rudp_poll` and `rudp_sent` share: a close that failed is tried again. -/
def retryClose (s : Sys) (arg : Option Addr) (fails : List Bool) : Except Fault Sys :=
  match arg with
  | none => .ok s
  | some a => do
    let fd ← s.deref a
    if fd.isClosing ≠ 0 then rudpClose s a (.retry a) fails else .ok s

/-- `rudp_poll` (test/udp/rudp.c:451-466). -/
def rudpPoll (s : Sys) (arg : Option Addr) (fails : List Bool) : Except Fault Sys :=
  retryClose s arg fails

/-- `rudp_sent` (test/udp/rudp.c:473-487). -/
def rudpSent (s : Sys) (arg : Option Addr) (fails : List Bool) : Except Fault Sys :=
  retryClose s arg fails

/-! ## Steps -/

/-- What happens. The last arguments of a call or an event are the answers of the environment in it. -/
inductive LayerOp
  -- the application
  | socket (block : Option (Addr × RudpFd)) (pcb : Option (Addr × St Unit))
  | bind (fd : Addr) (udp : Bool) (port : ℕ)
  | listen (fd : Addr) (lpcb : Option Addr) (acceptCb recvCb : Addr)
  | connect (fd connectedCb recvCb : Addr) (newPort : ℕ) (iss : U32) (fails : List Bool)
  | send (fd : Addr) (buf : List Byte) (fails : List Bool)
  | close (fd : Addr) (fails : List Bool)
  -- events
  | accept (pcb : Addr) (block : Option (Addr × RudpFd)) (fails : List Bool)
  | recv (pcb : Addr) (len : Option ℕ)
  | connected (pcb : Addr)
  | sent (pcb : Addr) (fails : List Bool)
  | poll (pcb : Addr) (fails : List Bool)
  /-- The pcb is freed with an err callback, which comes behind `memp_free` (`tcp_abandon`,
      `tcp_slowtmr`) or in front of it (a RST, tcp_in.c:302-309). -/
  | abort (pcb : Addr) (early : Bool)
  -- the stack by itself
  /-- `tcp_listen_input` makes a pcb for a SYN. -/
  | syn (lpcb : Addr) (pcb : Addr) (st : St Unit)
  | move (pcb : Addr) (st : St Unit)
  /-- A pcb in `TIME_WAIT` or `LAST_ACK` is freed. -/
  | expire (pcb : Addr)

/-- The pcb is given back to its pool. -/
def Sys.freePcb (s : Sys) (p : Addr) : Sys := s.setPcb p { s.pcbs p with st := (s.pcbs p).st.free }

/-- `TCP_EVENT_ERR`. -/
def tcpEventErr (s : Sys) (p : Addr) : Except Fault Sys :=
  if (s.pcbs p).errf then rudpError s (s.pcbs p).callbackArg else .ok s

/-- One step. An event whose callback is not set does nothing. -/
def layerStep (s : Sys) : LayerOp → Except Fault Sys
  | .socket block pcb => rudpSocket s block pcb
  | .bind a udp port => rudpBind s a udp port
  | .listen a lpcb acceptCb recvCb => rudpListen s a lpcb acceptCb recvCb
  | .connect a connectedCb recvCb newPort iss fails =>
    rudpConnect s a connectedCb recvCb newPort iss fails
  | .send a buf fails => rudpSend s a buf fails
  | .close a fails => rudpClose s a (.app a) fails
  | .accept p block fails =>
    let x := s.pcbs p
    let s := s.setPcb p { x with st := { x.st with pcb.state := .ESTABLISHED } }
    if x.accept then onAccept s x.callbackArg p block fails else .ok s
  | .recv p len => if (s.pcbs p).recv then onRecv s (s.pcbs p).callbackArg p len else .ok s
  | .connected p =>
    let x := s.pcbs p
    let s := s.setPcb p { x with st := { x.st with pcb.state := .ESTABLISHED } }
    if x.connected then onConnect s x.callbackArg else .ok s
  | .sent p fails => if (s.pcbs p).sent then rudpSent s (s.pcbs p).callbackArg fails else .ok s
  | .poll p fails => if (s.pcbs p).poll then rudpPoll s (s.pcbs p).callbackArg fails else .ok s
  | .abort p early =>
    if early then tcpEventErr (s.freePcb p) p else (fun s => s.freePcb p) <$> tcpEventErr s p
  | .syn l p st =>
    .ok (s.setPcb p { st := st, callbackArg := (s.pcbs l).callbackArg, accept := (s.pcbs l).accept })
  | .move p st => .ok (s.setPcb p { s.pcbs p with st := st })
  | .expire p => .ok (s.freePcb p)

/-- The pcb is allocated and connects or is connected. -/
def Sys.Connection (s : Sys) (p : Addr) : Prop :=
  (s.pcbs p).st.freed = false ∧ (s.pcbs p).st.pcb.state ≠ .LISTEN

/-- What the stack does to a pcb by itself: it takes the edges of the diagram that segments take. The
    accept event and the connected event, the reset of a close and the removal are operations of
    their own. -/
structure StackMoves (st st' : St Unit) : Prop where
  freed : st'.freed = st.freed
  state : Relation.ReflTransGen (SegEdge True True) st.pcb.state st'.pcb.state

/-- What the allocators and the stack promise. -/
def Env (s : Sys) : LayerOp → Prop
  | .socket block pcb => (∀ b ∈ block, s.fds b.1 = none) ∧
    ∀ x ∈ pcb, (s.pcbs x.1).st.freed = true ∧ Allocated x.2 ∧ x.2.freed = false
  | .listen _ lpcb _ _ => ∀ l ∈ lpcb, (s.pcbs l).st.freed = true
  | .accept p block _ => s.Connection p ∧ (s.pcbs p).st.pcb.state = .SYN_RCVD ∧
    ∀ b ∈ block, s.fds b.1 = none
  | .recv p _ => s.Connection p
  | .connected p => s.Connection p ∧ (s.pcbs p).st.pcb.state = .SYN_SENT
  | .sent p _ => s.Connection p
  | .poll p _ => s.Connection p
  | .abort p _ => s.Connection p
  | .syn l p st => (s.pcbs l).st.freed = false ∧ (s.pcbs l).st.pcb.state = .LISTEN ∧
    (s.pcbs p).st.freed = true ∧ st.freed = false ∧ st.pcb.state = .SYN_RCVD
  | .move p st => s.Connection p ∧ StackMoves (s.pcbs p).st st
  | .expire p => s.Connection p ∧
    ((s.pcbs p).st.pcb.state = .TIME_WAIT ∨ (s.pcbs p).st.pcb.state = .LAST_ACK)
  | _ => True

/-- No fds, no pcbs. -/
def init : Sys where
  fds _ := none
  pcbs _ := { st := client.free }

end Rudp.Layer

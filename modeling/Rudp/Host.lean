import Rudp.Lib.Walk
import Rudp.Victim
import Rudp.Conn

/-!
# All pcbs of a host

The lists of `tcp.c`, the pool `MEMP_TCP_PCB`, the demultiplexing of `tcp_input`, `tcp_listen_input`,
`tcp_alloc`, and the walks of the two timers over the lists. What a function does to one pcb is
modelled in `Tcp` and `TcpIn`; here it is done to the pcb at an address.

A callback works on the pcb that it is called for, and on no other, and an err callback, whose pcb is
gone, on none. So `tcp_active_pcbs_changed` is clear behind `TCP_EVENT_ERR`, and the restart there
(tcp.c:1075-1079) does not happen, and where `tcp_pcb_remove` asserts `tcp_pcbs_sane()`
(tcp.c:1760), the other pcbs are as they were when the function was called.

`last_timer` is kept beside the pcb, since only `tcp_alloc` and the walks use it.
-/

namespace Rudp

variable {W : Type}

/-! ## The lists and the pool -/

/-- An element of `MEMP_TCP_PCB`. -/
structure Elem (W : Type) where
  st : St W
  lastTimer : ℕ

/-- A `tcp_pcb_listen`, as far as `tcp_listen_input` reads it. -/
structure ListenPcb (W : Type) where
  prio : ℕ
  localPort : ℕ
  callbackArg : W

/-- The static variables of `tcp.c`, and the pcbs by their addresses. `free` is the free list of the
    pool, `log` what `tcp_rst` sends where there is no pcb. -/
structure Host (W : Type) where
  mem : ℕ → Elem W
  free : List ℕ
  listenPcbs : List (ListenPcb W) := []
  boundPcbs : List ℕ := []
  activePcbs : List ℕ := []
  twPcbs : List ℕ := []
  ticks : U32 := 0
  timerCtr : ℕ := 0
  log : List Out := []

namespace Host

/-- The pcb at an address, as a function that is called with it finds it. The environment answers its
    fallible calls with `fails`. -/
def load (h : Host W) (fails : List Bool) (pcb : ℕ) : St W :=
  { (h.mem pcb).st with fails := fails, ticks := h.ticks }

/-- The pcb with its address. -/
def slot (h : Host W) (pcb : ℕ) : Slot := ⟨pcb, (h.mem pcb).st.pcb⟩

/-- `TCP_RMV(list, pcb)` (tcp_impl.h:414-428). -/
def rmv (h : Host W) (pcb : ℕ) : PcbList → Host W
  | .none => h
  | .bound => { h with boundPcbs := h.boundPcbs.erase pcb }
  | .active => { h with activePcbs := h.activePcbs.erase pcb }
  | .tw => { h with twPcbs := h.twPcbs.erase pcb }

/-- `TCP_REG(list, pcb)` (tcp_impl.h:407-412). -/
def reg (h : Host W) (pcb : ℕ) : PcbList → Host W
  | .none => h
  | .bound => { h with boundPcbs := pcb :: h.boundPcbs }
  | .active => { h with activePcbs := pcb :: h.activePcbs }
  | .tw => { h with twPcbs := pcb :: h.twPcbs }

/-- The pool and the lists behind functions that found the pcb as `old`: they return it to the pool
    once at most, take it off the list it was on, and register it on the one it is on now. -/
def follow (old : St W) (pcb : ℕ) (h : Host W) : Host W :=
  let s := (h.mem pcb).st
  let h := if old.freed = false ∧ s.freed = true then { h with free := pcb :: h.free } else h
  if s.list = old.list then h else (h.rmv pcb old.list).reg pcb s.list

/-- The pcb is now `s`. -/
def put (h : Host W) (pcb : ℕ) (s : St W) : Host W :=
  follow (h.mem pcb).st pcb
    { h with mem := Function.update h.mem pcb { h.mem pcb with st := s } }

/-- A walk over a list reads each of its pcbs. -/
def reads (h : Host W) (pcbs : List ℕ) : Except Fault PUnit :=
  pcbs.forM fun pcb => (h.mem pcb).st.live

/-- `tcp_pcbs_sane` (tcp.c:2022-2035). -/
def tcpPcbsSane (h : Host W) : Except Fault PUnit := do
  h.activePcbs.forM fun pcb => do
    (h.mem pcb).st.live
    let state := (h.mem pcb).st.pcb.state
    lwipAssert "tcp_pcbs_sane: active pcb->state != CLOSED" (state ≠ .CLOSED)
    lwipAssert "tcp_pcbs_sane: active pcb->state != LISTEN" (state ≠ .LISTEN)
    lwipAssert "tcp_pcbs_sane: active pcb->state != TIME-WAIT" (state ≠ .TIME_WAIT)
  h.twPcbs.forM fun pcb => do
    (h.mem pcb).st.live
    lwipAssert "tcp_pcbs_sane: tw pcb->state == TIME-WAIT"
      ((h.mem pcb).st.pcb.state = .TIME_WAIT)

/-! ## `tcp_alloc` -/

/-- `if (inactive != NULL) tcp_abandon(inactive, reset)` -/
def abandonIf (h : Host W) (fails : ℕ → List Bool) (inactive : Option Slot) (reset : Bool) :
    Except Fault (Host W) :=
  match inactive with
  | none => .ok h
  | some inactive => do
    let s ← tcpAbandon (h.load (fails inactive.addr) inactive.addr) reset
    .ok (h.put inactive.addr s)

/-- `tcp_kill_prio` (tcp.c:1355-1380). -/
def tcpKillPrio (h : Host W) (fails : ℕ → List Bool) (prio : ℕ) : Except Fault (Host W) := do
  h.reads h.activePcbs
  h.abandonIf fails (killPrioLoop h.ticks prio (h.activePcbs.map h.slot) TCP_PRIO_MAX 0 none) true

/-- `tcp_kill_state` (tcp.c:1387-1412). -/
def tcpKillState (h : Host W) (fails : ℕ → List Bool) (state : TcpState) : Except Fault (Host W) := do
  lwipAssert "invalid state" (state = .CLOSING ∨ state = .LAST_ACK)
  h.reads h.activePcbs
  h.abandonIf fails
    (killLoop h.ticks (fun pcb => pcb.pcb.state = state) (h.activePcbs.map h.slot) 0 none) false

/-- `tcp_kill_timewait` (tcp.c:1419-1438). -/
def tcpKillTimewait (h : Host W) (fails : ℕ → List Bool) : Except Fault (Host W) := do
  h.reads h.twPcbs
  h.abandonIf fails (killLoop h.ticks (fun _ => True) (h.twPcbs.map h.slot) 0 none) true

/-- The pcb that `tcp_alloc` returns: `memp_malloc`, and what it is set to (tcp.c:1497-1540). -/
def malloc (h : Host W) (prio : ℕ) (iss : U32) (callbackArg : W) : Option ℕ × Host W :=
  match h.free with
  | [] => (none, h)
  | pcb :: free =>
    (some pcb, { h with
      free := free
      mem := Function.update h.mem pcb
        { st := { pcb := tcpAllocPcb prio iss h.ticks, list := .none, world := callbackArg }
          lastTimer := h.timerCtr } })

/-- `tcp_alloc` (tcp.c:1447-1543). `iss` is what `tcp_next_iss` returns, `callbackArg` what `tcp_arg`
    gives to the new pcb. -/
def tcpAlloc (h : Host W) (fails : ℕ → List Bool) (prio : ℕ) (iss : U32) (callbackArg : W) :
    Except Fault (Option ℕ × Host W) := do
  let h ← (if h.free = [] then h.tcpKillTimewait fails else .ok h)
  let h ← (if h.free = [] then h.tcpKillState fails .LAST_ACK else .ok h)
  let h ← (if h.free = [] then h.tcpKillState fails .CLOSING else .ok h)
  let h ← (if h.free = [] then h.tcpKillPrio fails prio else .ok h)
  .ok (h.malloc prio iss callbackArg)

/-! ## The API -/

/-- `tcp_setprio` (tcp.c:1301-1304). -/
def tcpSetprio (h : Host W) (pcb prio : ℕ) : Except Fault (Host W) := do
  let s := (h.mem pcb).st
  s.live
  .ok (h.put pcb { s with pcb.prio := prio })

/-- `tcp_bind` (tcp.c:442-505). `port` is the argument, or what `tcp_new_port` returns if that is 0.
    `TCP_REG` of a pcb that is bound already links it into a ring. -/
def tcpBind (h : Host W) (pcb port : ℕ) : Except Fault (Host W) := do
  let s := (h.mem pcb).st
  s.live
  lwipAssert "tcp_bind: can only bind in state CLOSED" (s.pcb.state = .CLOSED)
  if port = 0 then .ok h
  else if s.list = .bound then .error .ring
  else .ok (h.put pcb { s with pcb.localPort := port, list := .bound })

/-- `tcp_listen_with_backlog` (tcp.c:537-586). The pcb is replaced by one of the pool
    `MEMP_TCP_PCB_LISTEN`, which may be exhausted. -/
def tcpListen (h : Host W) (fails : List Bool) (pcb : ℕ) : Except Fault (Host W) := do
  let s := (h.mem pcb).st
  s.live
  lwipAssert "tcp_listen: pcb already connected" (s.pcb.state = .CLOSED)
  if fails.headD false then .ok h
  else
    .ok { h.put pcb { s with list := .none, freed := true } with
      listenPcbs := ⟨s.pcb.prio, s.pcb.localPort, s.world⟩ :: h.listenPcbs }

/-- A call of the application. -/
def api (h : Host W) (fails : List Bool) (pcb : ℕ) (call : Api) : Except Fault (Host W) := do
  let (_, s) ← apiCall (h.load fails pcb) call
  .ok (h.put pcb s)

/-! ## `tcp_input` -/

/-- The search of the active list (tcp_in.c:188-207). -/
def findActive (h : Host W) (hdr : TcpHdr) : List ℕ → Except Fault (Option ℕ)
  | [] => .ok none
  | pcb :: rest => do
    (h.mem pcb).st.live
    let state := (h.mem pcb).st.pcb.state
    lwipAssert "tcp_input: active pcb->state != CLOSED" (state ≠ .CLOSED)
    lwipAssert "tcp_input: active pcb->state != TIME-WAIT" (state ≠ .TIME_WAIT)
    lwipAssert "tcp_input: active pcb->state != LISTEN" (state ≠ .LISTEN)
    if (h.slot pcb).found hdr then .ok (some pcb) else findActive h hdr rest

/-- The pcb moves to the front of the active list (tcp_in.c:194-203). -/
def toFront (h : Host W) (pcb : ℕ) : Host W :=
  { h with activePcbs := pcb :: h.activePcbs.erase pcb }

/-- The search of the `TIME_WAIT` list (tcp_in.c:212-224). -/
def findTw (h : Host W) (hdr : TcpHdr) : List ℕ → Except Fault (Option ℕ)
  | [] => .ok none
  | pcb :: rest => do
    (h.mem pcb).st.live
    let p := (h.mem pcb).st.pcb
    lwipAssert "tcp_input: TIME-WAIT pcb->state == TIME-WAIT" (p.state = .TIME_WAIT)
    if p.connId.connid1 = hdr.connid1 ∧ p.connId.connid2 = hdr.connid2 then .ok (some pcb)
    else findTw h hdr rest

/-- What `tcp_rst` sends for a segment without a pcb: `connId` are the ids it is given. -/
def rst (h : Host W) (fails : List Bool) (seg : InSegment) (connId : ConnectId) : Host W :=
  let s : St Unit := { pcb := tcpAllocPcb 0 0 0, list := .none, fails := fails, world := () }
  { h with
    log := h.log ++ (tcpRst s seg.ackno (seg.seqno + u32 seg.tcplen) connId).trace }

/-- `tcp_listen_input` (tcp_in.c:472-554). `serverId` is what `tcp_new_server_id` returns, `fails`
    answers the calls for the pcbs that `tcp_alloc` kills, `rstFails` the others. -/
def tcpListenInput (h : Host W) (fails : ℕ → List Bool) (rstFails : List Bool) (pcb : ListenPcb W)
    (seg : InSegment) (iss serverId : U32) : Except Fault (Host W) :=
  if seg.flags.rst then .ok h
  else if seg.flags.ack then
    .ok (h.rst rstFails seg { connid1 := seg.tcphdr.connid1, connid2 := seg.tcphdr.connid2 })
  else if seg.flags.syn then do
    let (npcb, h) ← h.tcpAlloc fails pcb.prio iss pcb.callbackArg
    match npcb with
    | none => .ok h
    | some npcb => do
      let (_, s) ← tcpListenSynAck (tcpListenPcb (h.load rstFails npcb) seg pcb.localPort serverId)
      .ok (h.put npcb s)
  else .ok h

/-- The recv callback, offered the refused data, has moved the pcb to the `TIME_WAIT` list, and
    `tcp_input` goes on to a RST: `tcp_pcb_remove` looks for the pcb on the active list, where it is
    not, and closes it on the other one (tcp_in.c:287-296 and 308, tcp.c:1756-1760). -/
def strays (app : App W) (s : St W) (seg : InSegment) : Bool :=
  match tcpInputRefused app s.resetRecv seg with
  | .ok (false, s₁) =>
    decide (s₁.list = .tw ∧ seg.flags.rst = true ∧ (tcpProcessRst s₁ seg).2.recvReset = true)
  | _ => false

/-- `tcp_input` behind the header (tcp_in.c:183-454). The assertion in `tcp_pcb_remove` finds a pcb
    that strays at the head of the `TIME_WAIT` list. -/
def tcpInput (app : App W) (h : Host W) (fails : ℕ → List Bool) (rstFails : List Bool)
    (seg : InSegment) (iss serverId : U32) : Except Fault (Host W) := do
  match ← h.findActive seg.tcphdr h.activePcbs with
  | some pcb =>
    let s ← Rudp.tcpInput app (h.load (fails pcb) pcb) seg
    lwipAssert "tcp_pcbs_sane: tw pcb->state == TIME-WAIT"
      (strays app (h.load (fails pcb) pcb) seg = false)
    let h' := (h.toFront pcb).put pcb s
    h'.tcpPcbsSane
    .ok h'
  | none =>
    match ← h.findTw seg.tcphdr h.twPcbs with
    | some pcb =>
      let s ← tcpTimewaitInput (h.load (fails pcb) pcb) seg
      .ok (h.put pcb s)
    | none =>
      match h.listenPcbs with
      | lpcb :: _ => h.tcpListenInput fails rstFails lpcb seg iss serverId
      | [] =>
        -- `tcp_rst` reads `&pcb->conn_id`, and `pcb` is NULL
        if seg.flags.rst = true ∨ rstFails.headD false = true then do
          h.tcpPcbsSane
          .ok h
        else .error .nullDeref

/-! ## The timers -/

/-- `u8_t tcp_timer_ctr`, incremented at each call of a timer. -/
def nextCtr (h : Host W) : ℕ := u8 (h.timerCtr + 1)

/-- The walk has processed the pcb in this call (tcp.c:907 and 1158). -/
def seen (h : Host W) (e : Elem W) : Bool := decide (e.lastTimer = h.nextCtr)

/-- Is the pcb still on the active list behind its turn? `tcp_active_pcbs_changed` is cleared before
    each callback, and every function that takes a pcb off the list sets it. -/
def turnOf (s : St W) : Walk.Turn :=
  if s.list = .active then .stays else if s.changed then .again else .unlink

/-- The turn of a pcb in `tcp_fasttmr` (tcp.c:1158-1179). -/
def fastVisit (app : App W) (h : Host W) (fails : ℕ → List Bool) (pcb : ℕ) (e : Elem W) :
    Except Fault (Walk.Turn × Elem W) := do
  e.st.live
  let s ← Rudp.tcpFasttmr app { e.st with fails := fails pcb, ticks := h.ticks, changed := false }
  .ok (turnOf s, ⟨s, h.nextCtr⟩)

/-- The turn of a pcb in `tcp_slowtmr` (tcp.c:904-1100). The assertions are made for a pcb that is
    passed over as well, which has met them in its turn. -/
def slowVisit (app : App W) (h : Host W) (fails : ℕ → List Bool) (pcb : ℕ) (e : Elem W) :
    Except Fault (Walk.Turn × Elem W) := do
  e.st.live
  lwipAssert "tcp_slowtmr: active pcb->state != CLOSED\n" (e.st.pcb.state ≠ .CLOSED)
  lwipAssert "tcp_slowtmr: active pcb->state != LISTEN\n" (e.st.pcb.state ≠ .LISTEN)
  lwipAssert "tcp_slowtmr: active pcb->state != TIME-WAIT\n" (e.st.pcb.state ≠ .TIME_WAIT)
  let s ← Rudp.tcpSlowtmr app
    { e.st with fails := fails pcb, ticks := h.ticks + 1, changed := false }
  .ok (turnOf s, ⟨s, h.nextCtr⟩)

/-- `tcp_slowtmr: first pcb == tcp_active_pcbs` (tcp.c:1061). -/
def notFirst : Fault := .assert "tcp_slowtmr: first pcb == tcp_active_pcbs"

/-- `tcp_slowtmr: middle tcp != tcp_active_pcbs` (tcp.c:1057). -/
def notMiddle : Fault := .assert "tcp_slowtmr: middle tcp != tcp_active_pcbs"

/-- The walk of a timer over the active list, and what becomes of the pool and the other lists in it.
    Each restart is behind a pcb that has left the list, so there are no more of them than pcbs. -/
def walk (visit : ℕ → Elem W → Except Fault (Walk.Turn × Elem W)) (h : Host W) :
    Except Fault (Host W) := do
  let nodes ← Walk.sweep h.seen visit notFirst notMiddle (h.activePcbs.length + 1)
    ⟨h.mem, h.activePcbs⟩
  .ok { h.activePcbs.foldl (fun h' pcb => follow (h.mem pcb).st pcb h') { h with mem := nodes.mem } with
    activePcbs := nodes.list }

/-- `tcp_fasttmr` (tcp.c:1148-1185). -/
def tcpFasttmr (app : App W) (h : Host W) (fails : ℕ → List Bool) : Except Fault (Host W) := do
  let h' ← h.walk (h.fastVisit app fails)
  .ok { h' with timerCtr := h.nextCtr }

/-- The walk of `tcp_slowtmr` over the `TIME_WAIT` list (tcp.c:1104-1138). -/
def slowtmrTw : List ℕ → Host W → Except Fault (Host W)
  | [], h => .ok h
  | pcb :: rest, h => do
    (h.mem pcb).st.live
    lwipAssert "tcp_slowtmr: TIME-WAIT pcb->state == TIME-WAIT"
      ((h.mem pcb).st.pcb.state = .TIME_WAIT)
    slowtmrTw rest (h.put pcb (tcpSlowtmrTw (h.load [] pcb)))

/-- `tcp_slowtmr` (tcp.c:882-1139). -/
def tcpSlowtmr (app : App W) (h : Host W) (fails : ℕ → List Bool) : Except Fault (Host W) := do
  let h' ← h.walk (h.slowVisit app fails)
  slowtmrTw h'.twPcbs { h' with timerCtr := h.nextCtr, ticks := h.ticks + 1 }

end Host

/-! ## Steps -/

/-- What happens to a host. `iss` is what `tcp_next_iss` returns if it is called, `serverId` what
    `tcp_new_server_id` does. -/
inductive HostOp (W : Type)
  | new (iss : U32) (callbackArg : W)
  | setprio (pcb prio : ℕ)
  | bind (pcb port : ℕ)
  | listen (pcb : ℕ)
  | api (pcb : ℕ) (call : Api)
  | input (seg : InSegment) (iss serverId : U32) (rstFails : List Bool)
  | fasttmr
  | slowtmr

/-- One operation. The environment answers the fallible calls for the pcb at an address. -/
def hostStep (app : App W) (h : Host W) (op : (ℕ → List Bool) × HostOp W) : Except Fault (Host W) :=
  match op.2 with
  | .new iss callbackArg => Prod.snd <$> h.tcpAlloc op.1 TCP_PRIO_NORMAL iss callbackArg
  | .setprio pcb prio => h.tcpSetprio pcb prio
  | .bind pcb port => h.tcpBind pcb port
  | .listen pcb => h.tcpListen (op.1 pcb) pcb
  | .api pcb call => h.api (op.1 pcb) pcb call
  | .input seg iss serverId rstFails => h.tcpInput app op.1 rstFails seg iss serverId
  | .fasttmr => h.tcpFasttmr app op.1
  | .slowtmr => h.tcpSlowtmr app op.1

/-- A host with the elements of `pool` free, and nothing else. -/
def Host.boot (pool : List ℕ) (callbackArg : W) : Host W where
  mem _ := ⟨{ pcb := tcpAllocPcb 0 0 0, list := .none, freed := true, world := callbackArg }, 0⟩
  free := pool

end Rudp

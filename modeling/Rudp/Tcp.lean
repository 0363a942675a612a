import Rudp.TcpOut

/-!
# `src/tcp.c` on a single pcb

Window updates, `tcp_recved`, closing and aborting, the purge, and what the two timers do with one
pcb of the active list. The `LISTEN` pcbs are of another type (`tcp_pcb_listen`), so no function
here checks for that state.
-/

namespace Rudp

variable {W : Type}

/-- `TCP_PRIO_NORMAL` (tcp.h). -/
def TCP_PRIO_NORMAL : ℕ := 64

/-- The pcb as `tcp_alloc` sets it up (tcp.c:1497-1540). -/
def tcpAllocPcb (prio : ℕ) (iss ticks : U32) : Pcb where
  state := .CLOSED
  prio := prio
  localPort := 0
  connId := { connid1 := 0, connid2 := 0 }
  tmr := ticks
  rcvNxt := 0
  rcvWnd := TCP_WND
  rcvAnnWnd := TCP_WND
  rcvAnnRightEdge := 0
  rtime := -1
  mss := TCP_MSS
  sa := 0
  sv := 3000 / TCP_SLOW_INTERVAL
  rto := 3000 / TCP_SLOW_INTERVAL
  lastack := iss
  cwnd := 1
  ssthresh := 0
  sndNxt := iss
  sndWl1 := 0
  sndWl2 := iss
  sndLbb := iss
  sndWnd := 0
  sndWndMax := 0
  sndBuf := TCP_SND_BUF

/-- `tcp_update_rcv_ann_wnd` (tcp.c:628-651): by how much the right edge would move if the window
    were announced now, and the pcb with its new `rcv_ann_wnd`. -/
def tcpUpdateRcvAnnWnd (pcb : Pcb) : Except Fault (U32 × Pcb) :=
  let newRightEdge := pcb.rcvNxt + u32 pcb.rcvWnd
  if tcpSeqGeq newRightEdge (pcb.rcvAnnRightEdge + u32 (min (TCP_WND / 2) pcb.mss)) then
    -- we can advertise more window
    .ok (newRightEdge - pcb.rcvAnnRightEdge, { pcb with rcvAnnWnd := pcb.rcvWnd })
  else if tcpSeqGt pcb.rcvNxt pcb.rcvAnnRightEdge then
    .ok (0, { pcb with rcvAnnWnd := 0 })
  else do
    -- keep the right edge of window constant
    let newRcvAnnWnd := (pcb.rcvAnnRightEdge - pcb.rcvNxt).toNat
    lwipAssert "new_rcv_ann_wnd <= 0xffff" (newRcvAnnWnd ≤ 0xffff)
    .ok (0, { pcb with rcvAnnWnd := newRcvAnnWnd })

/-- The new `rcv_wnd` of `tcp_recved` (tcp.c:670-683), a `u16_t` sum. -/
def rcvWndRecved (pcb : Pcb) (len : ℕ) : Except Fault ℕ :=
  let rcvWnd := u16 (pcb.rcvWnd + len)
  if rcvWnd > TCP_WND then .ok TCP_WND
  else if rcvWnd = 0 then
    -- rcv_wnd overflowed
    if pcb.state = .CLOSE_WAIT ∨ pcb.state = .LAST_ACK then .ok TCP_WND
    else .error (.assert "tcp_recved: len wrapped rcv_wnd\n")
  else .ok rcvWnd

/-- `tcp_recved` (tcp.c:661-698). The call is logged. -/
def tcpRecved (s : St W) (len : ℕ) : Except Fault (St W) := do
  let rcvWnd ← rcvWndRecved s.pcb len
  let (wndInflation, pcb) ← tcpUpdateRcvAnnWnd { s.pcb with rcvWnd := rcvWnd }
  let s := ({ s with pcb := pcb } : St W).emit (.recved len s.pcb)
  -- wnd_inflation is an int
  if wndInflation.toInt ≥ TCP_WND_UPDATE_THRESHOLD then Prod.snd <$> tcpOutput (tcpAckNow s)
  else .ok s

/-! ## Purge and removal -/

/-- `tcp_pcb_purge` (tcp.c:1664-1725). -/
def tcpPcbPurge (pcb : Pcb) : Pcb :=
  if pcb.state ≠ .CLOSED ∧ pcb.state ≠ .TIME_WAIT then
    { pcb with
      refusedData := none, ooseq := [], rtime := -1, unsent := [], unacked := [],
      unsentOversize := 0 }
  else pcb

/-- If there is an outstanding delayed ACKs, send it (tcp.c:1740-1745). -/
def tcpPcbRemoveAck (s : St W) : Except Fault (St W) :=
  if s.pcb.state ≠ .TIME_WAIT ∧ s.pcb.tfAckDelay = true then Prod.snd <$> tcpOutput (tcpAckNow s)
  else .ok s

/-- `tcp_pcb_remove` (tcp.c:1733-1761). -/
def tcpPcbRemove (s : St W) : Except Fault (St W) := do
  let s ← tcpPcbRemoveAck { s with list := .none, pcb := tcpPcbPurge s.pcb }
  lwipAssert "unsent segments leaking" (s.pcb.unsent = [])
  lwipAssert "unacked segments leaking" (s.pcb.unacked = [])
  lwipAssert "ooseq segments leaking" (s.pcb.ooseq = [])
  .ok { s with pcb.state := .CLOSED, pcb.localPort := 0 }

/-- `TCP_PCB_REMOVE_ACTIVE(pcb)` (tcp_impl.h:446-450). -/
def tcpPcbRemoveActive (s : St W) : Except Fault (St W) := do
  let s ← tcpPcbRemove s
  .ok { s with changed := true }

/-- `memp_free(MEMP_TCP_PCB, pcb)`. -/
def St.free (s : St W) : St W := { s with freed := true }

/-- `tcp_abandon` (tcp.c:358-411). -/
def tcpAbandon (s : St W) (reset : Bool) : Except Fault (St W) :=
  if s.pcb.state = .TIME_WAIT then do
    let s ← tcpPcbRemove s
    .ok s.free
  else do
    let seqno := s.pcb.sndNxt
    let ackno := s.pcb.rcvNxt
    let connId := s.pcb.connId
    let bound := s.pcb.state = .CLOSED ∧ s.pcb.localPort ≠ 0
    let s ← (if bound then .ok { s with list := .none } else tcpPcbRemoveActive s)
    let s := { s with pcb.unacked := [], pcb.unsent := [], pcb.ooseq := [] }
    let s := if reset = true ∧ ¬ bound then tcpRst s seqno ackno connId else s
    .ok (s.free.emit (.err .abrt))

/-- `tcp_abort` (tcp.c:423-427). -/
def tcpAbort (s : St W) : Except Fault (St W) := tcpAbandon s true

/-! ## Closing -/

/-- The first part of `tcp_close_shutdown` (tcp.c:179-206): the connection is closed with data the
    application has not read. -/
def tcpCloseRst (s : St W) : Except Fault (St W) := do
  lwipAssert "pcb->flags & TF_RXCLOSED" (s.pcb.tfRxClosed = true)
  let s := tcpRst s s.pcb.sndNxt s.pcb.rcvNxt s.pcb.connId
  -- tcp_pcb_purge, TCP_RMV_ACTIVE
  let s := { s with pcb := tcpPcbPurge s.pcb, list := .none, changed := true }
  if s.pcb.state = .ESTABLISHED then
    -- move to TIME_WAIT since we close actively
    .ok { s with pcb.state := .TIME_WAIT, list := .tw }
  else if s.inputPcb then
    -- CLOSE_WAIT: prevent using a deallocated pcb, free it from tcp_input later
    .ok { s with recvClosed := true }
  else .ok s.free

/-- `tcp_send_fin` with the state that follows when it succeeds, and the `tcp_output` behind the
    `switch` (tcp.c:236-268). -/
def tcpCloseFin (s : St W) (state : TcpState) : Except Fault (Err × St W) := do
  let (err, s) ← tcpSendFin s
  if err = .ok then
    let (_, s) ← tcpOutput { s with pcb.state := state }
    .ok (.ok, s)
  else .ok (err, s)

/-- Has the application not received all data? (tcp.c:180) -/
def Pcb.unread (pcb : Pcb) : Prop := pcb.refusedData ≠ none ∨ pcb.rcvWnd ≠ TCP_WND

instance (pcb : Pcb) : Decidable pcb.unread := inferInstanceAs (Decidable (_ ∨ _))

/-- `tcp_close_shutdown` (tcp.c:174-270). -/
def tcpCloseShutdown (s : St W) (rstOnUnackedData : Bool) : Except Fault (Err × St W) :=
  if rstOnUnackedData = true ∧ (s.pcb.state = .ESTABLISHED ∨ s.pcb.state = .CLOSE_WAIT) ∧
      s.pcb.unread then do
    let s ← tcpCloseRst s
    .ok (.ok, s)
  else
    match s.pcb.state with
    | .CLOSED => .ok (.ok, { s with list := .none }.free)
    | .SYN_SENT => do
      let s ← tcpPcbRemoveActive s
      .ok (.ok, s.free)
    | .SYN_RCVD => tcpCloseFin s .FIN_WAIT_1
    | .ESTABLISHED => tcpCloseFin s .FIN_WAIT_1
    | .CLOSE_WAIT => tcpCloseFin s .LAST_ACK
    -- Has already been closed, do nothing
    | _ => .ok (.ok, s)

/-- `tcp_close` (tcp.c:285-299). -/
def tcpClose (s : St W) : Except Fault (Err × St W) :=
  tcpCloseShutdown { s with pcb.tfRxClosed := true } true

/-- `tcp_shutdown` (tcp.c:314-348). -/
def tcpShutdown (s : St W) (shutRx shutTx : Bool) : Except Fault (Err × St W) :=
  if shutRx = true ∧ shutTx = true then
    tcpCloseShutdown { s with pcb.tfRxClosed := true } true
  else
    -- free buffered data
    let s := if shutRx then { s with pcb.tfRxClosed := true, pcb.refusedData := none } else s
    if shutTx then
      if s.pcb.state = .SYN_RCVD ∨ s.pcb.state = .ESTABLISHED ∨ s.pcb.state = .CLOSE_WAIT then
        tcpCloseShutdown s shutRx
      else .ok (.conn, s)
    else .ok (.ok, s)

/-! ## Opening -/

/-- `tcp_connect` (tcp.c:763-869) up to its call of `tcp_output`. `newPort` is what `tcp_new_port`
    finds, `iss` what `tcp_next_iss` returns. -/
def tcpConnectSyn (s : St W) (newPort : ℕ) (iss : U32) : Except Fault (Err × St W) := do
  lwipAssert "tcp_connect: can only connect from state CLOSED" (s.pcb.state = .CLOSED)
  let port := if s.pcb.localPort = 0 then newPort else s.pcb.localPort
  if port = 0 then .ok (.buf, s)
  else
    let (err, s) ← tcpEnqueueFlags { s with
      pcb.localPort := port
      pcb.connId := { connid1 := u32 port, connid2 := 0 }
      pcb.rcvNxt := 0
      pcb.sndNxt := iss
      pcb.lastack := iss - 1
      pcb.sndLbb := iss - 1
      pcb.rcvWnd := TCP_WND
      pcb.rcvAnnWnd := TCP_WND
      pcb.rcvAnnRightEdge := 0
      pcb.sndWnd := TCP_WND
      pcb.mss := TCP_MSS
      pcb.cwnd := 1
      pcb.ssthresh := TCP_WND } { syn := true }
    -- SYN segment was enqueued, changed the pcbs state now
    if err = .ok then .ok (.ok, { s with pcb.state := .SYN_SENT, list := .active, changed := true })
    else .ok (err, s)

/-- `tcp_connect` (tcp.c:763-869). -/
def tcpConnect (s : St W) (newPort : ℕ) (iss : U32) : Except Fault (Err × St W) := do
  let (err, s) ← tcpConnectSyn s newPort iss
  if err = .ok then
    let (_, s) ← tcpOutput s
    .ok (.ok, s)
  else .ok (err, s)

/-! ## Refused data -/

/-- The correction of `rcv_wnd` for a FIN (tcp.c:1230-1234 and tcp_in.c:405-409): the application
    does not call `tcp_recved` for it. -/
def rcvWndFin (pcb : Pcb) : Pcb :=
  if pcb.rcvWnd ≠ TCP_WND then { pcb with rcvWnd := u16 (pcb.rcvWnd + 1) } else pcb

/-- The delivery of EOF: `rcv_wnd` is corrected and `TCP_EVENT_CLOSED` raised. -/
def tcpEventClosed (app : App W) (s : St W) : Except Fault (Err × St W) :=
  tcpEvent app .closed { s with pcb := rcvWndFin s.pcb }

/-- `tcp_process_refused_data` (tcp.c:1200-1258). -/
def tcpProcessRefusedData (app : App W) (s : St W) : Except Fault (Err × St W) :=
  match s.pcb.refusedData with
  | none => .error .nullDeref
  | some (refusedData, refusedFin) => do
    let (err, s) ← tcpEvent app (.recv (bytes refusedData)) { s with pcb.refusedData := none }
    if err = .ok then
      if refusedFin then do
        s.live
        let (err, s) ← tcpEventClosed app s
        .ok (if err = .abrt then .abrt else .ok, s)
      else .ok (.ok, s)
    else if err = .abrt then .ok (.abrt, s)
    else do
      -- data is still refused
      s.live
      .ok (.inProgress, { s with pcb.refusedData := some (refusedData, refusedFin) })

/-! ## Timers -/

/-- Send delayed ACKs (tcp.c:1161-1167). -/
def tcpFasttmrAck (s : St W) : Except Fault (St W) :=
  if s.pcb.tfAckDelay then do
    let (_, s) ← tcpOutput (tcpAckNow s)
    .ok { s with pcb.tfAckDelay := false, pcb.tfAckNow := false }
  else .ok s

/-- `tcp_fasttmr` for one pcb of the active list (tcp.c:1160-1180). -/
def tcpFasttmr (app : App W) (s : St W) : Except Fault (St W) := do
  let s ← tcpFasttmrAck s
  if s.pcb.refusedData ≠ none then Prod.snd <$> tcpProcessRefusedData app { s with changed := false }
  else .ok s

/-- `tcp_backoff` (tcp.c:98-99). -/
def tcpBackoff : List ℕ := [1, 2, 3, 4, 5, 6, 7, 7, 7, 7, 7, 7, 7]

/-- `tcp_persist_backoff` (tcp.c:101). -/
def tcpPersistBackoff : List ℕ := [3, 6, 12, 24, 48, 96, 120]

/-- The persist timer of `tcp_slowtmr` (tcp.c:925-939). -/
def tcpSlowtmrPersist (s : St W) : Except Fault (St W) :=
  match tcpPersistBackoff[s.pcb.persistBackoff - 1]? with
  | none => .error .outOfBounds
  | some backoffCnt =>
    let s :=
      if s.pcb.persistCnt < backoffCnt then { s with pcb.persistCnt := s.pcb.persistCnt + 1 } else s
    if s.pcb.persistCnt ≥ backoffCnt then
      match tcpZeroWindowProbe s with
      | (err, s) =>
        if err = .ok then
          .ok { s with
            pcb.persistCnt := 0
            pcb.persistBackoff :=
              if s.pcb.persistBackoff < tcpPersistBackoff.length then s.pcb.persistBackoff + 1
              else s.pcb.persistBackoff }
        else .ok s
    else .ok s

/-- Double retransmission time-out unless we are trying to connect to somebody
    (tcp.c:952-956). -/
def rtoBackoff (pcb : Pcb) : Except Fault ℤ :=
  if pcb.state ≠ .SYN_SENT then
    match tcpBackoff[pcb.nrtx]? with
    | none => .error .outOfBounds
    | some backoff => .ok (s16 ((pcb.sa / 8 + pcb.sv) * 2 ^ backoff))
  else .ok pcb.rto

/-- The retransmission timer of `tcp_slowtmr` (tcp.c:940-976). -/
def tcpSlowtmrRexmit (s : St W) : Except Fault (St W) :=
  let s := if s.pcb.rtime ≥ 0 then { s with pcb.rtime := s16 (s.pcb.rtime + 1) } else s
  if s.pcb.unacked ≠ [] ∧ s.pcb.rtime ≥ s.pcb.rto then do
    let rto ← rtoBackoff s.pcb
    let effWnd := min s.pcb.cwnd s.pcb.sndWnd
    let ssthresh := if effWnd / 2 < u16 (2 * s.pcb.mss) then u16 (2 * s.pcb.mss) else effWnd / 2
    tcpRexmitRto { s with
      pcb.rto := rto, pcb.rtime := 0, pcb.ssthresh := ssthresh, pcb.cwnd := s.pcb.mss }
  else .ok s

/-- `(u32_t)(tcp_ticks - pcb->tmr)`. -/
def St.idle (s : St W) : ℕ := (s.ticks - s.pcb.tmr).toNat

/-- The ooseq purge of `tcp_slowtmr` (tcp.c:1023-1030). -/
def tcpSlowtmrOoseq (s : St W) : St W :=
  if s.pcb.ooseq ≠ [] ∧
      s.idle ≥ (BitVec.ofInt 32 (s.pcb.rto * TCP_OOSEQ_TIMEOUT)).toNat then
    { s with pcb.ooseq := [] }
  else s

/-- The keepalive part of `tcp_slowtmr` (tcp.c:997-1018): with `true` when the pcb is to be reset
    and removed. -/
def tcpSlowtmrKeepalive (s : St W) : Bool × St W :=
  if s.pcb.state = .ESTABLISHED ∨ s.pcb.state = .CLOSE_WAIT then
    if s.idle > (s.pcb.keepIdle + TCP_MAXIDLE) / TCP_SLOW_INTERVAL then (true, s)
    else if s.idle >
        (s.pcb.keepIdle + s.pcb.keepCntSent * TCP_KEEPINTVL_DEFAULT) / TCP_SLOW_INTERVAL then
      match tcpKeepalive s with
      | (err, s) =>
        (false, if err = .ok then { s with pcb.keepCntSent := u8 (s.pcb.keepCntSent + 1) } else s)
    else (false, s)
  else (false, s)

/-- Has the pcb stayed too long in its state? (tcp.c:978-990, 1032-1047) -/
def St.stuck (s : St W) : Prop :=
  (s.pcb.state = .FIN_WAIT_2 ∧ s.pcb.tfRxClosed = true ∧
    s.idle > TCP_FIN_WAIT_TIMEOUT / TCP_SLOW_INTERVAL) ∨
  (s.pcb.state = .SYN_RCVD ∧ s.idle > TCP_SYN_RCVD_TIMEOUT / TCP_SLOW_INTERVAL) ∨
  (s.pcb.state = .LAST_ACK ∧ s.idle > 2 * TCP_MSL / TCP_SLOW_INTERVAL)

instance (s : St W) : Decidable s.stuck := inferInstanceAs (Decidable (_ ∨ _))

/-- The removal of a pcb by `tcp_slowtmr` (tcp.c:1049-1079). -/
def tcpSlowtmrRemove (s : St W) (pcbReset : Bool) : St W :=
  let s := { s with pcb := tcpPcbPurge s.pcb, list := .none }
  let s := if pcbReset then tcpRst s s.pcb.sndNxt s.pcb.rcvNxt s.pcb.connId else s
  { s.free with changed := false }.emit (.err .abrt)

/-- The poll callback of `tcp_slowtmr` (tcp.c:1080-1100). -/
def tcpSlowtmrPoll (app : App W) (s : St W) : Except Fault (St W) :=
  let s := { s with pcb.polltmr := u8 (s.pcb.polltmr + 1) }
  if s.pcb.polltmr ≥ s.pcb.pollinterval then do
    let (err, s) ← tcpEvent app .poll { s with pcb.polltmr := 0, changed := false }
    if s.changed = false ∧ err = .ok then do
      s.live
      Prod.snd <$> tcpOutput s
    else .ok s
  else .ok s

/-- The maximum of retransmissions is reached (tcp.c:917-923). -/
def Pcb.maxRtx (pcb : Pcb) : Prop :=
  (pcb.state = .SYN_SENT ∧ pcb.nrtx = TCP_SYNMAXRTX) ∨ pcb.nrtx = TCP_MAXRTX

instance (pcb : Pcb) : Decidable pcb.maxRtx := inferInstanceAs (Decidable (_ ∨ _))

/-- The two timers of `tcp_slowtmr` that send (tcp.c:924-977). -/
def tcpSlowtmrSend (s : St W) : Except Fault (St W) :=
  if s.pcb.maxRtx then .ok s
  else if s.pcb.persistBackoff > 0 then tcpSlowtmrPersist s
  else tcpSlowtmrRexmit s

/-- `tcp_slowtmr` for one pcb of the active list (tcp.c:914-1100), `tcp_ticks` already
    incremented. -/
def tcpSlowtmr (app : App W) (s : St W) : Except Fault (St W) := do
  let maxRtx := decide s.pcb.maxRtx
  let s ← tcpSlowtmrSend s
  let (pcbReset, s) := tcpSlowtmrKeepalive s
  let s := tcpSlowtmrOoseq s
  if maxRtx = true ∨ pcbReset = true ∨ s.stuck then .ok (tcpSlowtmrRemove s pcbReset)
  else tcpSlowtmrPoll app s

/-- `tcp_slowtmr` for one pcb of the `TIME_WAIT` list (tcp.c:1107-1138). -/
def tcpSlowtmrTw (s : St W) : St W :=
  if s.idle > 2 * TCP_MSL / TCP_SLOW_INTERVAL then
    { s with pcb := tcpPcbPurge s.pcb, list := .none }.free
  else s

end Rudp

import Rudp.Conn

/-!
# Invariants of runs

A statement about all runs needs an invariant, and the same few things happen to a pcb in many
places: a callback, `tcp_output`, the purge. `Kept` lists them, and `Kept.step` says that an
invariant that each of them keeps is kept by every operation. `Preserved` is the shorter list for an
invariant of `St.core`.

Results:
* `Kept.step`: the operations.
* `Kept.reach`, `Preserved.reach`: the runs.
-/

namespace Rudp

variable {W : Type}

/-! ## What an invariant has to survive -/

/-- An entry of the log for a callback. -/
def Out.isCallback : Out → Bool
  | .event .. => true
  | .err _ => true
  | _ => false

/-- The state of the pcb is one in which `tcp_close` sends a FIN, and the state that follows. -/
def closeState : TcpState → Option TcpState
  | .SYN_RCVD => some .FIN_WAIT_1
  | .ESTABLISHED => some .FIN_WAIT_1
  | .CLOSE_WAIT => some .LAST_ACK
  | _ => none

/-- Nothing that the peer sends is taken: the pcb is closed, or in `CLOSE_WAIT` or behind it
    (tcp_in.c:1169). -/
def TcpState.Ended (st : TcpState) : Prop := st = .CLOSED ∨ TcpState.CLOSE_WAIT.num ≤ st.num

instance (st : TcpState) : Decidable st.Ended := inferInstanceAs (Decidable (_ ∨ _))

theorem ended_closed : TcpState.CLOSED.Ended := by decide

theorem ended_timeWait : TcpState.TIME_WAIT.Ended := by decide

theorem ended_closeWait : TcpState.CLOSE_WAIT.Ended := by decide

theorem ended_closing : TcpState.CLOSING.Ended := by decide

theorem TcpState.Ended.close {st st' : TcpState} (h : st.Ended) (hc : closeState st = some st') :
    st'.Ended := by
  unfold closeState at hc
  split at hc <;> cases hc
  · exact absurd h (by decide)
  · exact absurd h (by decide)
  · decide

theorem closeState_some {st st' : TcpState} (h : closeState st = some st') :
    st ≠ .SYN_SENT ∧ (st' = .FIN_WAIT_1 ∨ st' = .LAST_ACK) := by
  unfold closeState at h
  split at h <;> cases h <;> simp

/-- `s` is the pcb that `tcp_close_shutdown` makes of `t` when the application has not read all data:
    behind the RST, purged and off the lists (tcp.c:179-194). -/
def ClosesByReset (t s : St W) : Prop :=
  (t.pcb.state = .ESTABLISHED ∨ t.pcb.state = .CLOSE_WAIT) ∧ t.pcb.unread ∧
    ∃ t₁, t₁ = tcpRst t t.pcb.sndNxt t.pcb.rcvNxt t.pcb.connId ∧
      s = { t₁ with pcb := tcpPcbPurge t₁.pcb, list := .none, changed := true }

/-- Which of the two timers fires. -/
inductive Tmr
  | fast
  | slow

/-- The persist timer sends a probe at this tick (tcp.c:925-933). -/
def Pcb.Probes (pcb : Pcb) : Prop :=
  ¬ pcb.maxRtx ∧ 0 < pcb.persistBackoff ∧
    ∀ cnt ∈ tcpPersistBackoff[pcb.persistBackoff - 1]?, cnt ≤ pcb.persistCnt + 1

/-- The retransmission timer expires at this tick (tcp.c:925, 940-946). -/
def Pcb.Expires (pcb : Pcb) : Prop :=
  ¬ pcb.maxRtx ∧ pcb.persistBackoff = 0 ∧ pcb.unacked ≠ [] ∧
    pcb.rto ≤ (if pcb.rtime ≥ 0 then s16 (pcb.rtime + 1) else pcb.rtime)

/-- The slow start threshold when the retransmission timer expires (tcp.c:961-966). -/
def rtoSsthresh (pcb : Pcb) : ℕ :=
  if min pcb.cwnd pcb.sndWnd / 2 < u16 (2 * pcb.mss) then u16 (2 * pcb.mss)
  else min pcb.cwnd pcb.sndWnd / 2

/-- In `SYN_RCVD`: the segment is another copy of the SYN (tcp_in.c:769-772). -/
def RepeatsSyn (pcb : Pcb) (seg : InSegment) : Prop :=
  seg.flags.ack = false ∧ seg.flags.syn = true ∧ seg.seqno = pcb.rcvNxt - 1

/-- In `SYN_SENT`: the segment is the SYN-ACK for the SYN `rseg` (tcp_in.c:668-669). -/
def SynAcks (seg : InSegment) (rseg : TcpSeg) : Prop :=
  seg.flags.ack = true ∧ seg.flags.syn = true ∧ seg.ackno = rseg.tcphdr.seqno + 1

/-- The pcb without the fields that no statement about a run speaks of. -/
def Pcb.quiet (pcb : Pcb) : Pcb :=
  { pcb with
    prio := 0, localPort := 0, tfRxClosed := false, tfNoDelay := false, polltmr := 0
    pollinterval := 0, lastTimer := 0, tmr := 0, keepIdle := 0, persistCnt := 0, keepCntSent := 0 }

/-- What the API and the removal of a pcb do to it, one thing at a time. `P` is the condition on API
    calls. -/
structure KeptApi (P : Core → Api → Prop) (I : St W → Prop) : Prop where
  frame {s s' : St W} : I s → s'.pcb.quiet = s.pcb.quiet → s'.trace = s.trace →
    (s'.list = .active → s.list = .active) → (s'.recvGotFin = true → s.recvGotFin = true) → I s'
  unpark {s : St W} : I s → I { s with pcb.refusedData := none }
  callback {s : St W} {o : Out} : o.isCallback = true → I s → I (s.emit o)
  ackNow {s : St W} : I s → I (tcpAckNow s)
  rst {s : St W} {seqno ackno : U32} : I s → I (tcpRst s seqno ackno s.pcb.connId)
  connect {s s' : St W} {newPort : ℕ} {iss : U32} {err : Err} :
    P s.core (.connect newPort iss) → tcpConnectSyn s newPort iss = .ok (err, s') → I s → I s'
  write {s s' : St W} {arg : List Byte} {copy more : Bool} {err : Err} :
    P s.core (.write arg copy more) → tcpWrite s arg copy more = .ok (err, s') → I s →
      I (if err = .ok then s'.emit (.wrote arg) else s')
  recved {s : St W} {len : Fin 65536} {w : ℕ} {n : U32} {pcb : Pcb} :
    P s.core (.recved len) → rcvWndRecved s.pcb len = .ok w →
      tcpUpdateRcvAnnWnd { s.pcb with rcvWnd := w } = .ok (n, pcb) → I s →
        I (({ s with pcb := pcb } : St W).emit (.recved len s.pcb))
  fin {s s' : St W} {a : Api} {st : TcpState} {err : Err} :
    P s.core a → (a = .close ∨ ∃ rx, a = .shutdown rx true) → closeState s.pcb.state = some st →
      tcpSendFin s = .ok (err, s') → I s → I (if err = .ok then { s' with pcb.state := st } else s')
  output {s s' : St W} {err : Err} : tcpOutput s = .ok (err, s') → I s → I s'
  purge {s : St W} : s.list ≠ .active → I s → I { s with pcb := tcpPcbPurge s.pcb }
  timeWait {t s : St W} : ClosesByReset t s → s.list ≠ .active → s.pcb.state = .ESTABLISHED →
    s.pcb.unsent = [] → s.pcb.unacked = [] → s.pcb.ooseq = [] → I s →
      I { s with pcb.state := .TIME_WAIT }
  closed {s : St W} : s.list ≠ .active → s.pcb.unsent = [] → s.pcb.unacked = [] →
    s.pcb.ooseq = [] → I s → I { s with pcb.state := .CLOSED }
  clear {s : St W} : s.list ≠ .active → s.pcb.state = .CLOSED → I s →
    I { s with pcb.unacked := [], pcb.unsent := [], pcb.ooseq := [] }

/-- No call of `tcp_connect` meets the condition. -/
def NeverConnects (P : Core → Api → Prop) : Prop := ∀ c newPort iss, ¬ P c (.connect newPort iss)

/-- The FIN of the peer waits behind the refused data. -/
def St.FinParked (s : St W) : Prop := ∃ data, s.pcb.refusedData = some (data, true)

/-- Where EOF is reported: the data has ended, provided that it has wherever `I` holds and a FIN waits
    behind refused data, and that the application does not connect the pcb again. -/
def EofDue (P : Core → Api → Prop) (I : St W → Prop) (s : St W) : Prop :=
  NeverConnects P → (∀ t, I t → t.FinParked → t.pcb.state.Ended) → s.pcb.state.Ended

theorem EofDue.mono {P : Core → Api → Prop} {I J : St W → Prop} {s : St W} (h : EofDue P I s)
    (hIJ : ∀ t, I t → J t) : EofDue P J s :=
  fun hno hJ => h hno fun t hI => hJ t (hIJ t hI)

/-- What segments and timers do besides. `Q` is the condition on segments, in the state in which
    `tcp_receive` is called, `R` that on the timers, and `O` another one on segments, in the state in
    which `tcp_process` has read the options. `D` holds where EOF is due. -/
structure KeptBase (P : Core → Api → Prop) (Q : St W → InSegment → Prop) (R : St W → Tmr → Prop)
    (app : App W) (I : St W → Prop) (O : St W → InSegment → Prop := fun _ _ => True)
    (D : St W → Prop := EofDue P I) : Prop extends KeptApi P I where
  reset {s s' : St W} : tcpInputRemove { s with recvReset := true, pcb.tfAckDelay := false }
    (some .rst) = .ok s' → I s → I s'
  keepalive {s : St W} : I s → I (tcpKeepalive s).2
  fasttmr {s s' : St W} {err : Err} : R s .fast → s.pcb.tfAckDelay = true →
    tcpOutput (tcpAckNow s) = .ok (err, s') → I s →
      I { s' with pcb.tfAckDelay := false, pcb.tfAckNow := false }
  probe {s : St W} {n : ℕ} : R s .slow → s.pcb.Probes → I s →
    I (tcpZeroWindowProbe { s with pcb.persistCnt := n }).2
  backoff {s : St W} {b : ℕ} : 0 < s.pcb.persistBackoff → 0 < b →
    (b = s.pcb.persistBackoff ∨ b ≤ tcpPersistBackoff.length) → I s →
      I { s with pcb.persistBackoff := b }
  rtime {s : St W} : 0 ≤ s.pcb.rtime → I s → I { s with pcb.rtime := s16 (s.pcb.rtime + 1) }
  rto {s s' : St W} {rto : ℤ} {ssthresh : ℕ} : R s .slow → s.pcb.Expires →
    rtoBackoff s.pcb = .ok rto → ssthresh = rtoSsthresh s.pcb → tcpRexmitRto { s with
      pcb.rto := rto, pcb.rtime := 0, pcb.ssthresh := ssthresh, pcb.cwnd := s.pcb.mss } = .ok s' →
    I s → I s'
  park {s : St W} {data : List Pbuf} {fin : Bool} : (fin = true → D s) → I s →
    I { s with pcb.refusedData := some (data, fin) }
  rcvWndFin {s : St W} : D s → I s → I { s with pcb := rcvWndFin s.pcb }
  start {s : St W} {seg : InSegment} {tmr : U32} {n : ℕ} : (n = s.pcb.mss ∨ 0 < n ∧ n ≤ TCP_MSS) →
    O { s with pcb.tmr := tmr, pcb.keepCntSent := 0, pcb.mss := n } seg → I s →
      I { s with pcb.tmr := tmr, pcb.keepCntSent := 0, pcb.mss := n }
  synSent {s s' : St W} {seg : InSegment} {err : Err} : AppOk P app → s.pcb.state = .SYN_SENT →
    O s seg → tcpProcessSynSent app s seg = .ok (err, s') → I s → I s'
  receive {s s' : St W} {seg : InSegment} : TcpState.ESTABLISHED.num ≤ s.pcb.state.num →
    seg.flags.syn = false → Q s seg →
      tcpProcessReceive s seg (tcpProcessAfter s.pcb.state seg) = .ok s' → I s → I s'
  ooseq {s : St W} : I s → I { s with pcb.ooseq := [] }

/-- The same with `tcp_process` in `SYN_RCVD` as a whole. -/
structure KeptSteps (P : Core → Api → Prop) (Q : St W → InSegment → Prop) (R : St W → Tmr → Prop)
    (app : App W) (I : St W → Prop) (O : St W → InSegment → Prop := fun _ _ => True)
    (D : St W → Prop := EofDue P I) : Prop extends KeptBase P Q R app I O D where
  synRcvd {s s' : St W} {seg : InSegment} {err : Err} : AppOk P app → s.pcb.state = .SYN_RCVD →
    O s seg → (∀ t, seg.flags.ack = true →
      tcpSeqBetween seg.ackno (s.pcb.lastack + 1) s.pcb.sndNxt →
      tcpEvent app .accept { s with pcb.state := .ESTABLISHED } = .ok (.ok, t) → Q t seg) →
    tcpProcessSynRcvd app s seg = .ok (err, s') → I s → I s'

/-- The same with the parts of `tcp_process` in `SYN_RCVD` one by one. -/
structure Kept (P : Core → Api → Prop) (Q : St W → InSegment → Prop) (R : St W → Tmr → Prop)
    (app : App W) (I : St W → Prop) (O : St W → InSegment → Prop := fun _ _ => True)
    (D : St W → Prop := EofDue P I) : Prop extends KeptBase P Q R app I O D where
  rexmit {s : St W} {seg : InSegment} : s.pcb.state = .SYN_RCVD → RepeatsSyn s.pcb seg → O s seg →
    I s → I (tcpRexmit s)
  accept {s : St W} {seg : InSegment} : s.pcb.state = .SYN_RCVD →
    tcpSeqBetween seg.ackno (s.pcb.lastack + 1) s.pcb.sndNxt → I s →
      I { s with pcb.state := .ESTABLISHED }
  receiveAccept {s s₁ s' : St W} {seg : InSegment} :
    AppOk P app → s.pcb.state = .SYN_RCVD → I s → seg.flags.ack = true →
      tcpEvent app .accept { s with pcb.state := .ESTABLISHED } = .ok (.ok, s₁) → Q s₁ seg →
      tcpProcessReceive s₁ seg tcpProcessAcceptAfter = .ok s' → I s₁ → I s'

/-- Two invariants together. -/
theorem KeptApi.and {P : Core → Api → Prop} {I J : St W → Prop} (h : KeptApi P I)
    (h' : KeptApi P J) : KeptApi P fun s => I s ∧ J s where
  frame hI hq ht hl hf := ⟨h.frame hI.1 hq ht hl hf, h'.frame hI.2 hq ht hl hf⟩
  unpark hI := ⟨h.unpark hI.1, h'.unpark hI.2⟩
  callback ho hI := ⟨h.callback ho hI.1, h'.callback ho hI.2⟩
  ackNow hI := ⟨h.ackNow hI.1, h'.ackNow hI.2⟩
  rst hI := ⟨h.rst hI.1, h'.rst hI.2⟩
  connect hP hr hI := ⟨h.connect hP hr hI.1, h'.connect hP hr hI.2⟩
  write hP hr hI := ⟨h.write hP hr hI.1, h'.write hP hr hI.2⟩
  recved hP hw hp hI := ⟨h.recved hP hw hp hI.1, h'.recved hP hw hp hI.2⟩
  fin hP ha hst hr hI := ⟨h.fin hP ha hst hr hI.1, h'.fin hP ha hst hr hI.2⟩
  output hr hI := ⟨h.output hr hI.1, h'.output hr hI.2⟩
  purge hl hI := ⟨h.purge hl hI.1, h'.purge hl hI.2⟩
  timeWait hr hl hst hs ha ho hI :=
    ⟨h.timeWait hr hl hst hs ha ho hI.1, h'.timeWait hr hl hst hs ha ho hI.2⟩
  closed hl hs ha ho hI := ⟨h.closed hl hs ha ho hI.1, h'.closed hl hs ha ho hI.2⟩
  clear hl hst hI := ⟨h.clear hl hst hI.1, h'.clear hl hst hI.2⟩

theorem KeptBase.and {P : Core → Api → Prop} {Q : St W → InSegment → Prop}
    {R : St W → Tmr → Prop} {app : App W} {I J D D' E : St W → Prop} {O : St W → InSegment → Prop}
    (h : KeptBase P Q R app I O D) (h' : KeptBase P Q R app J O D')
    (hE : ∀ s, E s → D s ∧ D' s) : KeptBase P Q R app (fun s => I s ∧ J s) O E where
  toKeptApi := h.toKeptApi.and h'.toKeptApi
  reset hr hI := ⟨h.reset hr hI.1, h'.reset hr hI.2⟩
  keepalive hI := ⟨h.keepalive hI.1, h'.keepalive hI.2⟩
  fasttmr hR hd hr hI := ⟨h.fasttmr hR hd hr hI.1, h'.fasttmr hR hd hr hI.2⟩
  probe hR hp hI := ⟨h.probe hR hp hI.1, h'.probe hR hp hI.2⟩
  backoff h₀ hb hle hI := ⟨h.backoff h₀ hb hle hI.1, h'.backoff h₀ hb hle hI.2⟩
  rtime h₀ hI := ⟨h.rtime h₀ hI.1, h'.rtime h₀ hI.2⟩
  rto hR he hrto hss hr hI := ⟨h.rto hR he hrto hss hr hI.1, h'.rto hR he hrto hss hr hI.2⟩
  park hd hI := ⟨h.park (fun hf => (hE _ (hd hf)).1) hI.1,
    h'.park (fun hf => (hE _ (hd hf)).2) hI.2⟩
  rcvWndFin hd hI := ⟨h.rcvWndFin (hE _ hd).1 hI.1, h'.rcvWndFin (hE _ hd).2 hI.2⟩
  start hn hO hI := ⟨h.start hn hO hI.1, h'.start hn hO hI.2⟩
  synSent happ hst hO hr hI := ⟨h.synSent happ hst hO hr hI.1, h'.synSent happ hst hO hr hI.2⟩
  receive hst hsyn hQ hr hI := ⟨h.receive hst hsyn hQ hr hI.1, h'.receive hst hsyn hQ hr hI.2⟩
  ooseq hI := ⟨h.ooseq hI.1, h'.ooseq hI.2⟩

theorem Kept.and {P : Core → Api → Prop} {Q : St W → InSegment → Prop} {R : St W → Tmr → Prop}
    {app : App W} {I J D D' E : St W → Prop} {O : St W → InSegment → Prop}
    (h : Kept P Q R app I O D) (h' : Kept P Q R app J O D') (hE : ∀ s, E s → D s ∧ D' s) :
    Kept P Q R app (fun s => I s ∧ J s) O E where
  toKeptBase := h.toKeptBase.and h'.toKeptBase hE
  rexmit hst hs hO hI := ⟨h.rexmit hst hs hO hI.1, h'.rexmit hst hs hO hI.2⟩
  accept hst hb hI := ⟨h.accept hst hb hI.1, h'.accept hst hb hI.2⟩
  receiveAccept happ hst hI hack he hQ hr hI₁ :=
    ⟨h.receiveAccept happ hst hI.1 hack he hQ hr hI₁.1,
      h'.receiveAccept happ hst hI.2 hack he hQ hr hI₁.2⟩

/-- A RST resets the connection or is ignored. -/
theorem tcpProcessRst_cases (s : St W) (seg : InSegment) :
    tcpProcessRst s seg = (.rst, { s with recvReset := true, pcb.tfAckDelay := false }) ∨
      tcpProcessRst s seg = (.ok, s) := by
  unfold tcpProcessRst
  dsimp only
  split_ifs <;> simp

theorem persistBackoff_tcpZeroWindowProbe (s : St W) :
    (tcpZeroWindowProbe s).2.pcb.persistBackoff = s.pcb.persistBackoff := by
  have hh (seqno : U32) : (tcpOutputAllocHeader s seqno).2.pcb.persistBackoff =
      s.pcb.persistBackoff := by
    unfold tcpOutputAllocHeader
    dsimp only
    split <;> rfl
  unfold tcpZeroWindowProbe
  split
  · rfl
  · next seg _ =>
    have hs := hh seg.tcphdr.seqno
    generalize tcpOutputAllocHeader s seg.tcphdr.seqno = x at hs
    obtain ⟨hdr, s₁⟩ := x
    cases hdr with
    | none => exact hs
    | some hdr =>
      dsimp only at hs ⊢
      split <;> exact hs

namespace KeptApi

variable {P : Core → Api → Prop} {I : St W → Prop} {s s' : St W} {app : App W}

/-! ## API calls -/

theorem tcpPcbRemove (h : KeptApi P I) (hr : Rudp.tcpPcbRemove s = .ok s') (hI : I s) :
    I s' ∧ s'.pcb.state = .CLOSED ∧ s'.pcb.connId = s.pcb.connId ∧ s'.list ≠ .active := by
  obtain ⟨s₁, h₁, hr⟩ := Run.bind_eq_ok.mp hr
  obtain ⟨_, a₁, hr⟩ := Run.bind_eq_ok.mp hr
  obtain ⟨_, a₂, hr⟩ := Run.bind_eq_ok.mp hr
  obtain ⟨_, a₃, hr⟩ := Run.bind_eq_ok.mp hr
  cases hr
  have hp : I { s with list := .none, pcb := tcpPcbPurge s.pcb } :=
    h.purge (s := { s with list := .none }) nofun (h.frame hI rfl rfl nofun id)
  have hc : (tcpPcbPurge s.pcb).connId = s.pcb.connId := by
    unfold tcpPcbPurge
    split <;> rfl
  obtain ⟨hI₁, hc₁, hl₁⟩ : I s₁ ∧ s₁.pcb.connId = s.pcb.connId ∧ s₁.list ≠ .active := by
    unfold tcpPcbRemoveAck at h₁
    split at h₁
    · obtain ⟨⟨err, s₂⟩, h₂, rfl⟩ := Run.map_eq_ok.mp h₁
      have hl : s₂.list = .none := congrArg (fun v => v.list) (rcvView_tcpOutput h₂)
      exact ⟨h.output h₂ (h.ackNow hp),
        (congrArg (fun v => v.connId) (rcvView_tcpOutput h₂)).trans hc, by simp [hl]⟩
    · cases h₁
      exact ⟨hp, hc, nofun⟩
  refine ⟨?_, rfl, hc₁, hl₁⟩
  exact h.frame (h.closed hl₁ (lwipAssert_ok a₁) (lwipAssert_ok a₂) (lwipAssert_ok a₃) hI₁) rfl rfl id id

theorem tcpAbandon (h : KeptApi P I) {reset : Bool} (hr : Rudp.tcpAbandon s reset = .ok s')
    (hI : I s) : I s' := by
  unfold Rudp.tcpAbandon at hr
  split at hr
  · obtain ⟨s₁, h₁, hr⟩ := Run.bind_eq_ok.mp hr
    cases hr
    exact h.frame (h.tcpPcbRemove h₁ hI).1 rfl rfl id id
  · obtain ⟨s₁, h₁, hr⟩ := Run.bind_eq_ok.mp hr
    cases hr
    obtain ⟨hI₁, hst, hc, hl⟩ : I s₁ ∧ s₁.pcb.state = .CLOSED ∧ s₁.pcb.connId = s.pcb.connId ∧
        s₁.list ≠ .active := by
      split at h₁
      · next hb =>
        cases h₁
        exact ⟨h.frame hI rfl rfl nofun id, hb.1, rfl, nofun⟩
      · obtain ⟨s₂, h₂, h₃⟩ := Run.bind_eq_ok.mp h₁
        cases h₃
        obtain ⟨g1, g2, g3, g4⟩ := h.tcpPcbRemove h₂ hI
        exact ⟨h.frame g1 rfl rfl id id, g2, g3, g4⟩
    have hI₂ := h.clear hl hst hI₁
    dsimp only
    rw [← hc]
    split_ifs
    · exact h.callback rfl (h.frame (h.rst hI₂) rfl rfl id id)
    · exact h.callback rfl (h.frame hI₂ rfl rfl id id)

theorem tcpCloseRst (h : KeptApi P I) (hr : Rudp.tcpCloseRst s = .ok s')
    (hst : s.pcb.state = .ESTABLISHED ∨ s.pcb.state = .CLOSE_WAIT) (hu : s.pcb.unread)
    (hI : I s) : I s' := by
  obtain ⟨_, -, hr⟩ := Run.bind_eq_ok.mp hr
  have hc : I (tcpRst s s.pcb.sndNxt s.pcb.rcvNxt s.pcb.connId) := h.rst hI
  have hv := rcvView_tcpRst s s.pcb.sndNxt s.pcb.rcvNxt s.pcb.connId
  generalize hs₁ : tcpRst s s.pcb.sndNxt s.pcb.rcvNxt s.pcb.connId = s₁ at hr hc hv
  have e : s₁.pcb.state = s.pcb.state := congrArg RcvView.state hv
  have hI₁ : I { s₁ with pcb := tcpPcbPurge s₁.pcb, list := .none, changed := true } :=
    h.purge (s := { s₁ with list := .none, changed := true }) nofun (h.frame hc rfl rfl nofun id)
  have hp : tcpPcbPurge s₁.pcb = { s₁.pcb with
      refusedData := none, ooseq := [], rtime := -1, unsent := [], unacked := [],
      unsentOversize := 0 } := by
    unfold tcpPcbPurge
    rw [if_pos]
    rw [e]
    rcases hst with hst | hst <;> rw [hst] <;> decide
  dsimp only at hr
  split at hr
  · next hs =>
    cases hr
    refine h.frame (h.timeWait ⟨hst, hu, s₁, hs₁.symm, rfl⟩ nofun hs ?_ ?_ ?_ hI₁) rfl rfl nofun id
    · rw [hp]
    · rw [hp]
    · rw [hp]
  · split at hr <;> cases hr <;> exact h.frame hI₁ rfl rfl id id

theorem tcpCloseFin (h : KeptApi P I) {a : Api} {st : TcpState} {err : Err}
    (hP : P s.core a) (ha : a = .close ∨ ∃ rx, a = .shutdown rx true)
    (hst : closeState s.pcb.state = some st) (hr : Rudp.tcpCloseFin s st = .ok (err, s'))
    (hI : I s) : I s' := by
  obtain ⟨⟨err', s₁⟩, h₁, hr⟩ := Run.bind_eq_ok.mp hr
  have hI₁ := h.fin hP ha hst h₁ hI
  dsimp only at hr
  split at hr
  · next hok =>
    rw [if_pos hok] at hI₁
    obtain ⟨⟨err'', s₂⟩, h₂, hr⟩ := Run.bind_eq_ok.mp hr
    cases hr
    exact h.output h₂ hI₁
  · next hok =>
    rw [if_neg hok] at hI₁
    cases hr
    exact hI₁

theorem tcpCloseShutdown (h : KeptApi P I) {a : Api} {rst : Bool} {err : Err}
    (hP : P s.core a) (ha : a = .close ∨ ∃ rx, a = .shutdown rx true)
    (hr : Rudp.tcpCloseShutdown s rst = .ok (err, s')) (hI : I s) : I s' := by
  unfold Rudp.tcpCloseShutdown at hr
  split at hr
  · next hc =>
    obtain ⟨s₁, h₁, hr⟩ := Run.bind_eq_ok.mp hr
    cases hr
    exact h.tcpCloseRst h₁ hc.2.1 hc.2.2 hI
  · split at hr
    · cases hr
      exact h.frame hI rfl rfl nofun id
    · obtain ⟨s₁, h₁, hr⟩ := Run.bind_eq_ok.mp hr
      cases hr
      obtain ⟨s₂, h₂, h₃⟩ := Run.bind_eq_ok.mp h₁
      cases h₃
      exact h.frame (h.tcpPcbRemove h₂ hI).1 rfl rfl id id
    · next hs => exact h.tcpCloseFin hP ha (by rw [hs]; rfl) hr hI
    · next hs => exact h.tcpCloseFin hP ha (by rw [hs]; rfl) hr hI
    · next hs => exact h.tcpCloseFin hP ha (by rw [hs]; rfl) hr hI
    · cases hr
      exact hI

theorem tcpShutdown (h : KeptApi P I) {shutRx shutTx : Bool} {err : Err}
    (hP : P s.core (.shutdown shutRx shutTx)) (hr : Rudp.tcpShutdown s shutRx shutTx = .ok (err, s'))
    (hI : I s) : I s' := by
  unfold Rudp.tcpShutdown at hr
  split at hr
  · next hc =>
    rw [hc.2] at hP
    exact h.tcpCloseShutdown (s := { s with pcb.tfRxClosed := true }) (by exact hP) (.inr ⟨_, rfl⟩)
      hr (h.frame hI rfl rfl id id)
  · generalize hs₁ : (if shutRx = true then
      ({ s with pcb.tfRxClosed := true, pcb.refusedData := none } : St W) else s) = s₁ at hr
    have hc : s₁.core = s.core := by
      rw [← hs₁]
      split <;> rfl
    have hI₁ : I s₁ := by
      rw [← hs₁]
      split
      · exact h.frame (h.unpark hI) rfl rfl id id
      · exact hI
    dsimp only at hr
    split at hr
    · next htx =>
      rw [htx] at hP
      split at hr
      · exact h.tcpCloseShutdown (by rw [hc]; exact hP) (.inr ⟨_, rfl⟩) hr hI₁
      · cases hr
        exact hI₁
    · cases hr
      exact hI₁

theorem tcpRecved (h : KeptApi P I) {len : Fin 65536} (hP : P s.core (.recved len))
    (hr : Rudp.tcpRecved s len = .ok s') (hI : I s) : I s' := by
  obtain ⟨w, hw, hr⟩ := Run.bind_eq_ok.mp hr
  obtain ⟨⟨n, pcb⟩, hp, hr⟩ := Run.bind_eq_ok.mp hr
  have hI₁ := h.recved hP hw hp hI
  dsimp only at hr
  split at hr
  · obtain ⟨⟨err, s₁⟩, h₁, rfl⟩ := Run.map_eq_ok.mp hr
    exact h.output h₁ (h.ackNow hI₁)
  · cases hr
    exact hI₁

/-- An API call keeps the invariant. -/
theorem apiCall (h : KeptApi P I) {a : Api} {err : Err} (hP : P s.core a)
    (hr : Rudp.apiCall s a = .ok (err, s')) (hI : I s) : I s' := by
  obtain ⟨_, -, hr⟩ := Run.bind_eq_ok.mp hr
  cases a with
  | connect newPort iss =>
    obtain ⟨⟨err', s₁⟩, h₁, hr⟩ := Run.bind_eq_ok.mp hr
    have hI₁ := h.connect hP h₁ hI
    dsimp only at hr
    split at hr
    · obtain ⟨⟨err'', s₂⟩, h₂, hr⟩ := Run.bind_eq_ok.mp hr
      cases hr
      exact h.output h₂ hI₁
    · cases hr
      exact hI₁
  | write arg copy more =>
    obtain ⟨⟨err', s₁⟩, h₁, hr⟩ := Run.bind_eq_ok.mp hr
    cases hr
    exact h.write hP h₁ hI
  | output => exact h.output hr hI
  | recved len =>
    obtain ⟨s₁, h₁, hr⟩ := Run.bind_eq_ok.mp hr
    cases hr
    exact h.tcpRecved hP h₁ hI
  | close =>
    exact h.tcpCloseShutdown (s := { s with pcb.tfRxClosed := true }) (by exact hP) (.inl rfl) hr
      (h.frame hI rfl rfl id id)
  | shutdown shutRx shutTx => exact h.tcpShutdown hP hr hI
  | abort =>
    obtain ⟨s₁, h₁, hr⟩ := Run.bind_eq_ok.mp hr
    cases hr
    exact h.tcpAbandon h₁ hI
  | nagle disable =>
    cases hr
    exact h.frame hI rfl rfl id id

/-- A callback keeps the invariant. -/
theorem tcpEvent (h : KeptApi P I) (happ : AppOk P app) {e : Event} {err : Err}
    (hr : Rudp.tcpEvent app e s = .ok (err, s')) (hI : I s) : I s' := by
  obtain ⟨⟨ret, s₁⟩, h₁, hr⟩ := Run.bind_eq_ok.mp hr
  cases hr
  exact h.callback rfl ((happ _ _ _ _ h₁).invariant (fun _ _ hI => h.frame hI rfl rfl id id)
    (fun _ _ _ _ hI hP hr => h.apiCall hP hr hI) hI)

theorem tcpInputRemove (h : KeptApi P I) {err : Option Err}
    (hr : Rudp.tcpInputRemove s err = .ok s') (hI : I s) : I s' := by
  unfold Rudp.tcpInputRemove at hr
  dsimp only at hr
  obtain ⟨s₁, h₁, hr⟩ := Run.bind_eq_ok.mp hr
  cases hr
  cases err with
  | none => exact h.frame (h.tcpPcbRemove h₁ hI).1 rfl rfl id id
  | some e => exact h.frame (h.tcpPcbRemove h₁ (h.callback rfl hI)).1 rfl rfl id id

/-- The handshake on the active side, for an invariant that already holds in the connected
    callback. -/
theorem tcpProcessSynSent (h : KeptApi P I) {seg : InSegment}
    (hest : ∀ {rseg : TcpSeg} {rest : List TcpSeg}, s.pcb.unacked = rseg :: rest →
      s.pcb.sndQueuelen > 0 → SynAcks seg rseg → I s → I { s with pcb := establish s.pcb seg rest })
    (happ : AppOk P app) {err : Err} (hr : Rudp.tcpProcessSynSent app s seg = .ok (err, s'))
    (hI : I s) : I s' := by
  unfold Rudp.tcpProcessSynSent at hr
  split at hr
  · cases hr
  · next rseg rest hu =>
    split at hr
    · next hc =>
      obtain ⟨_, ha, hr⟩ := Run.bind_eq_ok.mp hr
      obtain ⟨⟨ret, s₁⟩, h₁, hr⟩ := Run.bind_eq_ok.mp hr
      have hI₁ := h.tcpEvent happ h₁ (hest hu (lwipAssert_ok ha) hc hI)
      dsimp only at hr
      split at hr
      · cases hr
        exact hI₁
      · obtain ⟨_, -, hr⟩ := Run.bind_eq_ok.mp hr
        cases hr
        exact h.ackNow hI₁
    · split at hr <;> cases hr
      · exact h.rst hI
      · exact hI

end KeptApi

/-! ## The end of the data -/

/-- What the FIN of the peer leaves for later, in `recv_flags` and `refused_data`. -/
structure Noting (N : Bool → Option (List Pbuf × Bool) → Prop) : Prop where
  got {g g' : Bool} {d : Option (List Pbuf × Bool)} : (g' = true → g = true) → N g' d → N g d
  unparked {g : Bool} {d : Option (List Pbuf × Bool)} : N g none → N g d
  /-- `tcp_receive` notes a FIN in `recv_flags`. -/
  received {g g' : Bool} {d : Option (List Pbuf × Bool)} : N g d → g = true ∨ N g' d
  parked {g fin : Bool} {data : List Pbuf} : N g (some (data, fin)) →
    N g none ∨ (fin = true ∧ ∀ g data, N g (some (data, true)))

/-- Where something is noted the data has ended. -/
def St.Ends (N : Bool → Option (List Pbuf × Bool) → Prop) (s : St W) : Prop :=
  N s.recvGotFin s.pcb.refusedData → s.pcb.state.Ended

/-- There is nothing to note. -/
theorem noting_true : Noting fun _ _ => True :=
  ⟨fun _ _ => trivial, fun _ => trivial, fun _ => .inr trivial, fun _ => .inl trivial⟩

/-- `TF_GOT_FIN` -/
theorem noting_gotFin : Noting fun g _ => g = true :=
  ⟨fun h => h, id, .inl, .inl⟩

/-- The FIN waits behind the refused data. -/
theorem noting_finParked : Noting fun _ d => ∃ data, d = some (data, true) where
  got _ h := h
  unparked h := by
    obtain ⟨_, h⟩ := h
    cases h
  received h := .inr h
  parked h := by
    obtain ⟨_, h⟩ := h
    cases h
    exact .inr ⟨rfl, fun _ data => ⟨data, rfl⟩⟩

section Ends

variable {N : Bool → Option (List Pbuf × Bool) → Prop} {s s' : St W}

theorem St.Ends.of_rcvView (h : s.Ends N) (hv : s'.rcvView = s.rcvView) : s'.Ends N := by
  have e₁ : s'.recvGotFin = s.recvGotFin := congrArg RcvView.recvGotFin hv
  have e₂ : s'.pcb.refusedData = s.pcb.refusedData := congrArg (fun v => v.refusedData) hv
  have e₃ : s'.pcb.state = s.pcb.state := congrArg RcvView.state hv
  unfold St.Ends
  rw [e₁, e₂, e₃]
  exact h

/-- In a state in which data is taken nothing is noted. -/
theorem St.Ends.of_open {st : TcpState} (h : s.Ends N) (hst : s.pcb.state = st) (ho : ¬ st.Ended) :
    ¬ N s.recvGotFin s.pcb.refusedData := by
  intro hn
  have he := h hn
  rw [hst] at he
  exact ho he

theorem keptApi_ends {P : Core → Api → Prop} (hN : Noting N)
    (hno : NeverConnects P) : KeptApi P (St.Ends (W := W) N) where
  frame {s s'} hI hq _ _ hg hn := by
    have e₁ : s'.pcb.refusedData = s.pcb.refusedData := (congrArg Pcb.refusedData hq :)
    have e₂ : s'.pcb.state = s.pcb.state := (congrArg Pcb.state hq :)
    rw [e₁] at hn
    rw [e₂]
    exact hI (hN.got hg hn)
  unpark hI hn := hI (hN.unparked hn)
  callback _ hI := hI
  ackNow hI := hI
  rst hI := hI.of_rcvView (rcvView_tcpRst _ _ _ _)
  connect hP := absurd hP (hno _ _ _)
  write _ hr hI := by
    have hI' := hI.of_rcvView (rcvView_tcpWrite hr)
    split <;> exact hI'
  recved _ _ hp hI := by
    obtain ⟨aw, rfl⟩ := tcpUpdateRcvAnnWnd_ok hp
    exact hI
  fin {s s' a st err} _ _ hst hr hI := by
    have hv := rcvView_tcpSendFin hr
    split
    · intro hn
      have e₁ : s'.recvGotFin = s.recvGotFin := congrArg RcvView.recvGotFin hv
      have e₂ : s'.pcb.refusedData = s.pcb.refusedData := congrArg (fun v => v.refusedData) hv
      change N s'.recvGotFin s'.pcb.refusedData at hn
      rw [e₁, e₂] at hn
      exact (hI hn).close hst
    · exact hI.of_rcvView hv
  output hr hI := hI.of_rcvView (rcvView_tcpOutput hr)
  purge {s} _ hI := by
    unfold tcpPcbPurge
    split
    · exact fun hn => hI (hN.unparked hn)
    · exact hI
  timeWait _ _ _ _ _ _ _ _ := ended_timeWait
  closed _ _ _ _ _ _ := ended_closed
  clear _ _ hI := hI

end Ends

/-- EOF is still due behind the callback for the refused data. -/
theorem EofDue.refused {P : Core → Api → Prop} {I : St W → Prop} {s s' : St W} {app : App W}
    (happ : AppOk P app) {refusedData : List Pbuf} {e : Event} {err : Err}
    (hd : s.pcb.refusedData = some (refusedData, true))
    (hr : tcpEvent app e { s with pcb.refusedData := none } = .ok (err, s')) (hI : I s) :
    EofDue P I s' := by
  intro hno hend
  have he : s.pcb.state.Ended := hend s hI ⟨_, hd⟩
  exact (keptApi_ends noting_true hno).tcpEvent happ hr (fun _ => he) trivial

namespace KeptSteps

variable {P : Core → Api → Prop} {Q : St W → InSegment → Prop} {R : St W → Tmr → Prop}
variable {O : St W → InSegment → Prop} {I : St W → Prop} {s s' : St W} {app : App W}

/-! ## Timers -/

theorem tcpEventClosed (h : KeptSteps P Q R app I O) (happ : AppOk P app) {err : Err}
    (hr : Rudp.tcpEventClosed app s = .ok (err, s')) (hd : EofDue P I s) (hI : I s) : I s' :=
  h.tcpEvent happ hr (h.rcvWndFin hd hI)

theorem tcpProcessRefusedData (h : KeptSteps P Q R app I O) (happ : AppOk P app) {err : Err}
    (hr : Rudp.tcpProcessRefusedData app s = .ok (err, s')) (hI : I s) : I s' := by
  unfold Rudp.tcpProcessRefusedData at hr
  split at hr
  · cases hr
  · next refusedData refusedFin hd =>
    obtain ⟨⟨ret, s₁⟩, h₁, h₂⟩ := Run.bind_eq_ok.mp hr
    have hI₁ : I s₁ := h.tcpEvent happ h₁ (h.unpark hI)
    have hdue : refusedFin = true → EofDue P I s₁ := by
      rintro rfl
      exact .refused happ hd h₁ hI
    clear hr
    dsimp only at h₂
    split at h₂
    · split at h₂
      · next hfin =>
        obtain ⟨_, -, h₃⟩ := Run.bind_eq_ok.mp h₂
        obtain ⟨⟨ret', s₂⟩, h₄, h₅⟩ := Run.bind_eq_ok.mp h₃
        cases h₅
        exact h.tcpEventClosed happ h₄ (hdue hfin) hI₁
      · cases h₂
        exact hI₁
    · split at h₂
      · cases h₂
        exact hI₁
      · obtain ⟨_, -, h₃⟩ := Run.bind_eq_ok.mp h₂
        cases h₃
        exact h.park hdue hI₁

theorem tcpFasttmrAck (h : KeptSteps P Q R app I O) (hR : R s .fast)
    (hr : Rudp.tcpFasttmrAck s = .ok s') (hI : I s) : I s' := by
  unfold Rudp.tcpFasttmrAck at hr
  split at hr
  · next hd =>
    obtain ⟨⟨err, s₁⟩, h₁, hr⟩ := Run.bind_eq_ok.mp hr
    cases hr
    exact h.fasttmr hR hd h₁ hI
  · cases hr
    exact hI

theorem tcpFasttmr (h : KeptSteps P Q R app I O) (happ : AppOk P app) (hR : R s .fast)
    (hr : Rudp.tcpFasttmr app s = .ok s') (hI : I s) : I s' := by
  obtain ⟨s₁, h₁, h₂⟩ := Run.bind_eq_ok.mp hr
  have hI₁ := h.tcpFasttmrAck hR h₁ hI
  split at h₂
  · obtain ⟨⟨err, s₂⟩, h₃, rfl⟩ := Run.map_eq_ok.mp h₂
    exact h.tcpProcessRefusedData happ h₃ (h.frame hI₁ rfl rfl id id)
  · cases h₂
    exact hI₁

theorem tcpSlowtmrPersist (h : KeptSteps P Q R app I O) (hR : R s .slow) (hm : ¬ s.pcb.maxRtx)
    (hb : 0 < s.pcb.persistBackoff) (hr : Rudp.tcpSlowtmrPersist s = .ok s') (hI : I s) : I s' := by
  unfold Rudp.tcpSlowtmrPersist at hr
  split at hr
  · cases hr
  · next cnt hcnt =>
    obtain ⟨n, hs₁, hn⟩ : ∃ n, (if s.pcb.persistCnt < cnt then
        ({ s with pcb.persistCnt := s.pcb.persistCnt + 1 } : St W) else s) =
        { s with pcb.persistCnt := n } ∧ n ≤ s.pcb.persistCnt + 1 := by
      split
      · exact ⟨_, rfl, le_rfl⟩
      · exact ⟨s.pcb.persistCnt, rfl, Nat.le_succ _⟩
    rw [hs₁] at hr
    dsimp only at hr
    split at hr
    · next hge =>
      have hp : s.pcb.Probes := by
        refine ⟨hm, hb, fun c hc => ?_⟩
        rw [hcnt] at hc
        cases hc
        omega
      have hI₂ := h.probe (n := n) hR hp hI
      have hb₂ := persistBackoff_tcpZeroWindowProbe ({ s with pcb.persistCnt := n } : St W)
      generalize tcpZeroWindowProbe ({ s with pcb.persistCnt := n } : St W) = x at hr hI₂ hb₂
      obtain ⟨err, s₂⟩ := x
      dsimp only at hr hI₂ hb₂
      split at hr <;> cases hr
      · refine h.frame (h.backoff (b := if s₂.pcb.persistBackoff < tcpPersistBackoff.length then
          s₂.pcb.persistBackoff + 1 else s₂.pcb.persistBackoff) (by omega) ?_ ?_ hI₂) rfl rfl id id
        · split <;> omega
        · split
          · next hlt => exact .inr hlt
          · exact .inl rfl
      · exact hI₂
    · cases hr
      exact h.frame hI rfl rfl id id

theorem tcpSlowtmrRexmit (h : KeptSteps P Q R app I O) (hR : R s .slow) (hm : ¬ s.pcb.maxRtx)
    (hb : s.pcb.persistBackoff = 0) (hr : Rudp.tcpSlowtmrRexmit s = .ok s') (hI : I s) : I s' := by
  unfold Rudp.tcpSlowtmrRexmit at hr
  obtain ⟨t, hs₁, ht, he⟩ : ∃ t, (if s.pcb.rtime ≥ 0 then
      ({ s with pcb.rtime := s16 (s.pcb.rtime + 1) } : St W) else s) = { s with pcb.rtime := t } ∧
      (t = s.pcb.rtime ∨ (0 ≤ s.pcb.rtime ∧ t = s16 (s.pcb.rtime + 1))) ∧
      t = if s.pcb.rtime ≥ 0 then s16 (s.pcb.rtime + 1) else s.pcb.rtime := by
    split
    · next hc => exact ⟨_, rfl, .inr ⟨hc, rfl⟩, rfl⟩
    · exact ⟨s.pcb.rtime, rfl, .inl rfl, rfl⟩
  rw [hs₁] at hr
  dsimp only at hr
  split at hr
  · next hc =>
    obtain ⟨rto, hrto, hr⟩ := Run.bind_eq_ok.mp hr
    exact h.rto hR ⟨hm, hb, hc.1, he ▸ hc.2⟩ hrto rfl hr hI
  · cases hr
    rcases ht with rfl | ⟨h0, rfl⟩
    · exact hI
    · exact h.rtime h0 hI

theorem tcpSlowtmrRemove (h : KeptSteps P Q R app I O) (reset : Bool) (hI : I s) :
    I (Rudp.tcpSlowtmrRemove s reset) := by
  unfold Rudp.tcpSlowtmrRemove
  refine h.callback rfl ?_
  have hI₁ : I { s with pcb := tcpPcbPurge s.pcb, list := .none } :=
    h.purge (s := { s with list := .none }) nofun (h.frame hI rfl rfl nofun id)
  generalize ({ s with pcb := tcpPcbPurge s.pcb, list := .none } : St W) = s₁ at hI₁
  dsimp only
  split_ifs
  · exact h.frame (h.rst hI₁) rfl rfl id id
  · exact h.frame hI₁ rfl rfl id id

theorem tcpSlowtmrSend (h : KeptSteps P Q R app I O) (hR : R s .slow)
    (hr : Rudp.tcpSlowtmrSend s = .ok s') (hI : I s) : I s' := by
  unfold Rudp.tcpSlowtmrSend at hr
  split at hr
  · cases hr
    exact hI
  · next hm =>
    split at hr
    · next hb => exact h.tcpSlowtmrPersist hR hm hb hr hI
    · next hb => exact h.tcpSlowtmrRexmit hR hm (by omega) hr hI

theorem tcpSlowtmrKeepalive (h : KeptSteps P Q R app I O) (hI : I s) :
    I (Rudp.tcpSlowtmrKeepalive s).2 := by
  unfold Rudp.tcpSlowtmrKeepalive
  split
  · split
    · exact hI
    · split
      · have hk := h.keepalive hI
        generalize tcpKeepalive s = x at hk
        obtain ⟨err, s₁⟩ := x
        dsimp only at hk ⊢
        split
        · exact h.frame hk rfl rfl id id
        · exact hk
      · exact hI
  · exact hI

theorem tcpSlowtmrOoseq (h : KeptSteps P Q R app I O) (hI : I s) : I (Rudp.tcpSlowtmrOoseq s) := by
  unfold Rudp.tcpSlowtmrOoseq
  split
  · exact h.ooseq hI
  · exact hI

theorem tcpSlowtmrPoll (h : KeptSteps P Q R app I O) (happ : AppOk P app)
    (hr : Rudp.tcpSlowtmrPoll app s = .ok s') (hI : I s) : I s' := by
  unfold Rudp.tcpSlowtmrPoll at hr
  dsimp only at hr
  split at hr
  · obtain ⟨⟨err, s₁⟩, h₁, hr⟩ := Run.bind_eq_ok.mp hr
    have hI₁ : I s₁ := h.tcpEvent happ h₁ (h.frame hI rfl rfl id id)
    dsimp only at hr
    split at hr
    · obtain ⟨_, -, hr⟩ := Run.bind_eq_ok.mp hr
      obtain ⟨⟨err', s₂⟩, h₂, rfl⟩ := Run.map_eq_ok.mp hr
      exact h.output h₂ hI₁
    · cases hr
      exact hI₁
  · cases hr
    exact h.frame hI rfl rfl id id

theorem tcpSlowtmr (h : KeptSteps P Q R app I O) (happ : AppOk P app) (hR : R s .slow)
    (hr : Rudp.tcpSlowtmr app s = .ok s') (hI : I s) : I s' := by
  obtain ⟨s₁, h₁, h₂⟩ := Run.bind_eq_ok.mp hr
  have hI₂ := h.tcpSlowtmrKeepalive (h.tcpSlowtmrSend hR h₁ hI)
  generalize Rudp.tcpSlowtmrKeepalive s₁ = x at h₂ hI₂
  obtain ⟨pcbReset, s₂⟩ := x
  dsimp only at h₂ hI₂
  have hI₃ := h.tcpSlowtmrOoseq hI₂
  split at h₂
  · cases h₂
    exact h.tcpSlowtmrRemove _ hI₃
  · exact h.tcpSlowtmrPoll happ h₂ hI₃

/-! ## Segments -/

/-- The MSS is left alone or set within its limits. -/
theorem tcpParseMss_cases (fuel : ℕ) (options : List Byte) (mss : ℕ) :
    tcpParseMss fuel options mss = mss ∨
      (0 < tcpParseMss fuel options mss ∧ tcpParseMss fuel options mss ≤ TCP_MSS) := by
  induction fuel generalizing options mss with
  | zero => exact .inl rfl
  | succ fuel ih =>
    unfold tcpParseMss
    split
    · exact .inl rfl
    · exact .inl rfl
    · exact ih _ _
    · next hi lo rest =>
      dsimp only
      have hm : 0 < TCP_MSS := by decide
      rcases ih rest (if hi.toNat * 256 + lo.toNat > TCP_MSS ∨ hi.toNat * 256 + lo.toNat = 0 then
        TCP_MSS else hi.toNat * 256 + lo.toNat) with he | he
      · refine .inr ?_
        rw [he]
        split_ifs <;> omega
      · exact .inr he
    · exact .inl rfl
    · split_ifs
      · exact .inl rfl
      · exact ih _ _
    · exact .inl rfl

theorem tcpProcessStart (h : KeptSteps P Q R app I O) (seg : InSegment)
    (hO : O (Rudp.tcpProcessStart s seg) seg) (hI : I s) : I (Rudp.tcpProcessStart s seg) := by
  have hmss := tcpParseMss_cases seg.options.length seg.options s.pcb.mss
  have he : Rudp.tcpProcessStart s seg = { s with
      pcb.tmr := if s.pcb.tfRxClosed then s.pcb.tmr else s.ticks, pcb.keepCntSent := 0,
      pcb.mss := tcpParseMss seg.options.length seg.options s.pcb.mss } := by
    unfold Rudp.tcpProcessStart tcpParseopt
    by_cases hc : s.pcb.tfRxClosed = true
    · simp only [hc, if_true]
    · simp only [if_neg hc]
  rw [he] at hO ⊢
  exact h.start hmss hO hI

theorem tcpProcess (h : KeptSteps P Q R app I O) (happ : AppOk P app) {seg : InSegment} {err : Err}
    (hQ : ∀ s₂ t, s₂ = Rudp.tcpProcessStart s seg →
      ((TcpState.ESTABLISHED.num ≤ s₂.pcb.state.num ∧ s₂.pcb.state ≠ .TIME_WAIT ∧
          seg.flags.syn = false ∧ t = s₂) ∨
        (s₂.pcb.state = .SYN_RCVD ∧ seg.flags.ack = true ∧
          tcpSeqBetween seg.ackno (s₂.pcb.lastack + 1) s₂.pcb.sndNxt ∧
          Rudp.tcpEvent app .accept { s₂ with pcb.state := .ESTABLISHED } = .ok (.ok, t))) →
      seg.flags.rst = false → Q t seg)
    (hO : (seg.flags.syn = true → s.pcb.state = .SYN_SENT ∨ s.pcb.state = .SYN_RCVD) →
      O (Rudp.tcpProcessStart s seg) seg)
    (hrst : seg.flags.rst = false) (hr : Rudp.tcpProcess app s seg = .ok (err, s')) (hI : I s) :
    I s' := by
  unfold Rudp.tcpProcess at hr
  rw [hrst, if_neg (by decide)] at hr
  split at hr
  · cases hr
    exact h.ackNow hI
  next hsyn =>
  have hO := hO fun hs => by
    by_contra hc
    exact hsyn ⟨hs, not_or.mp hc⟩
  have hI₁ := h.tcpProcessStart seg hO hI
  have hst : (Rudp.tcpProcessStart s seg).pcb.state = s.pcb.state := by
    unfold Rudp.tcpProcessStart
    dsimp only
    split <;> rfl
  have hQ' := fun t => hQ _ t rfl
  generalize Rudp.tcpProcessStart s seg = s₁ at hr hI₁ hst hQ' hO
  unfold tcpProcessState at hr
  split at hr
  · next hs => exact h.synSent happ hs hO hr hI₁
  · next hs =>
    exact h.synRcvd happ hs hO
      (fun t hack hbet ht => hQ' t (.inr ⟨hs, hack, hbet, ht⟩) hrst) hr hI₁
  all_goals first
  | next hs =>
    obtain ⟨s₂, h₂, hr⟩ := Run.bind_eq_ok.mp hr
    cases hr
    rw [← hst, hs] at hsyn
    have hsyn' : seg.flags.syn = false := by simpa using hsyn
    have hnum : TcpState.ESTABLISHED.num ≤ s₁.pcb.state.num := by simp [hs, TcpState.num]
    exact h.receive hnum hsyn' (hQ' s₁ (.inl ⟨hnum, by simp [hs], hsyn', rfl⟩) hrst) h₂ hI₁
  | cases hr
    exact hI₁

theorem tcpInputRefused (h : KeptSteps P Q R app I O) (happ : AppOk P app) {seg : InSegment}
    {dropped : Bool} (hr : Rudp.tcpInputRefused app s seg = .ok (dropped, s')) (hI : I s) : I s' := by
  unfold Rudp.tcpInputRefused at hr
  split at hr
  · obtain ⟨⟨err, s₁⟩, h₁, hr⟩ := Run.bind_eq_ok.mp hr
    have hI₁ := h.tcpProcessRefusedData happ h₁ hI
    dsimp only at hr
    split at hr
    · cases hr
      exact hI₁
    · obtain ⟨_, -, hr⟩ := Run.bind_eq_ok.mp hr
      cases hr
      exact hI₁
  · cases hr
    exact hI

theorem tcpInputRecv (h : KeptSteps P Q R app I O) (happ : AppOk P app) {gone : Bool}
    (hr : Rudp.tcpInputRecv app s = .ok (gone, s')) (hI : I s) : I s' := by
  unfold Rudp.tcpInputRecv at hr
  split at hr
  · cases hr
    exact hI
  · obtain ⟨_, -, hr⟩ := Run.bind_eq_ok.mp hr
    split at hr
    · obtain ⟨s₁, h₁, hr⟩ := Run.bind_eq_ok.mp hr
      cases hr
      exact h.tcpAbandon h₁ hI
    · obtain ⟨⟨err, s₁⟩, h₁, hr⟩ := Run.bind_eq_ok.mp hr
      have hI₁ := h.tcpEvent happ h₁ hI
      dsimp only at hr
      split at hr
      · cases hr
        exact hI₁
      · obtain ⟨_, -, hr⟩ := Run.bind_eq_ok.mp hr
        split at hr <;> cases hr
        · exact h.park nofun hI₁
        · exact hI₁

theorem tcpInputSent (h : KeptSteps P Q R app I O) (happ : AppOk P app) {err : Err}
    (hr : Rudp.tcpInputSent app s = .ok (err, s')) (hI : I s) : I s' := by
  unfold Rudp.tcpInputSent at hr
  split at hr
  · exact h.tcpEvent happ hr hI
  · cases hr
    exact hI

end KeptSteps

namespace Kept

variable {P : Core → Api → Prop} {Q : St W → InSegment → Prop} {R : St W → Tmr → Prop}
variable {O : St W → InSegment → Prop} {I : St W → Prop} {s s' : St W} {app : App W}

theorem tcpProcessSynRcvd (h : Kept P Q R app I O) (happ : AppOk P app) {seg : InSegment} {err : Err}
    (hst : s.pcb.state = .SYN_RCVD) (hO : O s seg)
    (hQ : ∀ t, seg.flags.ack = true → tcpSeqBetween seg.ackno (s.pcb.lastack + 1) s.pcb.sndNxt →
      Rudp.tcpEvent app .accept { s with pcb.state := .ESTABLISHED } = .ok (.ok, t) → Q t seg)
    (hr : Rudp.tcpProcessSynRcvd app s seg = .ok (err, s')) (hI : I s) : I s' := by
  unfold Rudp.tcpProcessSynRcvd at hr
  split at hr
  · next hack =>
    split at hr
    · next hbet =>
      obtain ⟨⟨ret, s₁⟩, h₁, hr⟩ := Run.bind_eq_ok.mp hr
      have hI₁ := h.tcpEvent happ h₁ (h.accept hst hbet hI)
      dsimp only at hr
      split at hr
      · split at hr
        · obtain ⟨_, -, hr⟩ := Run.bind_eq_ok.mp hr
          obtain ⟨s₂, h₂, hr⟩ := Run.bind_eq_ok.mp hr
          cases hr
          exact h.tcpAbandon h₂ hI₁
        · cases hr
          exact hI₁
      · next hret =>
        have hok : ret = .ok := by simpa using hret
        obtain ⟨_, -, hr⟩ := Run.bind_eq_ok.mp hr
        obtain ⟨s₂, h₂, hr⟩ := Run.bind_eq_ok.mp hr
        cases hr
        rw [hok] at h₁
        exact h.receiveAccept happ hst hI hack h₁ (hQ s₁ hack hbet h₁) h₂ hI₁
    · cases hr
      exact h.rst hI
  · next hack =>
    split at hr
    · next hsyn =>
      cases hr
      exact h.rexmit hst ⟨by simpa using hack, hsyn⟩ hO hI
    · cases hr
      exact hI

/-- The parts of `tcp_process` in `SYN_RCVD` together. -/
theorem toSteps (h : Kept P Q R app I O) : KeptSteps P Q R app I O :=
  { h with
    synRcvd := fun happ hst hO hQ hr hI => h.tcpProcessSynRcvd happ hst hO hQ hr hI }

end Kept

section Ends

variable {P : Core → Api → Prop} {N : Bool → Option (List Pbuf × Bool) → Prop} {s s' : St W}
variable {app : App W}

/-- `tcp_process` ends the data behind `tcp_receive` when it has found a FIN. -/
theorem ended_tcpProcessAfter {st : TcpState} {seg : InSegment}
    (hnum : TcpState.ESTABLISHED.num ≤ st.num)
    (hst : s.pcb.state = st ∨ (st = .ESTABLISHED ∧ s.pcb.state = .CLOSE_WAIT))
    (h : s.recvGotFin = true ∨ st.Ended) : (tcpProcessAfter st seg s).pcb.state.Ended := by
  have htw (t : St W) : (toTimeWait t).pcb.state.Ended := ended_timeWait
  have hpast (hp : TcpState.CLOSE_WAIT.num ≤ st.num) : s.pcb.state.Ended := by
    rcases hst with e | ⟨rfl, -⟩
    · exact .inr (by rw [e]; exact hp)
    · exact absurd hp (by decide)
  have hgot (ho : ¬ st.Ended) : s.recvGotFin = true := h.resolve_right ho
  unfold tcpProcessAfter
  cases st with
  | ESTABLISHED =>
    dsimp only
    rw [if_pos (hgot (by decide))]
    exact ended_closeWait
  | CLOSE_WAIT =>
    dsimp only
    split
    · exact ended_closeWait
    · exact hpast (by decide)
  | FIN_WAIT_1 =>
    dsimp only
    rw [if_pos (hgot (by decide))]
    split
    · exact htw _
    · exact ended_closing
  | FIN_WAIT_2 =>
    dsimp only
    rw [if_pos (hgot (by decide))]
    exact htw _
  | CLOSING =>
    dsimp only
    split
    · exact htw _
    · exact hpast (by decide)
  | LAST_ACK =>
    dsimp only
    split <;> exact hpast (by decide)
  | TIME_WAIT => exact hpast (by decide)
  | _ => exact absurd hnum (by decide)

/-- What follows `tcp_receive`, which has found the pcb in `st`. -/
theorem ended_after {st : TcpState} {seg : InSegment} {after : St W → St W}
    (hafter : after = tcpProcessAfter st seg ∨ after = tcpProcessAcceptAfter)
    (hnum : TcpState.ESTABLISHED.num ≤ st.num)
    (hst : s.pcb.state = st ∨ (st = .ESTABLISHED ∧ s.pcb.state = .CLOSE_WAIT))
    (h : s.recvGotFin = true ∨ st.Ended) : (after s).pcb.state.Ended := by
  rcases hafter with rfl | rfl
  · exact ended_tcpProcessAfter hnum hst h
  · unfold tcpProcessAcceptAfter
    dsimp only
    split
    · exact ended_closeWait
    · next hgot =>
      have he := h.resolve_left hgot
      rcases hst with e | ⟨rfl, -⟩
      · exact e.symm ▸ he
      · exact absurd he (by decide)

theorem noted_after (hN : Noting N) {st : TcpState} {seg : InSegment} {after : St W → St W}
    (hafter : after = tcpProcessAfter st seg ∨ after = tcpProcessAcceptAfter)
    (h : N (after s).recvGotFin (after s).pcb.refusedData) :
    N s.recvGotFin s.pcb.refusedData := by
  have htw {t : St W} (h : N (toTimeWait t).recvGotFin (toTimeWait t).pcb.refusedData) :
      N t.recvGotFin t.pcb.refusedData := by
    unfold toTimeWait tcpPcbPurge at h
    dsimp only at h
    split at h
    · exact hN.unparked h
    · exact h
  rcases hafter with rfl | rfl
  · unfold tcpProcessAfter at h
    dsimp only at h
    split at h
    · split at h <;> exact h
    · split at h <;> exact h
    · split at h
      · split at h
        · exact htw (t := tcpAckNow s) h
        · exact h
      · split at h <;> exact h
    · split at h
      · exact htw (t := tcpAckNow s) h
      · exact h
    · split at h
      · exact htw h
      · exact h
    · split at h <;> exact h
    · exact h
  · unfold tcpProcessAcceptAfter at h
    dsimp only at h
    split at h <;> exact h

/-- `tcp_receive` and what follows it. -/
theorem St.Ends.processReceive (hN : Noting N) {seg : InSegment} {after : St W → St W}
    (hafter : after = tcpProcessAfter s.pcb.state seg ∨ after = tcpProcessAcceptAfter)
    (hr : tcpProcessReceive s seg after = .ok s') (hI : s.Ends N) : s'.Ends N := by
  obtain ⟨s₁, h₁, hr⟩ := Run.bind_eq_ok.mp hr
  cases hr
  have hst := state_tcpReceive h₁
  have hd : s₁.pcb.refusedData = s.pcb.refusedData :=
    congrArg CtlView.refusedData (ctlView_tcpReceive h₁)
  obtain ⟨_, ha, h₁⟩ := Run.bind_eq_ok.mp h₁
  intro hn
  refine ended_after hafter (lwipAssert_ok ha) hst ?_
  have hn₁ := noted_after hN hafter hn
  rw [hd] at hn₁
  exact (hN.received hn₁).imp_right fun hn => hI hn

/-- Every operation keeps this. -/
theorem kept_ends {Q : St W → InSegment → Prop} {R : St W → Tmr → Prop}
    {O : St W → InSegment → Prop} (hN : Noting N)
    (hno : NeverConnects P) :
    Kept P Q R app (St.Ends (W := W) N) O where
  toKeptApi := keptApi_ends hN hno
  reset hr hI := (keptApi_ends hN hno).tcpInputRemove hr hI
  keepalive {s} hI := hI.of_rcvView (rcvView_tcpKeepalive s)
  fasttmr {s s' err} _ _ hr hI := by
    have h : s'.Ends N := (keptApi_ends hN hno).output (s := tcpAckNow s) hr hI
    exact h
  probe _ _ hI := St.Ends.of_rcvView (by exact hI) (rcvView_tcpZeroWindowProbe _)
  backoff _ _ _ hI := hI
  rtime _ hI := hI
  rto _ _ _ _ hr hI := St.Ends.of_rcvView (by exact hI) (rcvView_tcpRexmitRto hr)
  park hd hI hn := by
    rcases hN.parked hn with hn | ⟨hf, hall⟩
    · exact hI (hN.unparked hn)
    · exact hd hf hno fun t ht ⟨data, hp⟩ => ht (by rw [hp]; exact hall _ _)
  rcvWndFin _ hI := by
    unfold rcvWndFin
    split <;> exact hI
  start _ _ hI := hI
  synSent {s s' seg err} happ hst _ hr hI := by
    refine (keptApi_ends hN hno).tcpProcessSynSent (fun {rseg rest} _ _ _ hI hn => ?_) happ hr hI
    have hn : N s.recvGotFin s.pcb.refusedData := hn
    exact absurd hn (hI.of_open hst (by decide))
  receive _ _ _ hr hI := hI.processReceive hN (.inl rfl) hr
  ooseq hI := hI
  rexmit {s _} _ _ _ hI := hI.of_rcvView (rcvView_tcpRexmit s)
  accept hst _ hI hn := absurd hn (hI.of_open hst (by decide))
  receiveAccept _ _ _ _ _ _ hr hI := hI.processReceive hN (.inr rfl) hr

/-- The callbacks of `tcp_input` in front of the one for EOF. -/
theorem St.Ends.events (hN : Noting N) (hno : NeverConnects P) (happ : AppOk P app) {err : Err}
    {gone : Bool} {s₁ : St W} (h₁ : tcpInputSent app s = .ok (err, s₁))
    (h₂ : tcpInputRecv app s₁ = .ok (gone, s')) (hI : s.Ends N) : s'.Ends N := by
  have hk : KeptSteps P (fun _ _ => True) (fun _ _ => True) app (St.Ends N) :=
    (kept_ends hN hno).toSteps
  exact hk.tcpInputRecv happ h₂ (hk.tcpInputSent happ h₁ hI)

/-- `tcp_input` up to the callbacks. -/
theorem St.Ends.processed (hN : Noting N) (hno : NeverConnects P) (happ : AppOk P app)
    {seg : InSegment} {err : Err} {dropped : Bool} {s₁ : St W}
    (h₁ : tcpInputRefused app s seg = .ok (dropped, s₁))
    (h₂ : tcpProcess app { s₁ with inputPcb := true } seg = .ok (err, s')) (hI : s.Ends N) :
    s'.Ends N := by
  have hk : KeptSteps P (fun _ _ => True) (fun _ _ => True) app (St.Ends N) :=
    (kept_ends hN hno).toSteps
  have hI₁ : St.Ends N { s₁ with inputPcb := true } :=
    hk.frame (hk.tcpInputRefused happ h₁ hI) rfl rfl id id
  by_cases hrst : seg.flags.rst = true
  · unfold tcpProcess at h₂
    rw [hrst, if_pos rfl] at h₂
    rcases tcpProcessRst_cases { s₁ with inputPcb := true } seg with e | e <;>
      rw [e] at h₂ <;> cases h₂
    · exact hI₁
    · exact hI₁
  · exact hk.tcpProcess happ (fun _ _ _ _ _ => trivial) (fun _ => trivial) (by simpa using hrst) h₂ hI₁

end Ends

namespace KeptSteps

variable {P : Core → Api → Prop} {Q : St W → InSegment → Prop} {R : St W → Tmr → Prop}
variable {O : St W → InSegment → Prop} {I : St W → Prop} {s s' : St W} {app : App W}

theorem tcpInputFin (h : KeptSteps P Q R app I O) (happ : AppOk P app) {aborted : Bool}
    (hgot : s.recvGotFin = true → EofDue P I s)
    (hr : Rudp.tcpInputFin app s = .ok (aborted, s')) (hI : I s) : I s' := by
  unfold Rudp.tcpInputFin at hr
  split at hr
  · next hfin =>
    split at hr
    · cases hr
      exact h.park (fun _ => hgot hfin) hI
    · obtain ⟨⟨err, s₁⟩, h₁, hr⟩ := Run.bind_eq_ok.mp hr
      cases hr
      exact h.tcpEventClosed happ h₁ (hgot hfin) hI
  · cases hr
    exact hI

theorem tcpInputEvents (h : KeptSteps P Q R app I O) (happ : AppOk P app)
    (hgot : NeverConnects P → s.Ends fun g _ => g = true)
    (hr : Rudp.tcpInputEvents app s = .ok s') (hI : I s) : I s' := by
  obtain ⟨⟨err, s₁⟩, h₁, hr⟩ := Run.bind_eq_ok.mp hr
  have hI₁ := h.tcpInputSent happ h₁ hI
  dsimp only at hr
  split at hr
  · cases hr
    exact h.frame hI₁ rfl rfl id id
  obtain ⟨_, -, hr⟩ := Run.bind_eq_ok.mp hr
  split at hr
  · exact h.tcpInputRemove hr hI₁
  obtain ⟨⟨gone, s₂⟩, h₂, hr⟩ := Run.bind_eq_ok.mp hr
  have hI₂ := h.tcpInputRecv happ h₂ hI₁
  dsimp only at hr
  split at hr
  · cases hr
    exact h.frame hI₂ rfl rfl id id
  obtain ⟨⟨aborted, s₃⟩, h₃, hr⟩ := Run.bind_eq_ok.mp hr
  have hI₃ := h.tcpInputFin happ (fun hg hno _ => (hgot hno).events noting_gotFin hno happ h₁ h₂ hg) h₃ hI₂
  dsimp only at hr
  split at hr
  · cases hr
    exact h.frame hI₃ rfl rfl id id
  obtain ⟨_, -, hr⟩ := Run.bind_eq_ok.mp hr
  obtain ⟨⟨err', s₄⟩, h₄, hr⟩ := Run.bind_eq_ok.mp hr
  cases hr
  exact h.frame (h.output h₄ (h.frame hI₃ rfl rfl id id)) rfl rfl id id

theorem tcpInput (h : KeptSteps P Q R app I O) (happ : AppOk P app) {seg : InSegment}
    (hQ : ∀ t, Receives app s seg t → Q t seg) (hO : ∀ t, Processes app s seg t → O t seg)
    (hr : Rudp.tcpInput app s seg = .ok s') (hI : I s) : I s' := by
  obtain ⟨⟨dropped, s₁⟩, h₁, hr⟩ := Run.bind_eq_ok.mp hr
  have hI₁ := h.tcpInputRefused happ h₁ (h.frame hI rfl rfl id nofun)
  dsimp only at hr
  split at hr
  · cases hr
    exact h.frame hI₁ rfl rfl id id
  next hd =>
  have hd' : dropped = false := by simpa using hd
  rw [hd'] at h₁
  obtain ⟨⟨err, s₂⟩, h₂, hr⟩ := Run.bind_eq_ok.mp hr
  have hi : I { s₁ with inputPcb := true } := h.frame hI₁ rfl rfl id id
  have hgot (hno : NeverConnects P) : s₂.Ends fun g _ => g = true :=
    St.Ends.processed noting_gotFin hno happ h₁ h₂ nofun
  by_cases hrst : seg.flags.rst = true
  · unfold Rudp.tcpProcess at h₂
    rw [hrst, if_pos rfl] at h₂
    generalize ({ s₁ with inputPcb := true } : St W) = s₁' at h₂ hi
    rcases tcpProcessRst_cases s₁' seg with e | e
    · rw [e] at h₂
      cases h₂
      exact h.reset hr hi
    · rw [e] at h₂
      cases h₂
      dsimp only at hr
      rw [if_neg (by decide)] at hr
      split at hr
      · exact h.tcpInputRemove hr hi
      · exact h.tcpInputEvents happ hgot hr hi
  · have hrst' : seg.flags.rst = false := by simpa using hrst
    have hI₂ : I s₂ := h.tcpProcess happ
      (fun s₂ t hs ht hrst => hQ t ⟨s₁, h₁, hrst, s₂, hs, ht⟩)
      (fun hsyn => hO _ ⟨s₁, h₁, hrst', hsyn, rfl⟩) hrst' h₂ hi
    dsimp only at hr
    split at hr
    · cases hr
      exact h.frame hI₂ rfl rfl id id
    split at hr
    · exact h.tcpInputRemove hr hI₂
    · exact h.tcpInputEvents happ hgot hr hI₂

theorem tcpTimewaitInput (h : KeptSteps P Q R app I O) {seg : InSegment}
    (hr : Rudp.tcpTimewaitInput s seg = .ok s') (hI : I s) : I s' := by
  unfold Rudp.tcpTimewaitInput at hr
  split at hr
  · cases hr
    exact hI
  split at hr
  · cases hr
    exact h.rst hI
  generalize hs₁ : (if seg.flags.syn = false ∧ seg.flags.fin = true then
    ({ s with pcb.tmr := s.ticks } : St W) else s) = s₁ at hr
  have hI₁ : I s₁ := by
    rw [← hs₁]
    split
    · exact h.frame hI rfl rfl id id
    · exact hI
  dsimp only at hr
  split at hr
  · obtain ⟨⟨err, s₂⟩, h₂, rfl⟩ := Run.map_eq_ok.mp hr
    exact h.output h₂ (h.ackNow hI₁)
  · cases hr
    exact hI₁

/-- The invariant holds behind the options of a segment that `tcp_receive` gets to see. -/
theorem receives (h : KeptSteps P Q R app I O) (happ : AppOk P app) {seg : InSegment} {t : St W}
    (hO : ∀ t, Processes app s seg t → O t seg) (ht : Receives app s seg t) (hI : I s) :
    ∃ s₂, I s₂ ∧ (t = s₂ ∨ (s₂.pcb.state = .SYN_RCVD ∧
      Rudp.tcpEvent app .accept { s₂ with pcb.state := .ESTABLISHED } = .ok (.ok, t))) := by
  obtain ⟨s₁, h₁, hrst, s₂, rfl, ht⟩ := ht
  have hI₁ : I s₁ := h.tcpInputRefused happ h₁ (h.frame hI rfl rfl id nofun)
  have hsyn (hs : seg.flags.syn = true) : s₁.pcb.state = .SYN_SENT ∨ s₁.pcb.state = .SYN_RCVD := by
    rcases ht with ⟨-, -, hn, -⟩ | ⟨hst, -⟩
    · rw [hs] at hn
      cases hn
    · refine .inr (Eq.trans ?_ hst)
      unfold Rudp.tcpProcessStart
      dsimp only
      split <;> rfl
  have hI₂ := h.tcpProcessStart (s := { s₁ with inputPcb := true }) seg
    (hO _ ⟨s₁, h₁, hrst, hsyn, rfl⟩) (h.frame hI₁ rfl rfl id id)
  refine ⟨_, hI₂, ?_⟩
  rcases ht with ⟨-, -, -, rfl⟩ | ⟨hst, -, -, ht⟩
  · exact .inl rfl
  · exact .inr ⟨hst, ht⟩

end KeptSteps

/-! ## Operations -/

/-- The condition on one operation: an API call meets `P`, a segment that `tcp_receive` gets to see
    meets `Q` in the state in which it is called, and a timer that fires meets `R`. -/
def Kept.StepOk (P : Core → Api → Prop) (Q : St W → InSegment → Prop) (R : St W → Tmr → Prop)
    (app : App W) (s : St W) : List Bool × Op → Prop
  | (_, .api a) => P s.core a
  | (fails, .input seg) => ∀ t, Receives app { s with fails := fails } seg t → Q t seg
  | (fails, .fasttmr) => s.list = .active → R { s with fails := fails } .fast
  | (fails, .slowtmr) => s.list = .active → R { s with fails := fails, ticks := s.ticks + 1 } .slow
  | (_, .kill _) => True

/-- The condition on the options: a segment whose options are read meets `O` in the state behind
    it. -/
def Kept.OptionsOk (O : St W → InSegment → Prop) (app : App W) (s : St W) (op : List Bool × Op) : Prop :=
  ∀ seg, op.2 = .input seg → ∀ t, Processes app { s with fails := op.1 } seg t → O t seg

/-- Every operation keeps the invariant. -/
theorem KeptSteps.stepOptions (h : KeptSteps P Q R app I O) (happ : AppOk P app) {op : List Bool × Op}
    (hop : Kept.StepOk P Q R app s op) (hO : Kept.OptionsOk O app s op) (hr : connStep app s op = .ok s')
    (hI : I s) : I s' := by
  obtain ⟨fails, op⟩ := op
  have hI₀ : I { s with fails := fails } := h.frame hI rfl rfl id id
  unfold connStep connOp at hr
  cases op with
  | api a =>
    obtain ⟨⟨err, s₁⟩, h₁, rfl⟩ := Run.map_eq_ok.mp hr
    exact h.apiCall (by exact hop) h₁ hI₀
  | input seg =>
    dsimp only at hr
    split at hr
    · exact h.tcpInput happ hop (hO seg rfl) hr hI₀
    · exact h.tcpTimewaitInput hr hI₀
    · cases hr
      exact hI₀
  | fasttmr =>
    dsimp only at hr
    split at hr
    · next hl => exact h.tcpFasttmr happ (hop hl) hr hI₀
    · cases hr
      exact hI₀
  | slowtmr =>
    have hI₁ : I { s with fails := fails, ticks := s.ticks + 1 } := h.frame hI rfl rfl id id
    dsimp only at hr
    split at hr
    · next hl => exact h.tcpSlowtmr happ (hop hl) hr hI₁
    · cases hr
      unfold tcpSlowtmrTw
      split
      · exact h.frame (h.purge (s := { s with
          fails := fails, ticks := s.ticks + 1, list := .none }) nofun (h.frame hI₁ rfl rfl nofun id)) rfl rfl id id
      · exact hI₁
    · cases hr
      exact hI₁
  | kill reset =>
    dsimp only at hr
    split at hr
    · exact h.tcpAbandon hr hI₀
    · cases hr
      exact hI₀

namespace Kept

variable {P : Core → Api → Prop} {Q : St W → InSegment → Prop} {R : St W → Tmr → Prop}
variable {O : St W → InSegment → Prop} {I : St W → Prop} {s s' : St W} {app : App W}

/-- The invariant holds where `tcp_receive` is called. -/
theorem receives (h : Kept P Q R app I) (happ : AppOk P app) {seg : InSegment} {t : St W}
    (ht : Receives app s seg t) (hI : I s) : I t := by
  obtain ⟨s₁, h₁, -, s₂, rfl, ht⟩ := ht
  have hI₁ : I s₁ := h.toSteps.tcpInputRefused happ h₁ (h.frame hI rfl rfl id nofun)
  have hI₂ := h.toSteps.tcpProcessStart (s := { s₁ with inputPcb := true }) seg trivial
    (h.frame hI₁ rfl rfl id id)
  rcases ht with ⟨-, -, -, rfl⟩ | ⟨hs, -, hbet, ht⟩
  · exact hI₂
  · exact h.tcpEvent happ ht (h.accept hs hbet hI₂)

/-- Every operation keeps the invariant. -/
theorem stepOptions (h : Kept P Q R app I O) (happ : AppOk P app) {op : List Bool × Op}
    (hop : StepOk P Q R app s op) (hO : OptionsOk O app s op) (hr : connStep app s op = .ok s')
    (hI : I s) : I s' :=
  h.toSteps.stepOptions happ hop hO hr hI

theorem step (h : Kept P Q R app I) (happ : AppOk P app) {op : List Bool × Op}
    (hop : StepOk P Q R app s op) (hr : connStep app s op = .ok s') (hI : I s) : I s' :=
  h.stepOptions happ hop (fun _ _ _ _ => trivial) hr hI

end Kept

/-- What holds of a pcb of `tcp_alloc`, and behind the SYN-ACK, holds where a connection begins. -/
theorem Kept.fresh {P : Core → Api → Prop} {Q : St W → InSegment → Prop}
    {R : St W → Tmr → Prop} {I : St W → Prop}
    {s : St W} (h : Kept P Q R app I) (halloc : ∀ s, Allocated s → I s)
    (hlisten : ∀ {s s' : St W} {err : Err} (seg : InSegment) (localPort : ℕ) (serverId : U32),
      Allocated s → tcpEnqueueFlags (tcpListenPcb s seg localPort serverId)
        { syn := true, ack := true } = .ok (err, s') → I s')
    (hs : Fresh s) : I s := by
  cases hs with
  | alloc ha => exact halloc _ ha
  | listen seg localPort serverId ha hr =>
    obtain ⟨⟨err', s₁⟩, h₁, hr⟩ := Run.bind_eq_ok.mp hr
    have hI := hlisten seg localPort serverId ha h₁
    dsimp only at hr
    split at hr
    · obtain ⟨s₂, h₂, hr⟩ := Run.bind_eq_ok.mp hr
      cases hr
      exact h.tcpAbandon h₂ hI
    · exact h.output hr hI

/-- What holds at the start of a run, and is kept, holds throughout. -/
theorem Kept.reach {P : Core → Api → Prop} {Q : St W → InSegment → Prop}
    {R : St W → Tmr → Prop} {I : St W → Prop}
    {app : App W} {s₀ s : St W} (h : Kept P Q R app I) (happ : AppOk P app) (h₀ : I s₀)
    (hr : Run.Reach (connStep app) (Kept.StepOk P Q R app) s₀ s) : I s :=
  hr.invariant h₀ fun _ _ _ hI hop he => h.step happ hop he hI

/-! ## Invariants of the core -/

/-- What happens to a pcb but for the timers that send, one thing at a time. `P` is the condition on
    API calls, `Q` that on segments, in the state in which `tcp_receive` is called. -/
structure PreservedBase (P : Core → Api → Prop) (Q : Core → InSegment → Prop) (I : St W → Prop) :
    Prop where
  frame {s s' : St W} : I s → s'.core = s.core → (s'.list = .active → s.list = .active) → I s'
  callback {s : St W} {o : Out} : o.isCallback = true → I s → I (s.emit o)
  connect {s s' : St W} {newPort : ℕ} {iss : U32} {err : Err} :
    P s.core (.connect newPort iss) → tcpConnectSyn s newPort iss = .ok (err, s') → I s → I s'
  write {s s' : St W} {arg : List Byte} {copy more : Bool} {err : Err} :
    P s.core (.write arg copy more) → tcpWrite s arg copy more = .ok (err, s') → I s →
      I (if err = .ok then s'.emit (.wrote arg) else s')
  recved {s : St W} {len : Fin 65536} {w : ℕ} :
    P s.core (.recved len) → rcvWndRecved s.pcb len = .ok w → I s → I { s with pcb.rcvWnd := w }
  fin {s s' : St W} {a : Api} {st : TcpState} {err : Err} :
    P s.core a → (a = .close ∨ ∃ rx, a = .shutdown rx true) → closeState s.pcb.state = some st →
      tcpSendFin s = .ok (err, s') → I s → I (if err = .ok then { s' with pcb.state := st } else s')
  output {s s' : St W} {err : Err} : tcpOutput s = .ok (err, s') → I s → I s'
  rexmit {s : St W} : s.pcb.state = .SYN_RCVD → I s → I (tcpRexmit s)
  rcvWndFin {s : St W} : I s → I { s with pcb := rcvWndFin s.pcb }
  mss {s : St W} {n : ℕ} : 0 < n → n ≤ TCP_MSS → I s → I { s with pcb.mss := n }
  establish {s : St W} {seg : InSegment} {rseg : TcpSeg} {rest : List TcpSeg} :
    s.pcb.state = .SYN_SENT → s.pcb.unacked = rseg :: rest → s.pcb.sndQueuelen > 0 →
      seg.ackno = rseg.tcphdr.seqno + 1 → I s → I { s with pcb := establish s.pcb seg rest }
  accept {s : St W} {seg : InSegment} : s.pcb.state = .SYN_RCVD →
    tcpSeqBetween seg.ackno (s.pcb.lastack + 1) s.pcb.sndNxt → I s →
      I { s with pcb.state := .ESTABLISHED }
  receive {s s' : St W} {seg : InSegment} : seg.flags.syn = false → Q s.core seg →
    tcpProcessReceive s seg (tcpProcessAfter s.pcb.state seg) = .ok s' → I s → I s'
  receiveAccept {app : App W} {s s₁ s' : St W} {seg : InSegment} :
    AppOk P app → s.pcb.state = .SYN_RCVD → I s → seg.flags.ack = true →
      tcpEvent app .accept { s with pcb.state := .ESTABLISHED } = .ok (.ok, s₁) → Q s₁.core seg →
      tcpProcessReceive s₁ seg tcpProcessAcceptAfter = .ok s' → I s₁ → I s'
  purge {s : St W} : s.list ≠ .active → I s → I { s with pcb := tcpPcbPurge s.pcb }
  timeWait {t s : St W} : ClosesByReset t s → s.list ≠ .active → s.pcb.state = .ESTABLISHED →
    s.pcb.unsent = [] → s.pcb.unacked = [] → s.pcb.ooseq = [] → I s →
      I { s with pcb.state := .TIME_WAIT }
  closed {s : St W} : s.list ≠ .active → s.pcb.unsent = [] → s.pcb.unacked = [] →
    s.pcb.ooseq = [] → I s → I { s with pcb.state := .CLOSED }
  clear {s : St W} : s.list ≠ .active → s.pcb.state = .CLOSED → I s →
    I { s with pcb.unacked := [], pcb.unsent := [], pcb.ooseq := [] }
  ooseq {s : St W} : I s → I { s with pcb.ooseq := [] }

/-- What happens to a pcb, the timers included. -/
structure Preserved (P : Core → Api → Prop) (Q : Core → InSegment → Prop) (I : St W → Prop) :
    Prop extends PreservedBase P Q I where
  rexmitRto {s s' : St W} : tcpRexmitRto s = .ok s' → I s → I s'
  probe {s : St W} : I s → I (tcpZeroWindowProbe s).2

/-! ## What is no part of the core -/

theorem core_of_quiet {s s' : St W} (hq : s'.pcb.quiet = s.pcb.quiet) (ht : s'.trace = s.trace) :
    s'.core = s.core := by
  have he {α : Type} (f : Pcb → α) (hf : ∀ p : Pcb, f p = f p.quiet) : f s'.pcb = f s.pcb := by
    rw [hf s'.pcb, hf s.pcb, hq]
  have hc : ∀ t : St W, t.core =
      { t.core with toSndView := { t.sndView with log := t.trace.filter fun o => !o.isCtl } } :=
    fun _ => rfl
  rw [hc s', hc s, ht]
  simp only [St.core, St.sndView, he Pcb.connId (fun _ => rfl), he Pcb.tfFin (fun _ => rfl),
    he Pcb.mss (fun _ => rfl), he Pcb.lastack (fun _ => rfl), he Pcb.sndNxt (fun _ => rfl),
    he Pcb.sndLbb (fun _ => rfl), he Pcb.sndWndMax (fun _ => rfl), he Pcb.sndBuf (fun _ => rfl),
    he Pcb.sndQueuelen (fun _ => rfl), he Pcb.unsentOversize (fun _ => rfl),
    he Pcb.unsent (fun _ => rfl), he Pcb.unacked (fun _ => rfl), he Pcb.state (fun _ => rfl),
    he Pcb.rcvNxt (fun _ => rfl), he Pcb.rcvWnd (fun _ => rfl), he Pcb.ooseq (fun _ => rfl)]

theorem core_of_views {s s' : St W} (hs : s'.sndView = s.sndView) (hr : s'.rcvView = s.rcvView) :
    s'.core = s.core := by
  have e1 : s'.pcb.state = s.pcb.state := congrArg RcvView.state hr
  have e2 : s'.pcb.rcvNxt = s.pcb.rcvNxt := congrArg RcvView.rcvNxt hr
  have e3 : s'.pcb.rcvWnd = s.pcb.rcvWnd := congrArg RcvView.rcvWnd hr
  have e4 : s'.pcb.ooseq = s.pcb.ooseq := congrArg RcvView.ooseq hr
  simp only [St.core, hs, e1, e2, e3, e4]

@[simp] theorem core_tcpSendEmptyAck (s : St W) : (tcpSendEmptyAck s).2.core = s.core :=
  core_of_views (sndView_tcpSendEmptyAck s) (rcvView_tcpSendEmptyAck s)

@[simp] theorem core_tcpKeepalive (s : St W) : (tcpKeepalive s).2.core = s.core :=
  core_of_views (sndView_tcpKeepalive s) (rcvView_tcpKeepalive s)

@[simp] theorem core_tcpRst (s : St W) (seqno ackno : U32) :
    (tcpRst s seqno ackno s.pcb.connId).core = s.core :=
  core_of_views (sndView_tcpRst s _ _) (rcvView_tcpRst s _ _ _)

@[simp] theorem core_tcpRstReply (s : St W) (seg : InSegment) : (tcpRstReply s seg).core = s.core :=
  core_tcpRst s _ _

@[simp] theorem core_tcpAckNow (s : St W) : (tcpAckNow s).core = s.core := rfl

@[simp] theorem core_emit_recved (s : St W) (len : ℕ) (pcb : Pcb) :
    (s.emit (.recved len pcb)).core = s.core := by
  simp [St.core, St.sndView, St.emit, Out.isCtl]

theorem PreservedBase.toKeptApi {P : Core → Api → Prop} {Q : Core → InSegment → Prop}
    {I : St W → Prop} (h : PreservedBase P Q I) : KeptApi P I where
  frame hI hq ht hl _ := h.frame hI (core_of_quiet hq ht) hl
  unpark hI := h.frame hI rfl id
  callback := h.callback
  ackNow hI := h.frame hI rfl id
  rst {s seqno ackno} hI := h.frame hI (core_tcpRst s _ _)
    (congrArg (fun v => v.list) (rcvView_tcpRst s seqno ackno s.pcb.connId)).symm.trans
  connect := h.connect
  write := h.write
  recved hP hw hp hI := by
    obtain ⟨aw, rfl⟩ := tcpUpdateRcvAnnWnd_ok hp
    exact h.frame (h.recved hP hw hI) (core_emit_recved _ _ _) id
  fin := h.fin
  output := h.output
  purge := h.purge
  timeWait := h.timeWait
  closed := h.closed
  clear := h.clear

/-- The shorter list implies the longer one, for timers that meet `R`. -/
theorem PreservedBase.toKept {P : Core → Api → Prop} {Q : Core → InSegment → Prop}
    {R : St W → Tmr → Prop} {I : St W → Prop} {app : App W} (h : PreservedBase P Q I)
    (hrto : ∀ {s s' : St W} {rto : ℤ} {ssthresh : ℕ}, R s .slow → s.pcb.Expires →
      tcpRexmitRto { s with
        pcb.rto := rto, pcb.rtime := 0, pcb.ssthresh := ssthresh, pcb.cwnd := s.pcb.mss } = .ok s' →
      I s → I s')
    (hprobe : ∀ {s : St W} {n : ℕ}, R s .slow → s.pcb.Probes → I s →
      I (tcpZeroWindowProbe { s with pcb.persistCnt := n }).2) :
    Kept P (fun s => Q s.core) R app I where
  toKeptApi := h.toKeptApi
  reset hr hI := h.toKeptApi.tcpInputRemove hr (h.frame hI rfl id)
  keepalive {s} hI := h.frame hI (core_tcpKeepalive s)
    (congrArg (fun v => v.list) (rcvView_tcpKeepalive s)).symm.trans
  fasttmr _ _ hr hI := h.frame (h.output hr (h.frame hI rfl id)) rfl id
  probe := hprobe
  backoff _ _ _ hI := h.frame hI rfl id
  rtime _ hI := h.frame hI rfl id
  rto hR he _ _ hr hI := hrto hR he hr hI
  rexmit hst _ _ := h.rexmit hst
  park _ hI := h.frame hI rfl id
  rcvWndFin _ := h.rcvWndFin
  start {s _ _ _} hn _ hI := by
    rcases hn with rfl | ⟨h0, hl⟩
    · exact h.frame hI rfl id
    · exact h.frame (h.mss h0 hl hI) rfl id
  synSent happ hst _ hr hI := h.toKeptApi.tcpProcessSynSent
    (fun hu hq hc hI => h.establish hst hu hq hc.2.2 hI) happ hr hI
  accept := h.accept
  receive _ := h.receive
  receiveAccept := h.receiveAccept
  ooseq := h.ooseq

theorem Preserved.toKept {P : Core → Api → Prop} {Q : Core → InSegment → Prop} {I : St W → Prop}
    {app : App W} (h : Preserved P Q I) : Kept P (fun s => Q s.core) (fun _ _ => True) app I :=
  h.toPreservedBase.toKept (fun _ _ hr hI => h.rexmitRto hr (h.frame hI rfl id))
    (fun _ _ hI => h.probe (h.frame hI rfl id))

/-- The condition on one operation: an API call meets `P`, a segment that `tcp_receive` gets to see
    meets `Q` in the state in which it is called. -/
def Preserved.StepOk (P : Core → Api → Prop) (Q : Core → InSegment → Prop) (app : App W) (s : St W) :
    List Bool × Op → Prop
  | (_, .api a) => P s.core a
  | (fails, .input seg) => ∀ t, Receives app { s with fails := fails } seg t → Q t.core seg
  | _ => True

theorem Preserved.StepOk.kept {P : Core → Api → Prop} {Q : Core → InSegment → Prop} {app : App W}
    {s : St W} {op : List Bool × Op} (h : StepOk P Q app s op) :
    Kept.StepOk P (fun s => Q s.core) (fun _ _ => True) app s op := by
  obtain ⟨fails, op⟩ := op
  cases op with
  | api a => exact h
  | input seg => exact h
  | fasttmr => exact fun _ => trivial
  | slowtmr => exact fun _ => trivial
  | kill reset => trivial

/-- What holds at the start of a run, and is kept, holds throughout. -/
theorem Preserved.reach {P : Core → Api → Prop} {Q : Core → InSegment → Prop} {I : St W → Prop}
    {app : App W} {s₀ s : St W} (h : Preserved P Q I) (happ : AppOk P app) (h₀ : I s₀)
    (hr : Run.Reach (connStep app) (Preserved.StepOk P Q app) s₀ s) : I s :=
  h.toKept.reach happ h₀ (hr.mono fun _ _ => StepOk.kept)

end Rudp

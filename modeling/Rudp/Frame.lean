import Rudp.Lib.Run
import Rudp.TcpIn

/-!
# What sending leaves alone

The functions of `tcp_out.c` change the queues, the counters and the flags of the sending side.
`St.rcvView` is the rest of the state: a function that only sends leaves it unchanged, and every
statement about the receiving side, the connection id or the callbacks carries over.

Results:
* `rcvView_tcpOutput`, `rcvView_tcpReceiveAck`: two such functions.
* `rcvView_tcpPcbRemove`, `rcvView_tcpAbandon`: what the removal of a pcb changes.
* `tcpReceive_parts`: `tcp_receive` as the part that looks at the acknowledgment and the rest.
-/

namespace Rudp

variable {W : Type}

/-- Is the entry of the log a packet, or a call of `tcp_recved`? -/
def Out.isPacket : Out → Bool
  | .ipOutputIf .. | .recved .. => true
  | _ => false

/-- The part of the state that neither sending nor `tcp_receive` touches. -/
structure CtlView (W : Type) where
  localPort : ℕ
  connId : ConnectId
  tfRxClosed : Bool
  refusedData : Option (List Pbuf × Bool)
  list : PcbList
  freed : Bool
  inputPcb : Bool
  recvReset : Bool
  recvClosed : Bool
  /-- `tcp_active_pcbs_changed` -/
  changed : Bool
  world : W
  /-- The log without the packets and the calls of `tcp_recved`. -/
  log : List Out

/-- The part of the state that sending leaves alone. -/
structure RcvView (W : Type) extends CtlView W where
  state : TcpState
  rcvNxt : U32
  rcvWnd : ℕ
  ooseq : List TcpSeg
  recvGotFin : Bool
  recvData : Option (List Pbuf)

/-- The view of a state. -/
def St.rcvView (s : St W) : RcvView W where
  localPort := s.pcb.localPort
  connId := s.pcb.connId
  tfRxClosed := s.pcb.tfRxClosed
  refusedData := s.pcb.refusedData
  list := s.list
  freed := s.freed
  inputPcb := s.inputPcb
  recvReset := s.recvReset
  recvClosed := s.recvClosed
  changed := s.changed
  world := s.world
  log := s.trace.filter fun o => !o.isPacket
  state := s.pcb.state
  rcvNxt := s.pcb.rcvNxt
  rcvWnd := s.pcb.rcvWnd
  ooseq := s.pcb.ooseq
  recvGotFin := s.recvGotFin
  recvData := s.recvData

@[inherit_doc St.rcvView] def St.ctlView (s : St W) : CtlView W := s.rcvView.toCtlView

@[simp] theorem rcvView_pop (s : St W) : s.pop.2.rcvView = s.rcvView := rfl

theorem rcvView_emit (s : St W) (o : Out) (h : o.isPacket = false) :
    (s.emit o).rcvView = { s.rcvView with log := s.rcvView.log ++ [o] } := by
  simp [St.emit, St.rcvView, h]

theorem rcvView_emit_packet (s : St W) {o : Out} (h : o.isPacket = true) :
    (s.emit o).rcvView = s.rcvView := by
  simp [St.emit, St.rcvView, h]

@[simp] theorem rcvView_ipOutputIf (s : St W) (packet : Packet) :
    (ipOutputIf s packet).2.rcvView = s.rcvView := by
  simp [ipOutputIf, St.emit, St.rcvView, St.pop, Out.isPacket]

@[simp] theorem rcvView_tcpOutputAllocHeader (s : St W) (seqno : U32) :
    (tcpOutputAllocHeader s seqno).2.rcvView = s.rcvView := by
  simp only [tcpOutputAllocHeader]
  split_ifs <;> rfl

@[simp] theorem rcvView_tcpSendEmptyAck (s : St W) :
    (tcpSendEmptyAck s).2.rcvView = s.rcvView := by
  have h := rcvView_tcpOutputAllocHeader s s.pcb.sndNxt
  unfold tcpSendEmptyAck
  split
  · next e => rw [e] at h; exact h
  · next hdr s' e =>
    rw [e] at h
    have h' := rcvView_ipOutputIf s' { tcphdr := hdr, p := [{ payload := [] }] }
    dsimp only
    split_ifs <;> exact h'.trans h

@[simp] theorem rcvView_tcpRst (s : St W) (seqno ackno : U32) (connId : ConnectId) :
    (tcpRst s seqno ackno connId).rcvView = s.rcvView := by
  simp only [tcpRst]
  split_ifs
  · rfl
  · exact rcvView_ipOutputIf _ _

@[simp] theorem rcvView_tcpKeepalive (s : St W) : (tcpKeepalive s).2.rcvView = s.rcvView := by
  have h := rcvView_tcpOutputAllocHeader s (s.pcb.sndNxt - 1)
  unfold tcpKeepalive
  split
  · next e => rw [e] at h; exact h
  · next e => rw [e] at h; exact (rcvView_ipOutputIf _ _).trans h

@[simp] theorem rcvView_tcpZeroWindowProbe (s : St W) :
    (tcpZeroWindowProbe s).2.rcvView = s.rcvView := by
  unfold tcpZeroWindowProbe
  split
  · rfl
  · next seg _ =>
    have h := rcvView_tcpOutputAllocHeader s seg.tcphdr.seqno
    dsimp only
    split
    · next e => rw [e] at h; exact h
    · next e =>
      rw [e] at h
      split_ifs <;> exact (rcvView_ipOutputIf _ _).trans h

@[simp] theorem rcvView_tcpOutputSegment (s : St W) (seg : TcpSeg) :
    (tcpOutputSegment s seg).2.2.rcvView = s.rcvView := by
  unfold tcpOutputSegment
  dsimp only
  refine (rcvView_ipOutputIf _ _).trans ?_
  split_ifs <;> rfl

@[simp] theorem rcvView_tcpOutputSent (s : St W) (seg : TcpSeg) (rest : List TcpSeg) :
    (tcpOutputSent s seg rest).rcvView = s.rcvView := by
  unfold tcpOutputSent
  dsimp only
  split_ifs <;> rfl

theorem rcvView_tcpOutputLoop {s s' : St W} {unsent : List TcpSeg} {err : Err}
    (h : tcpOutputLoop unsent s = .ok (err, s')) : s'.rcvView = s.rcvView := by
  induction unsent generalizing s with
  | nil => cases h; rfl
  | cons seg rest ih =>
    rw [tcpOutputLoop] at h
    by_cases hf : fitsWindow s.pcb seg
    · rw [if_pos hf] at h
      obtain ⟨_, _, h⟩ := Run.bind_eq_ok.mp h
      split at h
      · cases h; rfl
      · have hs := rcvView_tcpOutputSegment s (seg.prepare s.pcb)
        rcases tcpOutputSegment s (seg.prepare s.pcb) with ⟨err', seg', s₁⟩
        dsimp only at h hs
        split at h
        · cases h; exact hs
        · exact (ih h).trans ((rcvView_tcpOutputSent _ _ _).trans hs)
    · rw [if_neg hf] at h
      cases h; rfl

theorem rcvView_tcpOutput {s s' : St W} {err : Err} (h : tcpOutput s = .ok (err, s')) :
    s'.rcvView = s.rcvView := by
  unfold tcpOutput at h
  split at h
  · cases h; rfl
  split at h
  · rw [show s' = (tcpSendEmptyAck s).2 by rw [Except.ok.inj h]]
    exact rcvView_tcpSendEmptyAck s
  · obtain ⟨⟨err', s₁⟩, h₁, h⟩ := Run.bind_eq_ok.mp h
    have hs := rcvView_tcpOutputLoop h₁
    dsimp only at h
    split at h
    · cases h; exact hs
    · cases h
      split <;> exact hs

/-! ## Removal -/

/-- `tcp_pcb_remove` takes the pcb off its list and closes it. -/
theorem rcvView_tcpPcbRemove {s s' : St W} (h : tcpPcbRemove s = .ok s') :
    s'.rcvView = ({ s with
      list := .none
      pcb := { tcpPcbPurge s.pcb with state := .CLOSED, localPort := 0 } } : St W).rcvView := by
  obtain ⟨s₁, h₁, h⟩ := Run.bind_eq_ok.mp h
  obtain ⟨_, -, h⟩ := Run.bind_eq_ok.mp h
  obtain ⟨_, -, h⟩ := Run.bind_eq_ok.mp h
  obtain ⟨_, -, h⟩ := Run.bind_eq_ok.mp h
  cases h
  unfold tcpPcbRemoveAck at h₁
  split at h₁
  · obtain ⟨⟨err, s₂⟩, h₂, rfl⟩ := Run.map_eq_ok.mp h₁
    exact congrArg (fun v => { v with state := .CLOSED, localPort := 0 }) (rcvView_tcpOutput h₂)
  · cases h₁
    rfl

theorem rcvView_free {s s' : St W} (h : s'.rcvView = s.rcvView) : s'.free.rcvView = s.free.rcvView :=
  congrArg (fun v => { v with freed := true }) h

/-- `tcp_abandon` frees the pcb, which is on no list any more. -/
theorem rcvView_tcpAbandon {s s' : St W} {reset : Bool} (h : tcpAbandon s reset = .ok s') :
    ∃ pcb changed outs, s'.rcvView = ({ s with
        list := .none, freed := true, pcb := pcb, changed := changed,
        trace := s.trace ++ outs } : St W).rcvView ∧ (outs = [] ∨ outs = [.err .abrt]) := by
  unfold tcpAbandon at h
  split at h
  · obtain ⟨s₁, h₁, h⟩ := Run.bind_eq_ok.mp h
    cases h
    refine ⟨{ tcpPcbPurge s.pcb with state := .CLOSED, localPort := 0 }, s.changed, [], ?_, .inl rfl⟩
    rw [List.append_nil]
    exact rcvView_free (rcvView_tcpPcbRemove h₁)
  · obtain ⟨s₁, h₁, h⟩ := Run.bind_eq_ok.mp h
    cases h
    obtain ⟨pcb, changed, hv⟩ : ∃ pcb changed, s₁.rcvView =
        ({ s with list := .none, pcb := pcb, changed := changed } : St W).rcvView := by
      split at h₁
      · cases h₁
        exact ⟨s.pcb, s.changed, rfl⟩
      · obtain ⟨s₂, h₂, h₁⟩ := Run.bind_eq_ok.mp h₁
        cases h₁
        exact ⟨{ tcpPcbPurge s.pcb with state := .CLOSED, localPort := 0 }, true,
          congrArg (fun v => { v with changed := true }) (rcvView_tcpPcbRemove h₂)⟩
    have hv : ({ s₁ with pcb.unacked := [], pcb.unsent := [], pcb.ooseq := [] } : St W).rcvView =
        ({ s with list := .none, pcb := { pcb with ooseq := [] }, changed := changed } : St W).rcvView :=
      congrArg (fun v => { v with ooseq := [] }) hv
    refine ⟨{ pcb with ooseq := [] }, changed, [.err .abrt], ?_, .inr rfl⟩
    refine (rcvView_emit _ _ rfl).trans (.trans ?_ (rcvView_emit (St.free { s with
      list := .none, pcb := { pcb with ooseq := [] }, changed := changed }) _ rfl).symm)
    refine congrArg (fun v : RcvView W => { v with log := v.log ++ [Out.err .abrt] }) (rcvView_free ?_)
    split
    · exact (rcvView_tcpRst _ _ _ _).trans hv
    · exact hv

/-! ## Queueing -/

theorem rcvView_tcpCreateSegment {s s' : St W} {p : List Pbuf} {flags : TcpFlags} {seqno : U32}
    {optsMss : Bool} {seg : Option TcpSeg}
    (h : tcpCreateSegment s p flags seqno optsMss = (seg, s')) : s'.rcvView = s.rcvView := by
  simp only [tcpCreateSegment] at h
  split_ifs at h <;> cases h <;> rfl

theorem rcvView_tcpPbufPrealloc {s s' : St W} {data : List Byte} {maxLength : ℕ}
    {more firstSeg : Bool} {q : Option Pbuf}
    (h : tcpPbufPrealloc s data maxLength more firstSeg = (q, s')) : s'.rcvView = s.rcvView := by
  simp only [tcpPbufPrealloc] at h
  split_ifs at h <;> cases h <;> rfl

theorem rcvView_tcpEnqueueFlags {s s' : St W} {flags : TcpFlags} {err : Err}
    (h : tcpEnqueueFlags s flags = .ok (err, s')) : s'.rcvView = s.rcvView := by
  unfold tcpEnqueueFlags at h
  obtain ⟨_, -, h⟩ := Run.bind_eq_ok.mp h
  split at h
  · cases h; rfl
  split at h
  · cases h; rfl
  simp only at h
  split at h
  · cases h; rfl
  split at h
  · next e => cases h; exact (rcvView_tcpCreateSegment e).trans rfl
  · next e =>
    obtain ⟨_, -, h⟩ := Run.bind_eq_ok.mp h
    cases h
    exact (rcvView_tcpCreateSegment e).trans rfl

theorem rcvView_tcpSendFin {s s' : St W} {err : Err} (h : tcpSendFin s = .ok (err, s')) :
    s'.rcvView = s.rcvView := by
  unfold tcpSendFin at h
  split at h
  · split at h
    · cases h; rfl
    · exact rcvView_tcpEnqueueFlags h
  · exact rcvView_tcpEnqueueFlags h

theorem rcvView_tcpWriteChecks {s s' : St W} {len : ℕ} {err : Err}
    (h : tcpWriteChecks s len = .ok (err, s')) : s'.rcvView = s.rcvView := by
  unfold tcpWriteChecks at h
  split_ifs at h
  · cases h; rfl
  · cases h; rfl
  · cases h; rfl
  · cases h; rfl
  · obtain ⟨_, -, h⟩ := Run.bind_eq_ok.mp h
    cases h; rfl
  · obtain ⟨_, -, h⟩ := Run.bind_eq_ok.mp h
    cases h; rfl

theorem rcvView_tcpWriteTail {s s' : St W} {arg : List Byte} {copy more : Bool} {mssLocal : ℕ}
    {t : Option TailPlan} (h : tcpWriteTail s arg copy more mssLocal = .ok (t, s')) :
    s'.rcvView = s.rcvView := by
  unfold tcpWriteTail at h
  split at h
  · obtain ⟨_, -, h⟩ := Run.bind_eq_ok.mp h
    cases h; rfl
  · obtain ⟨_, -, h⟩ := Run.bind_eq_ok.mp h
    obtain ⟨_, -, h⟩ := Run.bind_eq_ok.mp h
    obtain ⟨_, -, h⟩ := Run.bind_eq_ok.mp h
    dsimp only at h
    split at h
    · split at h
      · split at h
        · next e => cases h; exact rcvView_tcpPbufPrealloc e
        · next e =>
          have hv := rcvView_tcpPbufPrealloc e
          cases h
          exact hv
      · split at h <;> cases h <;> rfl
    · cases h; rfl

theorem rcvView_tcpWriteChain {s s' : St W} {data : List Byte} {copy more : Bool}
    {mssLocal oversize : ℕ} {firstSeg : Bool} {x : Option (List Pbuf × ℕ)}
    (h : tcpWriteChain s data copy more mssLocal oversize firstSeg = .ok (x, s')) :
    s'.rcvView = s.rcvView := by
  unfold tcpWriteChain at h
  split at h
  · split at h
    · next e => cases h; exact rcvView_tcpPbufPrealloc e
    · next e => cases h; exact rcvView_tcpPbufPrealloc e
  · obtain ⟨_, -, h⟩ := Run.bind_eq_ok.mp h
    simp only at h
    split at h
    · cases h; rfl
    · split at h <;> cases h <;> rfl

theorem rcvView_tcpWriteQueue {arg : List Byte} {copy more : Bool} {mssLocal fuel : ℕ}
    {s s' : St W} {pos oversize queuelen : ℕ} {queue : List TcpSeg}
    {x : Option (ℕ × ℕ × List TcpSeg)}
    (h : tcpWriteQueue arg copy more mssLocal fuel s pos oversize queuelen queue = .ok (x, s')) :
    s'.rcvView = s.rcvView := by
  induction fuel generalizing s pos oversize queuelen queue with
  | zero => cases h; rfl
  | succ fuel ih =>
    rw [tcpWriteQueue] at h
    split at h
    · obtain ⟨⟨y, s₁⟩, h₁, h⟩ := Run.bind_eq_ok.mp h
      have hv := rcvView_tcpWriteChain h₁
      cases y with
      | none => cases h; exact hv
      | some y =>
        obtain ⟨p, oversize'⟩ := y
        dsimp only at h
        split at h
        · cases h; exact hv
        split at h
        · next e => cases h; exact (rcvView_tcpCreateSegment e).trans hv
        · next e => exact (ih h).trans ((rcvView_tcpCreateSegment e).trans hv)
    · cases h; rfl

theorem rcvView_tcpWriteMemerr {s s' : St W} {err : Err} (h : tcpWriteMemerr s = .ok (err, s')) :
    s'.rcvView = s.rcvView := by
  obtain ⟨_, -, h⟩ := Run.bind_eq_ok.mp h
  cases h; rfl

theorem rcvView_tcpWriteCommit {s s' : St W} {arg : List Byte} {more : Bool} {t : TailPlan}
    {oversize queuelen : ℕ} {queue : List TcpSeg} {err : Err}
    (h : tcpWriteCommit s arg more t oversize queuelen queue = .ok (err, s')) :
    s'.rcvView = s.rcvView := by
  obtain ⟨_, -, h⟩ := Run.bind_eq_ok.mp h
  obtain ⟨_, -, h⟩ := Run.bind_eq_ok.mp h
  split at h <;> cases h <;> rfl

theorem rcvView_tcpWrite {s s' : St W} {arg : List Byte} {copy more : Bool} {err : Err}
    (h : tcpWrite s arg copy more = .ok (err, s')) : s'.rcvView = s.rcvView := by
  obtain ⟨⟨err₁, s₁⟩, h₁, h⟩ := Run.bind_eq_ok.mp h
  have hv₁ := rcvView_tcpWriteChecks h₁
  dsimp only at h
  split at h
  · cases h; exact hv₁
  obtain ⟨⟨t, s₂⟩, h₂, h⟩ := Run.bind_eq_ok.mp h
  have hv₂ := (rcvView_tcpWriteTail h₂).trans hv₁
  cases t with
  | none => exact (rcvView_tcpWriteMemerr h).trans hv₂
  | some t =>
    obtain ⟨⟨x, s₃⟩, h₃, h⟩ := Run.bind_eq_ok.mp h
    have hv₃ := (rcvView_tcpWriteQueue h₃).trans hv₂
    cases x with
    | none => exact (rcvView_tcpWriteMemerr h).trans hv₃
    | some x => exact (rcvView_tcpWriteCommit h).trans hv₃

/-! ## Retransmission -/

theorem rcvView_tcpRexmitRto {s s' : St W} (h : tcpRexmitRto s = .ok s') :
    s'.rcvView = s.rcvView := by
  unfold tcpRexmitRto at h
  split at h
  · cases h; rfl
  · obtain ⟨⟨_, _⟩, h₁, h⟩ := Run.bind_eq_ok.mp h
    cases h
    exact (rcvView_tcpOutput h₁).trans rfl

@[simp] theorem rcvView_tcpRexmit (s : St W) : (tcpRexmit s).rcvView = s.rcvView := by
  unfold tcpRexmit
  split <;> rfl

@[simp] theorem rcvView_tcpRexmitFast (s : St W) : (tcpRexmitFast s).rcvView = s.rcvView := by
  unfold tcpRexmitFast
  split
  · exact rcvView_tcpRexmit s
  · rfl

/-! ## The acknowledgment part of `tcp_receive` -/

@[simp] theorem rcvView_setPcbWindow (s : St W) (seg : InSegment) :
    ({ s with pcb := tcpReceiveWindow s.pcb seg } : St W).rcvView = s.rcvView := by
  unfold tcpReceiveWindow
  split <;> rfl

@[simp] theorem rcvView_tcpReceiveDupack (s : St W) (seg : InSegment) (rightWndEdge : U32) :
    (tcpReceiveDupack s seg rightWndEdge).rcvView = s.rcvView := by
  unfold tcpReceiveDupack cwndInflate
  dsimp only
  repeat' split
  all_goals first | rfl | exact (rcvView_tcpRexmitFast _).trans rfl

theorem rcvView_tcpReceiveFree {s s' : St W} {next : TcpSeg} (h : tcpReceiveFree s next = .ok s') :
    s'.rcvView = s.rcvView := by
  unfold tcpReceiveFree at h
  obtain ⟨_, _, h⟩ := Run.bind_eq_ok.mp h
  obtain ⟨_, _, h⟩ := Run.bind_eq_ok.mp h
  cases h; rfl

theorem rcvView_tcpReceiveUnacked {ackno : U32} {unacked : List TcpSeg} {s s' : St W}
    (h : tcpReceiveUnacked ackno unacked s = .ok s') : s'.rcvView = s.rcvView := by
  induction unacked generalizing s with
  | nil => cases h; rfl
  | cons next rest ih =>
    rw [tcpReceiveUnacked] at h
    split at h
    · obtain ⟨s₁, h₁, h⟩ := Run.bind_eq_ok.mp h
      exact (ih h).trans ((rcvView_tcpReceiveFree h₁).trans rfl)
    · cases h; rfl

theorem rcvView_tcpReceiveUnsent {ackno : U32} {unsent : List TcpSeg} {s s' : St W}
    (h : tcpReceiveUnsent ackno unsent s = .ok s') : s'.rcvView = s.rcvView := by
  induction unsent generalizing s with
  | nil => cases h; rfl
  | cons next rest ih =>
    rw [tcpReceiveUnsent] at h
    split at h
    · obtain ⟨s₁, h₁, h⟩ := Run.bind_eq_ok.mp h
      exact (ih h).trans ((rcvView_tcpReceiveFree h₁).trans rfl)
    · cases h; rfl

theorem rcvView_tcpReceiveNewAck {ackno : U32} {s s' : St W}
    (h : tcpReceiveNewAck s ackno = .ok s') : s'.rcvView = s.rcvView := by
  unfold tcpReceiveNewAck at h
  obtain ⟨s₁, h₁, h⟩ := Run.bind_eq_ok.mp h
  have hs := rcvView_tcpReceiveUnacked h₁
  cases h
  refine Eq.trans ?_ (hs.trans ?_)
  · rfl
  · unfold cwndAck cwndInflate
    dsimp only
    repeat' split
    all_goals rfl

@[simp] theorem rcvView_tcpReceiveRtt (s : St W) (ackno : U32) :
    (tcpReceiveRtt s ackno).rcvView = s.rcvView := by
  unfold tcpReceiveRtt
  split <;> rfl

theorem rcvView_tcpReceiveAck {s s' : St W} {seg : InSegment}
    (h : tcpReceiveAck s seg = .ok s') : s'.rcvView = s.rcvView := by
  unfold tcpReceiveAck at h
  obtain ⟨s₁, h₁, h⟩ := Run.bind_eq_ok.mp h
  obtain ⟨s₂, h₂, h⟩ := Run.bind_eq_ok.mp h
  cases h
  rw [rcvView_tcpReceiveRtt, rcvView_tcpReceiveUnsent h₂]
  have hw := rcvView_setPcbWindow s seg
  unfold tcpReceiveAckno at h₁
  split at h₁
  · cases h₁
    exact (rcvView_tcpReceiveDupack _ _ _).trans hw
  · split at h₁
    · exact (rcvView_tcpReceiveNewAck h₁).trans hw
    · cases h₁
      exact (rcvView_tcpSendEmptyAck _).trans hw

/-- `tcp_receive` looks at the acknowledgment, which leaves the receiver alone, and then at the data. -/
theorem tcpReceive_parts {s s' : St W} {seg : InSegment} (h : tcpReceive s seg = .ok s') :
    TcpState.ESTABLISHED.num ≤ s.pcb.state.num ∧ ∃ s₁,
      ((seg.flags.ack = true ∧ tcpReceiveAck s seg = .ok s₁) ∨ (seg.flags.ack = false ∧ s₁ = s)) ∧
      s₁.rcvView = s.rcvView ∧ tcpReceiveData s₁ seg = .ok s' := by
  obtain ⟨_, ha, h⟩ := Run.bind_eq_ok.mp h
  obtain ⟨s₁, h₁, h⟩ := Run.bind_eq_ok.mp h
  refine ⟨lwipAssert_ok ha, s₁, ?_, ?_, h⟩
  · split at h₁
    · next hf => exact .inl ⟨hf, h₁⟩
    · next hf =>
      cases h₁
      exact .inr ⟨by simpa using hf, rfl⟩
  · split at h₁
    · exact rcvView_tcpReceiveAck h₁
    · cases h₁
      rfl

end Rudp

import Rudp.Receive

/-!
# What receiving leaves alone

The counterpart of `St.rcvView`: the queues and the counters of the sending side. The data part of
`tcp_receive`, empty ACKs and resets leave `St.sndView` unchanged. Its log leaves out the packets
that carry neither data nor FIN nor SYN and have the id of the pcb (`Out.isCtl`).
-/

namespace Rudp

variable {W : Type}

/-- The packet is an empty ACK, a keepalive or a reset with the id of the pcb. -/
def Packet.isCtl (packet : Packet) (connId : ConnectId) : Bool :=
  decide (packet.p = [{ payload := [] }]) && packet.options.isEmpty &&
    !packet.tcphdr.flags.fin && !packet.tcphdr.flags.syn &&
    decide (packet.tcphdr.connid1 = connId.connid1 ∧ packet.tcphdr.connid2 = connId.connid2)

/-- The entry is such a packet, or a call of `tcp_recved`. -/
def Out.isCtl : Out → Bool
  | .ipOutputIf packet _ _ connId => packet.isCtl connId
  | .recved .. => true
  | _ => false

/-- The part of the state that receiving leaves alone. -/
structure SndView where
  connId : ConnectId
  tfFin : Bool
  mss : ℕ
  lastack : U32
  sndNxt : U32
  sndLbb : U32
  sndWndMax : ℕ
  sndBuf : ℕ
  sndQueuelen : ℕ
  unsentOversize : ℕ
  unsent : List TcpSeg
  unacked : List TcpSeg
  /-- The log without the control packets and the calls of `tcp_recved`. -/
  log : List Out

/-- The view of a state. -/
def St.sndView (s : St W) : SndView where
  connId := s.pcb.connId
  tfFin := s.pcb.tfFin
  mss := s.pcb.mss
  lastack := s.pcb.lastack
  sndNxt := s.pcb.sndNxt
  sndLbb := s.pcb.sndLbb
  sndWndMax := s.pcb.sndWndMax
  sndBuf := s.pcb.sndBuf
  sndQueuelen := s.pcb.sndQueuelen
  unsentOversize := s.pcb.unsentOversize
  unsent := s.pcb.unsent
  unacked := s.pcb.unacked
  log := s.trace.filter fun o => !o.isCtl

theorem sndView_ipOutputIf (s : St W) {packet : Packet} (h : packet.isCtl s.pcb.connId = true) :
    (ipOutputIf s packet).2.sndView = s.sndView := by
  simp [ipOutputIf, St.emit, St.sndView, St.pop, Out.isCtl, h]

theorem sndView_tcpOutputAllocHeader {s s' : St W} {seqno : U32} {hdr : Option TcpHdr}
    (h : tcpOutputAllocHeader s seqno = (hdr, s')) :
    s'.sndView = s.sndView ∧
      ∀ tcphdr ∈ hdr, tcphdr.connid1 = s'.pcb.connId.connid1 ∧
        tcphdr.connid2 = s'.pcb.connId.connid2 ∧ tcphdr.flags = { ack := true } := by
  simp only [tcpOutputAllocHeader] at h
  split_ifs at h <;> cases h
  · exact ⟨rfl, by simp⟩
  · refine ⟨rfl, fun tcphdr ht => ?_⟩
    cases ht
    exact ⟨rfl, rfl, rfl⟩

/-- An empty packet with a header of `tcp_output_alloc_header`. -/
theorem sndView_ipOutputIf_empty {s : St W} {tcphdr : TcpHdr}
    (h : tcphdr.connid1 = s.pcb.connId.connid1 ∧ tcphdr.connid2 = s.pcb.connId.connid2 ∧
      tcphdr.flags = { ack := true }) :
    (ipOutputIf s { tcphdr := tcphdr, p := [{ payload := [] }] }).2.sndView = s.sndView := by
  apply sndView_ipOutputIf
  simp [Packet.isCtl, h]

@[simp] theorem sndView_tcpSendEmptyAck (s : St W) :
    (tcpSendEmptyAck s).2.sndView = s.sndView := by
  unfold tcpSendEmptyAck
  split
  · next e => exact (sndView_tcpOutputAllocHeader e).1
  · next hdr s' e =>
    obtain ⟨hv, hh⟩ := sndView_tcpOutputAllocHeader e
    have h' := sndView_ipOutputIf_empty (hh hdr rfl)
    dsimp only
    split_ifs <;> exact h'.trans hv

@[simp] theorem sndView_tcpKeepalive (s : St W) : (tcpKeepalive s).2.sndView = s.sndView := by
  unfold tcpKeepalive
  split
  · next e => exact (sndView_tcpOutputAllocHeader e).1
  · next hdr s' e =>
    obtain ⟨hv, hh⟩ := sndView_tcpOutputAllocHeader e
    exact (sndView_ipOutputIf_empty (hh hdr rfl)).trans hv

@[simp] theorem sndView_tcpRst (s : St W) (seqno ackno : U32) :
    (tcpRst s seqno ackno s.pcb.connId).sndView = s.sndView := by
  simp only [tcpRst]
  split_ifs
  · rfl
  · refine (sndView_ipOutputIf _ ?_).trans rfl
    simp [Packet.isCtl, St.pop]

@[simp] theorem sndView_tcpRstReply (s : St W) (seg : InSegment) :
    (tcpRstReply s seg).sndView = s.sndView :=
  sndView_tcpRst s _ _

/-! ## The data part of `tcp_receive` -/

@[simp] theorem sndView_tcpAck (s : St W) : (tcpAck s).sndView = s.sndView := by
  unfold tcpAck
  split <;> rfl

@[simp] theorem sndView_tcpAckNow (s : St W) : (tcpAckNow s).sndView = s.sndView := rfl

@[simp] theorem sndView_tcpReceiveDup (s : St W) (seg : InSegment) :
    (tcpReceiveDup s seg).sndView = s.sndView := by
  unfold tcpReceiveDup
  split <;> rfl

theorem sndView_tcpReceiveTake {s s' : St W} {message : String} {c : TcpSeg} {n : ℕ}
    (h : tcpReceiveTake s message c n = .ok s') : s'.sndView = s.sndView := by
  obtain ⟨_, -, h⟩ := Run.bind_eq_ok.mp h
  obtain ⟨⟨_, pcb⟩, hp, h⟩ := Run.bind_eq_ok.mp h
  obtain ⟨w, rfl⟩ := tcpUpdateRcvAnnWnd_ok hp
  cases h
  rfl

theorem sndView_tcpReceiveDequeue {q : List TcpSeg} {s s' : St W}
    (h : tcpReceiveDequeue q s = .ok s') : s'.sndView = s.sndView := by
  induction q generalizing s with
  | nil => cases h; rfl
  | cons c q ih =>
    rw [tcpReceiveDequeue] at h
    split at h
    · obtain ⟨s₁, h₁, h⟩ := Run.bind_eq_ok.mp h
      have ht := sndView_tcpReceiveTake h₁
      exact (ih h).trans ht
    · cases h; rfl

theorem sndView_tcpReceiveInseq {s s' : St W} {c : TcpSeg}
    (h : tcpReceiveInseq s c = .ok s') : s'.sndView = s.sndView := by
  obtain ⟨_, -, h⟩ := Run.bind_eq_ok.mp h
  obtain ⟨⟨_, _⟩, -, h⟩ := Run.bind_eq_ok.mp h
  obtain ⟨s₁, h₁, h⟩ := Run.bind_eq_ok.mp h
  obtain ⟨s₂, h₂, h⟩ := Run.bind_eq_ok.mp h
  cases h
  rw [sndView_tcpAck, sndView_tcpReceiveDequeue h₂, sndView_tcpReceiveTake h₁]
  rfl

theorem sndView_tcpReceiveOutseq {s s' : St W} {c : TcpSeg}
    (h : tcpReceiveOutseq s c = .ok s') : s'.sndView = s.sndView := by
  unfold tcpReceiveOutseq at h
  have hs := sndView_tcpSendEmptyAck s
  dsimp only at h
  generalize (tcpSendEmptyAck s).2 = s₁ at h hs
  split at h
  · cases h; exact hs
  · split at h
    · cases h; exact hs
    · obtain ⟨q', -, h⟩ := Run.bind_eq_ok.mp h
      cases h
      exact hs

/-- The data part of `tcp_receive` leaves the sending side alone. -/
theorem sndView_tcpReceiveData {s s' : St W} {seg : InSegment}
    (h : tcpReceiveData s seg = .ok s') : s'.sndView = s.sndView := by
  unfold tcpReceiveData at h
  split at h
  · obtain ⟨c, -, h⟩ := Run.bind_eq_ok.mp h
    have hd := sndView_tcpReceiveDup s seg
    unfold tcpReceiveSegment at h
    split at h
    · split at h
      · exact (sndView_tcpReceiveInseq h).trans hd
      · exact (sndView_tcpReceiveOutseq h).trans hd
    · cases h
      exact (sndView_tcpSendEmptyAck _).trans hd
  · split at h <;> cases h <;> rfl

/-! ## The acknowledgment part -/

/-- The fields of the sending side that an ACK leaves alone. -/
structure EndView where
  connId : ConnectId
  tfFin : Bool
  mss : ℕ
  sndNxt : U32
  sndLbb : U32
  log : List Out

/-- The view of a state. -/
def St.endView (s : St W) : EndView where
  connId := s.pcb.connId
  tfFin := s.pcb.tfFin
  mss := s.pcb.mss
  sndNxt := s.pcb.sndNxt
  sndLbb := s.pcb.sndLbb
  log := s.trace.filter fun o => !o.isCtl

theorem St.endView_of_sndView {s s' : St W} (h : s'.sndView = s.sndView) :
    s'.endView = s.endView :=
  congrArg (fun v : SndView => ({ v with } : EndView)) h

@[simp] theorem endView_tcpRexmitFast (s : St W) : (tcpRexmitFast s).endView = s.endView := by
  unfold tcpRexmitFast tcpRexmit
  split
  · split <;> rfl
  · rfl

@[simp] theorem endView_tcpReceiveDupack (s : St W) (seg : InSegment) (rightWndEdge : U32) :
    (tcpReceiveDupack s seg rightWndEdge).endView = s.endView := by
  unfold tcpReceiveDupack cwndInflate
  dsimp only
  repeat' split
  all_goals first | rfl | exact (endView_tcpRexmitFast _).trans rfl

theorem endView_tcpReceiveFree {s s' : St W} {next : TcpSeg} (h : tcpReceiveFree s next = .ok s') :
    s'.endView = s.endView := by
  obtain ⟨_, -, h⟩ := Run.bind_eq_ok.mp h
  obtain ⟨_, -, h⟩ := Run.bind_eq_ok.mp h
  cases h
  rfl

theorem endView_tcpReceiveUnacked {ackno : U32} {unacked : List TcpSeg} {s s' : St W}
    (h : tcpReceiveUnacked ackno unacked s = .ok s') : s'.endView = s.endView := by
  induction unacked generalizing s with
  | nil => cases h; rfl
  | cons next rest ih =>
    rw [tcpReceiveUnacked] at h
    split at h
    · obtain ⟨s₁, h₁, h⟩ := Run.bind_eq_ok.mp h
      exact (ih h).trans ((endView_tcpReceiveFree h₁).trans rfl)
    · cases h; rfl

theorem endView_tcpReceiveUnsent {ackno : U32} {unsent : List TcpSeg} {s s' : St W}
    (h : tcpReceiveUnsent ackno unsent s = .ok s') : s'.endView = s.endView := by
  induction unsent generalizing s with
  | nil => cases h; rfl
  | cons next rest ih =>
    rw [tcpReceiveUnsent] at h
    split at h
    · obtain ⟨s₁, h₁, h⟩ := Run.bind_eq_ok.mp h
      exact (ih h).trans ((endView_tcpReceiveFree h₁).trans rfl)
    · cases h; rfl

theorem endView_tcpReceiveNewAck {ackno : U32} {s s' : St W}
    (h : tcpReceiveNewAck s ackno = .ok s') : s'.endView = s.endView := by
  obtain ⟨s₁, h₁, h⟩ := Run.bind_eq_ok.mp h
  have hs := endView_tcpReceiveUnacked h₁
  cases h
  refine Eq.trans ?_ (hs.trans ?_)
  · rfl
  · unfold cwndAck cwndInflate
    dsimp only
    repeat' split
    all_goals rfl

@[simp] theorem endView_tcpReceiveRtt (s : St W) (ackno : U32) :
    (tcpReceiveRtt s ackno).endView = s.endView := by
  unfold tcpReceiveRtt
  split <;> rfl

theorem endView_tcpReceiveAck {s s' : St W} {seg : InSegment}
    (h : tcpReceiveAck s seg = .ok s') : s'.endView = s.endView := by
  obtain ⟨s₁, h₁, h⟩ := Run.bind_eq_ok.mp h
  obtain ⟨s₂, h₂, h⟩ := Run.bind_eq_ok.mp h
  cases h
  rw [endView_tcpReceiveRtt, endView_tcpReceiveUnsent h₂]
  have hw : ({ s with pcb := tcpReceiveWindow s.pcb seg } : St W).endView = s.endView := by
    unfold tcpReceiveWindow
    split <;> rfl
  unfold tcpReceiveAckno at h₁
  split at h₁
  · cases h₁
    exact (endView_tcpReceiveDupack _ _ _).trans hw
  · split at h₁
    · exact (endView_tcpReceiveNewAck h₁).trans hw
    · cases h₁
      exact (St.endView_of_sndView (sndView_tcpSendEmptyAck _)).trans hw

/-- What arrives moves neither `snd_nxt` nor `snd_lbb`. -/
theorem endView_tcpReceive {s s' : St W} {seg : InSegment} (h : tcpReceive s seg = .ok s') :
    s'.endView = s.endView := by
  obtain ⟨_, -, h⟩ := Run.bind_eq_ok.mp h
  obtain ⟨s₁, h₁, h⟩ := Run.bind_eq_ok.mp h
  refine (St.endView_of_sndView (sndView_tcpReceiveData h)).trans ?_
  split at h₁
  · exact endView_tcpReceiveAck h₁
  · cases h₁
    rfl

end Rudp

import Rudp.Write

/-!
# What a pcb acknowledges and announces

Every packet but a reset carries `rcv_nxt` and `rcv_ann_wnd`. `St.ackView` is the part of the state
that decides about acknowledgments and windows; sending and the queues touch it in few ways, which
`Announces` lists.

Results:
* `Announces.toKept`: an invariant that survives these is kept by every operation.
-/

namespace Rudp

variable {W : Type} {s s' : St W}

/-! ## The view -/

/-- The receiver variables, the two flags for a pending ACK, and the log. -/
structure AckView where
  state : TcpState
  rcvNxt : U32
  rcvWnd : ℕ
  rcvAnnWnd : ℕ
  rcvAnnRightEdge : U32
  tfAckDelay : Bool
  tfAckNow : Bool
  trace : List Out

/-- The view of a state. -/
def St.ackView (s : St W) : AckView where
  state := s.pcb.state
  rcvNxt := s.pcb.rcvNxt
  rcvWnd := s.pcb.rcvWnd
  rcvAnnWnd := s.pcb.rcvAnnWnd
  rcvAnnRightEdge := s.pcb.rcvAnnRightEdge
  tfAckDelay := s.pcb.tfAckDelay
  tfAckNow := s.pcb.tfAckNow
  trace := s.trace

/-- The view behind a packet: the right edge is announced, the packet is in the log, and the flags
    for a pending ACK are `delay` and `now`. -/
def St.transmitted (s : St W) (packet : Packet) (sent delay now : Bool) : AckView :=
  { s.ackView with
    rcvAnnRightEdge := s.pcb.rcvNxt + u32 s.pcb.rcvAnnWnd
    tfAckDelay := delay
    tfAckNow := now
    trace := s.trace ++ [s.packet packet sent] }

/-- The packet acknowledges and announces what the pcb has received. -/
structure Packet.Current (packet : Packet) (pcb : Pcb) : Prop where
  ackno : packet.tcphdr.ackno = pcb.rcvNxt
  wnd : packet.tcphdr.wnd = pcb.rcvAnnWnd
  rst : packet.tcphdr.flags.rst = false

theorem ackView_of_quiet (hq : s'.pcb.quiet = s.pcb.quiet) (ht : s'.trace = s.trace) :
    s'.ackView = s.ackView := by
  have he {α : Type} (f : Pcb → α) (hf : ∀ p : Pcb, f p = f p.quiet) : f s'.pcb = f s.pcb := by
    rw [hf s'.pcb, hf s.pcb, hq]
  simp only [St.ackView, ht, he Pcb.state (fun _ => rfl), he Pcb.rcvNxt (fun _ => rfl),
    he Pcb.rcvWnd (fun _ => rfl), he Pcb.rcvAnnWnd (fun _ => rfl),
    he Pcb.rcvAnnRightEdge (fun _ => rfl), he Pcb.tfAckDelay (fun _ => rfl),
    he Pcb.tfAckNow (fun _ => rfl)]

theorem Queues.ackView (h : Queues s s') : s'.ackView = s.ackView := by
  have he {α : Type} (f : Pcb → α) (hf : ∀ p : Pcb, f p = f p.unqueued) : f s'.pcb = f s.pcb := by
    rw [hf s'.pcb, hf s.pcb, h.1]
  simp only [St.ackView, h.2, he Pcb.state (fun _ => rfl), he Pcb.rcvNxt (fun _ => rfl),
    he Pcb.rcvWnd (fun _ => rfl), he Pcb.rcvAnnWnd (fun _ => rfl),
    he Pcb.rcvAnnRightEdge (fun _ => rfl), he Pcb.tfAckDelay (fun _ => rfl),
    he Pcb.tfAckNow (fun _ => rfl)]

@[simp] theorem ackView_tcpRexmit (s : St W) : (tcpRexmit s).ackView = s.ackView := by
  unfold tcpRexmit
  split <;> rfl

@[simp] theorem ackView_tcpRexmitFast (s : St W) : (tcpRexmitFast s).ackView = s.ackView := by
  unfold tcpRexmitFast
  split
  · exact (ackView_tcpRexmit s).trans rfl
  · rfl

theorem ackView_tcpReceiveDupack (s : St W) (seg : InSegment) (rightWndEdge : U32) :
    (tcpReceiveDupack s seg rightWndEdge).ackView = s.ackView := by
  unfold tcpReceiveDupack cwndInflate
  dsimp only
  repeat' split
  all_goals first | rfl | exact (ackView_tcpRexmitFast _).trans rfl

theorem ackView_tcpReceiveFree {next : TcpSeg} (h : tcpReceiveFree s next = .ok s') :
    s'.ackView = s.ackView := by
  obtain ⟨_, -, h⟩ := Run.bind_eq_ok.mp h
  obtain ⟨_, -, h⟩ := Run.bind_eq_ok.mp h
  cases h
  rfl

theorem ackView_tcpReceiveUnacked {ackno : U32} {q : List TcpSeg}
    (h : tcpReceiveUnacked ackno q s = .ok s') : s'.ackView = s.ackView := by
  induction q generalizing s with
  | nil => cases h; rfl
  | cons next rest ih =>
    rw [tcpReceiveUnacked] at h
    split at h
    · obtain ⟨s₁, h₁, h⟩ := Run.bind_eq_ok.mp h
      exact (ih h).trans ((ackView_tcpReceiveFree h₁).trans rfl)
    · cases h; rfl

theorem ackView_tcpReceiveUnsent {ackno : U32} {q : List TcpSeg}
    (h : tcpReceiveUnsent ackno q s = .ok s') : s'.ackView = s.ackView := by
  induction q generalizing s with
  | nil => cases h; rfl
  | cons next rest ih =>
    rw [tcpReceiveUnsent] at h
    split at h
    · obtain ⟨s₁, h₁, h⟩ := Run.bind_eq_ok.mp h
      exact (ih h).trans ((ackView_tcpReceiveFree h₁).trans rfl)
    · cases h; rfl

theorem ackView_tcpReceiveNewAck {ackno : U32} (h : tcpReceiveNewAck s ackno = .ok s') :
    s'.ackView = s.ackView := by
  obtain ⟨s₁, h₁, h⟩ := Run.bind_eq_ok.mp h
  have hs := ackView_tcpReceiveUnacked h₁
  cases h
  refine Eq.trans ?_ (hs.trans ?_)
  · rfl
  · unfold cwndAck cwndInflate
    dsimp only
    repeat' split
    all_goals rfl

/-- An ACK is answered with an empty ACK, or it leaves the view alone. -/
theorem tcpReceiveAck_ackView {seg : InSegment} (h : tcpReceiveAck s seg = .ok s') :
    s'.ackView = s.ackView ∨
      ∃ t : St W, t.ackView = s.ackView ∧ s'.ackView = (tcpSendEmptyAck t).2.ackView := by
  obtain ⟨s₁, h₁, h⟩ := Run.bind_eq_ok.mp h
  obtain ⟨s₂, h₂, h⟩ := Run.bind_eq_ok.mp h
  cases h
  have hrtt : (tcpReceiveRtt s₂ seg.ackno).ackView = s₂.ackView := by
    unfold tcpReceiveRtt
    split <;> rfl
  rw [hrtt, ackView_tcpReceiveUnsent h₂]
  have hw : ({ s with pcb := tcpReceiveWindow s.pcb seg } : St W).ackView = s.ackView := by
    unfold tcpReceiveWindow
    split <;> rfl
  unfold tcpReceiveAckno at h₁
  split at h₁
  · cases h₁
    exact .inl ((ackView_tcpReceiveDupack _ _ _).trans hw)
  · split at h₁
    · exact .inl ((ackView_tcpReceiveNewAck h₁).trans hw)
    · cases h₁
      exact .inr ⟨{ s with pcb := { tcpReceiveWindow s.pcb seg with acked := 0 } }, hw, rfl⟩

theorem ackView_tcpOutputSent (s : St W) (seg : TcpSeg) (rest : List TcpSeg) :
    (tcpOutputSent s seg rest).ackView =
      if s.pcb.state ≠ .SYN_SENT then { s.ackView with tfAckDelay := false, tfAckNow := false }
      else s.ackView := by
  unfold tcpOutputSent
  dsimp only
  split_ifs <;> rfl

/-- An empty ACK is sent, or it is noted that one is owed. -/
theorem ackView_tcpSendEmptyAck (s : St W) :
    ((tcpSendEmptyAck s).1 ≠ .ok ∧ (tcpSendEmptyAck s).2.ackView =
        { s.ackView with tfAckDelay := true, tfAckNow := true }) ∨
      ∃ packet : Packet, ∃ sent, packet.Current s.pcb ∧ packet.tcphdr.flags.ack = true ∧
        ((tcpSendEmptyAck s).1 = .ok ↔ sent = true) ∧
        (tcpSendEmptyAck s).2.ackView = s.transmitted packet sent (!sent) (!sent) := by
  rcases tcpSendEmptyAck_cases s with ⟨hne, hp, ht⟩ | ⟨sent, hok, hp, ht⟩
  · refine .inl ⟨hne, ?_⟩
    simp only [St.ackView, hp, ht]
  · refine .inr ⟨{ tcphdr := s.pcb.ackHdr s.pcb.sndNxt, p := [{ payload := [] }] }, sent,
      ⟨rfl, rfl, rfl⟩, rfl, hok, ?_⟩
    simp only [St.ackView, hp, ht]
    rfl

/-- One turn of the loop of `tcp_output`. -/
theorem ackView_outputSent {s₁ : St W} {seg seg' : TcpSeg} (rest : List TcpSeg)
    (hrst : seg.tcphdr.flags.rst = false)
    (h : tcpOutputSegment s (seg.prepare s.pcb) = (.ok, seg', s₁)) :
    ∃ packet : Packet, ∃ delay now, packet.Current s.pcb ∧
      packet.tcphdr.flags.ack = (seg.tcphdr.flags.ack || decide (s.pcb.state ≠ .SYN_SENT)) ∧
      ((delay = s.pcb.tfAckDelay ∧ now = s.pcb.tfAckNow) ∨
        (packet.tcphdr.flags.ack = true ∧ delay = false ∧ now = false)) ∧
      (tcpOutputSent s₁ seg' rest).ackView = s.transmitted packet true delay now := by
  obtain ⟨rfl, sent, hsent, hp, ht, -⟩ := tcpOutputSegment_eq h
  have hs : sent = true := by
    cases sent
    · cases hsent
    · rfl
  subst hs
  have hst : s₁.pcb.state = s.pcb.state := by rw [hp]; rfl
  have hack : ((seg.prepare s.pcb).stamp s.pcb).packet.tcphdr.flags.ack =
      (seg.tcphdr.flags.ack || decide (s.pcb.state ≠ .SYN_SENT)) := rfl
  by_cases hsyn : s.pcb.state = .SYN_SENT
  · refine ⟨((seg.prepare s.pcb).stamp s.pcb).packet, s.pcb.tfAckDelay, s.pcb.tfAckNow,
      ⟨rfl, rfl, hrst⟩, hack, .inl ⟨rfl, rfl⟩, ?_⟩
    rw [ackView_tcpOutputSent, hst, if_neg (by simp [hsyn])]
    simp only [St.ackView, hp, ht]
    rfl
  · refine ⟨((seg.prepare s.pcb).stamp s.pcb).packet, false, false, ⟨rfl, rfl, hrst⟩, hack,
      .inr ⟨by rw [hack]; simp [hsyn], rfl, rfl⟩, ?_⟩
    rw [ackView_tcpOutputSent, hst, if_pos hsyn]
    simp only [St.ackView, hp, ht]
    rfl

/-- The loop of `tcp_output` stops at a segment that cannot be sent. -/
theorem ackView_outputFail {s₁ : St W} {seg seg' : TcpSeg} {err : Err} (rest : List TcpSeg)
    (hrst : seg.tcphdr.flags.rst = false)
    (h : tcpOutputSegment s (seg.prepare s.pcb) = (err, seg', s₁)) :
    ∃ packet : Packet, ∃ sent, packet.Current s.pcb ∧
      ({ s₁ with pcb.unsent := seg' :: rest, pcb.tfNagleMemErr := true } : St W).ackView =
        s.transmitted packet sent s.pcb.tfAckDelay s.pcb.tfAckNow := by
  obtain ⟨rfl, sent, hsent, hp, ht, -⟩ := tcpOutputSegment_eq h
  refine ⟨((seg.prepare s.pcb).stamp s.pcb).packet, sent, ⟨rfl, rfl, hrst⟩, ?_⟩
  simp only [St.ackView, hp, ht]
  rfl

/-! ## The rule -/

/-- What packets and the API do to the view, one thing at a time. -/
structure AnnouncesApi (P : Core → Api → Prop) (I : St W → Prop) : Prop where
  congr {s s' : St W} : I s → s'.ackView = s.ackView → I s'
  callback {s : St W} {o : Out} : o.isCallback = true → I s → I (s.emit o)
  wrote {s : St W} (arg : List Byte) : I s → I (s.emit (.wrote arg))
  ackNow {s : St W} : I s → I (tcpAckNow s)
  owe {s s' : St W} : s'.ackView = { s.ackView with tfAckDelay := true, tfAckNow := true } →
    I s → I s'
  transmit {s s' : St W} (packet : Packet) (sent delay now : Bool) :
    packet.Current s.pcb → ((delay = s.pcb.tfAckDelay ∧ now = s.pcb.tfAckNow) ∨
      (packet.tcphdr.flags.ack = true ∧ delay = !sent ∧ now = !sent)) →
      s'.ackView = s.transmitted packet sent delay now → I s → I s'
  rst {s s' : St W} {packet : Packet} {sent : Bool} : packet.tcphdr.flags.rst = true →
    s'.ackView = { s.ackView with trace := s.trace ++ [s.packet packet sent] } → I s → I s'
  noConnect {c : Core} {newPort : ℕ} {iss : U32} : ¬ P c (.connect newPort iss)
  recved {s : St W} {len : Fin 65536} {w : ℕ} {n : U32} {pcb : Pcb} :
    P s.core (.recved len) → rcvWndRecved s.pcb len = .ok w →
      tcpUpdateRcvAnnWnd { s.pcb with rcvWnd := w } = .ok (n, pcb) → I s →
        I (({ s with pcb := pcb } : St W).emit (.recved len s.pcb))
  state {s : St W} {st : TcpState} : s.pcb.state ≠ .CLOSED → st ≠ .SYN_SENT →
    (s.pcb.state.Ended → st.Ended) → I s → I { s with pcb.state := st }
  closed {s : St W} : I s → I { s with pcb.state := .CLOSED }

/-- What segments and timers do besides. `D` holds where EOF is due. -/
structure Announces (P : Core → Api → Prop) (Q : St W → InSegment → Prop) (R : St W → Tmr → Prop)
    (app : App W) (I : St W → Prop) (D : St W → Prop := EofDue P I) : Prop
    extends AnnouncesApi P I where
  reset {s s' : St W} : tcpInputRemove { s with recvReset := true, pcb.tfAckDelay := false }
    (some .rst) = .ok s' → I s → I s'
  fasttmr {s s' : St W} {err : Err} : R s .fast → s.pcb.tfAckDelay = true →
    tcpOutput (tcpAckNow s) = .ok (err, s') → I s →
      I { s' with pcb.tfAckDelay := false, pcb.tfAckNow := false }
  rcvWndFin {s : St W} : D s → I s → I { s with pcb := rcvWndFin s.pcb }
  synSent {s s' : St W} {seg : InSegment} {err : Err} : AppOk P app →
    s.pcb.state = .SYN_SENT → tcpProcessSynSent app s seg = .ok (err, s') → I s → I s'
  receive {s s' : St W} {seg : InSegment} {after : St W → St W} :
    after = tcpProcessAfter s.pcb.state seg ∨ after = tcpProcessAcceptAfter →
      tcpProcessReceive s seg after = .ok s' → I s → I s'

namespace AnnouncesApi

variable {P : Core → Api → Prop} {I : St W → Prop}

theorem emptyAck (h : AnnouncesApi P I) (hI : I s) : I (tcpSendEmptyAck s).2 := by
  rcases ackView_tcpSendEmptyAck s with ⟨-, hv⟩ | ⟨packet, sent, hcur, hack, -, hv⟩
  · exact h.owe hv hI
  · exact h.transmit packet sent (!sent) (!sent) hcur (.inr ⟨hack, rfl, rfl⟩) hv hI

/-- A packet that is sent without clearing the flags for a pending ACK. -/
theorem probe (h : AnnouncesApi P I) (packet : Packet) (sent : Bool)
    (hcur : packet.Current s.pcb) (hp : s'.pcb = s.pcb.announced)
    (ht : s'.trace = s.trace ++ [s.packet packet sent]) (hI : I s) : I s' := by
  refine h.transmit packet sent s.pcb.tfAckDelay s.pcb.tfAckNow hcur (.inl ⟨rfl, rfl⟩) ?_ hI
  simp only [St.ackView, hp, ht]
  rfl

theorem keepalive (h : AnnouncesApi P I) (hI : I s) : I (tcpKeepalive s).2 := by
  rcases tcpKeepalive_cases s with ⟨hp, ht⟩ | ⟨sent, hp, ht⟩
  · exact h.congr hI (by simp only [St.ackView, hp, ht])
  · exact h.probe _ sent ⟨rfl, rfl, rfl⟩ hp ht hI

theorem zeroWindowProbe (h : AnnouncesApi P I) (hI : I s) : I (tcpZeroWindowProbe s).2 := by
  rcases tcpZeroWindowProbe_cases s with ⟨hp, ht⟩ | ⟨seg, -, sent, hp, ht⟩
  · exact h.congr hI (by simp only [St.ackView, hp, ht])
  · refine h.probe _ sent ?_ hp ht hI
    unfold Pcb.probePacket
    split <;> exact ⟨rfl, rfl, rfl⟩

theorem tcpRst (h : AnnouncesApi P I) {seqno ackno : U32} {id : ConnectId} (hI : I s) :
    I (Rudp.tcpRst s seqno ackno id) := by
  obtain ⟨hp, ht | ⟨packet, sent, hr, -, -, -, -, ht⟩⟩ := tcpRst_cases s seqno ackno id
  · exact h.congr hI (by simp only [St.ackView, hp, ht])
  · have hv : (Rudp.tcpRst s seqno ackno id).ackView =
        { s.ackView with trace := s.trace ++ [s.packet packet sent] } := by
      simp only [St.ackView, hp, ht]
    exact h.rst hr hv hI

theorem tcpOutput (h : AnnouncesApi P I) {err : Err}
    (hr : Rudp.tcpOutput s = .ok (err, s')) (hI : I s) : I s' := by
  refine tcpOutput_rule h.emptyAck ?_ ?_ (fun hI => h.congr hI rfl) hr hI
  · intro s s₁ seg seg' rest hI hu hfit hrst he
    obtain ⟨packet, delay, now, hcur, -, hd, hv⟩ := ackView_outputSent rest hrst he
    exact h.transmit packet true delay now hcur hd hv hI
  · intro s s₁ seg seg' rest err hI hu hfit hrst he hne
    obtain ⟨packet, sent, hcur, hv⟩ := ackView_outputFail rest hrst he
    exact h.transmit packet sent _ _ hcur (.inl ⟨rfl, rfl⟩) hv hI

theorem toTimeWait (h : AnnouncesApi P I) (hst : s.pcb.state ≠ .CLOSED) (hI : I s) :
    I (Rudp.toTimeWait s) := by
  have ht : I { s with pcb.state := .TIME_WAIT } := h.state hst nofun (fun _ => ended_timeWait) hI
  refine h.congr ht ?_
  unfold Rudp.toTimeWait tcpPcbPurge
  dsimp only
  split <;> rfl

/-- What `tcp_process` does behind `tcp_receive`. -/
theorem processAfter (h : AnnouncesApi P I) {st : TcpState} {seg : InSegment}
    (hfin : st = .FIN_WAIT_1 → s.pcb.state = .FIN_WAIT_1) (hst : s.pcb.state ≠ .CLOSED) (hI : I s) :
    I (tcpProcessAfter st seg s) := by
  have hn := h.ackNow hI
  unfold tcpProcessAfter
  dsimp only
  split
  · split
    · exact h.state hst nofun (fun _ => ended_closeWait) hn
    · exact hI
  · split
    · exact h.state hst nofun (fun _ => ended_closeWait) hn
    · exact hI
  · split
    · split
      · exact h.toTimeWait hst hn
      · exact h.state hst nofun (fun _ => ended_closing) hn
    · split
      · refine h.state hst nofun (fun he => ?_) hI
        rw [hfin rfl] at he
        exact absurd he (by decide)
      · exact hI
  · split
    · exact h.toTimeWait hst hn
    · exact hI
  · split
    · exact h.toTimeWait hst hI
    · exact hI
  · split
    · exact h.congr hI rfl
    · exact hI
  · exact hI

theorem processAcceptAfter (h : AnnouncesApi P I) (hst : s.pcb.state ≠ .CLOSED) (hI : I s) :
    I (tcpProcessAcceptAfter s) := by
  have hc : I { s with
      pcb.ssthresh := s.pcb.sndWnd, pcb.acked := s.pcb.acked - 1
      pcb.cwnd := initialCwnd s.pcb.mss } := h.congr hI rfl
  unfold tcpProcessAcceptAfter
  dsimp only
  split
  · exact h.state hst nofun (fun _ => ended_closeWait) (h.ackNow hc)
  · exact hc

/-- What follows `tcp_receive`, which has found the pcb in `st`. -/
theorem after (h : AnnouncesApi P I) {st : TcpState} {seg : InSegment} {after : St W → St W}
    (hafter : after = tcpProcessAfter st seg ∨ after = tcpProcessAcceptAfter)
    (hnum : TcpState.ESTABLISHED.num ≤ st.num)
    (hst : s.pcb.state = st ∨ (st = .ESTABLISHED ∧ s.pcb.state = .CLOSE_WAIT)) (hI : I s) :
    I (after s) := by
  have hne : s.pcb.state ≠ .CLOSED := by
    rcases hst with e | ⟨-, e⟩ <;> rw [e]
    · rintro rfl
      exact absurd hnum (by decide)
    · decide
  rcases hafter with rfl | rfl
  · refine h.processAfter (fun he => ?_) hne hI
    rcases hst with e | ⟨e, -⟩
    · exact e.trans he
    · rw [e] at he
      cases he
  · exact h.processAcceptAfter hne hI

theorem receiveAck (h : AnnouncesApi P I) {seg : InSegment} (hr : tcpReceiveAck s seg = .ok s')
    (hI : I s) : I s' := by
  rcases tcpReceiveAck_ackView hr with e | ⟨t, ht, e⟩
  · exact h.congr hI e
  · exact h.congr (h.emptyAck (h.congr hI ht)) e

theorem receiveOutseq (h : AnnouncesApi P I) {c : TcpSeg} (hr : tcpReceiveOutseq s c = .ok s')
    (hI : I s) : I s' := by
  have he := h.emptyAck hI
  unfold tcpReceiveOutseq at hr
  generalize tcpSendEmptyAck s = x at hr he
  obtain ⟨err, s₁⟩ := x
  dsimp only at hr he
  split at hr
  · cases hr
    exact he
  · split at hr
    · cases hr
      exact h.congr he rfl
    · obtain ⟨_, -, hr⟩ := Run.bind_eq_ok.mp hr
      cases hr
      exact h.congr he rfl

/-- An invariant that these things keep is kept by API calls. -/
theorem toKeptApi (h : AnnouncesApi P I) : KeptApi P I where
  frame hI hq ht _ _ := h.congr hI (ackView_of_quiet hq ht)
  unpark hI := h.congr hI rfl
  callback := h.callback
  ackNow := h.ackNow
  rst := h.tcpRst
  connect hP := absurd hP h.noConnect
  write hP hr hI := by
    have hI' := h.congr hI (tcpWrite_queues hr).ackView
    split
    · exact h.wrote _ hI'
    · exact hI'
  recved := h.recved
  fin {s s' a st err} hP ha hst hr hI := by
    have hq := (tcpSendFin_queues hr).ackView
    have hI' := h.congr hI hq
    split
    · have he : s'.pcb.state = s.pcb.state := congrArg AckView.state hq
      refine h.state ?_ ?_ ?_ hI'
      · rw [he]
        intro hc
        rw [hc] at hst
        cases hst
      · rintro rfl
        unfold closeState at hst
        split at hst <;> cases hst
      · rw [he]
        exact fun h => h.close hst
    · exact hI'
  output := h.tcpOutput
  purge {s} _ hI := by
    refine h.congr hI ?_
    unfold tcpPcbPurge
    split <;> rfl
  timeWait _ _ hst _ _ _ hI :=
    h.state (by rw [hst]; decide) nofun (fun _ => ended_timeWait) hI
  closed _ _ _ _ hI := h.closed hI
  clear _ _ hI := h.congr hI rfl

end AnnouncesApi

/-- An invariant that these things keep is kept by every operation. -/
theorem Announces.toKept {P : Core → Api → Prop} {Q : St W → InSegment → Prop}
    {R : St W → Tmr → Prop} {app : App W} {I D : St W → Prop} (h : Announces P Q R app I D) :
    Kept P Q R app I (fun _ _ => True) D where
  toKeptApi := h.toKeptApi
  reset := h.reset
  keepalive := h.keepalive
  fasttmr := h.fasttmr
  probe _ _ hI := h.zeroWindowProbe (h.congr hI rfl)
  backoff _ _ _ hI := h.congr hI rfl
  rtime _ hI := h.congr hI rfl
  rto {s s' rto ssthresh} _ _ _ _ hr hI := by
    unfold tcpRexmitRto at hr
    split at hr
    · cases hr
      exact h.congr hI rfl
    · obtain ⟨⟨err, s₁⟩, h₁, hr⟩ := Run.bind_eq_ok.mp hr
      cases hr
      exact h.tcpOutput h₁ (h.congr hI rfl)
  rexmit {s _} _ _ _ hI := h.congr hI (ackView_tcpRexmit s)
  park _ hI := h.congr hI rfl
  rcvWndFin := h.rcvWndFin
  start _ _ hI := h.congr hI rfl
  synSent happ hst _ := h.synSent happ hst
  accept hst _ hI := by
    refine h.state (by rw [hst]; decide) nofun (fun he => ?_) hI
    rw [hst] at he
    exact absurd he (by decide)
  receive _ _ _ hr hI := h.receive (.inl rfl) hr hI
  receiveAccept _ _ _ _ _ _ hr hI := h.receive (.inr rfl) hr hI
  ooseq hI := h.congr hI rfl

end Rudp

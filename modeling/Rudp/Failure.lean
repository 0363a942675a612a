import Rudp.Faults
import Rudp.Owed

/-!
# Calls that fail

`tcp_close`, `tcp_shutdown` and `tcp_connect` fail when `tcp_enqueue_flags` finds the queue or the
send buffer full, or gets no pbuf or segment. By then the caller has set `TF_RXCLOSED`, or the port
and the sequence numbers of a new connection.

Results:
* `tcpEnqueueFlags_refused`: when `tcp_enqueue_flags` fails, and that nothing changes then.
* `failed_call_restores`: when a call that fails leaves the pcb as it was.
-/

namespace Rudp

variable {W : Type} {s s' : St W} {err : Err}

/-! ## `tcp_enqueue_flags` and `tcp_send_fin` -/

/-- The memory for the pbuf or the segment cannot be had. -/
def St.NoMem (s : St W) : Prop := s.pop.1 = true ∨ s.pop.2.pop.1 = true

/-- `tcp_enqueue_flags` returns an error (tcp_out.c:760-806). -/
def Refused (s : St W) (flags : TcpFlags) : Prop :=
  ((s.pcb.sndQueuelen ≥ TCP_SND_QUEUELEN ∨ s.pcb.sndQueuelen > TCP_SNDQUEUELEN_OVERFLOW) ∧
    flags.fin = false) ∨ s.pcb.sndBuf = 0 ∨ s.NoMem

/-- Only the memory that was asked for and `TF_NAGLEMEMERR` differ. -/
def Restored (s s' : St W) : Prop :=
  s' = { s with fails := s'.fails, pcb.tfNagleMemErr := s'.pcb.tfNagleMemErr }

theorem Restored.refl (s : St W) : Restored s s := rfl

theorem tcpEnqueueFlags_refused {flags : TcpFlags} (hf : flags.syn = true ∨ flags.fin = true)
    (hr : Refused s flags) : ∃ s', tcpEnqueueFlags s flags = .ok (.mem, s') ∧ Restored s s' := by
  unfold tcpEnqueueFlags lwipAssert
  rw [if_pos hf]
  dsimp only [bind, Except.bind]
  split
  · exact ⟨_, rfl, rfl⟩
  next hq =>
  split
  · exact ⟨_, rfl, rfl⟩
  next hb =>
  split
  · exact ⟨_, rfl, rfl⟩
  next h1 =>
  have h2 : s.pop.2.pop.1 = true := by
    rcases hr with hr | hr | hr | hr
    · exact absurd hr hq
    · exact absurd hr hb
    · exact absurd hr h1
    · exact hr
  unfold tcpCreateSegment
  dsimp only
  rw [if_pos h2]
  exact ⟨_, rfl, rfl⟩

theorem tcpEnqueueFlags_err {flags : TcpFlags} (h : tcpEnqueueFlags s flags = .ok (err, s'))
    (herr : err ≠ .ok) : Refused s flags ∧ Restored s s' := by
  obtain ⟨_, -, h⟩ := Run.bind_eq_ok.mp h
  split at h
  · next hq =>
    cases h
    exact ⟨.inl hq, rfl⟩
  dsimp only at h
  split at h
  · next hb =>
    cases h
    exact ⟨.inr (.inl hb), rfl⟩
  split at h
  · next h1 =>
    cases h
    exact ⟨.inr (.inr (.inl h1)), rfl⟩
  unfold tcpCreateSegment at h
  dsimp only at h
  split at h
  · next h2 =>
    cases h
    split at h2
    · next h3 =>
      cases h2
      exact ⟨.inr (.inr (.inr h3)), rfl⟩
    · cases h2
  · obtain ⟨_, -, h⟩ := Run.bind_eq_ok.mp h
    cases h
    exact absurd rfl herr

/-- `tcp_send_fin` returns an error: the last segment cannot carry the FIN, and `tcp_enqueue_flags`
    fails. -/
def FinRefused (s : St W) : Prop :=
  (∀ last ∈ s.pcb.unsent.getLast?, last.tcphdr.flags.plain = false) ∧ Refused s { fin := true }

theorem tcpSendFin_refused (hr : FinRefused s) :
    ∃ s', tcpSendFin s = .ok (.mem, s') ∧ Restored s s' := by
  obtain ⟨hp, hr⟩ := hr
  have h := tcpEnqueueFlags_refused (.inr rfl) hr
  unfold tcpSendFin
  split
  · next last hl =>
    rw [if_neg (by rw [hp last hl]; simp)]
    exact h
  · exact h

theorem tcpSendFin_err (h : tcpSendFin s = .ok (err, s')) (herr : err ≠ .ok) :
    FinRefused s ∧ Restored s s' := by
  unfold tcpSendFin at h
  split at h
  · next last hl =>
    split at h
    · cases h
      exact absurd rfl herr
    · next hp =>
      obtain ⟨h1, h2⟩ := tcpEnqueueFlags_err h herr
      refine ⟨⟨fun l hm => ?_, h1⟩, h2⟩
      rw [hl, Option.mem_some_iff] at hm
      subst hm
      simpa using hp
  · next hl =>
    obtain ⟨h1, h2⟩ := tcpEnqueueFlags_err h herr
    refine ⟨⟨fun l hm => ?_, h1⟩, h2⟩
    rw [hl] at hm
    cases hm

/-! ## `tcp_close_shutdown` -/

/-- `tcp_close` fails: the connection is open, no RST is due, and the FIN is refused. -/
def CloseRefused (s : St W) : Prop :=
  (s.pcb.state = .SYN_RCVD ∨ s.pcb.state = .ESTABLISHED ∨ s.pcb.state = .CLOSE_WAIT) ∧
    ¬ ((s.pcb.state = .ESTABLISHED ∨ s.pcb.state = .CLOSE_WAIT) ∧ s.pcb.unread) ∧ FinRefused s

theorem tcpCloseFin_refused {st : TcpState} (hr : FinRefused s) :
    ∃ s', tcpCloseFin s st = .ok (.mem, s') ∧ Restored s s' := by
  obtain ⟨s', h, hs⟩ := tcpSendFin_refused hr
  refine ⟨s', ?_, hs⟩
  unfold tcpCloseFin
  rw [h]
  rfl

theorem tcpCloseFin_err {st : TcpState} (h : tcpCloseFin s st = .ok (err, s')) (herr : err ≠ .ok) :
    FinRefused s ∧ Restored s s' := by
  obtain ⟨⟨e, s₁⟩, h₁, h⟩ := Run.bind_eq_ok.mp h
  dsimp only at h
  split at h
  · obtain ⟨_, -, h⟩ := Run.bind_eq_ok.mp h
    cases h
    exact absurd rfl herr
  · cases h
    exact tcpSendFin_err h₁ herr

theorem tcpCloseShutdown_refused (hr : CloseRefused s) :
    ∃ s', tcpCloseShutdown s true = .ok (.mem, s') ∧ Restored s s' := by
  obtain ⟨hst, hu, hf⟩ := hr
  unfold tcpCloseShutdown
  rw [if_neg (fun h => hu h.2)]
  rcases hst with hst | hst | hst <;> rw [hst] <;> exact tcpCloseFin_refused hf

theorem tcpCloseShutdown_err {rst : Bool} (h : tcpCloseShutdown s rst = .ok (err, s'))
    (herr : err ≠ .ok) : (rst = true → CloseRefused s) ∧ Restored s s' := by
  unfold tcpCloseShutdown at h
  split at h
  · obtain ⟨_, -, h⟩ := Run.bind_eq_ok.mp h
    cases h
    exact absurd rfl herr
  next hu =>
  have hu' : rst = true → ¬ ((s.pcb.state = .ESTABLISHED ∨ s.pcb.state = .CLOSE_WAIT) ∧
      s.pcb.unread) := fun hrst h => hu ⟨hrst, h⟩
  split at h
  · cases h
    exact absurd rfl herr
  · obtain ⟨_, -, h⟩ := Run.bind_eq_ok.mp h
    cases h
    exact absurd rfl herr
  · next hst =>
    obtain ⟨h1, h2⟩ := tcpCloseFin_err h herr
    exact ⟨fun hrst => ⟨.inl hst, hu' hrst, h1⟩, h2⟩
  · next hst =>
    obtain ⟨h1, h2⟩ := tcpCloseFin_err h herr
    exact ⟨fun hrst => ⟨.inr (.inl hst), hu' hrst, h1⟩, h2⟩
  · next hst =>
    obtain ⟨h1, h2⟩ := tcpCloseFin_err h herr
    exact ⟨fun hrst => ⟨.inr (.inr hst), hu' hrst, h1⟩, h2⟩
  · cases h
    exact absurd rfl herr

/-! ## The calls -/

/-- What a call that fails is to leave alone: the state, the list, the queues, the send buffer, the
    port and the flags of the receive side. -/
structure AsBefore (s s' : St W) : Prop where
  state : s'.pcb.state = s.pcb.state
  list : s'.list = s.list
  unsent : s'.pcb.unsent = s.pcb.unsent
  unacked : s'.pcb.unacked = s.pcb.unacked
  ooseq : s'.pcb.ooseq = s.pcb.ooseq
  refusedData : s'.pcb.refusedData = s.pcb.refusedData
  sndLbb : s'.pcb.sndLbb = s.pcb.sndLbb
  sndBuf : s'.pcb.sndBuf = s.pcb.sndBuf
  sndQueuelen : s'.pcb.sndQueuelen = s.pcb.sndQueuelen
  localPort : s'.pcb.localPort = s.pcb.localPort
  tfRxClosed : s'.pcb.tfRxClosed = s.pcb.tfRxClosed
  tfAckDelay : s'.pcb.tfAckDelay = s.pcb.tfAckDelay
  tfAckNow : s'.pcb.tfAckNow = s.pcb.tfAckNow

theorem Restored.asBefore (h : Restored s s') : AsBefore s s' := by
  unfold Restored at h
  rw [h]
  constructor <;> rfl

/-- The call, when it returns an error, leaves the pcb as it was. -/
def FailsClean (s : St W) (a : Api) : Prop :=
  ∀ err s', apiCall s a = .ok (err, s') → err ≠ .ok → AsBefore s s'

/-- `tcp_connect` fails behind the assignments to the new pcb. -/
def ConnectRefused (s : St W) (newPort : ℕ) : Prop :=
  s.pcb.state = .CLOSED ∧ (s.pcb.localPort ≠ 0 ∨ newPort ≠ 0) ∧ Refused s { syn := true }

/-- The receive side is shut down before the FIN is queued. -/
theorem closeFlag_clean_iff {a : Api}
    (ha : apiCall s a = tcpCloseShutdown { s with pcb.tfRxClosed := true } true) :
    FailsClean s a ↔ (CloseRefused s → s.pcb.tfRxClosed = true) := by
  constructor
  · intro h hr
    obtain ⟨s', h', hs⟩ := tcpCloseShutdown_refused (s := { s with pcb.tfRxClosed := true }) hr
    have e := (h .mem s' (ha.trans h') (by decide)).tfRxClosed
    rw [← e]
    exact hs.asBefore.tfRxClosed
  · intro h err s' hc herr
    rw [ha] at hc
    obtain ⟨h1, h2⟩ := tcpCloseShutdown_err hc herr
    have hrx := h (h1 rfl)
    have e : { s with pcb.tfRxClosed := true } = s := by
      rw [← hrx]
    rw [e] at h2
    exact h2.asBefore

/-- Shutting down one side alone fails before anything has changed. -/
theorem shutdown_clean {rx tx : Bool} (hb : ¬ (rx = true ∧ tx = true)) :
    FailsClean s (.shutdown rx tx) := by
  intro err s' h herr
  obtain ⟨_, -, h⟩ := Run.bind_eq_ok.mp h
  change tcpShutdown s rx tx = .ok (err, s') at h
  unfold tcpShutdown at h
  rw [if_neg hb] at h
  cases tx with
  | false =>
    cases h
    exact absurd rfl herr
  | true =>
    obtain rfl : rx = false := by simpa using hb
    simp only [Bool.false_eq_true, if_false, if_true] at h
    split at h
    · exact (tcpCloseShutdown_err h herr).2.asBefore
    · cases h
      exact (Restored.refl s).asBefore

/-- The port and the sequence numbers are set before the SYN is queued. -/
theorem connect_clean_iff (hl : s.freed = false) {newPort : ℕ} {iss : U32} :
    FailsClean s (.connect newPort iss) ↔
      (ConnectRefused s newPort → s.pcb.localPort ≠ 0 ∧ s.pcb.sndLbb = iss - 1) := by
  have hcall : apiCall s (.connect newPort iss) = tcpConnect s newPort iss := by
    unfold apiCall St.live
    rw [hl]
    rfl
  constructor
  · rintro h ⟨hst, hport, hr⟩
    have hp : ¬ (if s.pcb.localPort = 0 then newPort else s.pcb.localPort) = 0 := by
      split
      · next h0 => exact hport.resolve_left (fun h => h h0)
      · next h0 => exact h0
    have hcon : ∃ s', tcpConnect s newPort iss = .ok (.mem, s') ∧ s'.pcb.sndLbb = iss - 1 ∧
        s'.pcb.localPort ≠ 0 := by
      unfold tcpConnect tcpConnectSyn lwipAssert
      rw [if_pos hst]
      dsimp only [bind, Except.bind]
      rw [if_neg hp]
      generalize hs₁ : ({ s with
        pcb.localPort := if s.pcb.localPort = 0 then newPort else s.pcb.localPort
        pcb.connId := _, pcb.rcvNxt := 0, pcb.sndNxt := iss, pcb.lastack := iss - 1
        pcb.sndLbb := iss - 1, pcb.rcvWnd := TCP_WND, pcb.rcvAnnWnd := TCP_WND
        pcb.rcvAnnRightEdge := 0, pcb.sndWnd := TCP_WND, pcb.mss := TCP_MSS, pcb.cwnd := 1
        pcb.ssthresh := TCP_WND } : St W) = s₁
      have hr₁ : Refused s₁ { syn := true } := by
        rw [← hs₁]
        exact hr
      obtain ⟨s', h', hs⟩ := tcpEnqueueFlags_refused (.inl rfl) hr₁
      rw [h']
      refine ⟨s', rfl, ?_, ?_⟩
      · rw [hs.asBefore.sndLbb, ← hs₁]
      · rw [hs.asBefore.localPort, ← hs₁]
        exact hp
    obtain ⟨s', h', e1, e2⟩ := hcon
    have hb := h .mem s' (hcall.trans h') (by decide)
    rw [hb.sndLbb] at e1
    rw [hb.localPort] at e2
    exact ⟨e2, e1⟩
  · intro h err s' hc herr
    rw [hcall] at hc
    obtain ⟨⟨e, s₁⟩, h₁, hc⟩ := Run.bind_eq_ok.mp hc
    dsimp only at hc
    split at hc
    · obtain ⟨_, -, hc⟩ := Run.bind_eq_ok.mp hc
      cases hc
      exact absurd rfl herr
    cases hc
    obtain ⟨_, ha, h₁⟩ := Run.bind_eq_ok.mp h₁
    generalize hpe : (if s.pcb.localPort = 0 then newPort else s.pcb.localPort) = port at h₁
    dsimp only at h₁
    split at h₁
    · cases h₁
      exact (Restored.refl s).asBefore
    next hp =>
    obtain ⟨⟨e, s₂⟩, h₂, h₁⟩ := Run.bind_eq_ok.mp h₁
    dsimp only at h₁
    split at h₁
    · cases h₁
      exact absurd rfl herr
    cases h₁
    obtain ⟨h3, h4⟩ := tcpEnqueueFlags_err h₂ herr
    have hport : s.pcb.localPort ≠ 0 ∨ newPort ≠ 0 := by
      by_contra hn
      obtain ⟨h5, h6⟩ := not_or.mp hn
      rw [if_pos (not_not.mp h5)] at hpe
      exact hp (hpe.symm.trans (not_not.mp h6))
    obtain ⟨g1, g2⟩ := h ⟨lwipAssert_ok ha, hport, h3⟩
    rw [if_neg g1] at hpe
    have hb := h4.asBefore
    refine ⟨hb.state, hb.list, hb.unsent, hb.unacked, hb.ooseq, hb.refusedData,
      hb.sndLbb.trans g2.symm, hb.sndBuf, hb.sndQueuelen, hb.localPort.trans hpe.symm,
      hb.tfRxClosed, hb.tfAckDelay, hb.tfAckNow⟩

/-- A call that fails leaves the pcb as it was, exactly when it does not fail behind the first changes
    that it makes. -/
theorem failed_call_restores (hl : s.freed = false) :
    (FailsClean s .close ↔ (CloseRefused s → s.pcb.tfRxClosed = true)) ∧
    (∀ rx tx, FailsClean s (.shutdown rx tx) ↔
      (rx = true → tx = true → CloseRefused s → s.pcb.tfRxClosed = true)) ∧
    ∀ newPort iss, FailsClean s (.connect newPort iss) ↔
      (ConnectRefused s newPort → s.pcb.localPort ≠ 0 ∧ s.pcb.sndLbb = iss - 1) := by
  have hlive : s.live = .ok () := by
    unfold St.live
    rw [hl]
    rfl
  refine ⟨closeFlag_clean_iff ?_, fun rx tx => ?_, fun newPort iss => connect_clean_iff hl⟩
  · unfold apiCall
    rw [hlive]
    rfl
  · by_cases hb : rx = true ∧ tx = true
    · obtain ⟨rfl, rfl⟩ := hb
      simp only [forall_const]
      refine closeFlag_clean_iff ?_
      unfold apiCall
      rw [hlive]
      rfl
    · exact iff_of_true (shutdown_clean hb) fun hrx htx => absurd ⟨hrx, htx⟩ hb

/-! ### Two calls -/

/-- A shutdown of the send side that finds no memory. -/
theorem failed_call_restores_shutdown : ∃ s s' : St Unit, Run.exec (connStep idleApp) connecting
    [synAckOp TCP_WND] = .ok s ∧
      apiCall { s with fails := [true] } (.shutdown false true) = .ok (.mem, s') ∧
      AsBefore { s with fails := [true] } s' := by
  refine ⟨_, _, rfl, rfl, ((failed_call_restores ?_).2.1 false true).mpr (fun h => ?_) .mem _ ?_ ?_⟩
  · rfl
  · cases h
  · rfl
  · decide

/-- A close finds no memory, and the connection is aborted when the next byte arrives. -/
theorem failed_call_restores_fails : ∃ s s' t t' : St Unit, Run.exec (connStep idleApp) connecting
    [synAckOp TCP_WND] = .ok s ∧ s.pcb.state = .ESTABLISHED ∧
      apiCall { s with fails := [true] } .close = .ok (.mem, s') ∧ ¬ AsBefore s s' ∧
      connStep idleApp s (byteOp 1 TCP_WND) = .ok t ∧ t.list = .active ∧
      connStep idleApp s' (byteOp 1 TCP_WND) = .ok t' ∧ t'.list = .none := by
  refine ⟨_, _, _, _, rfl, rfl, rfl, fun h => ?_, rfl, rfl, rfl, rfl⟩
  have hrx := h.tfRxClosed
  cases hrx

end Rudp

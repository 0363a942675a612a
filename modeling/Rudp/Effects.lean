import Rudp.Invariant

/-!
# What the sending functions change

Each function of `tcp_out.c` with the few fields of the pcb that it writes and the packets it hands
to `ip_output_if`, for invariants of the whole pcb.

Results:
* `tcpSendEmptyAck_cases`, `tcpKeepalive_cases`, `tcpZeroWindowProbe_cases`, `tcpRst_cases`,
  `tcpOutputSegment_eq`: one packet.
* `tcpOutput_rule`: an invariant of the loop of `tcp_output`.
* `tcpWrite_queues`, `tcpEnqueueFlags_queues`, `tcpSendFin_queues`: what queueing changes.
-/

namespace Rudp

variable {W : Type} {s s' : St W}

/-! ## Packets -/

/-- The header that `tcp_output_alloc_header` builds. -/
def Pcb.ackHdr (pcb : Pcb) (seqno : U32) : TcpHdr where
  connid1 := pcb.connId.connid1
  connid2 := pcb.connId.connid2
  seqno := seqno
  ackno := pcb.rcvNxt
  hdrlen := 5
  flags := { ack := true }
  wnd := pcb.rcvAnnWnd

/-- The pcb behind a header with its acknowledgment and window. -/
def Pcb.announced (pcb : Pcb) : Pcb :=
  { pcb with rcvAnnRightEdge := pcb.rcvNxt + u32 pcb.rcvAnnWnd }

/-- The packet is handed to `ip_output_if`, and `sendto` takes it or not. -/
def St.packet (s : St W) (packet : Packet) (sent : Bool) : Out :=
  .ipOutputIf packet sent s.pcb.state s.pcb.connId

theorem ipOutputIf_cases (s : St W) (packet : Packet) :
    ∃ sent : Bool, (ipOutputIf s packet).1 = (if sent then .ok else .mem) ∧
      (ipOutputIf s packet).2.pcb = s.pcb ∧
      (ipOutputIf s packet).2.trace = s.trace ++ [s.packet packet sent] := by
  refine ⟨!s.pop.1, ?_, rfl, rfl⟩
  show (if s.pop.1 then Err.mem else .ok) = _
  cases s.pop.1 <;> rfl

theorem tcpOutputAllocHeader_cases (s : St W) (seqno : U32) :
    ((tcpOutputAllocHeader s seqno).1 = none ∧ (tcpOutputAllocHeader s seqno).2.pcb = s.pcb ∧
        (tcpOutputAllocHeader s seqno).2.trace = s.trace) ∨
      ((tcpOutputAllocHeader s seqno).1 = some (s.pcb.ackHdr seqno) ∧
        (tcpOutputAllocHeader s seqno).2.pcb = s.pcb.announced ∧
        (tcpOutputAllocHeader s seqno).2.trace = s.trace) := by
  unfold tcpOutputAllocHeader
  dsimp only
  split
  · exact .inl ⟨rfl, rfl, rfl⟩
  · exact .inr ⟨rfl, rfl, rfl⟩

/-- An empty ACK is sent, or it is noted that one is owed. -/
theorem tcpSendEmptyAck_cases (s : St W) :
    ((tcpSendEmptyAck s).1 ≠ .ok ∧
        (tcpSendEmptyAck s).2.pcb = { s.pcb with tfAckDelay := true, tfAckNow := true } ∧
        (tcpSendEmptyAck s).2.trace = s.trace) ∨
      ∃ sent : Bool, ((tcpSendEmptyAck s).1 = .ok ↔ sent = true) ∧
        (tcpSendEmptyAck s).2.pcb =
          { s.pcb.announced with tfAckDelay := !sent, tfAckNow := !sent } ∧
        (tcpSendEmptyAck s).2.trace = s.trace ++
          [s.packet { tcphdr := s.pcb.ackHdr s.pcb.sndNxt, p := [{ payload := [] }] } sent] := by
  have h := tcpOutputAllocHeader_cases s s.pcb.sndNxt
  unfold tcpSendEmptyAck
  generalize tcpOutputAllocHeader s s.pcb.sndNxt = x at h
  obtain ⟨hdr, s₁⟩ := x
  dsimp only at h
  rcases h with ⟨rfl, hp, ht⟩ | ⟨rfl, hp, ht⟩
  · refine .inl ⟨by simp, ?_, ht⟩
    dsimp only
    rw [hp]
  · right
    obtain ⟨sent, h1, h2, h3⟩ := ipOutputIf_cases s₁
      { tcphdr := s.pcb.ackHdr s.pcb.sndNxt, p := [{ payload := [] }] }
    dsimp only
    generalize ipOutputIf s₁ { tcphdr := s.pcb.ackHdr s.pcb.sndNxt, p := [{ payload := [] }] } = y
      at h1 h2 h3
    obtain ⟨err, s₂⟩ := y
    dsimp only at h1 h2 h3 ⊢
    have hpk : s₁.packet { tcphdr := s.pcb.ackHdr s.pcb.sndNxt, p := [{ payload := [] }] } sent =
        s.packet { tcphdr := s.pcb.ackHdr s.pcb.sndNxt, p := [{ payload := [] }] } sent := by
      unfold St.packet
      rw [hp]
      rfl
    rw [hpk, ht] at h3
    refine ⟨sent, ?_⟩
    cases sent with
    | false =>
      subst h1
      simp [h2, h3, hp]
    | true =>
      subst h1
      simp [h2, h3, hp]

theorem tcpKeepalive_cases (s : St W) :
    ((tcpKeepalive s).2.pcb = s.pcb ∧ (tcpKeepalive s).2.trace = s.trace) ∨
      ∃ sent : Bool, (tcpKeepalive s).2.pcb = s.pcb.announced ∧
        (tcpKeepalive s).2.trace = s.trace ++
          [s.packet { tcphdr := s.pcb.ackHdr (s.pcb.sndNxt - 1), p := [{ payload := [] }] } sent] := by
  have h := tcpOutputAllocHeader_cases s (s.pcb.sndNxt - 1)
  unfold tcpKeepalive
  generalize tcpOutputAllocHeader s (s.pcb.sndNxt - 1) = x at h
  obtain ⟨hdr, s₁⟩ := x
  dsimp only at h
  rcases h with ⟨rfl, hp, ht⟩ | ⟨rfl, hp, ht⟩
  · exact .inl ⟨hp, ht⟩
  · obtain ⟨sent, -, h2, h3⟩ := ipOutputIf_cases s₁
      { tcphdr := s.pcb.ackHdr (s.pcb.sndNxt - 1), p := [{ payload := [] }] }
    refine .inr ⟨sent, h2.trans hp, ?_⟩
    dsimp only
    rw [h3, ht]
    unfold St.packet
    rw [hp]
    rfl

/-- What `tcp_zero_window_probe` sends of a segment: its FIN, or its first data byte. -/
def Pcb.probePacket (pcb : Pcb) (seg : TcpSeg) : Packet :=
  if seg.tcphdr.flags.fin && decide (seg.len = 0) then
    { tcphdr := { pcb.ackHdr seg.tcphdr.seqno with flags := { ack := true, fin := true } },
      p := [{ payload := [] }] }
  else { tcphdr := pcb.ackHdr seg.tcphdr.seqno, p := [{ payload := [(bytes seg.p).headD 0] }] }

theorem tcpZeroWindowProbe_cases (s : St W) :
    ((tcpZeroWindowProbe s).2.pcb = s.pcb ∧ (tcpZeroWindowProbe s).2.trace = s.trace) ∨
      ∃ seg, s.pcb.unacked.head?.or s.pcb.unsent.head? = some seg ∧ ∃ sent : Bool,
        (tcpZeroWindowProbe s).2.pcb = s.pcb.announced ∧
        (tcpZeroWindowProbe s).2.trace = s.trace ++ [s.packet (s.pcb.probePacket seg) sent] := by
  unfold tcpZeroWindowProbe
  split
  · exact .inl ⟨rfl, rfl⟩
  · next seg hseg =>
    have h := tcpOutputAllocHeader_cases s seg.tcphdr.seqno
    generalize tcpOutputAllocHeader s seg.tcphdr.seqno = x at h
    obtain ⟨hdr, s₁⟩ := x
    dsimp only at h ⊢
    rcases h with ⟨rfl, hp, ht⟩ | ⟨rfl, hp, ht⟩
    · exact .inl ⟨hp, ht⟩
    · obtain ⟨sent, -, h2, h3⟩ := ipOutputIf_cases s₁ (s.pcb.probePacket seg)
      have hpk : s₁.packet (s.pcb.probePacket seg) sent = s.packet (s.pcb.probePacket seg) sent := by
        unfold St.packet
        rw [hp]
        rfl
      rw [hpk, ht] at h3
      refine .inr ⟨seg, hseg, sent, ?_⟩
      dsimp only
      by_cases hf : (seg.tcphdr.flags.fin && decide (seg.len = 0)) = true
      · rw [if_pos hf]
        unfold Pcb.probePacket at h2 h3 ⊢
        rw [if_pos hf] at h2 h3 ⊢
        exact ⟨h2.trans hp, h3⟩
      · rw [if_neg hf]
        unfold Pcb.probePacket at h2 h3 ⊢
        rw [if_neg hf] at h2 h3 ⊢
        exact ⟨h2.trans hp, h3⟩

/-- A reset changes no pcb. -/
theorem tcpRst_cases (s : St W) (seqno ackno : U32) (connId : ConnectId) :
    (tcpRst s seqno ackno connId).pcb = s.pcb ∧
      ((tcpRst s seqno ackno connId).trace = s.trace ∨
        ∃ packet sent, packet.tcphdr.flags.rst = true ∧ packet.tcphdr.seqno = seqno ∧
          packet.p = [{ payload := [] }] ∧ packet.tcphdr.flags.fin = false ∧
          packet.tcphdr.flags.syn = false ∧
          (tcpRst s seqno ackno connId).trace = s.trace ++ [s.packet packet sent]) := by
  unfold tcpRst
  dsimp only
  split
  · exact ⟨rfl, .inl rfl⟩
  · exact ⟨rfl, .inr ⟨_, _, rfl, rfl, rfl, rfl, rfl, rfl⟩⟩

/-! ## `tcp_output` -/

/-- What `tcp_output_segment` sends of a segment. -/
def TcpSeg.packet (seg : TcpSeg) : Packet where
  tcphdr := seg.tcphdr
  options := if seg.optsMss then mssOption else []
  p := seg.p

theorem tcpOutputSegment_eq {seg seg' : TcpSeg} {err : Err}
    (h : tcpOutputSegment s seg = (err, seg', s')) :
    seg' = seg.stamp s.pcb ∧ ∃ sent : Bool, err = (if sent then .ok else .mem) ∧
      s'.pcb = { s.pcb.announced with
        rtime := if s.pcb.rtime = -1 then 0 else s.pcb.rtime
        rttest := if s.pcb.rttest = 0 then s.ticks else s.pcb.rttest
        rtseq := if s.pcb.rttest = 0 then seg.tcphdr.seqno else s.pcb.rtseq } ∧
      s'.trace = s.trace ++ [s.packet (seg.stamp s.pcb).packet sent] ∧ s'.inputPcb = s.inputPcb := by
  unfold tcpOutputSegment at h
  dsimp only at h
  split at h
  all_goals
    split at h
    all_goals
      cases h
      refine ⟨rfl, !s.pop.1, ?_, ?_, rfl, rfl⟩
      · show (if s.pop.1 then Err.mem else .ok) = _
        cases s.pop.1 <;> rfl
      · simp_all [ipOutputIf, St.emit, St.pop, Pcb.announced, TcpSeg.stamp]

section Output

variable {I : St W → Prop}

/-- An invariant of the loop of `tcp_output`. -/
theorem tcpOutputLoop_rule
    (hsent : ∀ {s s₁ : St W} {seg seg' : TcpSeg} {rest : List TcpSeg}, I s →
      s.pcb.unsent = seg :: rest → fitsWindow s.pcb seg → seg.tcphdr.flags.rst = false →
      tcpOutputSegment s (seg.prepare s.pcb) = (.ok, seg', s₁) → I (tcpOutputSent s₁ seg' rest))
    (hfail : ∀ {s s₁ : St W} {seg seg' : TcpSeg} {rest : List TcpSeg} {err : Err}, I s →
      s.pcb.unsent = seg :: rest → fitsWindow s.pcb seg → seg.tcphdr.flags.rst = false →
      tcpOutputSegment s (seg.prepare s.pcb) = (err, seg', s₁) → err ≠ .ok →
      I { s₁ with pcb.unsent := seg' :: rest, pcb.tfNagleMemErr := true })
    {q : List TcpSeg} {err : Err} (hq : s.pcb.unsent = q) (h : tcpOutputLoop q s = .ok (err, s'))
    (hI : I s) : I s' := by
  induction q generalizing s with
  | nil =>
    cases h
    exact hI
  | cons seg rest ih =>
    rw [tcpOutputLoop] at h
    split at h
    · next hfit =>
      obtain ⟨_, ha, h⟩ := Run.bind_eq_ok.mp h
      split at h
      · cases h
        exact hI
      · rcases e : tcpOutputSegment s (seg.prepare s.pcb) with ⟨err', seg', s₁⟩
        rw [e] at h
        dsimp only at h
        split at h
        · next hne =>
          cases h
          exact hfail hI hq hfit (lwipAssert_ok ha) e hne
        · next hok =>
          have hok' : err' = .ok := by simpa using hok
          rw [hok'] at e
          refine ih ?_ h (hsent hI hq hfit (lwipAssert_ok ha) e)
          unfold tcpOutputSent
          dsimp only
          split_ifs <;> rfl
    · cases h
      exact hI

/-- What an empty ACK and one turn of the loop keep, `tcp_output` keeps. -/
theorem tcpOutput_rule (hempty : ∀ {s : St W}, I s → I (tcpSendEmptyAck s).2)
    (hsent : ∀ {s s₁ : St W} {seg seg' : TcpSeg} {rest : List TcpSeg}, I s →
      s.pcb.unsent = seg :: rest → fitsWindow s.pcb seg → seg.tcphdr.flags.rst = false →
      tcpOutputSegment s (seg.prepare s.pcb) = (.ok, seg', s₁) → I (tcpOutputSent s₁ seg' rest))
    (hfail : ∀ {s s₁ : St W} {seg seg' : TcpSeg} {rest : List TcpSeg} {err : Err}, I s →
      s.pcb.unsent = seg :: rest → fitsWindow s.pcb seg → seg.tcphdr.flags.rst = false →
      tcpOutputSegment s (seg.prepare s.pcb) = (err, seg', s₁) → err ≠ .ok →
      I { s₁ with pcb.unsent := seg' :: rest, pcb.tfNagleMemErr := true })
    (hend : ∀ {s : St W}, I s → I { s with
      pcb.unsentOversize := if s.pcb.unsent = [] then 0 else s.pcb.unsentOversize
      pcb.tfNagleMemErr := false })
    {err : Err} (h : tcpOutput s = .ok (err, s')) (hI : I s) : I s' := by
  unfold tcpOutput at h
  split at h
  · cases h
    exact hI
  split at h
  · have he := hempty hI
    rw [Except.ok.inj h] at he
    exact he
  · obtain ⟨⟨err', s₁⟩, h₁, h⟩ := Run.bind_eq_ok.mp h
    have hI₁ := tcpOutputLoop_rule hsent hfail rfl h₁ hI
    dsimp only at h
    split at h
    · cases h
      exact hI₁
    · have he := hend hI₁
      split at h <;> cases h
      · next hu =>
        rw [if_pos hu] at he
        exact he
      · next hu =>
        rw [if_neg hu] at he
        exact he

end Output

/-! ## Queueing -/

/-- The pcb without the queue `unsent` and its counters. -/
def Pcb.unqueued (pcb : Pcb) : Pcb :=
  { pcb with
    tfFin := false, tfNagleMemErr := false, sndLbb := 0, sndBuf := 0, sndQueuelen := 0
    unsentOversize := 0, unsent := [] }

/-- Only the queue `unsent` and its counters change. -/
def Queues (s s' : St W) : Prop := s'.pcb.unqueued = s.pcb.unqueued ∧ s'.trace = s.trace

theorem Queues.refl : Queues s s := ⟨rfl, rfl⟩

theorem Queues.trans {s₁ : St W} (h : Queues s s₁) (h' : Queues s₁ s') : Queues s s' :=
  ⟨h'.1.trans h.1, h'.2.trans h.2⟩

theorem tcpCreateSegment_queues {p : List Pbuf} {flags : TcpFlags} {seqno : U32} {optsMss : Bool}
    {x : Option TcpSeg} (h : tcpCreateSegment s p flags seqno optsMss = (x, s')) : Queues s s' := by
  unfold tcpCreateSegment at h
  dsimp only at h
  split at h <;> cases h <;> exact ⟨rfl, rfl⟩

theorem tcpPbufPrealloc_queues {data : List Byte} {maxLength : ℕ} {more firstSeg : Bool}
    {x : Option Pbuf} (h : tcpPbufPrealloc s data maxLength more firstSeg = (x, s')) :
    Queues s s' := by
  unfold tcpPbufPrealloc at h
  dsimp only at h
  split at h <;> cases h <;> exact ⟨rfl, rfl⟩

theorem tcpEnqueueFlags_queues {flags : TcpFlags} {err : Err}
    (h : tcpEnqueueFlags s flags = .ok (err, s')) : Queues s s' := by
  obtain ⟨_, -, h⟩ := Run.bind_eq_ok.mp h
  dsimp only at h
  split at h
  · cases h
    exact ⟨rfl, rfl⟩
  split at h
  · cases h
    exact .refl
  split at h
  · cases h
    exact ⟨rfl, rfl⟩
  split at h
  · next e =>
    cases h
    exact (Queues.trans ⟨rfl, rfl⟩ (tcpCreateSegment_queues e)).trans ⟨rfl, rfl⟩
  · next e =>
    obtain ⟨_, -, h⟩ := Run.bind_eq_ok.mp h
    cases h
    exact (Queues.trans ⟨rfl, rfl⟩ (tcpCreateSegment_queues e)).trans ⟨rfl, rfl⟩

theorem tcpSendFin_queues {err : Err} (h : tcpSendFin s = .ok (err, s')) : Queues s s' := by
  unfold tcpSendFin at h
  split at h
  · split at h
    · cases h
      exact ⟨rfl, rfl⟩
    · exact tcpEnqueueFlags_queues h
  · exact tcpEnqueueFlags_queues h

theorem tcpWriteChecks_queues {len : ℕ} {err : Err} (h : tcpWriteChecks s len = .ok (err, s')) :
    Queues s s' := by
  unfold tcpWriteChecks at h
  split_ifs at h
  · cases h; exact .refl
  · cases h; exact .refl
  · cases h; exact ⟨rfl, rfl⟩
  · cases h; exact ⟨rfl, rfl⟩
  · obtain ⟨_, -, h⟩ := Run.bind_eq_ok.mp h
    cases h; exact .refl
  · obtain ⟨_, -, h⟩ := Run.bind_eq_ok.mp h
    cases h; exact .refl

theorem tcpWriteTail_queues {arg : List Byte} {copy more : Bool} {mssLocal : ℕ}
    {t : Option TailPlan} (h : tcpWriteTail s arg copy more mssLocal = .ok (t, s')) :
    Queues s s' := by
  unfold tcpWriteTail at h
  split at h
  · obtain ⟨_, -, h⟩ := Run.bind_eq_ok.mp h
    cases h; exact .refl
  · obtain ⟨_, -, h⟩ := Run.bind_eq_ok.mp h
    obtain ⟨_, -, h⟩ := Run.bind_eq_ok.mp h
    obtain ⟨_, -, h⟩ := Run.bind_eq_ok.mp h
    dsimp only at h
    split at h
    · split at h
      · split at h
        · next e => cases h; exact tcpPbufPrealloc_queues e
        · next e =>
          cases h
          exact (tcpPbufPrealloc_queues e).trans ⟨rfl, rfl⟩
      · split at h <;> cases h <;> exact ⟨rfl, rfl⟩
    · cases h; exact .refl

theorem tcpWriteChain_queues {data : List Byte} {copy more : Bool}
    {mssLocal oversize : ℕ} {firstSeg : Bool} {x : Option (List Pbuf × ℕ)}
    (h : tcpWriteChain s data copy more mssLocal oversize firstSeg = .ok (x, s')) :
    Queues s s' := by
  unfold tcpWriteChain at h
  split at h
  · split at h
    · next e => cases h; exact tcpPbufPrealloc_queues e
    · next e => cases h; exact tcpPbufPrealloc_queues e
  · obtain ⟨_, -, h⟩ := Run.bind_eq_ok.mp h
    simp only at h
    split at h
    · cases h; exact ⟨rfl, rfl⟩
    · split at h <;> cases h <;> exact ⟨rfl, rfl⟩

theorem tcpWriteQueue_queues {arg : List Byte} {copy more : Bool} {mssLocal fuel : ℕ}
    {pos oversize queuelen : ℕ} {queue : List TcpSeg} {x : Option (ℕ × ℕ × List TcpSeg)}
    (h : tcpWriteQueue arg copy more mssLocal fuel s pos oversize queuelen queue = .ok (x, s')) :
    Queues s s' := by
  induction fuel generalizing s pos oversize queuelen queue with
  | zero => cases h; exact .refl
  | succ fuel ih =>
    rw [tcpWriteQueue] at h
    split at h
    · obtain ⟨⟨y, s₁⟩, h₁, h⟩ := Run.bind_eq_ok.mp h
      have hv := tcpWriteChain_queues h₁
      cases y with
      | none => cases h; exact hv
      | some y =>
        obtain ⟨p, oversize'⟩ := y
        dsimp only at h
        split at h
        · cases h; exact hv
        split at h
        · next e => cases h; exact hv.trans (tcpCreateSegment_queues e)
        · next e => exact (hv.trans (tcpCreateSegment_queues e)).trans (ih h)
    · cases h; exact .refl

theorem tcpWriteMemerr_queues {err : Err} (h : tcpWriteMemerr s = .ok (err, s')) : Queues s s' := by
  obtain ⟨_, -, h⟩ := Run.bind_eq_ok.mp h
  cases h
  exact ⟨rfl, rfl⟩

theorem tcpWriteCommit_queues {arg : List Byte} {more : Bool} {t : TailPlan}
    {oversize queuelen : ℕ} {queue : List TcpSeg} {err : Err}
    (h : tcpWriteCommit s arg more t oversize queuelen queue = .ok (err, s')) : Queues s s' := by
  obtain ⟨_, -, h⟩ := Run.bind_eq_ok.mp h
  obtain ⟨_, -, h⟩ := Run.bind_eq_ok.mp h
  split at h <;> cases h <;> exact ⟨rfl, rfl⟩

theorem tcpWrite_queues {arg : List Byte} {copy more : Bool} {err : Err}
    (h : tcpWrite s arg copy more = .ok (err, s')) : Queues s s' := by
  obtain ⟨⟨err₁, s₁⟩, h₁, h⟩ := Run.bind_eq_ok.mp h
  have hv₁ := tcpWriteChecks_queues h₁
  dsimp only at h
  split at h
  · cases h; exact hv₁
  obtain ⟨⟨t, s₂⟩, h₂, h⟩ := Run.bind_eq_ok.mp h
  have hv₂ := hv₁.trans (tcpWriteTail_queues h₂)
  cases t with
  | none => exact hv₂.trans (tcpWriteMemerr_queues h)
  | some t =>
    obtain ⟨⟨x, s₃⟩, h₃, h⟩ := Run.bind_eq_ok.mp h
    have hv₃ := hv₂.trans (tcpWriteQueue_queues h₃)
    cases x with
    | none => exact hv₃.trans (tcpWriteMemerr_queues h)
    | some x => exact hv₃.trans (tcpWriteCommit_queues h)

end Rudp

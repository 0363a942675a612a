import Rudp.Opening
import Rudp.Ack

/-!
# The timers and the congestion window

The retransmission counters, the round trip estimation and the congestion control of a pcb change in
a few places only: the retransmission timer, the two retransmissions from input, the two ends of the
handshake, an MSS option and the acknowledgments. `Pcb.timers` is that part of a pcb, and `Timed`
says what an invariant of it has to survive.

Results:
* `tcpReceiveAck_timers`: what an ACK does to it, case by case (`AckTimers`).
* `Timed.toKept`: an invariant that each of these things keeps is kept by every operation.
* `Begun.timers`: where a run begins.
-/

namespace Rudp

variable {W : Type} {s s' : St W}

/-! ## The part of a pcb -/

/-- The fields that the timers and the congestion control depend on. -/
structure Timers where
  state : TcpState
  mss : ℕ
  sa : ℤ
  sv : ℤ
  rto : ℤ
  nrtx : ℕ
  persistBackoff : ℕ
  cwnd : ℕ
  ssthresh : ℕ
  sndWnd : ℕ
  tfInfr : Bool

/-- That part of a pcb. -/
def Pcb.timers (pcb : Pcb) : Timers where
  state := pcb.state
  mss := pcb.mss
  sa := pcb.sa
  sv := pcb.sv
  rto := pcb.rto
  nrtx := pcb.nrtx
  persistBackoff := pcb.persistBackoff
  cwnd := pcb.cwnd
  ssthresh := pcb.ssthresh
  sndWnd := pcb.sndWnd
  tfInfr := pcb.tfInfr

theorem timers_of_quiet (hq : s'.pcb.quiet = s.pcb.quiet) : s'.pcb.timers = s.pcb.timers := by
  have he : ∀ p : Pcb, p.timers = p.quiet.timers := fun _ => rfl
  rw [he s'.pcb, he s.pcb, hq]

theorem Queues.timers (h : Queues s s') : s'.pcb.timers = s.pcb.timers := by
  have he : ∀ p : Pcb, p.timers = p.unqueued.timers := fun _ => rfl
  rw [he s'.pcb, he s.pcb, h.1]

/-! ## Packets -/

/-- The pcb without the fields that a transmission changes. -/
def Pcb.calm (pcb : Pcb) : Pcb :=
  { pcb with
    tfAckDelay := false, tfAckNow := false, tfNagleMemErr := false, rcvAnnRightEdge := 0
    rtime := 0, rttest := 0, rtseq := 0, sndNxt := 0, unsentOversize := 0, unsent := []
    unacked := [] }

theorem timers_of_calm {p q : Pcb} (h : p.calm = q.calm) : p.timers = q.timers := by
  have he : ∀ p : Pcb, p.timers = p.calm.timers := fun _ => rfl
  rw [he p, he q, h]

theorem calm_tcpSendEmptyAck (s : St W) : (tcpSendEmptyAck s).2.pcb.calm = s.pcb.calm := by
  rcases tcpSendEmptyAck_cases s with ⟨-, hp, -⟩ | ⟨sent, -, hp, -⟩
  · rw [hp]
    rfl
  · rw [hp]
    rfl

theorem calm_tcpKeepalive (s : St W) : (tcpKeepalive s).2.pcb.calm = s.pcb.calm := by
  rcases tcpKeepalive_cases s with ⟨hp, -⟩ | ⟨sent, hp, -⟩
  · rw [hp]
  · rw [hp]
    rfl

theorem calm_tcpZeroWindowProbe (s : St W) : (tcpZeroWindowProbe s).2.pcb.calm = s.pcb.calm := by
  rcases tcpZeroWindowProbe_cases s with ⟨hp, -⟩ | ⟨seg, -, sent, hp, -⟩
  · rw [hp]
  · rw [hp]
    rfl

theorem calm_tcpOutputSegment {s₁ : St W} {seg seg' : TcpSeg} {err : Err}
    (h : tcpOutputSegment s seg = (err, seg', s₁)) : s₁.pcb.calm = s.pcb.calm := by
  obtain ⟨-, sent, -, hp, -⟩ := tcpOutputSegment_eq h
  rw [hp]
  rfl

theorem calm_tcpOutputSent (s : St W) (seg : TcpSeg) (rest : List TcpSeg) :
    (tcpOutputSent s seg rest).pcb.calm = s.pcb.calm := by
  unfold tcpOutputSent
  dsimp only
  split_ifs <;> rfl

/-- `tcp_output` changes none of the other fields. -/
theorem calm_tcpOutput {err : Err} (h : tcpOutput s = .ok (err, s')) :
    s'.pcb.calm = s.pcb.calm := by
  refine tcpOutput_rule (I := fun t => t.pcb.calm = s.pcb.calm) ?_ ?_ ?_ (fun hI => hI) h rfl
  · intro t hI
    exact (calm_tcpSendEmptyAck t).trans hI
  · intro t t₁ seg seg' rest hI hu hfit hrst he
    exact (calm_tcpOutputSent t₁ seg' rest).trans ((calm_tcpOutputSegment he).trans hI)
  · intro t t₁ seg seg' rest err hI hu hfit hrst he hne
    exact (calm_tcpOutputSegment he).trans hI

theorem timers_tcpSendEmptyAck (s : St W) : (tcpSendEmptyAck s).2.pcb.timers = s.pcb.timers :=
  timers_of_calm (calm_tcpSendEmptyAck s)

theorem timers_tcpKeepalive (s : St W) : (tcpKeepalive s).2.pcb.timers = s.pcb.timers :=
  timers_of_calm (calm_tcpKeepalive s)

theorem timers_tcpZeroWindowProbe (s : St W) :
    (tcpZeroWindowProbe s).2.pcb.timers = s.pcb.timers :=
  timers_of_calm (calm_tcpZeroWindowProbe s)

theorem timers_tcpRst (s : St W) (seqno ackno : U32) (connId : ConnectId) :
    (tcpRst s seqno ackno connId).pcb.timers = s.pcb.timers := by
  rw [(tcpRst_cases s seqno ackno connId).1]

theorem timers_tcpOutput {err : Err} (h : tcpOutput s = .ok (err, s')) :
    s'.pcb.timers = s.pcb.timers :=
  timers_of_calm (calm_tcpOutput h)

/-! ## Retransmissions -/

theorem tcpRexmit_nil (hu : s.pcb.unacked = []) : tcpRexmit s = s := by
  unfold tcpRexmit
  rw [hu]

theorem timers_tcpRexmit (hu : s.pcb.unacked ≠ []) :
    (tcpRexmit s).pcb.timers = { s.pcb.timers with nrtx := u8 (s.pcb.nrtx + 1) } := by
  unfold tcpRexmit
  cases hq : s.pcb.unacked with
  | nil => exact absurd hq hu
  | cons seg rest => rfl

/-- The retransmission timer has expired with segments unacknowledged. -/
theorem timers_tcpRexmitRto (hu : s.pcb.unacked ≠ []) (h : tcpRexmitRto s = .ok s') :
    s'.pcb.timers = { s.pcb.timers with nrtx := u8 (s.pcb.nrtx + 1) } := by
  unfold tcpRexmitRto at h
  split at h
  · next hl => exact absurd (List.getLast?_eq_none_iff.mp hl) hu
  · obtain ⟨⟨err, s₁⟩, h₁, h⟩ := Run.bind_eq_ok.mp h
    cases h
    exact (timers_tcpOutput h₁).trans rfl

/-- What the retransmission timer does when it expires. -/
theorem tcpSlowtmrSend_expires (he : s.pcb.Expires) (h : tcpSlowtmrSend s = .ok s') :
    ∃ rto, rtoBackoff s.pcb = .ok rto ∧ s'.pcb.timers = { s.pcb.timers with
      rto := rto, ssthresh := rtoSsthresh s.pcb, cwnd := s.pcb.mss, nrtx := u8 (s.pcb.nrtx + 1) } := by
  unfold tcpSlowtmrSend at h
  rw [if_neg he.1, if_neg (by have := he.2.1; omega)] at h
  obtain ⟨t, hs₁, ht⟩ : ∃ t, (if s.pcb.rtime ≥ 0 then
      ({ s with pcb.rtime := s16 (s.pcb.rtime + 1) } : St W) else s) = { s with pcb.rtime := t } ∧
      t = if s.pcb.rtime ≥ 0 then s16 (s.pcb.rtime + 1) else s.pcb.rtime := by
    split
    · exact ⟨_, rfl, rfl⟩
    · exact ⟨s.pcb.rtime, rfl, rfl⟩
  unfold tcpSlowtmrRexmit at h
  rw [hs₁] at h
  dsimp only at h
  rw [if_pos ⟨he.2.2.1, ht ▸ he.2.2.2⟩] at h
  obtain ⟨rto, hrto, h⟩ := Run.bind_eq_ok.mp h
  exact ⟨rto, hrto, timers_tcpRexmitRto (s := { s with
    pcb.rto := rto, pcb.rtime := 0, pcb.ssthresh := rtoSsthresh s.pcb, pcb.cwnd := s.pcb.mss })
    he.2.2.1 h⟩

/-- The slow start threshold of a fast retransmission (tcp_out.c:1355-1369). -/
def fastSsthresh (pcb : Pcb) : ℕ :=
  let ssthresh := if pcb.cwnd > pcb.sndWnd then pcb.sndWnd / 2 else pcb.cwnd / 2
  if ssthresh < 2 * pcb.mss then u16 (2 * pcb.mss) else ssthresh

/-- The pcb behind a fast retransmission, but for its queues. -/
def fastRexmit (pcb : Pcb) : Pcb :=
  { pcb with
    nrtx := u8 (pcb.nrtx + 1)
    ssthresh := fastSsthresh pcb
    cwnd := u16 (fastSsthresh pcb + 3 * pcb.mss)
    tfInfr := true }

theorem timers_tcpRexmitFast (s : St W) : (tcpRexmitFast s).pcb.timers =
    if s.pcb.unacked ≠ [] ∧ s.pcb.tfInfr = false then (fastRexmit s.pcb).timers
    else s.pcb.timers := by
  unfold tcpRexmitFast
  split
  · next hc =>
    have e := timers_tcpRexmit hc.1
    generalize tcpRexmit s = t at e
    have e₁ : t.pcb.cwnd = s.pcb.cwnd := congrArg Timers.cwnd e
    have e₂ : t.pcb.sndWnd = s.pcb.sndWnd := congrArg Timers.sndWnd e
    have e₃ : t.pcb.mss = s.pcb.mss := congrArg Timers.mss e
    show ({ t.pcb.timers with
      ssthresh := fastSsthresh t.pcb
      cwnd := u16 (fastSsthresh t.pcb + 3 * t.pcb.mss)
      tfInfr := true } : Timers) = _
    have ef : fastSsthresh t.pcb = fastSsthresh s.pcb := by
      unfold fastSsthresh
      rw [e₁, e₂, e₃]
    rw [e, ef, e₃]
    rfl
  · rfl

/-! ## Acknowledgments -/

/-- The segment is a duplicate ACK: clauses 1 to 5 (tcp_in.c:968-979). -/
def DupAck (pcb : Pcb) (seg : InSegment) : Prop :=
  seg.tcplen = 0 ∧
    (tcpReceiveWindow pcb seg).sndWl2 + u32 (tcpReceiveWindow pcb seg).sndWnd =
      u32 pcb.sndWnd + pcb.sndWl2 ∧
    pcb.rtime ≥ 0 ∧ pcb.lastack = seg.ackno

/-- The segment makes `tcp_receive` do a fast retransmission. -/
def FastRexmits (pcb : Pcb) (seg : InSegment) : Prop :=
  seg.flags.ack = true ∧ DupAck pcb seg ∧ pcb.dupacks = 2 ∧ pcb.unacked ≠ [] ∧ pcb.tfInfr = false

/-- The segment acknowledges new data. -/
def AcksNew (pcb : Pcb) (seg : InSegment) : Prop :=
  seg.flags.ack = true ∧ ¬ tcpSeqLeq seg.ackno pcb.lastack ∧
    tcpSeqBetween seg.ackno (pcb.lastack + 1) pcb.sndNxt

theorem DupAck.not_acksNew {pcb : Pcb} {seg : InSegment} (h : DupAck pcb seg) :
    ¬ AcksNew pcb seg := by
  intro hn
  refine hn.2.1 ?_
  unfold tcpSeqLeq
  rw [h.2.2.2]
  simp

/-- The segment ends the measurement of a round trip time. -/
def Samples (pcb : Pcb) (seg : InSegment) : Prop :=
  seg.flags.ack = true ∧ pcb.rttest ≠ 0 ∧ tcpSeqLt pcb.rtseq seg.ackno ∧ ¬ FastRexmits pcb seg

/-- Fast recovery ends (tcp_in.c:1008-1011). -/
def Pcb.recover (pcb : Pcb) : Pcb :=
  if pcb.tfInfr then { pcb with tfInfr := false, cwnd := pcb.ssthresh } else pcb

/-- The round trip estimation with a measured time `m` (tcp_in.c:1148-1156). -/
def Pcb.sample (pcb : Pcb) (m : ℤ) : Pcb :=
  let m := s16 (m - pcb.sa / 8)
  let sa := s16 (pcb.sa + m)
  let m := if m < 0 then s16 (-m) else m
  let m := s16 (m - pcb.sv / 4)
  let sv := s16 (pcb.sv + m)
  { pcb with sa := sa, sv := sv, rto := s16 (sa / 8 + sv), rttest := 0 }

/-- The measured time: an `s16_t`. -/
def St.rtt (s : St W) : ℤ := s16 (s.ticks - s.pcb.rttest).toNat

/-- The three clauses of `tcp_receive` for the timers and the congestion window. -/
inductive AckTimers (pcb : Pcb) (seg : InSegment) : Pcb → Prop
  | keep : ¬ AcksNew pcb seg → ¬ FastRexmits pcb seg →
    AckTimers pcb seg (tcpReceiveWindow pcb seg)
  | inflate : DupAck pcb seg → 3 ≤ pcb.dupacks →
    AckTimers pcb seg (cwndInflate (tcpReceiveWindow pcb seg))
  | fast : FastRexmits pcb seg → AckTimers pcb seg (fastRexmit (tcpReceiveWindow pcb seg))
  | advance : AcksNew pcb seg → AckTimers pcb seg (cwndAck
      { (tcpReceiveWindow pcb seg).recover with nrtx := 0, rto := s16 (pcb.sa / 8 + pcb.sv) })

/-! ### The pieces -/

/-- The measurement of a round trip time: `rttest`, `rtseq` and the clock. -/
def St.meter (s : St W) : U32 × U32 × U32 := (s.pcb.rttest, s.pcb.rtseq, s.ticks)

theorem meter_tcpSendEmptyAck (s : St W) : (tcpSendEmptyAck s).2.meter = s.meter := by
  have hh : (tcpOutputAllocHeader s s.pcb.sndNxt).2.meter = s.meter := by
    unfold tcpOutputAllocHeader
    dsimp only
    split <;> rfl
  unfold tcpSendEmptyAck
  generalize tcpOutputAllocHeader s s.pcb.sndNxt = x at hh
  obtain ⟨hdr, s₁⟩ := x
  cases hdr with
  | none => exact hh
  | some hdr =>
    dsimp only
    split <;> exact hh

theorem timers_tcpReceiveFree {next : TcpSeg} (h : tcpReceiveFree s next = .ok s') :
    s'.pcb.timers = s.pcb.timers ∧ s'.meter = s.meter := by
  obtain ⟨_, -, h⟩ := Run.bind_eq_ok.mp h
  obtain ⟨_, -, h⟩ := Run.bind_eq_ok.mp h
  cases h
  exact ⟨rfl, rfl⟩

theorem timers_tcpReceiveUnacked {ackno : U32} {q : List TcpSeg}
    (h : tcpReceiveUnacked ackno q s = .ok s') :
    s'.pcb.timers = s.pcb.timers ∧ s'.meter = s.meter := by
  induction q generalizing s with
  | nil =>
    cases h
    exact ⟨rfl, rfl⟩
  | cons next rest ih =>
    rw [tcpReceiveUnacked] at h
    split at h
    · obtain ⟨s₁, h₁, h⟩ := Run.bind_eq_ok.mp h
      obtain ⟨e₁, m₁⟩ := timers_tcpReceiveFree h₁
      obtain ⟨e₂, m₂⟩ := ih h
      exact ⟨e₂.trans e₁, m₂.trans m₁⟩
    · cases h
      exact ⟨rfl, rfl⟩

theorem timers_tcpReceiveUnsent {ackno : U32} {q : List TcpSeg}
    (h : tcpReceiveUnsent ackno q s = .ok s') :
    s'.pcb.timers = s.pcb.timers ∧ s'.meter = s.meter := by
  induction q generalizing s with
  | nil =>
    cases h
    exact ⟨rfl, rfl⟩
  | cons next rest ih =>
    rw [tcpReceiveUnsent] at h
    split at h
    · obtain ⟨s₁, h₁, h⟩ := Run.bind_eq_ok.mp h
      obtain ⟨e₁, m₁⟩ := timers_tcpReceiveFree h₁
      obtain ⟨e₂, m₂⟩ := ih h
      exact ⟨e₂.trans e₁, m₂.trans m₁⟩
    · cases h
      exact ⟨rfl, rfl⟩

/-- What the window update leaves alone. -/
theorem tcpReceiveWindow_keeps (pcb : Pcb) (seg : InSegment) :
    ∃ sndWnd sndWndMax sndWl1 sndWl2 persistCnt persistBackoff,
      tcpReceiveWindow pcb seg = { pcb with
        sndWnd := sndWnd, sndWndMax := sndWndMax, sndWl1 := sndWl1, sndWl2 := sndWl2
        persistCnt := persistCnt, persistBackoff := persistBackoff } ∧
      ((sndWnd = pcb.sndWnd ∧ persistBackoff = pcb.persistBackoff) ∨
        (sndWnd = seg.tcphdr.wnd ∧
          (persistBackoff = 0 ∨ persistBackoff = 1 ∨ persistBackoff = pcb.persistBackoff))) := by
  unfold tcpReceiveWindow
  split
  · refine ⟨_, _, _, _, _, _, rfl, .inr ⟨rfl, ?_⟩⟩
    split_ifs
    · exact .inr (.inl rfl)
    · exact .inr (.inr rfl)
    · exact .inl rfl
  · exact ⟨pcb.sndWnd, pcb.sndWndMax, pcb.sndWl1, pcb.sndWl2, pcb.persistCnt, pcb.persistBackoff,
      rfl, .inl ⟨rfl, rfl⟩⟩

/-- `++pcb->dupacks`, unless it overflows (tcp_in.c:980-982). -/
theorem dupacks_next (d : ℕ) :
    ((if u8 (d + 1) > d then d + 1 else d) > 3 → 3 ≤ d) ∧
      ((if u8 (d + 1) > d then d + 1 else d) = 3 ↔ d = 2) := by
  unfold u8
  split <;> omega

/-- The congestion window behind `cwndInflate`. -/
def Timers.inflated (v : Timers) : ℕ :=
  if u16 (v.cwnd + v.mss) > v.cwnd then u16 (v.cwnd + v.mss) else v.cwnd

/-- The congestion window behind `cwndAck`. -/
def Timers.grown (v : Timers) : ℕ :=
  if v.cwnd < v.ssthresh then v.inflated
  else if u16 (v.cwnd + v.mss * v.mss / v.cwnd) > v.cwnd then
    u16 (v.cwnd + v.mss * v.mss / v.cwnd)
  else v.cwnd

theorem timers_cwndInflate (p : Pcb) :
    (cwndInflate p).timers = { p.timers with cwnd := p.timers.inflated } := by
  unfold cwndInflate
  split
  · next hc => exact congrArg (fun c => { p.timers with cwnd := c }) (if_pos hc).symm
  · next hc => exact congrArg (fun c => { p.timers with cwnd := c }) (if_neg hc).symm

theorem timers_cwndAck (p : Pcb) :
    (cwndAck p).timers = { p.timers with cwnd := p.timers.grown } := by
  unfold cwndAck
  split
  · next hc =>
    rw [timers_cwndInflate]
    exact congrArg (fun c => { p.timers with cwnd := c }) (if_pos hc).symm
  · next hc =>
    dsimp only
    split
    · next hg =>
      exact congrArg (fun c => { p.timers with cwnd := c }) ((if_neg hc).trans (if_pos hg)).symm
    · next hg =>
      exact congrArg (fun c => { p.timers with cwnd := c }) ((if_neg hc).trans (if_neg hg)).symm

theorem timers_cwndInflate_congr {p q : Pcb} (h : p.timers = q.timers) :
    (cwndInflate p).timers = (cwndInflate q).timers := by
  rw [timers_cwndInflate, timers_cwndInflate, h]

theorem timers_cwndAck_congr {p q : Pcb} (h : p.timers = q.timers) :
    (cwndAck p).timers = (cwndAck q).timers := by
  rw [timers_cwndAck, timers_cwndAck, h]

theorem timers_fastRexmit {p q : Pcb} (h : p.timers = q.timers) :
    (fastRexmit p).timers = (fastRexmit q).timers := by
  have e₁ : p.cwnd = q.cwnd := congrArg Timers.cwnd h
  have e₂ : p.mss = q.mss := congrArg Timers.mss h
  have e₃ : p.sndWnd = q.sndWnd := congrArg Timers.sndWnd h
  have e₄ : p.nrtx = q.nrtx := congrArg Timers.nrtx h
  show ({ p.timers with
    nrtx := u8 (p.nrtx + 1)
    ssthresh := fastSsthresh p
    cwnd := u16 (fastSsthresh p + 3 * p.mss)
    tfInfr := true } : Timers) = _
  have ef : fastSsthresh p = fastSsthresh q := by
    unfold fastSsthresh
    rw [e₁, e₂, e₃]
  rw [h, ef, e₂, e₄]
  rfl

theorem rttest_tcpRexmitFast (s : St W) :
    (s.pcb.unacked ≠ [] ∧ s.pcb.tfInfr = false → (tcpRexmitFast s).pcb.rttest = 0) ∧
      (¬ (s.pcb.unacked ≠ [] ∧ s.pcb.tfInfr = false) → tcpRexmitFast s = s) := by
  unfold tcpRexmitFast
  constructor
  · intro hc
    rw [if_pos hc]
    show (tcpRexmit s).pcb.rttest = 0
    unfold tcpRexmit
    cases hq : s.pcb.unacked with
    | nil => exact absurd hq hc.1
    | cons seg rest => rfl
  · intro hc
    rw [if_neg hc]

theorem timers_sample {p q : Pcb} (h : p.timers = q.timers) (m : ℤ) :
    (p.sample m).timers = (q.sample m).timers := by
  have e₁ : p.sa = q.sa := congrArg Timers.sa h
  have e₂ : p.sv = q.sv := congrArg Timers.sv h
  have he (r : Pcb) : (r.sample m).timers = { r.timers with
      sa := (r.sample m).sa, sv := (r.sample m).sv, rto := (r.sample m).rto } := rfl
  have hs : (p.sample m).sa = (q.sample m).sa ∧ (p.sample m).sv = (q.sample m).sv ∧
      (p.sample m).rto = (q.sample m).rto := by
    unfold Pcb.sample
    dsimp only
    rw [e₁, e₂]
    exact ⟨rfl, rfl, rfl⟩
  rw [he p, he q, h, hs.1, hs.2.1, hs.2.2]

/-- Clause 1: an old ACK changes nothing here, or it inflates the congestion window, or it leads to
    a fast retransmission. `rightWndEdge` is that before the window update. -/
theorem timers_tcpReceiveDupack (s : St W) (seg : InSegment) (rightWndEdge : U32) :
    let dup := seg.tcplen = 0 ∧ s.pcb.sndWl2 + u32 s.pcb.sndWnd = rightWndEdge ∧ s.pcb.rtime ≥ 0 ∧
      s.pcb.lastack = seg.ackno
    let fast := dup ∧ s.pcb.dupacks = 2 ∧ s.pcb.unacked ≠ [] ∧ s.pcb.tfInfr = false
    let t := tcpReceiveDupack s seg rightWndEdge
    (¬ fast ∧ t.pcb.timers = s.pcb.timers ∧ t.meter = s.meter) ∨
      (¬ fast ∧ dup ∧ 3 ≤ s.pcb.dupacks ∧ t.pcb.timers = (cwndInflate s.pcb).timers ∧
        t.meter = s.meter) ∨
      (fast ∧ t.pcb.timers = (fastRexmit s.pcb).timers ∧ t.pcb.rttest = 0) := by
  intro dup fast t
  have ht : tcpReceiveDupack s seg rightWndEdge = t := rfl
  clear_value t
  by_cases hd : dup
  · obtain ⟨hgt, heq⟩ := dupacks_next s.pcb.dupacks
    unfold tcpReceiveDupack at ht
    dsimp only at ht
    rw [if_pos hd] at ht
    have hs₁ : (if u8 (s.pcb.dupacks + 1) > s.pcb.dupacks then
        ({ s with pcb.acked := 0, pcb.dupacks := s.pcb.dupacks + 1 } : St W)
        else { s with pcb.acked := 0 }) =
        { s with
          pcb.acked := 0
          pcb.dupacks := if u8 (s.pcb.dupacks + 1) > s.pcb.dupacks then s.pcb.dupacks + 1
            else s.pcb.dupacks } := by
      split <;> rfl
    rw [hs₁] at ht
    dsimp only at ht
    generalize (if u8 (s.pcb.dupacks + 1) > s.pcb.dupacks then s.pcb.dupacks + 1
      else s.pcb.dupacks) = d at ht hgt heq
    have hnf (h3 : d ≠ 3) : ¬ fast := fun hf => h3 (heq.mpr hf.2.1)
    split at ht
    · next h3 =>
      refine .inr (.inl ⟨hnf (by omega), hd, hgt h3, ?_, ?_⟩)
      · rw [← ht]
        exact timers_cwndInflate_congr rfl
      · rw [← ht]
        unfold cwndInflate St.meter
        split <;> rfl
    split at ht
    · next h3 =>
      obtain ⟨hr₀, hr₁⟩ := rttest_tcpRexmitFast
        ({ s with pcb.acked := 0, pcb.dupacks := d } : St W)
      by_cases hf : s.pcb.unacked ≠ [] ∧ s.pcb.tfInfr = false
      · refine .inr (.inr ⟨⟨hd, heq.mp h3, hf.1, hf.2⟩, ?_, ?_⟩)
        · rw [← ht, timers_tcpRexmitFast, if_pos hf]
          exact timers_fastRexmit rfl
        · rw [← ht]
          exact hr₀ hf
      · refine .inl ⟨fun h => hf h.2.2, ?_, ?_⟩
        · rw [← ht, hr₁ hf]
          rfl
        · rw [← ht, hr₁ hf]
          rfl
    · next h3 =>
      refine .inl ⟨hnf h3, ?_, ?_⟩
      · rw [← ht]
        rfl
      · rw [← ht]
        rfl
  · unfold tcpReceiveDupack at ht
    dsimp only at ht
    rw [if_neg hd] at ht
    refine .inl ⟨fun hf => hd hf.1, ?_, ?_⟩
    · rw [← ht]
      rfl
    · rw [← ht]
      rfl

/-- Clause 2: what an ACK for new data does. -/
theorem timers_tcpReceiveNewAck {ackno : U32} (h : tcpReceiveNewAck s ackno = .ok s') :
    s'.pcb.timers = (cwndAck { s.pcb.recover with
      nrtx := 0, rto := s16 (s.pcb.sa / 8 + s.pcb.sv) }).timers ∧ s'.meter = s.meter := by
  obtain ⟨s₁, h₁, h⟩ := Run.bind_eq_ok.mp h
  cases h
  obtain ⟨et, em⟩ := timers_tcpReceiveUnacked h₁
  have hr : s.pcb.recover.sa = s.pcb.sa ∧ s.pcb.recover.sv = s.pcb.sv ∧
      s.pcb.recover.rttest = s.pcb.rttest ∧ s.pcb.recover.rtseq = s.pcb.rtseq := by
    unfold Pcb.recover
    split <;> exact ⟨rfl, rfl, rfl, rfl⟩
  constructor
  · show s₁.pcb.timers = _
    rw [et]
    refine timers_cwndAck_congr ?_
    show ({ s.pcb.recover.timers with
      nrtx := 0, rto := s16 (s.pcb.recover.sa / 8 + s.pcb.recover.sv) } : Timers) =
      { s.pcb.recover.timers with nrtx := 0, rto := s16 (s.pcb.sa / 8 + s.pcb.sv) }
    rw [hr.1, hr.2.1]
  · show s₁.meter = _
    rw [em]
    have hm (p : Pcb) : (cwndAck p).rttest = p.rttest ∧ (cwndAck p).rtseq = p.rtseq := by
      unfold cwndAck cwndInflate
      dsimp only
      split_ifs <;> exact ⟨rfl, rfl⟩
    unfold St.meter
    dsimp only
    rw [(hm _).1, (hm _).2]
    show (s.pcb.recover.rttest, s.pcb.recover.rtseq, s.ticks) = _
    rw [hr.2.2.1, hr.2.2.2]

/-- What `tcp_receive` does with the acknowledgment number, up to the loop over `unsent`. -/
theorem timers_tcpReceiveAckno {seg : InSegment} (hack : seg.flags.ack = true)
    (h : tcpReceiveAckno { s with pcb := tcpReceiveWindow s.pcb seg } seg
      (u32 s.pcb.sndWnd + s.pcb.sndWl2) = .ok s') :
    ∃ p, AckTimers s.pcb seg p ∧ s'.pcb.timers = p.timers ∧
      ((¬ FastRexmits s.pcb seg ∧ s'.meter = s.meter) ∨ s'.pcb.rttest = 0) := by
  obtain ⟨wnd, wmax, wl1, wl2, cnt, pb, hw, -⟩ := tcpReceiveWindow_keeps s.pcb seg
  have hm : ({ s with pcb := tcpReceiveWindow s.pcb seg } : St W).meter = s.meter := by
    rw [hw]
    rfl
  have e₁ : (tcpReceiveWindow s.pcb seg).dupacks = s.pcb.dupacks := by rw [hw]
  have e₂ : (tcpReceiveWindow s.pcb seg).unacked = s.pcb.unacked := by rw [hw]
  have e₃ : (tcpReceiveWindow s.pcb seg).tfInfr = s.pcb.tfInfr := by rw [hw]
  have e₄ : (tcpReceiveWindow s.pcb seg).rtime = s.pcb.rtime := by rw [hw]
  have e₅ : (tcpReceiveWindow s.pcb seg).lastack = s.pcb.lastack := by rw [hw]
  have e₆ : (tcpReceiveWindow s.pcb seg).sndNxt = s.pcb.sndNxt := by rw [hw]
  have e₇ : (tcpReceiveWindow s.pcb seg).sa = s.pcb.sa ∧
      (tcpReceiveWindow s.pcb seg).sv = s.pcb.sv := by rw [hw]; exact ⟨rfl, rfl⟩
  have hfast (hf : ¬ seg.ackno = s.pcb.lastack) : ¬ FastRexmits s.pcb seg :=
    fun h => hf h.2.1.2.2.2.symm
  unfold tcpReceiveAckno at h
  dsimp only at h
  rw [e₅, e₆] at h
  split at h
  · next hle =>
    cases h
    have hd := timers_tcpReceiveDupack ({ s with pcb := tcpReceiveWindow s.pcb seg } : St W) seg
      (u32 s.pcb.sndWnd + s.pcb.sndWl2)
    dsimp only at hd
    rw [e₁, e₂, e₃, e₄, e₅, hm] at hd
    rcases hd with ⟨hf, ht, hmt⟩ | ⟨hf, hdup, h3, ht, hmt⟩ | ⟨hf, ht, hz⟩
    · exact ⟨_, .keep (fun h => h.2.1 hle) (fun h => hf h.2), ht, .inl ⟨fun h => hf h.2, hmt⟩⟩
    · refine ⟨_, .inflate ?_ h3, ht, .inl ⟨fun h => hf h.2, hmt⟩⟩
      exact hdup
    · exact ⟨_, .fast ⟨hack, hf⟩, ht, .inr hz⟩
  split at h
  · next hnle hbet =>
    obtain ⟨ht, hmt⟩ := timers_tcpReceiveNewAck h
    refine ⟨_, .advance ⟨hack, hnle, hbet⟩, ?_, .inl ⟨hfast ?_, hmt.trans hm⟩⟩
    · rw [ht, e₇.1, e₇.2]
    · intro he
      rw [he] at hnle
      exact hnle (by unfold tcpSeqLeq; simp)
  · next hnle hnb =>
    cases h
    have hne : ¬ seg.ackno = s.pcb.lastack := by
      intro he
      rw [he] at hnle
      exact hnle (by unfold tcpSeqLeq; simp)
    exact ⟨_, .keep (fun h => hnb h.2.2) (hfast hne), (timers_tcpSendEmptyAck _).trans rfl,
      .inl ⟨hfast hne, (meter_tcpSendEmptyAck _).trans hm⟩⟩

theorem timers_tcpReceiveRtt (s : St W) (ackno : U32) :
    (tcpReceiveRtt s ackno).pcb =
      if s.pcb.rttest ≠ 0 ∧ tcpSeqLt s.pcb.rtseq ackno then s.pcb.sample s.rtt else s.pcb := by
  unfold tcpReceiveRtt
  split <;> rfl

/-- What the part of `tcp_receive` under `flags & TCP_ACK` does to the timers: one of its clauses,
    and perhaps a sample. -/
theorem tcpReceiveAck_timers {seg : InSegment} (hack : seg.flags.ack = true)
    (h : tcpReceiveAck s seg = .ok s') : ∃ p, AckTimers s.pcb seg p ∧
      (s'.pcb.timers = p.timers ∨
        (Samples s.pcb seg ∧ s'.pcb.timers = (p.sample s.rtt).timers)) := by
  obtain ⟨s₁, h₁, h⟩ := Run.bind_eq_ok.mp h
  obtain ⟨s₂, h₂, h⟩ := Run.bind_eq_ok.mp h
  cases h
  obtain ⟨p, hp, ht, hm⟩ := timers_tcpReceiveAckno hack h₁
  obtain ⟨et, em⟩ := timers_tcpReceiveUnsent h₂
  refine ⟨p, hp, ?_⟩
  rw [timers_tcpReceiveRtt]
  split
  · next hs =>
    have e : s₂.pcb.rttest = s₁.pcb.rttest := congrArg Prod.fst em
    rcases hm with ⟨hf, hm⟩ | hz
    · have hm₂ := em.trans hm
      have e₁ : s₂.pcb.rttest = s.pcb.rttest := congrArg Prod.fst hm₂
      have e₂ : s₂.pcb.rtseq = s.pcb.rtseq := congrArg (fun m => m.2.1) hm₂
      have e₃ : s₂.ticks = s.ticks := congrArg (fun m => m.2.2) hm₂
      have er : s₂.rtt = s.rtt := by
        unfold St.rtt
        rw [e₁, e₃]
      refine .inr ⟨⟨hack, e₁ ▸ hs.1, e₂ ▸ hs.2, hf⟩, ?_⟩
      rw [er]
      exact timers_sample (et.trans ht) s.rtt
    · exact absurd (e.trans hz) hs.1
  · exact .inl (et.trans ht)

/-! ## Data -/

/-- The fields without the state, which a FIN changes. -/
def Timers.still (v : Timers) : Timers := { v with state := .CLOSED }

theorem Timers.eq_of_still {v w : Timers} (h : w.still = v.still) :
    w = { v with state := w.state } := by
  cases v
  cases w
  simp only [Timers.still, Timers.mk.injEq] at h ⊢
  simpa using h

theorem timers_tcpReceiveTake {message : String} {c : TcpSeg} {n : ℕ}
    (h : tcpReceiveTake s message c n = .ok s') : s'.pcb.timers = s.pcb.timers := by
  obtain ⟨_, -, h⟩ := Run.bind_eq_ok.mp h
  obtain ⟨⟨_, pcb⟩, hp, h⟩ := Run.bind_eq_ok.mp h
  obtain ⟨w, rfl⟩ := tcpUpdateRcvAnnWnd_ok hp
  cases h
  rfl

theorem still_tcpReceiveDequeue {q : List TcpSeg} (h : tcpReceiveDequeue q s = .ok s') :
    s'.pcb.timers.still = s.pcb.timers.still := by
  induction q generalizing s with
  | nil =>
    cases h
    rfl
  | cons c q ih =>
    rw [tcpReceiveDequeue] at h
    split at h
    · obtain ⟨s₁, h₁, h⟩ := Run.bind_eq_ok.mp h
      have ht := congrArg Timers.still (timers_tcpReceiveTake h₁)
      exact (ih h).trans ht
    · cases h
      rfl

theorem still_tcpReceiveInseq {c : TcpSeg} (h : tcpReceiveInseq s c = .ok s') :
    s'.pcb.timers.still = s.pcb.timers.still := by
  obtain ⟨_, -, h⟩ := Run.bind_eq_ok.mp h
  obtain ⟨⟨_, _⟩, -, h⟩ := Run.bind_eq_ok.mp h
  obtain ⟨s₁, h₁, h⟩ := Run.bind_eq_ok.mp h
  obtain ⟨s₂, h₂, h⟩ := Run.bind_eq_ok.mp h
  cases h
  have ha : (tcpAck s₂).pcb.timers = s₂.pcb.timers := by
    unfold tcpAck
    split <;> rfl
  rw [ha, still_tcpReceiveDequeue h₂, timers_tcpReceiveTake h₁]
  rfl

theorem timers_tcpReceiveOutseq {c : TcpSeg} (h : tcpReceiveOutseq s c = .ok s') :
    s'.pcb.timers = s.pcb.timers := by
  unfold tcpReceiveOutseq at h
  have hs := timers_tcpSendEmptyAck s
  dsimp only at h
  generalize (tcpSendEmptyAck s).2 = s₁ at h hs
  split at h
  · cases h
    exact hs
  · split at h
    · cases h
      exact hs
    · obtain ⟨q', -, h⟩ := Run.bind_eq_ok.mp h
      cases h
      exact hs

/-- The data part of `tcp_receive` changes at most the state. -/
theorem still_tcpReceiveData {seg : InSegment} (h : tcpReceiveData s seg = .ok s') :
    s'.pcb.timers.still = s.pcb.timers.still := by
  unfold tcpReceiveData at h
  split at h
  · obtain ⟨c, -, h⟩ := Run.bind_eq_ok.mp h
    have hd : (tcpReceiveDup s seg).pcb.timers = s.pcb.timers := by
      unfold tcpReceiveDup
      split <;> rfl
    unfold tcpReceiveSegment at h
    split at h
    · split at h
      · exact (still_tcpReceiveInseq h).trans (congrArg Timers.still hd)
      · exact congrArg Timers.still ((timers_tcpReceiveOutseq h).trans hd)
    · cases h
      exact congrArg Timers.still ((timers_tcpSendEmptyAck _).trans hd)
  · split at h <;> cases h <;> rfl

/-! ## The rule -/

/-- A change of the state other than by a handshake: `CLOSE_WAIT` and `LAST_ACK` follow it. -/
def Leaves (st st' : TcpState) : Prop :=
  st' ≠ .SYN_SENT ∧ st' ≠ .SYN_RCVD ∧ st' ≠ .ESTABLISHED ∧
    (st' = .CLOSE_WAIT ∨ st' = .LAST_ACK → st = .ESTABLISHED ∨ st = .CLOSE_WAIT)

theorem Leaves.of_other {st st' : TcpState} (h : st' = .CLOSED ∨ st' = .FIN_WAIT_1 ∨
    st' = .FIN_WAIT_2 ∨ st' = .CLOSING ∨ st' = .TIME_WAIT) : Leaves st st' := by
  rcases h with rfl | rfl | rfl | rfl | rfl <;>
    exact ⟨by decide, by decide, by decide, fun h => by rcases h with h | h <;> cases h⟩

theorem Leaves.of_closeState {st st' : TcpState} (h : closeState st = some st') :
    Leaves st st' := by
  unfold closeState at h
  split at h
  · cases h
    exact .of_other (.inr (.inl rfl))
  · cases h
    exact .of_other (.inr (.inl rfl))
  · cases h
    exact ⟨by decide, by decide, by decide, fun _ => .inr rfl⟩
  · cases h

theorem Leaves.closeWait {st : TcpState} (h : st = .ESTABLISHED ∨ st = .CLOSE_WAIT) :
    Leaves st .CLOSE_WAIT :=
  ⟨by decide, by decide, by decide, fun _ => h⟩

/-- What happens to the timers and the congestion control, one thing at a time,
    but for the end of the handshake on the passive side. -/
structure TimedBase (P : Core → Api → Prop) (Q : St W → InSegment → Prop) (R : St W → Tmr → Prop)
    (O : St W → InSegment → Prop) (I : Timers → Prop) : Prop where
  noConnect {c : Core} {newPort : ℕ} {iss : U32} : ¬ P c (.connect newPort iss)
  leave {v : Timers} {st : TcpState} : Leaves v.state st → I v → I { v with state := st }
  backoff {v : Timers} {b : ℕ} : 0 < v.persistBackoff → 0 < b →
    (b = v.persistBackoff ∨ b ≤ tcpPersistBackoff.length) → I v → I { v with persistBackoff := b }
  rto {s : St W} {rto : ℤ} : R s .slow → s.pcb.Expires → rtoBackoff s.pcb = .ok rto →
    I s.pcb.timers → I { s.pcb.timers with
      rto := rto, ssthresh := rtoSsthresh s.pcb, cwnd := s.pcb.mss, nrtx := u8 (s.pcb.nrtx + 1) }
  rexmit {s : St W} {seg : InSegment} : s.pcb.state = .SYN_RCVD → RepeatsSyn s.pcb seg →
    s.pcb.unacked ≠ [] → O s seg → I s.pcb.timers →
    I { s.pcb.timers with nrtx := u8 (s.pcb.nrtx + 1) }
  mss {s : St W} {seg : InSegment} {tmr : U32} {n : ℕ} : (n = s.pcb.mss ∨ 0 < n ∧ n ≤ TCP_MSS) →
    O { s with pcb.tmr := tmr, pcb.keepCntSent := 0, pcb.mss := n } seg → I s.pcb.timers →
    I { s.pcb.timers with mss := n }
  establish {s : St W} {seg : InSegment} {rseg : TcpSeg} {rest : List TcpSeg} :
    s.pcb.state = .SYN_SENT → s.pcb.unacked = rseg :: rest → SynAcks seg rseg → O s seg →
    I s.pcb.timers → I (establish s.pcb seg rest).timers
  ack {s : St W} {seg : InSegment} {p : Pcb} : TcpState.ESTABLISHED.num ≤ s.pcb.state.num →
    Q s seg → AckTimers s.pcb seg p → I s.pcb.timers → I p.timers
  sample {s : St W} {seg : InSegment} {p : Pcb} : TcpState.ESTABLISHED.num ≤ s.pcb.state.num →
    Q s seg → AckTimers s.pcb seg p → Samples s.pcb seg → I s.pcb.timers →
    I (p.sample s.rtt).timers

/-- The same with the end of that handshake. -/
structure Timed (P : Core → Api → Prop) (Q : St W → InSegment → Prop) (R : St W → Tmr → Prop)
    (O : St W → InSegment → Prop) (I : Timers → Prop) : Prop extends TimedBase P Q R O I where
  accept {v : Timers} : v.state = .SYN_RCVD → I v → I { v with state := .ESTABLISHED }
  opened {v : Timers} {st : TcpState} : st = v.state ∨ st = .CLOSE_WAIT → I v →
    I { v with state := st, ssthresh := v.sndWnd, cwnd := initialCwnd v.mss }

namespace TimedBase

variable {P : Core → Api → Prop} {Q : St W → InSegment → Prop} {R : St W → Tmr → Prop}
variable {O : St W → InSegment → Prop} {app : App W} {I : Timers → Prop}

theorem tcpReceiveAck (h : TimedBase P Q R O I) {seg : InSegment}
    (hst : TcpState.ESTABLISHED.num ≤ s.pcb.state.num) (hQ : Q s seg) (hack : seg.flags.ack = true)
    (hr : Rudp.tcpReceiveAck s seg = .ok s') (hI : I s.pcb.timers) : I s'.pcb.timers := by
  obtain ⟨p, hp, ht | ⟨hs, ht⟩⟩ := tcpReceiveAck_timers hack hr
  · rw [ht]
    exact h.ack hst hQ hp hI
  · rw [ht]
    exact h.sample hst hQ hp hs hI

theorem toTimeWait (h : TimedBase P Q R O I) (hI : I s.pcb.timers) :
    I (Rudp.toTimeWait s).pcb.timers := by
  have ht : (Rudp.toTimeWait s).pcb.timers = { s.pcb.timers with state := .TIME_WAIT } := by
    unfold Rudp.toTimeWait tcpPcbPurge
    dsimp only
    split <;> rfl
  rw [ht]
  exact h.leave (.of_other (.inr (.inr (.inr (.inr rfl))))) hI

/-- What `tcp_process` does behind `tcp_receive`. -/
theorem processAfter (h : TimedBase P Q R O I) {state : TcpState} {seg : InSegment}
    (hst : s.pcb.state = state ∨ (state = .ESTABLISHED ∧ s.pcb.state = .CLOSE_WAIT))
    (hI : I s.pcb.timers) : I (tcpProcessAfter state seg s).pcb.timers := by
  have hcw (hs : s.pcb.state = .ESTABLISHED ∨ s.pcb.state = .CLOSE_WAIT) :
      I { s.pcb.timers with state := .CLOSE_WAIT } := h.leave (.closeWait hs) hI
  have hother (st : TcpState) (hs : st = .CLOSED ∨ st = .FIN_WAIT_1 ∨ st = .FIN_WAIT_2 ∨
      st = .CLOSING ∨ st = .TIME_WAIT) : I { s.pcb.timers with state := st } :=
    h.leave (.of_other hs) hI
  unfold tcpProcessAfter
  dsimp only
  split
  · split
    · exact hcw (hst.imp_right And.right)
    · exact hI
  · split
    · exact hcw (.inr (hst.elim id And.right))
    · exact hI
  · split
    · split
      · exact h.toTimeWait (s := tcpAckNow s) hI
      · exact hother .CLOSING (.inr (.inr (.inr (.inl rfl))))
    · split
      · exact hother .FIN_WAIT_2 (.inr (.inr (.inl rfl)))
      · exact hI
  · split
    · exact h.toTimeWait (s := tcpAckNow s) hI
    · exact hI
  · split
    · exact h.toTimeWait hI
    · exact hI
  · split <;> exact hI
  · exact hI

theorem tcpReceiveData (h : TimedBase P Q R O I) {seg : InSegment}
    (hr : Rudp.tcpReceiveData s seg = .ok s') (hI : I s.pcb.timers) : I s'.pcb.timers := by
  rw [Timers.eq_of_still (still_tcpReceiveData hr)]
  rcases state_tcpReceiveData hr with hst | ⟨he, hst⟩
  · have e : s'.pcb.timers.state = s.pcb.timers.state := hst
    rw [e]
    exact hI
  · have e : s'.pcb.timers.state = .CLOSE_WAIT := hst
    rw [e]
    exact h.leave (.closeWait (.inl he)) hI

/-- `tcp_receive` and what follows it. -/
theorem processReceive (h : TimedBase P Q R O I) {seg : InSegment} {after : St W → St W}
    (hafter : ∀ {t : St W}, t.pcb.state = s.pcb.state ∨
        (s.pcb.state = .ESTABLISHED ∧ t.pcb.state = .CLOSE_WAIT) →
      I t.pcb.timers → I (after t).pcb.timers) (hQ : Q s seg)
    (hr : tcpProcessReceive s seg after = .ok s') (hI : I s.pcb.timers) : I s'.pcb.timers := by
  obtain ⟨hst, s₁, s₂, h₁, hv, h₂, rfl⟩ := processReceive_parts hr
  have hI₁ : I s₁.pcb.timers := by
    rcases h₁ with ⟨hack, h₁⟩ | ⟨-, rfl⟩
    · exact h.tcpReceiveAck hst hQ hack h₁ hI
    · exact hI
  refine hafter ?_ (h.tcpReceiveData h₂ hI₁)
  rw [← show s₁.pcb.state = s.pcb.state from congrArg RcvView.state hv]
  exact state_tcpReceiveData h₂

/-- What the API does to these fields: nothing but a change of the state. -/
theorem keptApi_timers (hno : ∀ {c newPort iss}, ¬ P c (.connect newPort iss))
    (hleave : ∀ {v : Timers} {st}, Leaves v.state st → I v → I { v with state := st }) :
    KeptApi P (fun s : St W => I s.pcb.timers) where
  frame hI hq _ _ _ := by rw [timers_of_quiet hq]; exact hI
  unpark hI := hI
  callback _ hI := hI
  ackNow hI := hI
  rst {s seqno ackno} hI := by rw [timers_tcpRst]; exact hI
  connect hP := absurd hP hno
  write hP hr hI := by
    have ht := (tcpWrite_queues hr).timers
    split
    · rw [← ht] at hI
      exact hI
    · rw [ht]
      exact hI
  recved hP hw hp hI := by
    obtain ⟨aw, rfl⟩ := tcpUpdateRcvAnnWnd_ok hp
    exact hI
  fin {s s' a st err} hP ha hst hr hI := by
    have ht := (tcpSendFin_queues hr).timers
    rw [← ht] at hI
    split
    · have e : s'.pcb.state = s.pcb.state := congrArg Timers.state ht
      have hl : Leaves s'.pcb.timers.state st := by
        show Leaves s'.pcb.state st
        rw [e]
        exact Leaves.of_closeState hst
      exact hleave hl hI
    · exact hI
  output hr hI := by rw [timers_tcpOutput hr]; exact hI
  purge {s} _ hI := by
    have ht : (tcpPcbPurge s.pcb).timers = s.pcb.timers := by
      unfold tcpPcbPurge
      split <;> rfl
    show I (tcpPcbPurge s.pcb).timers
    rw [ht]
    exact hI
  timeWait _ _ _ _ _ _ hI := hleave (.of_other (.inr (.inr (.inr (.inr rfl))))) hI
  closed _ _ _ _ hI := hleave (.of_other (.inl rfl)) hI
  clear _ _ hI := hI

theorem toKeptApi (h : TimedBase P Q R O I) : KeptApi P (fun s : St W => I s.pcb.timers) :=
  keptApi_timers h.noConnect h.leave

theorem toKeptBase (h : TimedBase P Q R O I) :
    KeptBase P Q R app (fun s : St W => I s.pcb.timers) O where
  toKeptApi := h.toKeptApi
  reset hr hI := h.toKeptApi.tcpInputRemove hr hI
  keepalive {s} hI := by rw [timers_tcpKeepalive]; exact hI
  fasttmr {s s' err} _ _ hr hI := by
    have ht := timers_tcpOutput hr
    have hI' : I (tcpAckNow s).pcb.timers := hI
    rw [← ht] at hI'
    exact hI'
  probe {s n} _ _ hI := by rw [timers_tcpZeroWindowProbe]; exact hI
  backoff h₀ hb hle hI := h.backoff h₀ hb hle hI
  rtime _ hI := hI
  rto {s s' rto ssthresh} hR he hrto hss hr hI := by
    subst hss
    rw [timers_tcpRexmitRto (s := { s with
      pcb.rto := rto, pcb.rtime := 0, pcb.ssthresh := rtoSsthresh s.pcb, pcb.cwnd := s.pcb.mss })
      he.2.2.1 hr]
    exact h.rto hR he hrto hI
  park _ hI := hI
  rcvWndFin {s} _ hI := by
    have ht : (rcvWndFin s.pcb).timers = s.pcb.timers := by
      unfold Rudp.rcvWndFin
      split <;> rfl
    show I (Rudp.rcvWndFin s.pcb).timers
    rw [ht]
    exact hI
  start hn hO hI := h.mss hn hO hI
  synSent happ hst hO hr hI :=
    h.toKeptApi.tcpProcessSynSent (fun hu _ hc hI => h.establish hst hu hc hO hI) happ hr hI
  receive hst _ hQ hr hI := h.processReceive h.processAfter hQ hr hI
  ooseq hI := hI

/-- Another copy of the SYN. -/
theorem tcpRexmit (h : TimedBase P Q R O I) {seg : InSegment} (hst : s.pcb.state = .SYN_RCVD)
    (hrep : RepeatsSyn s.pcb seg) (hO : O s seg) (hI : I s.pcb.timers) :
    I (Rudp.tcpRexmit s).pcb.timers := by
  by_cases hu : s.pcb.unacked = []
  · rw [tcpRexmit_nil hu]
    exact hI
  · rw [timers_tcpRexmit hu]
    exact h.rexmit hst hrep hu hO hI

end TimedBase

namespace Timed

variable {P : Core → Api → Prop} {Q : St W → InSegment → Prop} {R : St W → Tmr → Prop}
variable {O : St W → InSegment → Prop} {app : App W} {I : Timers → Prop}

theorem processAcceptAfter (h : Timed P Q R O I) (hI : I s.pcb.timers) :
    I (tcpProcessAcceptAfter s).pcb.timers := by
  unfold tcpProcessAcceptAfter
  dsimp only
  split
  · exact h.opened (.inr rfl) hI
  · exact h.opened (.inl rfl) hI

/-- An invariant that these things keep is kept by every operation. -/
theorem toKept (h : Timed P Q R O I) : Kept P Q R app (fun s : St W => I s.pcb.timers) O :=
  { h.toKeptBase with
    rexmit := fun hst hrep hO hI => h.tcpRexmit hst hrep hO hI
    accept := fun hst _ hI => h.accept hst hI
    receiveAccept := fun _ _ _ _ _ hQ hr hI => h.processReceive (fun _ => h.processAcceptAfter) hQ hr hI }

end Timed

/-! ## The start -/

/-- The pcb of a `tcp_connect` or a `tcp_listen_input`, behind its first `tcp_output`. -/
structure Timers.Starts (v : Timers) : Prop where
  state : v.state = .SYN_SENT ∨ v.state = .SYN_RCVD
  mss : 0 < v.mss ∧ v.mss ≤ TCP_MSS
  sa : v.sa = 0
  sv : v.sv = 6
  rto : v.rto = 6
  nrtx : v.nrtx = 0
  persistBackoff : v.persistBackoff = 0
  cwnd : v.cwnd = 1
  tfInfr : v.tfInfr = false

theorem Begun.timers (h : Begun s) : s.pcb.timers.Starts := by
  cases h with
  | @connect a _ newPort iss ha hr =>
    obtain ⟨⟨prio, iss₀, ticks, port, hp⟩, -⟩ := ha
    obtain ⟨port', s₂, t, err, h₁, -, hps, h₂⟩ := tcpConnect_spec hr
    have he : s₂.pcb.timers = (a.pcb.connecting port' iss).timers :=
      (tcpEnqueueFlags_queues h₁).timers
    rw [hp] at he
    have e : t.pcb.timers = { s₂.pcb.timers with state := .SYN_SENT } := by
      rw [hps]
      rfl
    rw [timers_tcpOutput h₂, e, he]
    exact ⟨.inl rfl, ⟨Nat.succ_pos 535, le_rfl⟩, rfl, rfl, rfl, rfl, rfl, rfl, rfl⟩
  | @listen a _ err seg localPort serverId ha hr hf =>
    obtain ⟨t, h₁, h₂⟩ := tcpListenSynAck_spec hr hf
    obtain ⟨-, prio, iss, ticks, mss, h0, hl, hp⟩ := tcpListenPcb_spec ha seg localPort serverId
    rw [timers_tcpOutput h₂, (tcpEnqueueFlags_queues h₁).timers, hp]
    exact ⟨.inr rfl, ⟨h0, hl⟩, rfl, rfl, rfl, rfl, rfl, rfl, rfl⟩

end Rudp

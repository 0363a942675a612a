import Rudp.Places

/-!
# What an ACK does to the sending side

`tcp_receive` moves `lastack`, takes the segments that the ACK covers from the front of both queues
and, on the third duplicate, puts the first unacknowledged segment back on `unsent`.

Results:
* `tcpReceiveAck_spec`: these effects, case by case (`AckCase`).
* `processReceive_parts`: `tcp_receive` and what `tcp_process` does behind it, one behind the other.
-/

namespace Rudp

variable {W : Type} {s s' : St W}

/-! ## The loops over the queues -/

/-- The segments of `unacked` that the ACK leaves. -/
def unackedFrom (ackno : U32) (q : List TcpSeg) : List TcpSeg :=
  q.dropWhile fun x => decide (tcpSeqLeq x.endSeq ackno)

/-- The segments of `unsent` that the ACK leaves. -/
def unsentFrom (ackno sndNxt : U32) (q : List TcpSeg) : List TcpSeg :=
  q.dropWhile fun x => decide (tcpSeqBetween ackno x.endSeq sndNxt)

theorem unackedFrom_suffix (ackno : U32) (q : List TcpSeg) : unackedFrom ackno q <:+ q :=
  List.dropWhile_suffix _

theorem unackedFrom_head {ackno : U32} {q : List TcpSeg} {x : TcpSeg}
    (hx : x ∈ (unackedFrom ackno q).head?) : ¬ tcpSeqLeq x.endSeq ackno := by
  have h := List.head?_dropWhile_not (fun x : TcpSeg => decide (tcpSeqLeq x.endSeq ackno)) q
  rw [show q.dropWhile _ = unackedFrom ackno q from rfl, Option.mem_def.mp hx] at h
  simpa using h

theorem unsentFrom_suffix (ackno sndNxt : U32) (q : List TcpSeg) :
    unsentFrom ackno sndNxt q <:+ q :=
  List.dropWhile_suffix _

theorem unsentFrom_head {ackno sndNxt : U32} {q : List TcpSeg} {x : TcpSeg}
    (hx : x ∈ (unsentFrom ackno sndNxt q).head?) : ¬ tcpSeqBetween ackno x.endSeq sndNxt := by
  have h := List.head?_dropWhile_not
    (fun x : TcpSeg => decide (tcpSeqBetween ackno x.endSeq sndNxt)) q
  rw [show q.dropWhile _ = unsentFrom ackno sndNxt q from rfl, Option.mem_def.mp hx] at h
  simpa using h

/-- How many segments of `q` carry FIN. -/
def finCount (q : List TcpSeg) : ℕ := q.countP (·.tcphdr.flags.fin)

@[simp] theorem finCount_nil : finCount [] = 0 := rfl

theorem finCount_cons (x : TcpSeg) (q : List TcpSeg) :
    finCount (x :: q) = (if x.tcphdr.flags.fin then 1 else 0) + finCount q := by
  unfold finCount
  rw [List.countP_cons]
  omega

theorem tcpReceiveFree_spec {next : TcpSeg} (h : tcpReceiveFree s next = .ok s') :
    ∃ n, s'.trace = s.trace ∧ s'.pcb = { s.pcb with
      acked := s.pcb.acked - (if next.tcphdr.flags.fin then 1 else 0), sndQueuelen := n } := by
  obtain ⟨_, -, h⟩ := Run.bind_eq_ok.mp h
  obtain ⟨_, -, h⟩ := Run.bind_eq_ok.mp h
  cases h
  refine ⟨s.pcb.sndQueuelen - pbufClen next.p, rfl, ?_⟩
  have ha : (if s.pcb.acked ≠ 0 ∧ next.tcphdr.flags.fin = true then s.pcb.acked - 1
      else s.pcb.acked) = s.pcb.acked - (if next.tcphdr.flags.fin then 1 else 0) := by
    split_ifs <;> grind
  dsimp only
  rw [ha]

theorem tcpReceiveUnacked_spec {ackno : U32} {q : List TcpSeg} (hq : s.pcb.unacked = q)
    (h : tcpReceiveUnacked ackno q s = .ok s') :
    ∃ n, s'.trace = s.trace ∧ s'.pcb = { s.pcb with
      unacked := unackedFrom ackno q
      acked := s.pcb.acked -
        finCount (q.takeWhile fun x => decide (tcpSeqLeq x.endSeq ackno))
      sndQueuelen := n } := by
  induction q generalizing s with
  | nil =>
    cases h
    refine ⟨s'.pcb.sndQueuelen, rfl, ?_⟩
    show s'.pcb = { s'.pcb with unacked := [] }
    rw [← hq]
  | cons next rest ih =>
    rw [tcpReceiveUnacked] at h
    unfold unackedFrom
    rw [List.dropWhile_cons, List.takeWhile_cons]
    split at h
    · next hle =>
      obtain ⟨s₁, h₁, h⟩ := Run.bind_eq_ok.mp h
      obtain ⟨n₁, ht₁, hp₁⟩ := tcpReceiveFree_spec h₁
      obtain ⟨n, ht, hp⟩ := ih (by rw [hp₁]) h
      refine ⟨n, ht.trans ht₁, ?_⟩
      simp only [hle, decide_true, if_true, finCount_cons]
      rw [hp, hp₁]
      simp only [Nat.sub_sub]
      rfl
    · next hle =>
      cases h
      refine ⟨s'.pcb.sndQueuelen, rfl, ?_⟩
      simp only [hle, decide_false, Bool.false_eq_true, if_false]
      show s'.pcb = { s'.pcb with unacked := next :: rest }
      rw [← hq]

theorem tcpReceiveUnsent_spec {ackno : U32} {q : List TcpSeg} (hq : s.pcb.unsent = q)
    (h : tcpReceiveUnsent ackno q s = .ok s') :
    ∃ n m, s'.trace = s.trace ∧ s'.pcb = { s.pcb with
      unsent := unsentFrom ackno s.pcb.sndNxt q
      acked := s.pcb.acked -
        finCount (q.takeWhile fun x => decide (tcpSeqBetween ackno x.endSeq s.pcb.sndNxt))
      unsentOversize := m
      sndQueuelen := n } := by
  induction q generalizing s with
  | nil =>
    cases h
    refine ⟨s'.pcb.sndQueuelen, s'.pcb.unsentOversize, rfl, ?_⟩
    show s'.pcb = { s'.pcb with unsent := [] }
    rw [← hq]
  | cons next rest ih =>
    rw [tcpReceiveUnsent] at h
    unfold unsentFrom
    rw [List.dropWhile_cons, List.takeWhile_cons]
    split at h
    · next hle =>
      obtain ⟨s₁, h₁, h⟩ := Run.bind_eq_ok.mp h
      obtain ⟨n₁, ht₁, hp₁⟩ := tcpReceiveFree_spec h₁
      obtain ⟨n, m, ht, hp⟩ := ih (by rw [hp₁]) h
      refine ⟨n, m, ht.trans ht₁, ?_⟩
      simp only [hle, decide_true, if_true, finCount_cons]
      rw [hp, hp₁]
      simp only [Nat.sub_sub]
      rfl
    · next hle =>
      cases h
      refine ⟨s'.pcb.sndQueuelen, s'.pcb.unsentOversize, rfl, ?_⟩
      simp only [hle, decide_false, Bool.false_eq_true, if_false]
      show s'.pcb = { s'.pcb with unsent := next :: rest }
      rw [← hq]

/-! ## The acknowledgment -/

/-- What an ACK changes. -/
structure AckedQueues where
  lastack : U32
  sndBuf : ℕ
  acked : ℕ
  unsent : List TcpSeg
  unacked : List TcpSeg

/-- That part of a pcb. -/
def Pcb.ackedQueues (pcb : Pcb) : AckedQueues where
  lastack := pcb.lastack
  sndBuf := pcb.sndBuf
  acked := pcb.acked
  unsent := pcb.unsent
  unacked := pcb.unacked

/-- The ACK acknowledges new data (tcp_in.c:1002-1091). -/
def AckedQueues.advance (q : AckedQueues) (ackno : U32) : AckedQueues where
  lastack := ackno
  sndBuf := u16 (q.sndBuf + u16 (ackno - q.lastack).toNat)
  acked := u16 (ackno - q.lastack).toNat -
    finCount (q.unacked.takeWhile fun x => decide (tcpSeqLeq x.endSeq ackno))
  unsent := q.unsent
  unacked := unackedFrom ackno q.unacked

/-- The three clauses of `tcp_receive` (tcp_in.c:968-1096), the first with and without a fast
    retransmission, up to the loop over `unsent`. -/
inductive AckCase (q : AckedQueues) (ackno sndNxt : U32) : AckedQueues → Prop
  | old : tcpSeqLeq ackno q.lastack → AckCase q ackno sndNxt { q with acked := 0 }
  | rexmit (seg : TcpSeg) (rest : List TcpSeg) : q.lastack = ackno → q.unacked = seg :: rest →
    AckCase q ackno sndNxt
      { q with acked := 0, unsent := insertSeg seg q.unsent, unacked := rest }
  | new : ¬ tcpSeqLeq ackno q.lastack → tcpSeqBetween ackno (q.lastack + 1) sndNxt →
    AckCase q ackno sndNxt (q.advance ackno)
  | out : ¬ tcpSeqLeq ackno q.lastack → ¬ tcpSeqBetween ackno (q.lastack + 1) sndNxt →
    AckCase q ackno sndNxt { q with acked := 0 }

theorem tcpReceiveDupack_case (s : St W) (seg : InSegment) (rightWndEdge sndNxt : U32)
    (hle : tcpSeqLeq seg.ackno s.pcb.lastack) :
    AckCase s.pcb.ackedQueues seg.ackno sndNxt
      (tcpReceiveDupack s seg rightWndEdge).pcb.ackedQueues := by
  have hold {p : Pcb} (h : p.ackedQueues = { s.pcb.ackedQueues with acked := 0 }) :
      AckCase s.pcb.ackedQueues seg.ackno sndNxt p.ackedQueues := by
    rw [h]
    exact .old hle
  have hs (p : Pcb) : (cwndInflate p).ackedQueues = p.ackedQueues := by
    unfold cwndInflate
    split <;> rfl
  unfold tcpReceiveDupack
  dsimp only
  split
  · next hc =>
    generalize hs₁ : (if u8 (s.pcb.dupacks + 1) > s.pcb.dupacks then
      ({ s with pcb.acked := 0, pcb.dupacks := s.pcb.dupacks + 1 } : St W)
      else { s with pcb.acked := 0 }) = s₁
    have hq : s₁.pcb.ackedQueues = { s.pcb.ackedQueues with acked := 0 } := by
      rw [← hs₁]
      split <;> rfl
    split
    · exact hold ((hs _).trans hq)
    split
    · unfold tcpRexmitFast
      split
      · cases hua : s₁.pcb.unacked with
        | nil =>
          refine hold (Eq.trans ?_ hq)
          unfold tcpRexmit
          rw [hua]
          rfl
        | cons g rest =>
          have hg : s.pcb.unacked = g :: rest := (congrArg AckedQueues.unacked hq).symm.trans hua
          have hr : AckCase s.pcb.ackedQueues seg.ackno sndNxt _ := .rexmit g rest hc.2.2.2 hg
          have hu : s₁.pcb.unsent = s.pcb.unsent := congrArg AckedQueues.unsent hq
          have e : { s.pcb.ackedQueues with
              acked := 0, unsent := insertSeg g s.pcb.unsent, unacked := rest } =
              { s₁.pcb.ackedQueues with unsent := insertSeg g s₁.pcb.unsent, unacked := rest } := by
            rw [hq, hu]
          change AckCase _ _ _ { s.pcb.ackedQueues with
            acked := 0, unsent := insertSeg g s.pcb.unsent, unacked := rest } at hr
          rw [e] at hr
          unfold tcpRexmit
          rw [hua]
          exact hr
      · exact hold hq
    · exact hold hq
  · exact hold rfl

theorem tcpReceiveNewAck_spec {ackno : U32} (h : tcpReceiveNewAck s ackno = .ok s') :
    s'.pcb.ackedQueues = s.pcb.ackedQueues.advance ackno := by
  obtain ⟨s₁, h₁, h⟩ := Run.bind_eq_ok.mp h
  cases h
  have hc (pcb : Pcb) : (cwndAck pcb).ackedQueues = pcb.ackedQueues := by
    unfold cwndAck cwndInflate
    dsimp only
    split_ifs <;> rfl
  generalize hp : (if s.pcb.tfInfr then
    ({ s.pcb with tfInfr := false, cwnd := s.pcb.ssthresh } : Pcb) else s.pcb) = pcb at h₁
  have hpq : pcb.ackedQueues = s.pcb.ackedQueues := by
    rw [← hp]
    split <;> rfl
  rw [← hpq]
  dsimp only at h₁
  generalize hp₂ : ({ pcb with
      nrtx := 0, rto := s16 (pcb.sa / 8 + pcb.sv), acked := u16 (ackno - pcb.lastack).toNat
      sndBuf := u16 (pcb.sndBuf + u16 (ackno - pcb.lastack).toNat), dupacks := 0,
      lastack := ackno } : Pcb) = pcb₂ at h₁
  have hcq := hc pcb₂
  obtain ⟨n, -, hp₁⟩ := tcpReceiveUnacked_spec
    (show ({ s with pcb := cwndAck pcb₂ } : St W).pcb.unacked = pcb.unacked from
      (congrArg AckedQueues.unacked hcq).trans (by rw [← hp₂]; rfl)) h₁
  have e : s₁.pcb.ackedQueues = { (cwndAck pcb₂).ackedQueues with
      unacked := unackedFrom ackno pcb.unacked
      acked := (cwndAck pcb₂).ackedQueues.acked -
        finCount (pcb.unacked.takeWhile fun x => decide (tcpSeqLeq x.endSeq ackno)) } := by
    rw [hp₁]
    rfl
  show s₁.pcb.ackedQueues = _
  rw [e, hcq, ← hp₂]
  rfl

/-- What the part of `tcp_receive` under `flags & TCP_ACK` changes on the sending side. -/
theorem tcpReceiveAck_spec {seg : InSegment} (h : tcpReceiveAck s seg = .ok s') :
    ∃ q, AckCase s.pcb.ackedQueues seg.ackno s.pcb.sndNxt q ∧ s'.pcb.ackedQueues = { q with
      unsent := unsentFrom seg.ackno s.pcb.sndNxt q.unsent
      acked := q.acked - finCount (q.unsent.takeWhile fun x =>
        decide (tcpSeqBetween seg.ackno x.endSeq s.pcb.sndNxt)) } := by
  obtain ⟨s₁, h₁, h⟩ := Run.bind_eq_ok.mp h
  obtain ⟨s₂, h₂, h⟩ := Run.bind_eq_ok.mp h
  cases h
  have hrtt : (tcpReceiveRtt s₂ seg.ackno).pcb.ackedQueues = s₂.pcb.ackedQueues := by
    unfold tcpReceiveRtt
    split <;> rfl
  obtain ⟨n, m, -, hp₂⟩ := tcpReceiveUnsent_spec rfl h₂
  have hw : (tcpReceiveWindow s.pcb seg).ackedQueues = s.pcb.ackedQueues ∧
      (tcpReceiveWindow s.pcb seg).sndNxt = s.pcb.sndNxt := by
    unfold tcpReceiveWindow
    split <;> exact ⟨rfl, rfl⟩
  have hcase : AckCase s.pcb.ackedQueues seg.ackno s.pcb.sndNxt s₁.pcb.ackedQueues ∧
      s₁.pcb.sndNxt = s.pcb.sndNxt := by
    rw [← hw.1, ← hw.2]
    unfold tcpReceiveAckno at h₁
    split at h₁
    · next hle =>
      cases h₁
      exact ⟨tcpReceiveDupack_case _ seg _ _ hle,
        congrArg EndView.sndNxt (endView_tcpReceiveDupack _ _ _)⟩
    split at h₁
    · next hnle hbet =>
      rw [tcpReceiveNewAck_spec h₁]
      exact ⟨.new hnle hbet, congrArg EndView.sndNxt (endView_tcpReceiveNewAck h₁)⟩
    · next hnle hnb =>
      cases h₁
      have he (t : St W) : (tcpSendEmptyAck t).2.pcb.ackedQueues = t.pcb.ackedQueues ∧
          (tcpSendEmptyAck t).2.pcb.sndNxt = t.pcb.sndNxt := by
        rcases tcpSendEmptyAck_cases t with ⟨-, hp, -⟩ | ⟨sent, -, hp, -⟩ <;> rw [hp] <;>
          exact ⟨rfl, rfl⟩
      rw [(he _).1, (he _).2]
      exact ⟨.out hnle hnb, rfl⟩
  refine ⟨s₁.pcb.ackedQueues, hcase.1, ?_⟩
  rw [hrtt, hp₂, ← hcase.2]
  rfl

/-! ## `tcp_process` -/

/-- `tcp_receive` asserts that the handshake is over. -/
theorem TcpState.synchronized {st : TcpState} (h : ESTABLISHED.num ≤ st.num) :
    st ≠ .SYN_SENT ∧ st ≠ .SYN_RCVD := by
  constructor <;> rintro rfl <;> exact absurd h (by decide)

/-- `tcp_receive` and what `tcp_process` does behind it, one behind the other. -/
theorem processReceive_parts {seg : InSegment} {after : St W → St W}
    (h : tcpProcessReceive s seg after = .ok s') :
    TcpState.ESTABLISHED.num ≤ s.pcb.state.num ∧ ∃ s₁ s₂,
      ((seg.flags.ack = true ∧ tcpReceiveAck s seg = .ok s₁) ∨ (seg.flags.ack = false ∧ s₁ = s)) ∧
      s₁.rcvView = s.rcvView ∧ tcpReceiveData s₁ seg = .ok s₂ ∧
      s' = (after s₂).emit (.process seg s.pcb s₂.pcb (after s₂).pcb (after s₂).recvClosed) := by
  obtain ⟨s₂, h₂, h⟩ := Run.bind_eq_ok.mp h
  cases h
  obtain ⟨hnum, s₁, h₁, hv, h₂⟩ := tcpReceive_parts h₂
  exact ⟨hnum, s₁, s₂, h₁, hv, h₂, rfl⟩

end Rudp

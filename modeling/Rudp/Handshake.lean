import Rudp.Segs
import Rudp.Sent

/-!
# The handshake of a client

`tcp_process` takes the head of `unacked` for the SYN when a segment arrives in `SYN_SENT`. The
retransmission timer moves the SYN to `unsent`, and a failing `ip_output_if` leaves it there.

Results:
* `handshake_iff`: in every run, a segment that arrives in `SYN_SENT` is handled as it should be if
  and only if it is a RST or the SYN is on `unacked`.
* `handshake_fails`: the SYN-ACK arrives behind a retransmission that could not be sent.
-/

namespace Rudp

open Serial

variable {W : Type} {s s' : St W}

/-! ## Behind the connected callback -/

/-- `tcp_process` from the connected callback on (tcp_in.c:708-714). -/
def tcpProcessConnected (app : App W) (s : St W) : Except Fault (Err × St W) := do
  let (err, s) ← tcpEvent app .connected s
  if err = .abrt then .ok (.abrt, s)
  else do
    s.live
    .ok (.ok, tcpAckNow s)

/-- The segment is the SYN-ACK for the SYN, which has the sequence number `lastack`. -/
def Pcb.SynAcked (pcb : Pcb) (seg : InSegment) : Prop :=
  seg.flags.ack = true ∧ seg.flags.syn = true ∧ seg.ackno = pcb.lastack + 1

/-- The segment is a RST that acknowledges the SYN. -/
def Pcb.SynReset (pcb : Pcb) (seg : InSegment) : Prop :=
  seg.flags.rst = true ∧ tcpSeqGt seg.ackno pcb.lastack

/-- What the handshake asks of `tcp_process` when `seg` arrives in `SYN_SENT`. -/
structure Handshake (t : St W) (seg : InSegment) : Prop where
  /-- No absent segment is read. -/
  reads (app : App W) : (∀ e s, app e s ≠ .error .nullDeref) →
    tcpProcess app t seg ≠ .error .nullDeref
  /-- The SYN-ACK opens the connection and takes the SYN, and nothing else, off the queues. -/
  synAck : seg.flags.rst = false → t.pcb.SynAcked seg → ∃ syn rest, ∃ u : St W,
    t.pcb.unacked ++ t.pcb.unsent = syn :: rest ∧ syn.tcphdr.flags.syn = true ∧
    syn.tcphdr.seqno = t.pcb.lastack ∧ u.pcb.state = .ESTABLISHED ∧
    u.pcb.unacked ++ u.pcb.unsent = rest ∧
    u.pcb.sndQueuelen + pbufClen syn.p = t.pcb.sndQueuelen ∧
    ∀ app, tcpProcess app t seg = tcpProcessConnected app u
  /-- Any other segment leaves the state and the queues alone. -/
  other : ¬ t.pcb.SynAcked seg → ¬ t.pcb.SynReset seg → ∃ u : St W,
    (∀ app, tcpProcess app t seg = .ok (.ok, u)) ∧ u.pcb.state = t.pcb.state ∧
    u.pcb.unacked = t.pcb.unacked ∧ u.pcb.unsent = t.pcb.unsent ∧
    u.pcb.sndQueuelen = t.pcb.sndQueuelen

/-! ## One segment -/

theorem tcpProcess_rst {app : App W} {seg : InSegment} (h : seg.flags.rst = true) :
    tcpProcess app s seg = .ok (tcpProcessRst s seg) := by
  unfold tcpProcess
  rw [if_pos h]

/-- What `tcp_process` does before it looks at the state is no part of the handshake. -/
theorem tcpProcessStart_pcb (s : St W) (seg : InSegment) : ∃ tmr mss,
    tcpProcessStart s seg = { s with pcb.tmr := tmr, pcb.keepCntSent := 0, pcb.mss := mss } := by
  unfold tcpProcessStart tcpParseopt
  dsimp only
  by_cases hc : s.pcb.tfRxClosed = true
  · rw [if_pos hc]
    exact ⟨_, _, rfl⟩
  · rw [if_neg hc]
    exact ⟨_, _, rfl⟩

theorem tcpProcess_synSent {seg : InSegment} (h : seg.flags.rst = false)
    (hst : s.pcb.state = .SYN_SENT) : ∃ tmr mss, ∀ app, tcpProcess app s seg = tcpProcessSynSent app
      { s with pcb.tmr := tmr, pcb.keepCntSent := 0, pcb.mss := mss } seg := by
  obtain ⟨tmr, mss, he⟩ := tcpProcessStart_pcb s seg
  refine ⟨tmr, mss, fun app => ?_⟩
  unfold tcpProcess
  rw [h, if_neg (by decide), if_neg (fun hc => hc.2.1 hst), he]
  unfold tcpProcessState
  dsimp only
  rw [hst]

/-- Without the SYN on `unacked` the head is read all the same. -/
theorem tcpProcess_nullDeref (app : App W) {seg : InSegment} (h : seg.flags.rst = false)
    (hst : s.pcb.state = .SYN_SENT) (hu : s.pcb.unacked = []) :
    tcpProcess app s seg = .error .nullDeref := by
  obtain ⟨tmr, mss, he⟩ := tcpProcess_synSent h hst
  rw [he]
  unfold tcpProcessSynSent
  dsimp only
  rw [hu]

/-- A RST is ignored unless it acknowledges the SYN. -/
theorem Flight.handshake_rst (hI : Flight s.core) {seg : InSegment} (h : seg.flags.rst = true)
    (hst : s.pcb.state = .SYN_SENT) : Handshake s seg where
  reads app _ := by
    rw [tcpProcess_rst h]
    nofun
  synAck hn := absurd h (by rw [hn]; decide)
  other _ hr := by
    have hne : seg.ackno ≠ s.pcb.sndNxt := by
      intro he
      apply hr
      refine ⟨h, ?_⟩
      rw [he]
      have h1 : 1 ≤ dist s.pcb.sndNxt s.pcb.lastack := (hI.synSent hst).1
      show 0 < dist s.pcb.sndNxt s.pcb.lastack
      omega
    refine ⟨s, fun app => ?_, rfl, rfl, rfl, rfl⟩
    rw [tcpProcess_rst h]
    unfold tcpProcessRst
    dsimp only
    rw [if_pos hst, if_neg (by simpa using hne)]

/-- With the SYN on `unacked` the segment is handled as it should be. -/
theorem Flight.handshake_unacked (hI : Flight s.core) (hb : SegInv Bare s.core) {seg : InSegment}
    (h : seg.flags.rst = false) (hst : s.pcb.state = .SYN_SENT) (hu : s.pcb.unacked ≠ []) :
    Handshake s seg := by
  obtain ⟨-, hq, hfirst⟩ := hI.synSent hst
  obtain ⟨syn, rest, hsyn⟩ : ∃ syn rest, s.pcb.unacked = syn :: rest := List.exists_cons_of_ne_nil hu
  have hsyn' : s.core.unacked = syn :: rest := hsyn
  rw [hsyn'] at hfirst
  obtain ⟨syn', rest', he, hf, hpos, -⟩ := hfirst.resolve_left (by simp)
  rw [List.cons_append] at he
  injection he with he1 he2
  subst he1
  have hseq : syn.tcphdr.seqno = s.pcb.lastack := dist_eq_zero hpos
  obtain ⟨-, -, hclen⟩ := hb.segs syn (List.mem_append_right _ (by rw [hsyn']; simp)) hf
  have hclen' : pbufClen syn.p = 1 := by
    unfold pbufClen
    rw [hclen]
    rfl
  have hlen : s.pcb.sndQueuelen ≠ 0 := hq
  obtain ⟨tmr, mss, hproc⟩ := tcpProcess_synSent h hst
  set t : St W := { s with pcb.tmr := tmr, pcb.keepCntSent := 0, pcb.mss := mss }
  have hsynAck (hs : s.pcb.SynAcked seg) (app : App W) : tcpProcess app s seg =
      tcpProcessConnected app { t with pcb := Rudp.establish t.pcb seg rest } := by
    rw [hproc]
    unfold tcpProcessSynSent
    have hcond : seg.flags.ack = true ∧ seg.flags.syn = true ∧
        seg.ackno = syn.tcphdr.seqno + 1 := by
      rw [hseq]
      exact hs
    have hpos : t.pcb.sndQueuelen > 0 := Nat.pos_of_ne_zero hlen
    rw [show t.pcb.unacked = syn :: rest from hsyn]
    dsimp only
    rw [if_pos hcond]
    unfold lwipAssert
    rw [if_pos hpos]
    rfl
  have hother (hs : ¬ s.pcb.SynAcked seg) (app : App W) : tcpProcess app s seg =
      .ok (.ok, if seg.flags.ack = true then tcpRstReply t seg else t) := by
    rw [hproc]
    unfold tcpProcessSynSent
    rw [show t.pcb.unacked = syn :: rest from hsyn]
    dsimp only
    rw [if_neg (by rw [hseq]; exact hs)]
    split <;> rfl
  constructor
  · intro app happ
    by_cases hs : s.pcb.SynAcked seg
    · rw [hsynAck hs]
      unfold tcpProcessConnected tcpEvent
      intro hc
      rcases Run.bind_eq_error.mp hc with hc | ⟨⟨err, s₁⟩, -, hc⟩
      · rcases Run.bind_eq_error.mp hc with hc | ⟨_, -, hc⟩
        · exact happ _ _ hc
        · cases hc
      · dsimp only at hc
        split at hc
        · cases hc
        · unfold St.live at hc
          split at hc <;> cases hc
    · rw [hother hs]
      nofun
  · intro _ hs
    refine ⟨syn, rest ++ s.pcb.unsent, _, by rw [hsyn]; rfl, hf, hseq, ?_, ?_, ?_, hsynAck hs⟩
    · rfl
    · rfl
    · rw [hclen']
      show s.pcb.sndQueuelen - 1 + 1 = _
      omega
  · intro hs _
    refine ⟨_, hother hs, ?_⟩
    have hv : (if seg.flags.ack = true then tcpRstReply t seg else t).core = t.core := by
      split
      · exact core_tcpRstReply t seg
      · rfl
    exact ⟨congrArg Core.state hv, congrArg (fun c => c.unacked) hv,
      congrArg (fun c => c.unsent) hv, congrArg (fun c => c.sndQueuelen) hv⟩

/-! ## Runs -/

/-- In every run, a segment that `tcp_process` gets in `SYN_SENT` is handled as it should be if and
    only if it is a RST or the SYN is on `unacked`. -/
theorem handshake_iff {app : App W} {s₀ s₁ : St W} (happ : AppOk NoConnect app) (h₀ : Begun s₀)
    (hr : Run.Reach (connStep app) (Preserved.StepOk NoConnect (fun _ _ => True) app) s₀ s)
    (fails : List Bool) (seg : InSegment)
    (h₁ : tcpInputRefused app (St.resetRecv { s with fails := fails }) seg = .ok (false, s₁))
    (hst : s₁.pcb.state = .SYN_SENT) :
    Handshake { s₁ with inputPcb := true } seg ↔
      (seg.flags.rst = true ∨ s₁.pcb.unacked ≠ []) := by
  have hI : Flight s.core := preserved_flight.reach happ h₀.flight hr
  have hb : SegInv Bare s.core := (preserved_segInv segRule_bare).reach happ h₀.bare hr
  have hkeep {I : St W → Prop} (hk : Preserved NoConnect (fun _ _ => True) I) (hIs : I s) : I s₁ :=
    (hk.toKept : Kept _ _ _ app I).toSteps.tcpInputRefused happ h₁ (hk.frame hIs rfl id)
  have hI₁ : Flight s₁.core := hkeep preserved_flight hI
  have hb₁ : SegInv Bare s₁.core := hkeep (preserved_segInv segRule_bare) hb
  constructor
  · intro h
    by_cases hrst : seg.flags.rst = true
    · exact .inl hrst
    · right
      intro hu
      have hrst : seg.flags.rst = false := by simpa using hrst
      apply h.reads (fun _ s => .ok (.ok, s)) (fun _ _ => nofun)
      exact tcpProcess_nullDeref _ hrst hst hu
  · intro h
    by_cases hrst : seg.flags.rst = true
    · exact Flight.handshake_rst (s := { s₁ with inputPcb := true }) hI₁ hrst hst
    · have hrst' : seg.flags.rst = false := by simpa using hrst
      exact Flight.handshake_unacked (s := { s₁ with inputPcb := true }) hI₁ hb₁ hrst' hst
        (h.resolve_left hrst)

/-! ### Two runs -/

/-- Six ticks of the slow timer, behind which the retransmission timer expires, and the answers of
    the environment at the last one. -/
def expireOps (fails : List Bool) : List (List Bool × Op) :=
  List.replicate 5 ([], .slowtmr) ++ [(fails, .slowtmr)]

/-- The application writes in front of the SYN-ACK. -/
theorem handshake_write : ∃ s : St Unit, ∃ seg s₁, Run.exec (connStep idleApp) connecting
      (writeOps [7]) = .ok s ∧ synAckOp TCP_WND = ([], .input seg) ∧
    tcpInputRefused idleApp (St.resetRecv { s with fails := [] }) seg = .ok (false, s₁) ∧
    s₁.pcb.unsent ≠ [] ∧ Handshake { s₁ with inputPcb := true } seg :=
  ⟨_, _, _, rfl, rfl, rfl, nofun, (handshake_iff appOk_idleApp begun_connecting
    (.step ([], .api .output) (.step ([], .api (.write [7] true false)) .refl trivial rfl) trivial rfl)
    [] _ rfl rfl).mpr (.inr nofun)⟩

/-- The SYN is sent, but not when the timer has it sent again, and the SYN-ACK arrives. -/
theorem handshake_fails : ∃ s : St Unit, ∃ seg s₁, Begun connecting ∧ AppOk NoConnect idleApp ∧
    Run.exec (connStep idleApp) connecting (expireOps [true, true]) = .ok s ∧
    s.list = .active ∧ s.pcb.state = .SYN_SENT ∧ sentEnds s.trace = [1000] ∧
    synAckOp TCP_WND = ([], .input seg) ∧
    tcpInputRefused idleApp (St.resetRecv { s with fails := [] }) seg = .ok (false, s₁) ∧
    s₁.pcb.SynAcked seg ∧ ¬ Handshake { s₁ with inputPcb := true } seg ∧
    connStep idleApp s (synAckOp TCP_WND) = .error .nullDeref := by
  refine ⟨_, _, _, begun_connecting, appOk_idleApp, rfl, rfl, rfl, rfl, rfl, rfl,
    ⟨rfl, rfl, rfl⟩, fun h => ?_, rfl⟩
  exact h.reads idleApp (fun _ _ => nofun) rfl

end Rudp

import Rudp.Ooseq
import Rudp.RightEdge

/-!
# What is acknowledged

Each segment acknowledges `rcv_nxt` as it is when the segment is sent. `rcv_nxt` moves in one place of
one operation, in `tcp_receive`, forward and by no more than the window. So what one operation
acknowledges is where `rcv_nxt` was in front of it or where it is behind it.

Results:
* `tcpReceiveData_forward`: how `tcp_receive` moves `rcv_nxt`.
* `kept_acks`: what does not receive acknowledges nothing new.
* `acks_step`: what one operation acknowledges.
-/

namespace Rudp

open Serial

variable {W : Type} {s s' : St W} {A : Set U32} {r : U32} {app : App W}

/-! ## Acknowledgments -/

/-- All that has been acknowledged lies in `A`, and `rcv_nxt` is `r`. -/
structure AckView.Acks (A : Set U32) (r : U32) (v : AckView) : Prop where
  state : v.state ≠ .SYN_SENT
  rcvNxt : v.rcvNxt = r
  rcvWnd : v.rcvWnd ≤ TCP_WND
  acks : ∀ o ∈ v.trace, ∀ x ∈ o.acks, x ∈ A

namespace AckView.Acks

theorem mono {A' : Set U32} {v : AckView} (h : v.Acks A r) (hA : A ⊆ A') : v.Acks A' r :=
  ⟨h.state, h.rcvNxt, h.rcvWnd, fun o ho x hx => hA (h.acks o ho x hx)⟩

/-- One more entry of the log. -/
theorem snoc {v : AckView} {o : Out} {delay now : Bool} {edge : U32} (h : v.Acks A r)
    (ho : ∀ x ∈ o.acks, x ∈ A) : AckView.Acks A r
      { v with
        rcvAnnRightEdge := edge, tfAckDelay := delay, tfAckNow := now, trace := v.trace ++ [o] } := by
  refine ⟨h.state, h.rcvNxt, h.rcvWnd, fun o' ho' => ?_⟩
  rcases List.mem_append.mp ho' with ho' | ho'
  · exact h.acks o' ho'
  · rw [List.mem_singleton.mp ho']
    exact ho

theorem stateTo (h : s.ackView.Acks A r) (st : TcpState) (hst : st ≠ .SYN_SENT)
    (hv : s'.ackView = { s.ackView with state := st }) : s'.ackView.Acks A r := by
  rw [hv]
  exact ⟨hst, h.rcvNxt, h.rcvWnd, h.acks⟩

theorem silent {o : Out} (h : s.ackView.Acks A r) (ho : o.Silent) : (s.emit o).ackView.Acks A r := by
  have ho' : ∀ x ∈ o.acks, x ∈ A := by
    intro x hx
    rw [Out.acks_of_silent ho] at hx
    cases hx
  exact @snoc A r s.ackView o s.pcb.tfAckDelay s.pcb.tfAckNow s.pcb.rcvAnnRightEdge h ho'

/-- A packet acknowledges `rcv_nxt`, or nothing. -/
theorem transmitted (packet : Packet) (sent delay now : Bool) (h : s.ackView.Acks A r) (hr : r ∈ A)
    (hcur : packet.Current s.pcb) (hv : s'.ackView = s.transmitted packet sent delay now) :
    s'.ackView.Acks A r := by
  rw [hv]
  refine h.snoc fun x hx => ?_
  rw [hcur.acks] at hx
  split at hx
  · rw [← Option.some.inj hx, show s.pcb.rcvNxt = r from h.rcvNxt]
    exact hr
  · cases hx

theorem rst (packet : Packet) (sent : Bool) (h : s.ackView.Acks A r)
    (hrst : packet.tcphdr.flags.rst = true)
    (hv : s'.ackView = { s.ackView with trace := s.trace ++ [s.packet packet sent] }) :
    s'.ackView.Acks A r := by
  rw [hv]
  refine h.snoc fun x hx => ?_
  rw [acks_of_rst sent hrst] at hx
  cases hx

theorem emptyAck (h : s.ackView.Acks A r) (hr : r ∈ A) : (tcpSendEmptyAck s).2.ackView.Acks A r := by
  rcases ackView_tcpSendEmptyAck s with ⟨-, hv⟩ | ⟨packet, sent, hcur, -, -, hv⟩
  · rw [hv]
    exact ⟨h.state, h.rcvNxt, h.rcvWnd, h.acks⟩
  · exact h.transmitted packet sent _ _ hr hcur hv

theorem output {err : Err} (ho : tcpOutput s = .ok (err, s')) (hr : r ∈ A)
    (h : s.ackView.Acks A r) : s'.ackView.Acks A r := by
  refine tcpOutput_rule (I := fun t => t.ackView.Acks A r) ?_ ?_ ?_ ?_ ho h
  · intro t ht
    exact ht.emptyAck hr
  · intro t t₁ seg seg' rest ht _ _ hrst he
    obtain ⟨packet, delay, now, hcur, -, -, hv⟩ := ackView_outputSent rest hrst he
    exact ht.transmitted packet _ delay now hr hcur hv
  · intro t t₁ seg seg' rest err ht _ _ hrst he _
    obtain ⟨packet, sent, hcur, hv⟩ := ackView_outputFail rest hrst he
    exact ht.transmitted packet sent _ _ hr hcur hv
  · intro t ht
    exact ht

theorem keepalive (h : s.ackView.Acks A r) (hr : r ∈ A) : (tcpKeepalive s).2.ackView.Acks A r := by
  rcases tcpKeepalive_cases s with ⟨hp, ht⟩ | ⟨sent, hp, ht⟩
  · have hv : (tcpKeepalive s).2.ackView = s.ackView := by simp only [St.ackView, hp, ht]
    rw [hv]
    exact h
  · refine h.transmitted { tcphdr := s.pcb.ackHdr (s.pcb.sndNxt - 1), p := [{ payload := [] }] } sent
      s.pcb.tfAckDelay s.pcb.tfAckNow hr ⟨rfl, rfl, rfl⟩ ?_
    simp only [St.ackView, hp, ht]
    rfl

theorem probe (h : s.ackView.Acks A r) (hr : r ∈ A) :
    (tcpZeroWindowProbe s).2.ackView.Acks A r := by
  rcases tcpZeroWindowProbe_cases s with ⟨hp, ht⟩ | ⟨seg, -, sent, hp, ht⟩
  · have hv : (tcpZeroWindowProbe s).2.ackView = s.ackView := by simp only [St.ackView, hp, ht]
    rw [hv]
    exact h
  · have hcur : (s.pcb.probePacket seg).Current s.pcb := by
      unfold Pcb.probePacket
      split <;> exact ⟨rfl, rfl, rfl⟩
    refine h.transmitted (s.pcb.probePacket seg) sent s.pcb.tfAckDelay s.pcb.tfAckNow hr hcur ?_
    simp only [St.ackView, hp, ht]
    rfl

theorem tcpRst {seqno ackno : U32} {id : ConnectId} (h : s.ackView.Acks A r) :
    (Rudp.tcpRst s seqno ackno id).ackView.Acks A r := by
  obtain ⟨hp, ht | ⟨packet, sent, hrst, -, -, -, -, ht⟩⟩ := tcpRst_cases s seqno ackno id
  · have hv : (Rudp.tcpRst s seqno ackno id).ackView = s.ackView := by simp only [St.ackView, hp, ht]
    rw [hv]
    exact h
  · exact h.rst packet sent hrst (by simp only [St.ackView, hp, ht])

theorem rexmitRto (ho : tcpRexmitRto s = .ok s') (hr : r ∈ A) (h : s.ackView.Acks A r) :
    s'.ackView.Acks A r := by
  unfold tcpRexmitRto at ho
  split at ho
  · cases ho
    exact h
  · obtain ⟨⟨err, s₁⟩, h₁, ho⟩ := Run.bind_eq_ok.mp ho
    cases ho
    exact output h₁ hr h

end AckView.Acks

/-- Nothing but `tcp_receive` and the answer to a SYN acknowledges anything new. -/
theorem kept_acks (app : App W) (hr : r ∈ A) : Kept NoConnect (fun _ _ => False) (fun _ _ => True) app
    (fun s : St W => s.ackView.Acks A r) (fun _ _ => False) where
  frame {s s'} hI hq ht _ _ := by
    rw [ackView_of_quiet hq ht]
    exact hI
  unpark hI := hI
  callback ho hI := hI.silent (Out.silent_of_isCallback ho)
  ackNow hI := ⟨hI.state, hI.rcvNxt, hI.rcvWnd, hI.acks⟩
  rst hI := hI.tcpRst
  connect hP := hP.elim
  write {s s' arg copy more err} _ hw hI := by
    have hI' : s'.ackView.Acks A r := by
      rw [(tcpWrite_queues hw).ackView]
      exact hI
    split
    · exact hI'.silent (Out.silent_wrote _)
    · exact hI'
  recved {s len w n pcb} _ hw hp hI := by
    obtain ⟨aw, rfl⟩ := tcpUpdateRcvAnnWnd_ok hp
    refine ⟨hI.state, hI.rcvNxt, rcvWndRecved_le hw, fun o ho => ?_⟩
    rcases List.mem_append.mp ho with ho | ho
    · exact hI.acks o ho
    · rw [List.mem_singleton.mp ho]
      rintro x ⟨⟩
  fin {s s' a st err} _ _ hst hw hI := by
    have hI' : s'.ackView.Acks A r := by
      rw [(tcpSendFin_queues hw).ackView]
      exact hI
    split
    · refine ⟨?_, hI'.rcvNxt, hI'.rcvWnd, hI'.acks⟩
      rintro rfl
      unfold closeState at hst
      split at hst <;> cases hst
    · exact hI'
  output ho hI := AckView.Acks.output ho hr hI
  purge {s} _ hI := by
    have hv : ({ s with pcb := tcpPcbPurge s.pcb } : St W).ackView = s.ackView := by
      unfold tcpPcbPurge
      split <;> rfl
    rw [hv]
    exact hI
  timeWait _ _ _ _ _ _ hI := hI.stateTo .TIME_WAIT (by decide) rfl
  closed _ _ _ _ hI := hI.stateTo .CLOSED (by decide) rfl
  clear _ _ hI := hI
  reset {s s'} ho hI := by
    rw [ackView_reset ho]
    refine ⟨closed_ne_synSent, hI.rcvNxt, hI.rcvWnd, fun o hm => ?_⟩
    rcases List.mem_append.mp hm with hm | hm
    · exact hI.acks o hm
    · rw [List.mem_singleton.mp hm]
      rintro x ⟨⟩
  keepalive hI := hI.keepalive hr
  fasttmr {s s' err} _ _ ho hI := by
    have hI' : s'.ackView.Acks A r := .output ho hr ⟨hI.state, hI.rcvNxt, hI.rcvWnd, hI.acks⟩
    exact ⟨hI'.state, hI'.rcvNxt, hI'.rcvWnd, hI'.acks⟩
  probe _ _ hI := AckView.Acks.probe (by exact hI) hr
  backoff _ _ _ hI := hI
  rtime _ hI := hI
  rto _ _ _ _ ho hI := AckView.Acks.rexmitRto ho hr hI
  park _ hI := hI
  rcvWndFin {s} _ hI := by
    unfold rcvWndFin
    split
    · refine ⟨hI.state, hI.rcvNxt, ?_, hI.acks⟩
      have hw : s.pcb.rcvWnd ≤ TCP_WND := hI.rcvWnd
      show u16 (s.pcb.rcvWnd + 1) ≤ TCP_WND
      have hlt : s.pcb.rcvWnd < TCP_WND := by omega
      unfold u16
      omega
    · exact hI
  start _ hO := hO.elim
  synSent _ _ hO := hO.elim
  receive _ _ hQ := hQ.elim
  ooseq hI := hI
  rexmit _ _ hO := hO.elim
  accept _ _ hI := hI.stateTo .ESTABLISHED (by decide) rfl
  receiveAccept _ _ _ _ _ hQ := hQ.elim

/-! ## Segments -/

/-- `tcp_receive` moves `rcv_nxt` forward, by no more than the window, or acknowledges. -/
theorem tcpReceiveData_forward {seg : InSegment} (h : tcpReceiveData s seg = .ok s') (hr : r ∈ A)
    (hI : s.ackView.Acks A r) : ∃ n ≤ TCP_WND, s'.ackView.Acks A (r + u32 n) := by
  have hstay {t : St W} (ht : t.ackView.Acks A r) : ∃ n ≤ TCP_WND, t.ackView.Acks A (r + u32 n) :=
    ⟨0, Nat.zero_le _, by rw [show r + u32 0 = r from add_zero r]; exact ht⟩
  have hnow : (tcpAckNow s).ackView.Acks A r := ⟨hI.state, hI.rcvNxt, hI.rcvWnd, hI.acks⟩
  have hne : s'.pcb.state ≠ .SYN_SENT := by
    rcases state_tcpReceiveData h with e | ⟨-, e⟩ <;> rw [e]
    · exact hI.state
    · decide
  unfold tcpReceiveData at h
  split at h
  · obtain ⟨c, -, h⟩ := Run.bind_eq_ok.mp h
    have hdup : (tcpReceiveDup s seg).ackView.Acks A r := by
      unfold tcpReceiveDup
      split
      · exact hnow
      · exact hI
    generalize tcpReceiveDup s seg = t at h hdup
    unfold tcpReceiveSegment at h
    split at h
    · split at h
      · next hc =>
        obtain ⟨n, hn⟩ := takes_tcpReceiveInseq hc hdup.state h
        have hw : t.pcb.rcvWnd ≤ TCP_WND := hdup.rcvWnd
        refine ⟨n, hn.le.trans hw, hne, ?_, ?_, ?_⟩
        · show s'.pcb.rcvNxt = r + u32 n
          rw [hn.rcvNxt]
          exact congrArg (· + _) hdup.rcvNxt
        · show s'.pcb.rcvWnd ≤ TCP_WND
          rw [hn.rcvWnd]
          exact (Nat.sub_le _ _).trans hw
        · show ∀ o ∈ s'.trace, ∀ x ∈ o.acks, x ∈ A
          rw [hn.trace]
          exact hdup.acks
      · have he := hdup.emptyAck hr
        unfold tcpReceiveOutseq at h
        generalize tcpSendEmptyAck t = x at h he
        obtain ⟨err, t₁⟩ := x
        dsimp only at h he
        split at h
        · cases h
          exact hstay he
        · split at h
          · cases h
            exact hstay he
          · obtain ⟨_, -, h⟩ := Run.bind_eq_ok.mp h
            cases h
            exact hstay he
    · cases h
      exact hstay (hdup.emptyAck hr)
  · split at h <;> cases h
    · exact hstay hnow
    · exact hstay hI

/-- What follows `tcp_receive` in `tcp_process` acknowledges nothing. -/
theorem acks_tcpProcessAfter {state : TcpState} {seg : InSegment} (h : s.ackView.Acks A r) :
    (tcpProcessAfter state seg s).ackView.Acks A r := by
  have hnow : (tcpAckNow s).ackView.Acks A r := ⟨h.state, h.rcvNxt, h.rcvWnd, h.acks⟩
  have htw {t : St W} (ht : t.ackView.Acks A r) : (toTimeWait t).ackView.Acks A r := by
    refine ht.stateTo .TIME_WAIT (by decide) ?_
    unfold toTimeWait tcpPcbPurge
    dsimp only
    split <;> rfl
  unfold tcpProcessAfter
  dsimp only
  split
  · split
    · exact hnow.stateTo .CLOSE_WAIT (by decide) rfl
    · exact h
  · split
    · exact hnow.stateTo .CLOSE_WAIT (by decide) rfl
    · exact h
  · split
    · split
      · exact htw hnow
      · exact hnow.stateTo .CLOSING (by decide) rfl
    · split
      · exact h.stateTo .FIN_WAIT_2 (by decide) rfl
      · exact h
  · split
    · exact htw hnow
    · exact h
  · split
    · exact htw h
    · exact h
  · split <;> exact h
  · exact h

theorem acks_tcpProcessAcceptAfter (h : s.ackView.Acks A r) :
    (tcpProcessAcceptAfter s).ackView.Acks A r := by
  unfold tcpProcessAcceptAfter
  dsimp only
  split
  · exact ⟨by show TcpState.CLOSE_WAIT ≠ _; decide, h.rcvNxt, h.rcvWnd, h.acks⟩
  · exact ⟨h.state, h.rcvNxt, h.rcvWnd, h.acks⟩

theorem acks_tcpProcessReceive {seg : InSegment} {after : St W → St W}
    (hafter : ∀ {t : St W} {r : U32}, t.ackView.Acks A r → (after t).ackView.Acks A r)
    (h : tcpProcessReceive s seg after = .ok s') (hr : r ∈ A) (hI : s.ackView.Acks A r) :
    ∃ n ≤ TCP_WND, s'.ackView.Acks A (r + u32 n) := by
  obtain ⟨-, s₁, s₂, h₁, -, h₂, rfl⟩ := processReceive_parts h
  have hI₁ : s₁.ackView.Acks A r := by
    rcases h₁ with ⟨-, h₁⟩ | ⟨-, rfl⟩
    · rcases tcpReceiveAck_ackView h₁ with e | ⟨t, ht, e⟩
      · rw [e]
        exact hI
      · rw [e]
        exact AckView.Acks.emptyAck (by rw [ht]; exact hI) hr
    · exact hI
  obtain ⟨n, hn, hI₂⟩ := tcpReceiveData_forward h₂ hr hI₁
  exact ⟨n, hn, (hafter hI₂).silent trivial⟩

/-- `tcp_process` moves `rcv_nxt` forward, by no more than the window. -/
theorem acks_tcpProcess (happ : AppOk NoConnect app) {seg : InSegment} {err : Err}
    (h : tcpProcess app s seg = .ok (err, s')) (hr : r ∈ A)
    (hI : s.ackView.Acks A r) : ∃ n ≤ TCP_WND, s'.ackView.Acks A (r + u32 n) := by
  have hk := kept_acks app hr
  have hstay {t : St W} (ht : t.ackView.Acks A r) : ∃ n ≤ TCP_WND, t.ackView.Acks A (r + u32 n) :=
    ⟨0, Nat.zero_le _, by rw [show r + u32 0 = r from add_zero r]; exact ht⟩
  unfold tcpProcess at h
  split at h
  · rcases tcpProcessRst_cases s seg with e | e <;> rw [e] at h <;> cases h
    · exact hstay ⟨hI.state, hI.rcvNxt, hI.rcvWnd, hI.acks⟩
    · exact hstay hI
  split at h
  · cases h
    exact hstay ⟨hI.state, hI.rcvNxt, hI.rcvWnd, hI.acks⟩
  have hv : (tcpProcessStart s seg).ackView = s.ackView := by
    unfold tcpProcessStart
    dsimp only
    split <;> rfl
  rw [← hv] at hI
  generalize tcpProcessStart s seg = s₁ at h hI
  unfold tcpProcessState at h
  split at h
  · next hs => exact absurd hs hI.state
  · unfold tcpProcessSynRcvd at h
    split at h
    · split at h
      · obtain ⟨⟨ret, s₂⟩, h₁, h⟩ := Run.bind_eq_ok.mp h
        have hI₂ := hk.tcpEvent happ h₁
          (hI.stateTo .ESTABLISHED (by decide) rfl)
        dsimp only at h
        split at h
        · split at h
          · obtain ⟨_, -, h⟩ := Run.bind_eq_ok.mp h
            obtain ⟨s₃, h₃, h⟩ := Run.bind_eq_ok.mp h
            cases h
            exact hstay (hk.tcpAbandon h₃ hI₂)
          · cases h
            exact hstay hI₂
        · obtain ⟨_, -, h⟩ := Run.bind_eq_ok.mp h
          obtain ⟨s₃, h₃, h⟩ := Run.bind_eq_ok.mp h
          cases h
          exact acks_tcpProcessReceive acks_tcpProcessAcceptAfter h₃ hr hI₂
      · cases h
        exact hstay hI.tcpRst
    · split at h <;> cases h
      · rw [ackView_tcpRexmit]
        exact hstay hI
      · exact hstay hI
  all_goals first
  | obtain ⟨s₂, h₂, h⟩ := Run.bind_eq_ok.mp h
    cases h
    exact acks_tcpProcessReceive acks_tcpProcessAfter h₂ hr hI
  | cases h
    exact hstay hI

/-! ## Operations -/

/-- What one operation acknowledges is `rcv_nxt` in front of it or behind it, and `rcv_nxt` moves
    forward, by no more than the window. -/
theorem acks_step (happ : AppOk NoConnect app) {op : List Bool × Op}
    (hop : ∀ a, op.2 = .api a → NoConnect s.core a) (h : connStep app s op = .ok s') (hr : r ∈ A)
    (hI : s.ackView.Acks A r) :
    ∃ n ≤ TCP_WND, s'.ackView.Acks (insert (r + u32 n) A) (r + u32 n) := by
  have hk := kept_acks app hr
  have hstay {t : St W} (ht : t.ackView.Acks A r) :
      ∃ n ≤ TCP_WND, t.ackView.Acks (insert (r + u32 n) A) (r + u32 n) :=
    ⟨0, Nat.zero_le _, by
      rw [show r + u32 0 = r from add_zero r]
      exact ht.mono (Set.subset_insert _ _)⟩
  have hother (hin : ∀ seg, op.2 ≠ .input seg) (hP : Kept.StepOk NoConnect (fun _ _ => False)
      (fun _ _ => True) app s op) : ∃ n ≤ TCP_WND, s'.ackView.Acks (insert (r + u32 n) A) (r + u32 n) :=
    hstay (hk.stepOptions happ hP (fun seg he => absurd he (hin seg)) h hI)
  obtain ⟨fails, op⟩ := op
  cases op with
  | api a => exact hother nofun (hop a rfl)
  | fasttmr => exact hother nofun fun _ => trivial
  | slowtmr => exact hother nofun fun _ => trivial
  | kill reset => exact hother nofun trivial
  | input seg =>
    unfold connStep connOp at h
    dsimp only at h
    split at h
    · obtain ⟨⟨dropped, s₁⟩, h₁, h⟩ := Run.bind_eq_ok.mp h
      have hI₁ : s₁.ackView.Acks A r := hk.toSteps.tcpInputRefused happ h₁ hI
      dsimp only at h
      split at h
      · cases h
        exact hstay hI₁
      obtain ⟨⟨err, s₂⟩, h₂, h⟩ := Run.bind_eq_ok.mp h
      obtain ⟨n, hn, hI₂⟩ := acks_tcpProcess happ h₂ hr (s := { s₁ with inputPcb := true }) hI₁
      refine ⟨n, hn, ?_⟩
      have hI₂ := hI₂.mono (Set.subset_insert (r + u32 n) A)
      have hk' := kept_acks app (Set.mem_insert (r + u32 n) A)
      dsimp only at h
      split at h
      · cases h
        exact hI₂
      · split at h
        · exact hk'.tcpInputRemove h hI₂
        · exact hk'.toSteps.tcpInputEvents happ
            (fun hno => St.Ends.processed noting_gotFin hno happ h₁ h₂ nofun) h hI₂
    · exact hstay (hk.toSteps.tcpTimewaitInput h hI)
    · cases h
      exact hstay hI

end Rudp

import Rudp.Ack
import Rudp.Announce
import Rudp.Opening

/-!
# Owed acknowledgments

When `rcv_nxt` has moved since the last ACK that was sent, `TF_ACK_DELAY` or `TF_ACK_NOW` is set.
Every function that clears the flags has sent an ACK before, except `tcp_fasttmr`: it clears them
whatever `tcp_output` did.

Results:
* `owed_ack_remembered`: in every run in which each fast timer that finds an ACK owed can send it,
  an owed ACK is remembered.
* `owed_ack_remembered_fails`: a fast timer whose `ip_output_if` fails forgets it.
-/

namespace Rudp

variable {W : Type} {s s' : St W}

/-! ## What has been acknowledged -/

/-- What the packet acknowledges, if `sendto` took it and it is no reset. -/
def Out.acks : Out → Option U32
  | .ipOutputIf packet true _ _ =>
    if packet.tcphdr.flags.ack && !packet.tcphdr.flags.rst then some packet.tcphdr.ackno else none
  | _ => none

/-- The acknowledgment number of the last ACK that was sent, `r₀` before the first one. -/
def ackedNxt (r₀ : U32) (trace : List Out) : U32 := (trace.filterMap Out.acks).getLast?.getD r₀

theorem ackedNxt_append (r₀ : U32) (trace : List Out) (o : Out) :
    ackedNxt r₀ (trace ++ [o]) = (o.acks).getD (ackedNxt r₀ trace) := by
  unfold ackedNxt
  rw [List.filterMap_append]
  cases h : o.acks with
  | none => simp [h]
  | some n => simp [h]

theorem Out.acks_of_silent {o : Out} (h : o.Silent) : o.acks = none := by
  cases o with
  | ipOutputIf p b st id => exact h.elim
  | _ => rfl

theorem acks_of_rst {packet : Packet} (sent : Bool) (h : packet.tcphdr.flags.rst = true) :
    (s.packet packet sent).acks = none := by
  cases sent
  · rfl
  · simp [St.packet, Out.acks, h]

/-- A packet with the current `rcv_nxt` acknowledges it, or nothing. -/
theorem Packet.Current.acks {packet : Packet} (h : packet.Current s.pcb) (sent : Bool) :
    (s.packet packet sent).acks =
      if sent = true ∧ packet.tcphdr.flags.ack = true then some s.pcb.rcvNxt else none := by
  cases sent
  · rfl
  · simp [St.packet, Out.acks, h.rst, h.ackno]

/-- Nothing is owed. -/
def Settled (r₀ : U32) (s : St W) : Prop := s.pcb.rcvNxt = ackedNxt r₀ s.trace

/-- What is owed is recorded in the flags of the pcb. -/
def AckView.Remembers (r₀ : U32) (v : AckView) : Prop :=
  v.state ≠ .CLOSED → v.rcvNxt = ackedNxt r₀ v.trace ∨ v.tfAckDelay = true ∨ v.tfAckNow = true

/-! ## The fast timer -/

/-- `tcp_output`, told to acknowledge at once, sends an ACK: an empty one, or the first segment. -/
def AckGoes (s : St W) : Prop :=
  s.inputPcb = false ∧
    match s.pcb.unsent with
    | [] => s.pop.1 = false ∧ s.pop.2.pop.1 = false
    | seg :: _ =>
      if fitsWindow s.pcb seg then
        (tcpDoOutputNagle s.pcb = true ∨ s.pcb.tfNagleMemErr = true ∨ s.pcb.tfFin = true) ∧
          s.pop.1 = false ∧ (s.pcb.state ≠ .SYN_SENT ∨ seg.tcphdr.flags.ack = true)
      else s.pop.1 = false ∧ s.pop.2.pop.1 = false

/-- When the fast timer finds a delayed ACK, nothing is owed or the ACK goes out. -/
def FastOk (r₀ : U32) (s : St W) : Tmr → Prop
  | .fast => s.pcb.tfAckDelay = true → Settled r₀ s ∨ AckGoes s
  | .slow => True

variable {r₀ : U32}

/-- A packet that is sent keeps what is settled, and an ACK settles everything. -/
theorem settled_of_transmitted {packet : Packet} {sent delay now : Bool}
    (hcur : packet.Current s.pcb) (hv : s'.ackView = s.transmitted packet sent delay now)
    (h : Settled r₀ s ∨ (sent = true ∧ packet.tcphdr.flags.ack = true)) : Settled r₀ s' := by
  have hn : s'.pcb.rcvNxt = s.pcb.rcvNxt := congrArg AckView.rcvNxt hv
  have ht : s'.trace = s.trace ++ [s.packet packet sent] := congrArg AckView.trace hv
  unfold Settled
  rw [hn, ht, ackedNxt_append, hcur.acks]
  split
  · rfl
  · next hc =>
    rcases h with h | h
    · exact h
    · exact absurd h hc

theorem settled_tcpSendEmptyAck (h : Settled r₀ s) : Settled r₀ (tcpSendEmptyAck s).2 := by
  rcases ackView_tcpSendEmptyAck s with ⟨-, hv⟩ | ⟨packet, sent, hcur, -, -, hv⟩
  · have hn : (tcpSendEmptyAck s).2.pcb.rcvNxt = s.pcb.rcvNxt := congrArg AckView.rcvNxt hv
    have ht : (tcpSendEmptyAck s).2.trace = s.trace := congrArg AckView.trace hv
    unfold Settled
    rw [hn, ht]
    exact h
  · exact settled_of_transmitted hcur hv (.inl h)

/-- `tcp_output` keeps what is settled. -/
theorem settled_tcpOutputLoop {q : List TcpSeg} {err : Err} (hq : s.pcb.unsent = q)
    (hr : tcpOutputLoop q s = .ok (err, s')) (h : Settled r₀ s) : Settled r₀ s' := by
  refine tcpOutputLoop_rule (I := Settled r₀) ?_ ?_ hq hr h
  · intro s s₁ seg seg' rest hI hu hfit hrst he
    obtain ⟨packet, delay, now, hcur, -, -, hv⟩ := ackView_outputSent rest hrst he
    exact settled_of_transmitted hcur hv (.inl hI)
  · intro s s₁ seg seg' rest err hI hu hfit hrst he hne
    obtain ⟨packet, sent, hcur, hv⟩ := ackView_outputFail rest hrst he
    exact settled_of_transmitted hcur hv (.inl hI)

theorem settled_tcpOutput {err : Err} (hr : tcpOutput s = .ok (err, s')) (h : Settled r₀ s) :
    Settled r₀ s' := by
  refine tcpOutput_rule (I := Settled r₀) settled_tcpSendEmptyAck ?_ ?_ (fun hI => hI) hr h
  · intro s s₁ seg seg' rest hI hu hfit hrst he
    obtain ⟨packet, delay, now, hcur, -, -, hv⟩ := ackView_outputSent rest hrst he
    exact settled_of_transmitted hcur hv (.inl hI)
  · intro s s₁ seg seg' rest err hI hu hfit hrst he hne
    obtain ⟨packet, sent, hcur, hv⟩ := ackView_outputFail rest hrst he
    exact settled_of_transmitted hcur hv (.inl hI)

/-- An empty ACK goes out when its header is allocated and `sendto` takes it. -/
theorem tcpSendEmptyAck_ok (h₁ : s.pop.1 = false) (h₂ : s.pop.2.pop.1 = false) :
    (tcpSendEmptyAck s).1 = .ok := by
  unfold tcpSendEmptyAck tcpOutputAllocHeader
  simp only [h₁, Bool.false_eq_true, if_false]
  split
  · next hne =>
    refine absurd ?_ hne
    show (if s.pop.2.pop.1 then Err.mem else .ok) = _
    rw [h₂]
    rfl
  · show (if s.pop.2.pop.1 then Err.mem else .ok) = _
    rw [h₂]
    rfl

theorem settled_emptyAck_ok (h : s.pop.1 = false ∧ s.pop.2.pop.1 = false) :
    Settled r₀ (tcpSendEmptyAck s).2 := by
  rcases ackView_tcpSendEmptyAck s with ⟨hne, -⟩ | ⟨packet, sent, hcur, hack, hok, hv⟩
  · exact absurd (tcpSendEmptyAck_ok h.1 h.2) hne
  · exact settled_of_transmitted hcur hv (.inr ⟨hok.mp (tcpSendEmptyAck_ok h.1 h.2), hack⟩)

theorem tcpOutputSegment_ok (seg : TcpSeg) (h : s.pop.1 = false) :
    (tcpOutputSegment s seg).1 = .ok := by
  unfold tcpOutputSegment
  dsimp only
  split <;> split
  all_goals
    show (if s.pop.1 then Err.mem else .ok) = _
    rw [h]
    rfl

/-- An ACK that goes out settles everything. -/
theorem settled_of_ackGoes {err : Err} (hgo : AckGoes s) (hr : tcpOutput (tcpAckNow s) = .ok (err, s')) :
    Settled r₀ s' := by
  obtain ⟨hin, hgo⟩ := hgo
  unfold tcpOutput at hr
  rw [if_neg (show ¬ (tcpAckNow s).inputPcb = true by show ¬ s.inputPcb = true; simp [hin])] at hr
  split at hr
  · next hc =>
    have h2 : s.pop.1 = false ∧ s.pop.2.pop.1 = false := by
      split at hgo
      · exact hgo
      · next seg rest hu =>
        have hnf : ¬ fitsWindow s.pcb seg := by
          refine hc.2 seg ?_
          show seg ∈ s.pcb.unsent.head?
          rw [hu]
          rfl
        rw [if_neg hnf] at hgo
        exact hgo
    have he : Settled r₀ (tcpSendEmptyAck (tcpAckNow s)).2 := settled_emptyAck_ok h2
    rw [Except.ok.inj hr] at he
    exact he
  · next hc =>
    have hfit : ∃ seg rest, s.pcb.unsent = seg :: rest ∧ fitsWindow s.pcb seg := by
      by_contra hn
      refine hc ⟨rfl, fun seg hs hf => hn ?_⟩
      change seg ∈ s.pcb.unsent.head? at hs
      obtain ⟨rest, hrest⟩ : ∃ rest, s.pcb.unsent = seg :: rest := by
        cases hu : s.pcb.unsent with
        | nil => rw [hu] at hs; cases hs
        | cons a l =>
          rw [hu] at hs
          cases hs
          exact ⟨l, rfl⟩
      exact ⟨seg, rest, hrest, hf⟩
    obtain ⟨seg, rest, hu, hf⟩ := hfit
    rw [hu] at hgo
    dsimp only at hgo
    rw [if_pos hf] at hgo
    obtain ⟨hnag, hsend, hack⟩ := hgo
    obtain ⟨⟨err', s₁⟩, h₁, hr⟩ := Run.bind_eq_ok.mp hr
    have hs₁ : Settled r₀ s₁ := by
      rw [show (tcpAckNow s).pcb.unsent = seg :: rest from hu, tcpOutputLoop,
        if_pos (show fitsWindow (tcpAckNow s).pcb seg from hf)] at h₁
      obtain ⟨_, ha, h₁⟩ := Run.bind_eq_ok.mp h₁
      rw [if_neg ?_] at h₁
      · rcases e : tcpOutputSegment (tcpAckNow s) (seg.prepare (tcpAckNow s).pcb) with ⟨err₂, seg', s₂⟩
        have hok := tcpOutputSegment_ok (s := tcpAckNow s) (seg.prepare (tcpAckNow s).pcb) hsend
        rw [e] at h₁ hok
        change err₂ = .ok at hok
        subst hok
        dsimp only at h₁
        rw [if_neg (by simp)] at h₁
        obtain ⟨packet, delay, now, hcur, hpa, -, hv⟩ :=
          ackView_outputSent rest (lwipAssert_ok ha) e
        refine settled_tcpOutputLoop ?_ h₁ (settled_of_transmitted hcur hv (.inr ⟨rfl, ?_⟩))
        · unfold tcpOutputSent
          dsimp only
          split_ifs <;> rfl
        · rw [hpa, Bool.or_eq_true, decide_eq_true_eq]
          exact hack.symm
      · rintro ⟨n1, n2, n3⟩
        have e1 : tcpDoOutputNagle (tcpAckNow s).pcb = tcpDoOutputNagle s.pcb := rfl
        rw [e1] at n1
        rcases hnag with h | h | h
        · rw [h] at n1; cases n1
        · rw [show (tcpAckNow s).pcb.tfNagleMemErr = s.pcb.tfNagleMemErr from rfl, h] at n2; cases n2
        · rw [show (tcpAckNow s).pcb.tfFin = s.pcb.tfFin from rfl, h] at n3; cases n3
    dsimp only at hr
    split at hr
    · cases hr
      exact hs₁
    · split at hr <;> cases hr <;> exact hs₁

/-! ## The invariant -/

theorem AckView.Remembers.of_settled {v : AckView} (h : v.rcvNxt = ackedNxt r₀ v.trace) :
    v.Remembers r₀ := fun _ => .inl h

theorem AckView.Remembers.of_flags {v : AckView} (h : v.tfAckDelay = true ∨ v.tfAckNow = true) :
    v.Remembers r₀ := fun _ => .inr h

theorem remembers_of_transmitted {packet : Packet} {sent delay now : Bool}
    (hcur : packet.Current s.pcb) (hd : (delay = s.pcb.tfAckDelay ∧ now = s.pcb.tfAckNow) ∨
      (packet.tcphdr.flags.ack = true ∧ delay = !sent ∧ now = !sent))
    (hv : s'.ackView = s.transmitted packet sent delay now) (h : s.ackView.Remembers r₀) :
    s'.ackView.Remembers r₀ := by
  intro hst
  rw [hv] at hst ⊢
  have hset : Settled r₀ s ∨ (sent = true ∧ packet.tcphdr.flags.ack = true) →
      s.pcb.rcvNxt = ackedNxt r₀ (s.trace ++ [s.packet packet sent]) := by
    intro h
    have h := settled_of_transmitted hcur hv h
    have hn : s'.pcb.rcvNxt = s.pcb.rcvNxt := congrArg AckView.rcvNxt hv
    have ht : s'.trace = s.trace ++ [s.packet packet sent] := congrArg AckView.trace hv
    unfold Settled at h
    rw [hn, ht] at h
    exact h
  rcases hd with ⟨rfl, rfl⟩ | ⟨hack, rfl, rfl⟩
  · rcases h hst with h | h
    · exact .inl (hset (.inl h))
    · exact .inr h
  · cases sent with
    | false => exact .inr (.inl rfl)
    | true => exact .inl (hset (.inr ⟨rfl, hack⟩))

theorem remembers_tcpSendEmptyAck (h : s.ackView.Remembers r₀) :
    (tcpSendEmptyAck s).2.ackView.Remembers r₀ := by
  rcases ackView_tcpSendEmptyAck s with ⟨-, hv⟩ | ⟨packet, sent, hcur, hack, -, hv⟩
  · rw [hv]
    exact .of_flags (.inl rfl)
  · exact remembers_of_transmitted hcur (.inr ⟨hack, rfl, rfl⟩) hv h

theorem remembers_of_rst {packet : Packet} (sent : Bool) (hrst : packet.tcphdr.flags.rst = true)
    (hv : s'.ackView = { s.ackView with trace := s.trace ++ [s.packet packet sent] })
    (h : s.ackView.Remembers r₀) : s'.ackView.Remembers r₀ := by
  rw [hv]
  intro hst
  rcases h hst with h | h
  · refine .inl ?_
    show s.pcb.rcvNxt = ackedNxt r₀ (s.trace ++ [s.packet packet sent])
    rw [ackedNxt_append, acks_of_rst sent hrst]
    exact h
  · exact .inr h

theorem remembers_tcpRst {seqno ackno : U32} {id : ConnectId} (h : s.ackView.Remembers r₀) :
    (tcpRst s seqno ackno id).ackView.Remembers r₀ := by
  obtain ⟨hp, ht | ⟨packet, sent, hr, -, -, -, -, ht⟩⟩ := tcpRst_cases s seqno ackno id
  · have hv : (tcpRst s seqno ackno id).ackView = s.ackView := by simp only [St.ackView, hp, ht]
    rw [hv]
    exact h
  · exact remembers_of_rst sent hr (by simp only [St.ackView, hp, ht]) h

/-- Whatever moves `rcv_nxt` calls `tcp_ack`. -/
theorem remembers_tcpReceiveData {seg : InSegment} (hr : tcpReceiveData s seg = .ok s')
    (h : s.ackView.Remembers r₀) : s'.ackView.Remembers r₀ := by
  have hnow {t : St W} : (tcpAckNow t).ackView.Remembers r₀ := .of_flags (.inr rfl)
  unfold tcpReceiveData at hr
  split at hr
  · obtain ⟨inseg, -, hr⟩ := Run.bind_eq_ok.mp hr
    have h₁ : (tcpReceiveDup s seg).ackView.Remembers r₀ := by
      unfold tcpReceiveDup
      split
      · exact hnow
      · exact h
    generalize tcpReceiveDup s seg = s₁ at hr h₁
    unfold tcpReceiveSegment at hr
    split at hr
    · split at hr
      · obtain ⟨_, -, hr⟩ := Run.bind_eq_ok.mp hr
        obtain ⟨⟨_, _⟩, -, hr⟩ := Run.bind_eq_ok.mp hr
        obtain ⟨s₂, -, hr⟩ := Run.bind_eq_ok.mp hr
        obtain ⟨s₃, -, hr⟩ := Run.bind_eq_ok.mp hr
        cases hr
        unfold tcpAck
        split
        · exact .of_flags (.inr rfl)
        · exact .of_flags (.inl rfl)
      · have h₂ := remembers_tcpSendEmptyAck h₁
        unfold tcpReceiveOutseq at hr
        generalize tcpSendEmptyAck s₁ = x at hr h₂
        obtain ⟨_, s₂⟩ := x
        dsimp only at hr h₂
        split at hr
        · cases hr
          exact h₂
        · split at hr
          · cases hr
            exact h₂
          · obtain ⟨_, -, hr⟩ := Run.bind_eq_ok.mp hr
            cases hr
            exact h₂
    · cases hr
      exact remembers_tcpSendEmptyAck h₁
  · split at hr <;> cases hr
    · exact hnow
    · exact h

/-- A callback returns `ERR_ABRT` only when it has called `tcp_abort` (tcp.h:60-61 and others). -/
def AbortOk (app : App W) : Prop :=
  ∀ e s s', app e s = .ok (.abrt, s') → s'.pcb.state = .CLOSED

theorem state_tcpInputRemove {err : Option Err} (h : tcpInputRemove s err = .ok s') :
    s'.pcb.state = .CLOSED := by
  unfold tcpInputRemove at h
  dsimp only at h
  obtain ⟨s₁, h₁, h⟩ := Run.bind_eq_ok.mp h
  cases h
  obtain ⟨_, -, h₁⟩ := Run.bind_eq_ok.mp h₁
  obtain ⟨_, -, h₁⟩ := Run.bind_eq_ok.mp h₁
  obtain ⟨_, -, h₁⟩ := Run.bind_eq_ok.mp h₁
  obtain ⟨_, -, h₁⟩ := Run.bind_eq_ok.mp h₁
  cases h₁
  rfl

/-- An entry that is no packet. -/
theorem remembers_emit {o : Out} (ho : o.acks = none) (h : s.ackView.Remembers r₀) :
    (s.emit o).ackView.Remembers r₀ := by
  intro hst
  rcases h hst with h | h
  · refine .inl ?_
    show s.pcb.rcvNxt = ackedNxt r₀ (s.trace ++ [o])
    rw [ackedNxt_append, ho]
    exact h
  · exact .inr h

/-- What is owed is remembered by packets and API calls. -/
theorem announcesApi_remembers :
    AnnouncesApi NoConnect fun s : St W => s.ackView.Remembers r₀ where
  congr hI hv := by
    rw [hv]
    exact hI
  callback ho hI := remembers_emit (Out.acks_of_silent (Out.silent_of_isCallback ho)) hI
  wrote _ hI := remembers_emit rfl hI
  ackNow _ := .of_flags (.inr rfl)
  owe hv _ := by
    rw [hv]
    exact .of_flags (.inl rfl)
  transmit packet sent delay now hcur hd hv hI := remembers_of_transmitted hcur hd hv hI
  rst hrst hv hI := remembers_of_rst _ hrst hv hI
  noConnect h := h
  recved {s len _ _ _} _ _ hp hI := by
    obtain ⟨aw, rfl⟩ := tcpUpdateRcvAnnWnd_ok hp
    exact remembers_emit (o := .recved len s.pcb) rfl hI
  state hst _ _ hI _ := hI hst
  closed _ h := absurd rfl h

/-- And by everything but a fast timer that cannot send. -/
theorem announces_remembers {app : App W} (habrt : AbortOk app) :
    Announces NoConnect (fun _ _ => True) (FastOk r₀) app fun s => s.ackView.Remembers r₀ where
  toAnnouncesApi := announcesApi_remembers
  reset hr _ h := absurd (state_tcpInputRemove hr) h
  fasttmr {s s' err} hR hd hr hI := by
    refine .of_settled ?_
    rcases hR hd with h | h
    · exact settled_tcpOutput (s := tcpAckNow s) hr h
    · exact settled_of_ackGoes h hr
  rcvWndFin {s} _ hI := by
    unfold rcvWndFin
    split <;> exact hI
  synSent {s s' seg err} _ hst hr hI := by
    unfold tcpProcessSynSent at hr
    split at hr
    · cases hr
    split at hr
    · obtain ⟨_, -, hr⟩ := Run.bind_eq_ok.mp hr
      obtain ⟨⟨ret, s₁⟩, h₁, hr⟩ := Run.bind_eq_ok.mp hr
      dsimp only at hr
      split at hr
      · next hret =>
        cases hr
        obtain ⟨⟨ret', s₂⟩, h₂, h₁⟩ := Run.bind_eq_ok.mp h₁
        cases h₁
        rw [hret] at h₂
        exact fun h => absurd (habrt _ _ _ h₂) h
      · obtain ⟨_, -, hr⟩ := Run.bind_eq_ok.mp hr
        cases hr
        exact .of_flags (.inr rfl)
    · split at hr <;> cases hr
      · exact remembers_tcpRst hI
      · exact hI
  receive {s s' seg after} hafter hr hI := by
    obtain ⟨hnum, s₁, s₂, h₁, hv, h₂, rfl⟩ := processReceive_parts hr
    have hI₁ : s₁.ackView.Remembers r₀ := by
      rcases h₁ with ⟨-, h₁⟩ | ⟨-, rfl⟩
      · exact announcesApi_remembers.receiveAck h₁ hI
      · exact hI
    have hst := state_tcpReceiveData h₂
    rw [show s₁.pcb.state = s.pcb.state from congrArg RcvView.state hv] at hst
    exact remembers_emit rfl
      (announcesApi_remembers.after hafter hnum hst (remembers_tcpReceiveData h₂ hI₁))

theorem Begun.remembers {s₀ : St W} (h : Begun s₀) : s₀.ackView.Remembers s₀.pcb.rcvNxt := by
  obtain ⟨t, err, ho, hr⟩ := h.opening
  have hn : s₀.pcb.rcvNxt = t.pcb.rcvNxt := congrArg RcvView.rcvNxt (rcvView_tcpOutput hr)
  have hs : Settled s₀.pcb.rcvNxt t := by
    unfold Settled
    rw [ho.trace, hn]
    rfl
  exact .of_settled (settled_tcpOutput hr hs)

/-- In every run whose fast timers can send the ACK that is owed, `TF_ACK_DELAY` or `TF_ACK_NOW` is
    set when `rcv_nxt` has moved since the last ACK that was sent. -/
theorem owed_ack_remembered {app : App W} {s₀ : St W} (happ : AppOk NoConnect app)
    (habrt : AbortOk app) (h₀ : Begun s₀)
    (hr : Run.Reach (connStep app)
      (Kept.StepOk NoConnect (fun _ _ => True) (FastOk s₀.pcb.rcvNxt) app) s₀ s) :
    s.pcb.state ≠ .CLOSED → s.pcb.rcvNxt = ackedNxt s₀.pcb.rcvNxt s.trace ∨
      s.pcb.tfAckDelay = true ∨ s.pcb.tfAckNow = true :=
  (announces_remembers habrt).toKept.reach happ h₀.remembers hr

/-! ### Two runs -/

/-- The server sends one byte. -/
def byteOp (seqno : U32) (wnd : ℕ) : List Bool × Op :=
  ([], .input { tcphdr := serverHdr seqno 1000 { ack := true } wnd, p := [{ payload := [7] }],
                bound := oneByte_bound })

theorem abortOk_idleApp : AbortOk idleApp := by
  intro e s s' h
  cases h

theorem owed_ack_remembered_byte : ∃ s, Run.exec (connStep idleApp) connecting
    [synAckOp TCP_WND, byteOp 1 TCP_WND, ([], .fasttmr)] = .ok s ∧ s.pcb.state = .ESTABLISHED ∧
      (s.pcb.state ≠ .CLOSED → s.pcb.rcvNxt = ackedNxt connecting.pcb.rcvNxt s.trace ∨
        s.pcb.tfAckDelay = true ∨ s.pcb.tfAckNow = true) := by
  refine ⟨_, rfl, rfl, owed_ack_remembered appOk_idleApp abortOk_idleApp begun_connecting
    (.step ([], .fasttmr) (.step (byteOp 1 TCP_WND) (.step (synAckOp TCP_WND) .refl
      (fun _ _ => trivial) rfl) (fun _ _ => trivial) rfl) (fun _ _ => .inr ?_) rfl)⟩
  exact ⟨rfl, rfl, rfl⟩

/-- The ACK for one byte is delayed, and the fast timer has no buffer for it. -/
theorem owed_ack_remembered_fails : ∃ s : St Unit, Begun connecting ∧ AppOk NoConnect idleApp ∧
    AbortOk idleApp ∧ Run.exec (connStep idleApp) connecting
      [synAckOp TCP_WND, byteOp 1 TCP_WND, ([true], .fasttmr)] = .ok s ∧
    s.pcb.state = .ESTABLISHED ∧ s.list = .active ∧
    ¬ (s.pcb.rcvNxt = ackedNxt connecting.pcb.rcvNxt s.trace ∨ s.pcb.tfAckDelay = true ∨
      s.pcb.tfAckNow = true) := by
  refine ⟨_, begun_connecting, appOk_idleApp, abortOk_idleApp, rfl, rfl, rfl, ?_⟩
  decide

end Rudp

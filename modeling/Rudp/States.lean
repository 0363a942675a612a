import Rudp.Opening
import Rudp.Queue
import Rudp.Window

/-!
# The connection states

`tcp_process` computes the next state from the one in front of the accept callback, and the callback
may have closed the connection.

Results:
* `states_sound`: in every run in which an accept callback that closes gets no FIN in the same
  segment, the state moves along the edges of the diagram, `TF_FIN` is set where it should be, and
  the peer's FIN has been taken where it should be.
* `states_sound_fails`: the accept callback closes and the segment carries a FIN.
-/

namespace Rudp

variable {W : Type} {s s' : St W}

open Relation (ReflTransGen)

/-! ## The diagram -/

/-- The edges of the diagram of RFC 793 that a segment takes: `gotFin` when the peer's FIN is taken
    with it, `finAcked` when it acknowledges all that has been sent. A segment that does both takes
    two of them. -/
inductive SegEdge (gotFin finAcked : Prop) : TcpState → TcpState → Prop
  | fin : gotFin → SegEdge gotFin finAcked .ESTABLISHED .CLOSE_WAIT
  | finBoth : gotFin → SegEdge gotFin finAcked .FIN_WAIT_1 .CLOSING
  | finWait2 : gotFin → SegEdge gotFin finAcked .FIN_WAIT_2 .TIME_WAIT
  | finAcked : finAcked → SegEdge gotFin finAcked .FIN_WAIT_1 .FIN_WAIT_2
  | closing : finAcked → SegEdge gotFin finAcked .CLOSING .TIME_WAIT

/-- The FINs on `unsent` and `unacked`. -/
def Core.fins (c : Core) : ℕ := c.segs.countP (·.tcphdr.flags.fin)

/-- One thing that happens to the state, `TF_FIN` and the FINs on the queues. `S` says in which states
    `tcp_receive` is called, and for which segments. -/
inductive Turn (S : St W → InSegment → Prop) : St W → St W → Prop
  | stay {s s' : St W} : s'.pcb.state = s.pcb.state → s'.pcb.tfFin = s.pcb.tfFin →
    s'.core.fins ≤ s.core.fins → Turn S s s'
  | synSent {s : St W} {seg : InSegment} {rseg : TcpSeg} {rest : List TcpSeg} :
    s.pcb.state = .SYN_SENT → s.pcb.unacked = rseg :: rest → seg.ackno = rseg.tcphdr.seqno + 1 →
      Turn S s { s with pcb := establish s.pcb seg rest }
  | synRcvd {s : St W} {seg : InSegment} : s.pcb.state = .SYN_RCVD →
    tcpSeqBetween seg.ackno (s.pcb.lastack + 1) s.pcb.sndNxt →
      Turn S s { s with pcb.state := .ESTABLISHED }
  /-- `closeState` has the edges that send a FIN. -/
  | sendFin {s s' : St W} {st : TcpState} : s.pcb.tfFin = false →
    closeState s.pcb.state = some st → tcpSendFin s = .ok (.ok, s') → s'.pcb.tfFin = true →
      s'.core.fins = s.core.fins + 1 → Turn S s { s' with pcb.state := st }
  | receive {s s₁ s' : St W} {seg : InSegment} {after : St W → St W} : S s seg →
    s.recvGotFin = false → tcpReceive s seg = .ok s₁ → tcpProcessReceive s seg after = .ok s' →
      ReflTransGen (SegEdge (s₁.recvGotFin = true)
        (seg.flags.ack = true ∧ seg.ackno = s₁.pcb.sndNxt)) s.pcb.state s'.pcb.state →
      s'.pcb.tfFin = s.pcb.tfFin → s'.core.fins ≤ s.core.fins → Turn S s s'
  | reset {s t : St W} : ClosesByReset t s → s.pcb.state = .ESTABLISHED →
    Turn S s { s with pcb.state := .TIME_WAIT }
  /-- `tcp_pcb_remove` -/
  | delete {s : St W} : s.list ≠ .active → s.pcb.unsent = [] → s.pcb.unacked = [] →
    s.pcb.ooseq = [] → Turn S s { s with pcb.state := .CLOSED }

/-- `TF_FIN` is set in the states that follow a FIN, and only behind one, and at most one FIN is on the
    queues. -/
structure Core.FinSound (c : Core) : Prop where
  closing : c.tfFin = true →
    c.state ≠ .SYN_SENT ∧ c.state ≠ .SYN_RCVD ∧ c.state ≠ .ESTABLISHED ∧ c.state ≠ .CLOSE_WAIT
  closed : c.state = .FIN_WAIT_1 ∨ c.state = .FIN_WAIT_2 ∨ c.state = .CLOSING ∨
    c.state = .LAST_ACK → c.tfFin = true
  fins : c.fins ≤ if c.tfFin then 1 else 0

namespace Core.FinSound

variable {c c' : Core}

/-- No FIN has been queued where one can be. -/
theorem tfFin_eq_false (h : c.FinSound) (hst : c.state = .SYN_SENT ∨ c.state = .SYN_RCVD ∨
    c.state = .ESTABLISHED ∨ c.state = .CLOSE_WAIT) : c.tfFin = false := by
  by_contra hc
  obtain ⟨h1, h2, h3, h4⟩ := h.closing (by simpa using hc)
  rcases hst with hst | hst | hst | hst <;> contradiction

theorem tfFin_of_closeState (h : c.FinSound) {st : TcpState} (hst : closeState c.state = some st) :
    c.tfFin = false := by
  apply h.tfFin_eq_false
  unfold closeState at hst
  split at hst <;> simp_all

theorem congr (h : c.FinSound) (hst : c'.state = c.state) (hfin : c'.tfFin = c.tfFin)
    (hq : c'.fins ≤ c.fins) : c'.FinSound where
  closing := by
    rw [hst, hfin]
    exact h.closing
  closed := by
    rw [hst, hfin]
    exact h.closed
  fins := hfin ▸ hq.trans h.fins

/-- A connection that has sent no FIN is opened or reset. -/
theorem opened (h : c.FinSound) (hf : c.tfFin = false) (hfin : c'.tfFin = c.tfFin)
    (hq : c'.fins ≤ c.fins) (hst : c'.state = .ESTABLISHED ∨ c'.state = .TIME_WAIT) :
    c'.FinSound where
  closing hc := by
    rw [hfin, hf] at hc
    cases hc
  closed hc := by rcases hst with e | e <;> simp [e] at hc
  fins := hfin ▸ hq.trans h.fins

/-- The state changes along an edge of the diagram. -/
theorem segEdge (h : c.FinSound) {gotFin finAcked : Prop} {st : TcpState}
    (he : SegEdge gotFin finAcked c.state st) : ({ c with state := st } : Core).FinSound := by
  obtain ⟨h1, h2, h3⟩ := h
  generalize hst : c.state = st₀ at he h1 h2
  cases he <;> refine ⟨?_, ?_, h3⟩ <;> simp_all

theorem segPath (h : c.FinSound) {gotFin finAcked : Prop} {st : TcpState}
    (he : ReflTransGen (SegEdge gotFin finAcked) c.state st) :
    ({ c with state := st } : Core).FinSound := by
  induction he with
  | refl => exact h
  | tail _ he ih => exact ih.segEdge he

end Core.FinSound

theorem SegEdge.ne_synRcvd {gotFin finAcked : Prop} {st st' : TcpState}
    (h : ReflTransGen (SegEdge gotFin finAcked) st st') (hst : st ≠ .SYN_RCVD) : st' ≠ .SYN_RCVD := by
  induction h with
  | refl => exact hst
  | tail _ he _ => cases he <;> decide

/-- The states that follow the peer's FIN, but for `TIME_WAIT`. -/
def TcpState.BehindFin (st : TcpState) : Prop := st = .CLOSE_WAIT ∨ st = .CLOSING ∨ st = .LAST_ACK

/-- They are entered with it. -/
theorem SegEdge.behindFin {gotFin finAcked : Prop} {st st' : TcpState}
    (h : ReflTransGen (SegEdge gotFin finAcked) st st') (hst : st'.BehindFin) :
    st.BehindFin ∨ gotFin := by
  cases h with
  | refl => exact .inl hst
  | tail _ he =>
    cases he with
    | fin hg => exact .inr hg
    | finBoth hg => exact .inr hg
    | _ => simp [TcpState.BehindFin] at hst

/-- A turn that leads to a sound state. -/
def SoundTurn (S : St W → InSegment → Prop) (s s' : St W) : Prop := Turn S s s' ∧ s'.core.FinSound

theorem fins_establish {seg : InSegment} {rseg : TcpSeg} {rest : List TcpSeg}
    (hu : s.pcb.unacked = rseg :: rest) :
    ({ s with pcb := establish s.pcb seg rest } : St W).core.fins ≤ s.core.fins := by
  show (s.pcb.unsent ++ rest).countP _ ≤ (s.pcb.unsent ++ s.pcb.unacked).countP _
  rw [hu]
  exact ((List.sublist_cons_self rseg rest).append_left s.pcb.unsent).countP_le

namespace Turn

variable {S : St W → InSegment → Prop}

theorem sound (h : Turn S s s') (hs : s.core.FinSound) : s'.core.FinSound := by
  cases h with
  | stay hst hfin hq => exact hs.congr hst hfin hq
  | synSent hst hu _ =>
    exact hs.opened (hs.tfFin_eq_false (.inl hst)) rfl (fins_establish hu) (.inl rfl)
  | synRcvd hst _ => exact hs.opened (hs.tfFin_eq_false (.inr (.inl hst))) rfl le_rfl (.inl rfl)
  | sendFin hfin hst _ hf hq =>
    have hs0 : s.core.fins ≤ 0 := by
      have := hs.fins
      rw [show s.core.tfFin = false from hfin] at this
      exact this
    have hf' : ∀ t : St W, t.pcb.tfFin = true → t.core.fins = s.core.fins + 1 →
        t.core.fins ≤ if t.core.tfFin then 1 else 0 := by
      intro t ht hq
      rw [if_pos (show t.core.tfFin = true from ht)]
      omega
    refine ⟨fun _ => ?_, fun _ => hf, hf' _ hf hq⟩
    rcases (closeState_some hst).2 with rfl | rfl <;> simp [St.core]
  | receive _ _ _ _ hp hfin hq => exact (hs.segPath hp).congr rfl hfin hq
  | reset _ hst =>
    exact hs.opened (hs.tfFin_eq_false (.inr (.inr (.inl hst)))) rfl le_rfl (.inr rfl)
  | delete _ _ _ _ => exact ⟨by simp [St.core], by simp [St.core], hs.fins⟩

/-- Nothing turns back to `SYN_RCVD`. -/
theorem ne_synRcvd (h : Turn S s s') (hs : s.pcb.state ≠ .SYN_RCVD) : s'.pcb.state ≠ .SYN_RCVD := by
  cases h with
  | stay hst _ _ => rwa [hst]
  | sendFin _ hst _ _ _ => rcases (closeState_some hst).2 with rfl | rfl <;> simp
  | receive _ _ _ _ hp _ _ => exact SegEdge.ne_synRcvd hp hs
  | _ => simp [establish]

theorem ne_synRcvd_of_path (h : ReflTransGen (SoundTurn S) s s') (hs : s.pcb.state ≠ .SYN_RCVD) :
    s'.pcb.state ≠ .SYN_RCVD := by
  induction h with
  | refl => exact hs
  | tail _ ht ih => exact ht.1.ne_synRcvd ih

/-- Behind a FIN none is queued. -/
theorem once (h : Turn S s s') (hs : s.pcb.tfFin = true) :
    s'.pcb.tfFin = true ∧ s'.core.fins ≤ s.core.fins := by
  cases h with
  | stay _ hfin hq => exact ⟨hfin.trans hs, hq⟩
  | synSent _ hu _ => exact ⟨hs, fins_establish hu⟩
  | sendFin hfin _ _ _ _ => cases hfin.symm.trans hs
  | receive _ _ _ _ _ hfin hq => exact ⟨hfin.trans hs, hq⟩
  | _ => exact ⟨hs, le_rfl⟩

theorem once_of_path (h : ReflTransGen (SoundTurn S) s s') (hs : s.pcb.tfFin = true) :
    s'.pcb.tfFin = true ∧ s'.core.fins ≤ s.core.fins := by
  induction h with
  | refl => exact ⟨hs, le_rfl⟩
  | tail _ ht ih =>
    obtain ⟨h1, h2⟩ := ht.1.once ih.1
    exact ⟨h1, h2.trans ih.2⟩

/-- The states behind the peer's FIN are entered with it. -/
theorem taken (h : Turn S s s') (hs : s'.pcb.state.BehindFin) : s.pcb.state.BehindFin ∨
    ∃ seg t', S s seg ∧ s.recvGotFin = false ∧ tcpReceive s seg = .ok t' ∧ t'.recvGotFin = true := by
  cases h with
  | stay hst _ _ => exact .inl (hst ▸ hs)
  | sendFin _ hst _ _ _ =>
    left
    unfold closeState at hst
    split at hst <;> cases hst
    · simp [TcpState.BehindFin] at hs
    · simp [TcpState.BehindFin] at hs
    · left
      assumption
  | receive hS hgot hr _ hp _ _ =>
    exact (SegEdge.behindFin hp hs).imp_right fun hg => ⟨_, _, hS, hgot, hr, hg⟩
  | _ => simp [TcpState.BehindFin, establish] at hs

theorem taken_of_path (h : ReflTransGen (SoundTurn S) s s') (hs : s'.pcb.state.BehindFin) :
    s.pcb.state.BehindFin ∨ ∃ t seg t', S t seg ∧ t.recvGotFin = false ∧
      tcpReceive t seg = .ok t' ∧ t'.recvGotFin = true := by
  induction h with
  | refl => exact .inl hs
  | tail _ ht ih =>
    rcases ht.1.taken hs with h | h
    · exact ih h
    · exact .inr ⟨_, h⟩

end Turn

/-! ## The flags of `tcp_receive` -/

/-- What `tcp_receive` leaves for `tcp_input`. -/
def St.recvFlags (s : St W) : Bool × Option (List Pbuf) := (s.recvGotFin, s.recvData)

theorem recvFlags_of_rcvView (h : s'.rcvView = s.rcvView) : s'.recvFlags = s.recvFlags :=
  congrArg (fun v => (v.recvGotFin, v.recvData)) h

/-- With what `tcp_close` leaves for it. -/
def St.recvState (s : St W) : (Bool × Option (List Pbuf)) × Bool := (s.recvFlags, s.recvClosed)

theorem recvState_of_rcvView (h : s'.rcvView = s.rcvView) : s'.recvState = s.recvState :=
  congrArg (fun v => ((v.recvGotFin, v.recvData), v.recvClosed)) h

theorem recvState_tcpPcbRemove (h : tcpPcbRemove s = .ok s') : s'.recvState = s.recvState := by
  have e := recvState_of_rcvView (rcvView_tcpPcbRemove h)
  exact e

theorem recvState_tcpAbandon {reset : Bool} (h : tcpAbandon s reset = .ok s') :
    s'.recvState = s.recvState := by
  obtain ⟨pcb, changed, outs, hv, -⟩ := rcvView_tcpAbandon h
  have e := recvState_of_rcvView hv
  exact e

theorem recvFlags_tcpCloseShutdown {rst : Bool} {err : Err}
    (h : tcpCloseShutdown s rst = .ok (err, s')) : s'.recvFlags = s.recvFlags := by
  have hfin {st : TcpState} (h : tcpCloseFin s st = .ok (err, s')) : s'.recvFlags = s.recvFlags := by
    obtain ⟨⟨err₁, s₁⟩, h₁, h⟩ := Run.bind_eq_ok.mp h
    have e₁ := recvFlags_of_rcvView (rcvView_tcpSendFin h₁)
    dsimp only at h
    split at h
    · obtain ⟨⟨err₂, s₂⟩, h₂, h⟩ := Run.bind_eq_ok.mp h
      cases h
      exact (recvFlags_of_rcvView (rcvView_tcpOutput h₂)).trans e₁
    · cases h
      exact e₁
  unfold tcpCloseShutdown at h
  split at h
  · obtain ⟨s₁, h₁, h⟩ := Run.bind_eq_ok.mp h
    cases h
    obtain ⟨_, -, h₁⟩ := Run.bind_eq_ok.mp h₁
    have e₁ := recvFlags_of_rcvView (rcvView_tcpRst s s.pcb.sndNxt s.pcb.rcvNxt s.pcb.connId)
    dsimp only at h₁
    split at h₁
    · cases h₁
      exact e₁
    · split at h₁ <;> cases h₁ <;> exact e₁
  · split at h
    · cases h
      rfl
    · obtain ⟨s₁, h₁, h⟩ := Run.bind_eq_ok.mp h
      cases h
      obtain ⟨s₂, h₂, h₁⟩ := Run.bind_eq_ok.mp h₁
      cases h₁
      have e₂ := recvState_tcpPcbRemove h₂
      exact congrArg Prod.fst e₂
    · exact hfin h
    · exact hfin h
    · exact hfin h
    · cases h
      rfl

theorem recvFlags_tcpShutdown {rx tx : Bool} {err : Err} (h : tcpShutdown s rx tx = .ok (err, s')) :
    s'.recvFlags = s.recvFlags := by
  unfold tcpShutdown at h
  split at h
  · exact (recvFlags_tcpCloseShutdown h).trans rfl
  · generalize hs₁ : (if rx = true then
      ({ s with pcb.tfRxClosed := true, pcb.refusedData := none } : St W) else s) = s₁ at h
    have e₁ : s₁.recvFlags = s.recvFlags := by
      rw [← hs₁]
      split <;> rfl
    rw [← e₁]
    dsimp only at h
    split at h
    · split at h
      · exact recvFlags_tcpCloseShutdown h
      · cases h
        rfl
    · cases h
      rfl

/-- No call of the application touches them. -/
theorem recvFlags_apiCall {a : Api} {err : Err} (h : apiCall s a = .ok (err, s')) :
    s'.recvFlags = s.recvFlags := by
  obtain ⟨_, -, h⟩ := Run.bind_eq_ok.mp h
  cases a with
  | connect newPort iss =>
    rcases rcvView_tcpConnect h with hv | ⟨port, hv | hv⟩ <;>
      exact (recvFlags_of_rcvView hv).trans rfl
  | write arg copy more =>
    obtain ⟨⟨err₁, s₁⟩, h₁, h⟩ := Run.bind_eq_ok.mp h
    cases h
    have e₁ := recvFlags_of_rcvView (rcvView_tcpWrite h₁)
    split <;> exact e₁
  | output => exact recvFlags_of_rcvView (rcvView_tcpOutput h)
  | recved len =>
    obtain ⟨s₁, h₁, h⟩ := Run.bind_eq_ok.mp h
    cases h
    obtain ⟨w, -, h₁⟩ := Run.bind_eq_ok.mp h₁
    obtain ⟨⟨n, pcb⟩, -, h₁⟩ := Run.bind_eq_ok.mp h₁
    dsimp only at h₁
    split at h₁
    · obtain ⟨⟨err₂, s₂⟩, h₂, rfl⟩ := Run.map_eq_ok.mp h₁
      exact (recvFlags_of_rcvView (rcvView_tcpOutput h₂)).trans rfl
    · cases h₁
      rfl
  | close => exact recvFlags_tcpCloseShutdown (s := { s with pcb.tfRxClosed := true }) h
  | shutdown rx tx => exact recvFlags_tcpShutdown h
  | abort =>
    obtain ⟨s₁, h₁, h⟩ := Run.bind_eq_ok.mp h
    cases h
    exact congrArg Prod.fst (recvState_tcpAbandon h₁)
  | nagle disable =>
    cases h
    rfl

theorem recvFlags_tcpEvent {P : Core → Api → Prop} {app : App W} (happ : AppOk P app) {e : Event}
    {err : Err} (h : tcpEvent app e s = .ok (err, s')) : s'.recvFlags = s.recvFlags := by
  obtain ⟨⟨ret, s₁⟩, h₁, h⟩ := Run.bind_eq_ok.mp h
  cases h
  refine (happ _ _ _ _ h₁).invariant (I := fun t => t.recvFlags = s.recvFlags) ?_ ?_ rfl
  · exact fun t w ht => ht
  · exact fun t a err t' ht _ hr => (recvFlags_apiCall hr).trans ht

/-- `TF_GOT_FIN` is clear when `tcp_receive` is called. -/
theorem Receives.recvGotFin {P : Core → Api → Prop} {app : App W} (happ : AppOk P app)
    {seg : InSegment} {t : St W} (h : Receives app s seg t) : t.recvGotFin = false := by
  obtain ⟨s₁, h₁, -, s₂, rfl, ht⟩ := h
  have e₁ : s₁.recvFlags = s.resetRecv.recvFlags := by
    unfold tcpInputRefused at h₁
    split at h₁
    · obtain ⟨⟨err, s₂⟩, h₂, h₁⟩ := Run.bind_eq_ok.mp h₁
      have e₂ : s₂.recvFlags = s.resetRecv.recvFlags := by
        unfold tcpProcessRefusedData at h₂
        split at h₂
        · cases h₂
        · obtain ⟨⟨err, s₃⟩, h₃, h₂⟩ := Run.bind_eq_ok.mp h₂
          have e₃ := recvFlags_tcpEvent happ h₃
          dsimp only at h₂
          split at h₂
          · split at h₂
            · obtain ⟨_, -, h₂⟩ := Run.bind_eq_ok.mp h₂
              obtain ⟨⟨err, s₄⟩, h₄, h₂⟩ := Run.bind_eq_ok.mp h₂
              cases h₂
              exact (recvFlags_tcpEvent happ h₄).trans e₃
            · cases h₂
              exact e₃
          · split at h₂
            · cases h₂
              exact e₃
            · obtain ⟨_, -, h₂⟩ := Run.bind_eq_ok.mp h₂
              cases h₂
              exact e₃
      dsimp only at h₁
      split at h₁
      · cases h₁
      · obtain ⟨_, -, h₁⟩ := Run.bind_eq_ok.mp h₁
        obtain ⟨-, rfl⟩ := Prod.mk.inj (Except.ok.inj h₁)
        exact e₂
    · cases h₁
      rfl
  have e₂ : (tcpProcessStart { s₁ with inputPcb := true } seg).recvFlags = s₁.recvFlags := by
    unfold tcpProcessStart tcpParseopt
    dsimp only
    split <;> rfl
  have hgot : s.resetRecv.recvFlags.1 = false := rfl
  rcases ht with ⟨-, -, -, rfl⟩ | ⟨-, -, -, ht⟩
  · exact (congrArg Prod.fst (e₂.trans e₁)).trans hgot
  · exact (congrArg Prod.fst ((recvFlags_tcpEvent happ ht).trans (e₂.trans e₁))).trans hgot

/-! ## The FIN of the peer -/

/-- `tcp_receive` takes the FIN of the segment: it is in order, and the window does not cut it off. -/
def Pcb.TakesFin (pcb : Pcb) (seg : InSegment) : Prop :=
  seg.flags.fin = true ∧ pcb.state.num < TcpState.CLOSE_WAIT.num ∧
    ∃ c, tcpReceiveFirstEdge pcb.rcvNxt seg = .ok c ∧ c.tcphdr.seqno = pcb.rcvNxt ∧
      inWindow pcb c.tcphdr.seqno ∧ u16 c.tcplen ≤ pcb.rcvWnd

theorem tcpReceiveFirstEdge_flags {r : U32} {seg : InSegment} {c : TcpSeg}
    (h : tcpReceiveFirstEdge r seg = .ok c) : c.tcphdr.flags = seg.flags := by
  unfold tcpReceiveFirstEdge at h
  split at h
  · obtain ⟨_, -, h⟩ := Run.bind_eq_ok.mp h
    obtain ⟨_, -, h⟩ := Run.bind_eq_ok.mp h
    cases h
    rfl
  · cases h
    rfl

theorem recvGotFin_tcpReceiveTake {message : String} {c : TcpSeg} {n : ℕ}
    (h : tcpReceiveTake s message c n = .ok s') :
    s'.recvGotFin = (s.recvGotFin || c.tcphdr.flags.fin) ∧ s'.pcb.state = s.pcb.state := by
  have hv := (tcpReceiveTake_ok h).2.2
  exact ⟨congrArg RcvView.recvGotFin hv, congrArg RcvView.state hv⟩

/-- The state changes with a FIN. -/
theorem fin_tcpReceiveDequeue {q : List TcpSeg} (h : tcpReceiveDequeue q s = .ok s') :
    (s.recvGotFin = true → s'.recvGotFin = true) ∧ (s'.pcb.state = s.pcb.state ∨
      (s.pcb.state = .ESTABLISHED ∧ s'.pcb.state = .CLOSE_WAIT ∧ s'.recvGotFin = true)) := by
  induction q generalizing s with
  | nil =>
    cases h
    exact ⟨id, .inl rfl⟩
  | cons c q ih =>
    rw [tcpReceiveDequeue] at h
    split at h
    · obtain ⟨s₁, h₁, h⟩ := Run.bind_eq_ok.mp h
      obtain ⟨hgot, hst⟩ := recvGotFin_tcpReceiveTake h₁
      obtain ⟨i1, i2⟩ := ih h
      dsimp only at i1 i2
      rw [hst] at i2
      refine ⟨fun hs => i1 (by rw [hgot, hs]; rfl), ?_⟩
      by_cases hf : c.tcphdr.flags.fin = true ∧ s.pcb.state = .ESTABLISHED
      · rw [if_pos hf] at i2
        right
        refine ⟨hf.2, ?_, i1 (by rw [hgot, hf.1, Bool.or_true])⟩
        rcases i2 with i2 | ⟨i2, -⟩
        · exact i2
        · cases i2
      · rw [if_neg hf] at i2
        exact i2
    · cases h
      exact ⟨id, .inl rfl⟩

theorem fin_tcpReceiveInseq {c : TcpSeg} (h : tcpReceiveInseq s c = .ok s') :
    (s'.pcb.state = s.pcb.state ∨
      (s.pcb.state = .ESTABLISHED ∧ s'.pcb.state = .CLOSE_WAIT ∧ s'.recvGotFin = true)) ∧
    (s.pcb.ooseq = [] → s.recvGotFin = false → s'.recvGotFin = true →
      c.tcphdr.flags.fin = true ∧ u16 c.tcplen ≤ s.pcb.rcvWnd) := by
  obtain ⟨c₁, h₁, h⟩ := Run.bind_eq_ok.mp h
  obtain ⟨⟨c₂, q⟩, h₂, h⟩ := Run.bind_eq_ok.mp h
  obtain ⟨s₃, h₃, h⟩ := Run.bind_eq_ok.mp h
  obtain ⟨s₄, h₄, h⟩ := Run.bind_eq_ok.mp h
  cases h
  obtain ⟨hgot, hst⟩ := recvGotFin_tcpReceiveTake h₃
  dsimp only at hgot hst
  have hd := (fin_tcpReceiveDequeue h₄).2
  rw [hst] at hd
  have ea := rcvView_tcpAck s₄
  have e1 : (tcpAck s₄).pcb.state = s₄.pcb.state := congrArg RcvView.state ea
  have e2 : (tcpAck s₄).recvGotFin = s₄.recvGotFin := congrArg RcvView.recvGotFin ea
  rw [e1, e2]
  refine ⟨hd, fun hq hs hgot' => ?_⟩
  rw [hq] at h₂
  have hc₂ : c₂ = c₁ ∧ q = [] := by
    unfold mergeOoseq at h₂
    split at h₂
    · cases h₂
      exact ⟨rfl, rfl⟩
    · cases h₂
      exact ⟨rfl, rfl⟩
  rw [hc₂.2] at h₄
  cases h₄
  rw [hgot, hs, Bool.false_or, hc₂.1] at hgot'
  unfold tcpReceiveTrimWnd at h₁
  split at h₁
  · obtain ⟨_, -, h₁⟩ := Run.bind_eq_ok.mp h₁
    cases h₁
    cases hgot'
  · cases h₁
    exact ⟨hgot', by omega⟩

theorem fin_tcpReceive {seg : InSegment} (h : tcpReceive s seg = .ok s') :
    (s'.pcb.state = s.pcb.state ∨
      (s.pcb.state = .ESTABLISHED ∧ s'.pcb.state = .CLOSE_WAIT ∧ s'.recvGotFin = true)) ∧
    (s.pcb.ooseq = [] → s.recvGotFin = false → s'.recvGotFin = true → s.pcb.TakesFin seg) := by
  obtain ⟨-, s₁, -, hv, h⟩ := tcpReceive_parts h
  have e1 : s₁.pcb.state = s.pcb.state := congrArg RcvView.state hv
  have e2 : s₁.pcb.rcvNxt = s.pcb.rcvNxt := congrArg RcvView.rcvNxt hv
  have e3 : s₁.pcb.rcvWnd = s.pcb.rcvWnd := congrArg RcvView.rcvWnd hv
  have e4 : s₁.pcb.ooseq = s.pcb.ooseq := congrArg RcvView.ooseq hv
  have e5 : s₁.recvGotFin = s.recvGotFin := congrArg RcvView.recvGotFin hv
  have hwin (a : U32) : inWindow s₁.pcb a ↔ inWindow s.pcb a := by
    unfold inWindow
    rw [e2, e3]
  rcases tcpReceiveData_cases h with e | ⟨-, hnum, c, s₂, hc, hv₂, hw, ⟨hseq, h⟩ | ⟨-, q', -, e⟩⟩
  · have f1 : s'.pcb.state = s₁.pcb.state := congrArg RcvView.state e
    have f2 : s'.recvGotFin = s₁.recvGotFin := congrArg RcvView.recvGotFin e
    refine ⟨.inl (f1.trans e1), fun _ hs hgot => ?_⟩
    rw [f2, e5, hs] at hgot
    cases hgot
  · have f1 : s₂.pcb.state = s₁.pcb.state := congrArg RcvView.state hv₂
    have f3 : s₂.pcb.rcvWnd = s₁.pcb.rcvWnd := congrArg RcvView.rcvWnd hv₂
    have f4 : s₂.pcb.ooseq = s₁.pcb.ooseq := congrArg RcvView.ooseq hv₂
    have f5 : s₂.recvGotFin = s₁.recvGotFin := congrArg RcvView.recvGotFin hv₂
    obtain ⟨g1, g2⟩ := fin_tcpReceiveInseq h
    rw [f1, e1] at g1
    refine ⟨g1, fun hq hs hgot => ?_⟩
    obtain ⟨k1, k2⟩ := g2 (f4.trans (e4.trans hq)) (f5.trans (e5.trans hs)) hgot
    rw [tcpReceiveFirstEdge_flags hc] at k1
    rw [f3, e3] at k2
    rw [e2] at hc hseq
    rw [e1] at hnum
    exact ⟨k1, hnum, c, hc, hseq, (hwin _).mp hw, k2⟩
  · have f1 : s'.pcb.state = s₁.pcb.state := congrArg RcvView.state e
    have f2 : s'.recvGotFin = s₁.recvGotFin := congrArg RcvView.recvGotFin e
    refine ⟨.inl (f1.trans e1), fun _ hs hgot => ?_⟩
    rw [f2, e5, hs] at hgot
    cases hgot

/-! ## The FINs on the queues -/

theorem Moves.fins {c c' : Core} (h : Moves c c') : c'.fins ≤ c.fins := by
  have hc := h.bodies.countP_le (·.tcphdr.flags.fin)
  rw [List.countP_map, List.countP_map] at hc
  exact hc

/-- The last segment of `unsent` is replaced, and segments without FIN are put behind it. -/
theorem fins_replace {c c' : Core} {init queue : List TcpSeg} {last last' : TcpSeg}
    (hu : c.unsent = init ++ [last]) (hu' : c'.unsent = init ++ last' :: queue)
    (hk : c'.unacked = c.unacked) (hq : ∀ seg ∈ queue, seg.tcphdr.flags.fin = false) :
    c'.fins + (if last.tcphdr.flags.fin then 1 else 0) =
      c.fins + if last'.tcphdr.flags.fin then 1 else 0 := by
  have hz : queue.countP (·.tcphdr.flags.fin) = 0 := by
    rw [List.countP_eq_zero]
    intro seg hs
    rw [hq seg hs]
    decide
  unfold Core.fins Core.segs
  rw [hu, hu', hk]
  simp only [List.countP_append, List.countP_cons, List.countP_nil, hz]
  omega

theorem segmented_fin {id : ConnectId} {copy : Bool} {m : ℕ} {seqno : U32} {data : List Byte}
    {q : List TcpSeg} (h : Segmented id copy m seqno data q) :
    ∀ seg ∈ q, seg.tcphdr.flags.fin = false := by
  induction q generalizing seqno data with
  | nil => simp
  | cons seg rest ih =>
    obtain ⟨-, -, hplain, -, -, -, -, -, data', -, hrest⟩ := h
    intro x hx
    rcases List.mem_cons.mp hx with rfl | hx
    · unfold TcpFlags.plain at hplain
      simp_all
    · exact ih hrest x hx

/-- `tcp_write` queues no FIN. -/
theorem fins_tcpWrite (hm : s.pcb.mss ≤ TCP_MSS) {arg : List Byte} {copy more : Bool} {err : Err}
    (h : tcpWrite s arg copy more = .ok (err, s')) : s'.core.fins = s.core.fins := by
  have hk : s'.core.unacked = s.core.unacked := (tcpWrite_queues h).sameConn.unacked
  rcases tcpWrite_spec hm h with ⟨-, -, -, -, e | ⟨init, last, bump, e, e', -⟩⟩ |
    ⟨-, -, -, -, ext, queue, hw⟩
  · have hu : s'.core.unsent = s.core.unsent := e
    unfold Core.fins Core.segs
    rw [hu, hk]
  · have := fins_replace e e' hk (by simp)
    exact Nat.add_right_cancel this
  · obtain ⟨rest, -, hseg⟩ := hw.data
    have hq := segmented_fin hseg
    rcases hw.unsent with ⟨e, -, e'⟩ | ⟨init, last, last', e, e', hx, -⟩
    · have hu : s.core.unsent = [] := e
      have hu' : s'.core.unsent = queue := e'
      unfold Core.fins Core.segs
      rw [hu, hu', hk, List.countP_append, List.nil_append, Nat.add_eq_right, List.countP_eq_zero]
      intro seg hs
      rw [hq seg hs]
      decide
    · have hf : last'.tcphdr.flags.fin = last.tcphdr.flags.fin := by
        rcases hx.hdr with e | e <;> rw [e]
        rfl
      have := fins_replace e e' hk hq
      rw [hf] at this
      exact Nat.add_right_cancel this

/-- `tcp_send_fin` queues one. -/
theorem fins_tcpSendFin {err : Err} (h : tcpSendFin s = .ok (err, s')) :
    s'.core.fins = s.core.fins + if err = .ok then 1 else 0 := by
  have hk : s'.core.unacked = s.core.unacked := (tcpSendFin_queues h).sameConn.unacked
  rcases tcpSendFin_spec h with ⟨hne, -, -, -, e⟩ |
    ⟨rfl, -, ⟨init, last, e, hp, e', -⟩ | ⟨e', -⟩⟩
  · have hu : s'.core.unsent = s.core.unsent := e
    unfold Core.fins Core.segs
    rw [hu, hk, if_neg hne]
    rfl
  · have := fins_replace e e' hk (by simp)
    have hf : last.tcphdr.flags.fin = false := by
      unfold TcpFlags.plain at hp
      simp_all
    rw [hf] at this
    exact this
  · have hu' : s'.core.unsent = s.pcb.unsent ++ [s.pcb.flagSeg { fin := true }] := e'
    show (s'.core.unsent ++ s'.core.unacked).countP _ = (s.core.unsent ++ s.core.unacked).countP _ + 1
    rw [hu', hk]
    simp only [List.countP_append, List.countP_singleton]
    exact Nat.add_right_comm _ _ _

/-! ## What is kept -/

/-- The state is reached from `s₀` by turns, and each of them leads to a sound state. -/
structure PhaseInv (S : St W → InSegment → Prop) (s₀ s : St W) : Prop where
  mss : s.pcb.mss ≤ TCP_MSS
  sound : s.core.FinSound
  path : ReflTransGen (SoundTurn S) s₀ s
  ooseq : s.pcb.state = .SYN_RCVD → s.pcb.ooseq = []

/-- Behind an accept callback that moved the pcb, `tcp_receive` does not take a FIN. -/
def AcceptOpen (t : St W) (seg : InSegment) : Prop :=
  t.trace.getLast? = some (.event .accept .ok) → t.pcb.state = .ESTABLISHED ∨ ¬ t.pcb.TakesFin seg

/-- The condition on a segment in front of `tcp_receive`. -/
structure Arrives (S : St W → InSegment → Prop) (t : St W) (seg : InSegment) : Prop where
  acceptOpen : AcceptOpen t seg
  recvGotFin : t.recvGotFin = false
  receives : S t seg

namespace PhaseInv

variable {S : St W → InSegment → Prop} {s₀ : St W}

theorem turn (h : PhaseInv S s₀ s) (ht : Turn S s s') (hm : s'.pcb.mss ≤ TCP_MSS)
    (hq : s'.pcb.state = .SYN_RCVD → s'.pcb.ooseq = []) : PhaseInv S s₀ s' :=
  have hs := ht.sound h.sound
  ⟨hm, hs, h.path.tail ⟨ht, hs⟩, hq⟩

/-- The state stays. -/
theorem stay (h : PhaseInv S s₀ s) (hm : s'.pcb.mss ≤ TCP_MSS) (hst : s'.pcb.state = s.pcb.state)
    (hfin : s'.pcb.tfFin = s.pcb.tfFin) (hf : s'.core.fins ≤ s.core.fins)
    (hq : s'.pcb.ooseq = s.pcb.ooseq ∨ s'.pcb.ooseq = []) : PhaseInv S s₀ s' := by
  refine h.turn (.stay hst hfin hf) hm fun he => ?_
  rcases hq with hq | hq
  · rw [hq]
    exact h.ooseq (hst ▸ he)
  · exact hq

theorem core (h : PhaseInv S s₀ s) (hc : s'.core = s.core) : PhaseInv S s₀ s' := by
  have hst : s'.pcb.state = s.pcb.state := congrArg Core.state hc
  have hfin : s'.pcb.tfFin = s.pcb.tfFin := congrArg (fun c => c.tfFin) hc
  have hmss : s'.pcb.mss = s.pcb.mss := congrArg (fun c => c.mss) hc
  exact h.stay (hmss ▸ h.mss) hst hfin (hc ▸ le_rfl) (.inl (congrArg Core.ooseq hc))

/-- Segments moved. -/
theorem moves (h : PhaseInv S s₀ s) (hm : Moves s.core s'.core) (hr : s'.rcvView = s.rcvView) :
    PhaseInv S s₀ s' := by
  have hmss : s'.pcb.mss = s.pcb.mss := hm.mss
  exact h.stay (hmss ▸ h.mss) hm.state hm.tfFin hm.fins (.inl (congrArg RcvView.ooseq hr))

theorem tcpWrite (h : PhaseInv S s₀ s) {arg : List Byte} {copy more : Bool} {err : Err}
    (hw : tcpWrite s arg copy more = .ok (err, s')) : PhaseInv S s₀ s' := by
  have hs := (tcpWrite_queues hw).sameConn
  have hmss : s'.pcb.mss = s.pcb.mss := hs.mss
  have hfin : s'.pcb.tfFin = s.pcb.tfFin := by
    rcases tcpWrite_spec h.mss hw with ⟨-, e, -⟩ | ⟨-, -, -, hc, -⟩
    · exact e
    · exact hc.tfFin
  exact h.stay (hmss ▸ h.mss) hs.state hfin (fins_tcpWrite h.mss hw).le
    (.inl (congrArg RcvView.ooseq (rcvView_tcpWrite hw)))

/-- A FIN is queued once. -/
theorem tcpSendFin (h : PhaseInv S s₀ s) {st : TcpState} {err : Err}
    (hst : closeState s.pcb.state = some st) (hw : tcpSendFin s = .ok (err, s')) :
    PhaseInv S s₀ (if err = .ok then { s' with pcb.state := st } else s') := by
  have hs := (tcpSendFin_queues hw).sameConn
  have hmss : s'.pcb.mss ≤ TCP_MSS := hs.mss.trans_le h.mss
  have hq : s'.pcb.ooseq = s.pcb.ooseq := congrArg RcvView.ooseq (rcvView_tcpSendFin hw)
  have hf := fins_tcpSendFin hw
  rcases tcpSendFin_spec hw with ⟨hne, e, -⟩ | ⟨rfl, e, -⟩
  · rw [if_neg hne] at hf ⊢
    exact h.stay hmss hs.state e hf.le (.inl hq)
  · rw [if_pos rfl] at hf ⊢
    refine h.turn (.sendFin (h.sound.tfFin_of_closeState hst) hst hw e hf) hmss fun he => ?_
    have he' : st = .SYN_RCVD := he
    rcases (closeState_some hst).2 with e | e <;> rw [e] at he' <;> cases he'

end PhaseInv

/-! ## Behind `tcp_receive` -/

theorem phase_toTimeWait (s : St W) :
    (toTimeWait s).pcb.state = .TIME_WAIT ∧ (toTimeWait s).pcb.tfFin = s.pcb.tfFin := by
  unfold toTimeWait tcpPcbPurge
  split <;> exact ⟨rfl, rfl⟩

/-- `tcp_process` takes the edges of the state in which the segment arrived. -/
theorem path_tcpProcessAfter {st : TcpState} (seg : InSegment)
    (hnum : TcpState.ESTABLISHED.num ≤ st.num)
    (hst : s.pcb.state = st ∨ (st = .ESTABLISHED ∧ s.pcb.state = .CLOSE_WAIT ∧ s.recvGotFin = true)) :
    ReflTransGen (SegEdge (s.recvGotFin = true) (seg.flags.ack = true ∧ seg.ackno = s.pcb.sndNxt)) st
      (tcpProcessAfter st seg s).pcb.state := by
  have hsame (he : s.pcb.state = st) : ReflTransGen (SegEdge (s.recvGotFin = true)
      (seg.flags.ack = true ∧ seg.ackno = s.pcb.sndNxt)) st s.pcb.state := he ▸ .refl
  cases st with
  | ESTABLISHED =>
    unfold tcpProcessAfter
    dsimp only
    split
    · next hg => exact .single (.fin hg)
    · next hg => exact hsame (hst.resolve_right fun h => hg h.2.2)
  | CLOSE_WAIT =>
    unfold tcpProcessAfter
    dsimp only
    split
    · exact .refl
    · exact hsame (hst.resolve_right (by simp))
  | FIN_WAIT_1 =>
    unfold tcpProcessAfter
    dsimp only
    split
    · next hg =>
      split
      · next ha =>
        rw [(phase_toTimeWait _).1]
        exact (ReflTransGen.single (.finAcked ha)).tail (.finWait2 hg)
      · exact .single (.finBoth hg)
    · split
      · next ha => exact .single (.finAcked ha)
      · exact hsame (hst.resolve_right (by simp))
  | FIN_WAIT_2 =>
    unfold tcpProcessAfter
    dsimp only
    split
    · next hg =>
      rw [(phase_toTimeWait _).1]
      exact .single (.finWait2 hg)
    · exact hsame (hst.resolve_right (by simp))
  | CLOSING =>
    unfold tcpProcessAfter
    dsimp only
    split
    · next ha =>
      rw [(phase_toTimeWait _).1]
      exact .single (.closing ha)
    · exact hsame (hst.resolve_right (by simp))
  | LAST_ACK =>
    unfold tcpProcessAfter
    dsimp only
    have h := hsame (hst.resolve_right (by simp))
    split
    · exact h
    · exact h
  | TIME_WAIT => exact hsame (hst.resolve_right (by simp))
  | _ => exact absurd hnum (by decide)

theorem Settles.fins {c c' : Core} (h : Settles c c') : c'.fins ≤ c.fins := by
  unfold Core.fins Core.segs
  rcases h.queues with ⟨e1, e2⟩ | ⟨e1, e2, -⟩
  · rw [e1, e2]
  · rw [e1, e2]
    exact Nat.zero_le _

namespace PhaseInv

variable {S : St W → InSegment → Prop} {s₀ : St W}

/-- What `tcp_receive` leaves alone. -/
theorem kept_tcpReceive {seg : InSegment} (h : tcpReceive s seg = .ok s') :
    s'.pcb.mss = s.pcb.mss ∧ s'.pcb.tfFin = s.pcb.tfFin ∧ s'.core.fins ≤ s.core.fins := by
  obtain ⟨c, hm, hv⟩ := moves_tcpReceive h
  have e1 : s'.pcb.mss = c.mss := congrArg SndView.mss hv
  have e2 : s'.pcb.tfFin = c.tfFin := congrArg SndView.tfFin hv
  have e3 : s'.core.fins = c.fins := by
    unfold Core.fins Core.segs
    rw [show s'.core.unsent = c.unsent from congrArg SndView.unsent hv,
      show s'.core.unacked = c.unacked from congrArg SndView.unacked hv]
  exact ⟨e1.trans hm.mss, e2.trans hm.tfFin, e3.trans_le hm.fins⟩

/-- `tcp_receive` and what follows it in `tcp_process`. -/
theorem process (h : PhaseInv S s₀ s) {seg : InSegment} {after : St W → St W} {s₁ : St W}
    (hafter : Settles s₁.core (after s₁).core) (ha : Arrives S s seg) (hne : s.pcb.state ≠ .SYN_RCVD)
    (h₁ : tcpReceive s seg = .ok s₁) (hr : tcpProcessReceive s seg after = .ok s')
    (hp : ReflTransGen (SegEdge (s₁.recvGotFin = true)
      (seg.flags.ack = true ∧ seg.ackno = s₁.pcb.sndNxt)) s.pcb.state (after s₁).pcb.state) :
    PhaseInv S s₀ s' := by
  obtain ⟨e1, e2, e3⟩ := kept_tcpReceive h₁
  have hr' := hr
  obtain ⟨_, h₁', hr'⟩ := Run.bind_eq_ok.mp hr'
  obtain rfl := Except.ok.inj (h₁.symm.trans h₁')
  cases hr'
  have hmss : (after s₁).pcb.mss = s₁.pcb.mss := hafter.mss
  have hfin : (after s₁).pcb.tfFin = s₁.pcb.tfFin := hafter.tfFin
  refine h.turn (.receive ha.receives ha.recvGotFin h₁ hr hp (hfin.trans e2)
    (hafter.fins.trans e3)) ?_ fun he => absurd he (SegEdge.ne_synRcvd hp hne)
  show (after s₁).pcb.mss ≤ TCP_MSS
  rw [hmss, e1]
  exact h.mss

theorem receive (h : PhaseInv S s₀ s) {seg : InSegment}
    (hnum : TcpState.ESTABLISHED.num ≤ s.pcb.state.num) (ha : Arrives S s seg)
    (hr : tcpProcessReceive s seg (tcpProcessAfter s.pcb.state seg) = .ok s') :
    PhaseInv S s₀ s' := by
  obtain ⟨s₁, h₁, -⟩ := Run.bind_eq_ok.mp hr
  refine h.process (settles_tcpProcessAfter _ seg s₁) ha (fun he => ?_) h₁ hr
    (path_tcpProcessAfter seg hnum (fin_tcpReceive h₁).1)
  rw [he] at hnum
  exact absurd hnum (by decide)

theorem receiveAccept (h : PhaseInv S s₀ s) {seg : InSegment} (hne : s.pcb.state ≠ .SYN_RCVD)
    (hlast : s.trace.getLast? = some (.event .accept .ok)) (hq : s.pcb.ooseq = [])
    (ha : Arrives S s seg) (hr : tcpProcessReceive s seg tcpProcessAcceptAfter = .ok s') :
    PhaseInv S s₀ s' := by
  obtain ⟨s₁, h₁, -⟩ := Run.bind_eq_ok.mp hr
  obtain ⟨hst, htakes⟩ := fin_tcpReceive h₁
  refine h.process (settles_tcpProcessAcceptAfter s₁) ha hne h₁ hr ?_
  by_cases hg : s₁.recvGotFin = true
  · have hest : s.pcb.state = .ESTABLISHED :=
      (ha.acceptOpen hlast).resolve_right fun hn => hn (htakes hq ha.recvGotFin hg)
    have he : (tcpProcessAcceptAfter s₁).pcb.state = .CLOSE_WAIT := by
      unfold tcpProcessAcceptAfter
      dsimp only
      rw [if_pos hg]
    rw [hest, he]
    exact .single (.fin hg)
  · have he : (tcpProcessAcceptAfter s₁).pcb.state = s₁.pcb.state := by
      unfold tcpProcessAcceptAfter
      dsimp only
      rw [if_neg hg]
    rw [he, hst.resolve_right fun hc => hg hc.2.2]

end PhaseInv

/-! ## Runs -/

section

variable {S : St W → InSegment → Prop} {s₀ : St W} {app : App W}

theorem preserved_phaseInv :
    Preserved NoConnect (fun _ _ => False) fun s : St W => PhaseInv S s₀ s where
  frame hI hc _ := hI.core hc
  callback ho hI := hI.stay hI.mss rfl rfl le_rfl (.inl rfl)
  connect hP := hP.elim
  write _ hw hI := by
    have h := hI.tcpWrite hw
    split
    · exact h.stay h.mss rfl rfl le_rfl (.inl rfl)
    · exact h
  recved _ _ hI := hI.stay hI.mss rfl rfl le_rfl (.inl rfl)
  fin _ _ hst hw hI := hI.tcpSendFin hst hw
  output hr hI := hI.moves (moves_tcpOutput hr) (rcvView_tcpOutput hr)
  rexmitRto hr hI := hI.moves (moves_tcpRexmitRto hr) (rcvView_tcpRexmitRto hr)
  probe {s} hI := by
    obtain ⟨log, hc, -⟩ := probe_core s
    have hmss : (tcpZeroWindowProbe s).2.pcb.mss = s.pcb.mss := congrArg (fun c => c.mss) hc
    exact hI.stay (hmss ▸ hI.mss) (congrArg Core.state hc) (congrArg (fun c => c.tfFin) hc)
      (congrArg Core.fins hc).le (.inl (congrArg Core.ooseq hc))
  rexmit {s} _ hI := hI.moves (moves_tcpRexmit s) (rcvView_tcpRexmit s)
  rcvWndFin {s} hI := by
    unfold rcvWndFin
    split
    · exact hI.stay hI.mss rfl rfl le_rfl (.inl rfl)
    · exact hI
  mss _ h1 hI := hI.stay h1 rfl rfl le_rfl (.inl rfl)
  establish hst hu _ hack hI := hI.turn (.synSent hst hu hack) hI.mss nofun
  accept hst hb hI := hI.turn (.synRcvd hst hb) hI.mss nofun
  receive _ hQ := hQ.elim
  receiveAccept _ _ _ _ _ hQ := hQ.elim
  purge {s} _ hI := by
    unfold tcpPcbPurge
    split
    · exact hI.stay hI.mss rfl rfl (Nat.zero_le _) (.inr rfl)
    · exact hI
  timeWait hr _ hst _ _ _ hI := hI.turn (.reset hr hst) hI.mss nofun
  closed hl hu ha ho hI := hI.turn (.delete hl hu ha ho) hI.mss nofun
  clear _ _ hI := hI.stay hI.mss rfl rfl (Nat.zero_le _) (.inr rfl)
  ooseq hI := hI.stay hI.mss rfl rfl le_rfl (.inr rfl)

theorem kept_phaseInv :
    Kept NoConnect (Arrives S) (fun _ _ => True) app fun s => PhaseInv S s₀ s :=
  have k : Kept NoConnect (fun _ _ => False) (fun _ _ => True) app fun s => PhaseInv S s₀ s :=
    preserved_phaseInv.toKept
  { k with
    receive := fun hnum _ ha hr hI => hI.receive hnum ha hr
    receiveAccept := by
      intro s s₁ s' seg happ hst hI _ he ha hr hI₁
      have hq : s.pcb.ooseq = [] := hI.ooseq hst
      -- the callback cannot lead back
      have h₀ : PhaseInv (fun _ _ => False) ({ s with pcb.state := .ESTABLISHED } : St W)
          { s with pcb.state := .ESTABLISHED } :=
        ⟨hI.mss, hI.sound.opened (hI.sound.tfFin_eq_false (.inr (.inl hst))) rfl le_rfl (.inl rfl),
          .refl, nofun⟩
      have h₁ := preserved_phaseInv.toKeptApi.tcpEvent happ he h₀
      have hq₁ := preserved_ooseq_nil.toKeptApi.tcpEvent (s := { s with pcb.state := .ESTABLISHED })
        happ he hq
      refine hI₁.receiveAccept (Turn.ne_synRcvd_of_path h₁.path nofun) ?_ hq₁ ha hr
      obtain ⟨⟨ret, s₂⟩, -, he⟩ := Run.bind_eq_ok.mp he
      obtain ⟨rfl, rfl⟩ := Prod.mk.inj (Except.ok.inj he)
      exact List.getLast?_concat .. }

end

/-- The state is sound where a connection begins. -/
theorem Begun.phaseInv (S : St W → InSegment → Prop) (h : Begun s) : PhaseInv S s s := by
  obtain ⟨t, err, ht, hr⟩ := h.opening
  have hm := moves_tcpOutput hr
  have hq : s.pcb.ooseq = t.pcb.ooseq := congrArg RcvView.ooseq (rcvView_tcpOutput hr)
  have hmss : s.pcb.mss = t.pcb.mss := hm.mss
  have hf : t.core.fins = 0 := by
    obtain ⟨seg, hu, -, -, -, -, -, hfl⟩ := ht.unsent
    have hu' : t.core.unsent = [seg] := hu
    have hk : t.core.unacked = [] := ht.unacked
    unfold Core.fins Core.segs
    rw [hu', hk]
    simp [hfl]
  refine ⟨hmss ▸ ht.mss.2, .congr ?_ hm.state hm.tfFin hm.fins, .refl, fun _ => by rw [hq, ht.ooseq]⟩
  refine ⟨fun hc => ?_, fun hc => ?_, by rw [hf]; exact Nat.zero_le _⟩
  · have := ht.tfFin.symm.trans hc
    cases this
  · exfalso
    have hc' : t.pcb.state = .FIN_WAIT_1 ∨ t.pcb.state = .FIN_WAIT_2 ∨ t.pcb.state = .CLOSING ∨
      t.pcb.state = .LAST_ACK := hc
    rcases ht.state with e | e <;> rw [e] at hc' <;> simp at hc'

/-! ## Calls -/

/-- The call closes the sending side. -/
def Api.Closes (a : Api) : Prop := a = .close ∨ ∃ rx, a = .shutdown rx true

/-- Where a call of the application leads. `tcp_abort` deletes the pcb in every state, a close in
    `SYN_SENT`, and a close of both sides resets a connection with data that has not been read. -/
inductive CallEdge (pcb : Pcb) : Api → TcpState → Prop
  | stay (a : Api) : CallEdge pcb a pcb.state
  | fin {a : Api} {st : TcpState} : a.Closes → closeState pcb.state = some st → CallEdge pcb a st
  | reset {a : Api} : a = .close ∨ a = .shutdown true true → pcb.state = .ESTABLISHED →
    pcb.unread → CallEdge pcb a .TIME_WAIT
  | delete {a : Api} : a.Closes → pcb.state = .SYN_SENT → CallEdge pcb a .CLOSED
  | abort : CallEdge pcb .abort .CLOSED

namespace CallEdge

theorem stays {a : Api} (h : s'.pcb.state = s.pcb.state) : CallEdge s.pcb a s'.pcb.state :=
  h ▸ .stay a

theorem congr {pcb pcb' : Pcb} {a : Api} {st : TcpState} (h : CallEdge pcb' a st)
    (hst : pcb'.state = pcb.state) (hu : pcb'.unread → pcb.unread) : CallEdge pcb a st := by
  cases h with
  | stay => exact hst ▸ .stay a
  | fin ha he => exact .fin ha (hst ▸ he)
  | reset ha he hr => exact .reset ha (hst ▸ he) (hu hr)
  | delete ha he => exact .delete ha (hst ▸ he)
  | abort => exact .abort

theorem of_rcvView {a : Api} (h : s'.rcvView = s.rcvView) : CallEdge s.pcb a s'.pcb.state :=
  stays (congrArg RcvView.state h)

theorem state_tcpPcbRemove (h : tcpPcbRemove s = .ok s') : s'.pcb.state = .CLOSED := by
  obtain ⟨_, -, h⟩ := Run.bind_eq_ok.mp h
  obtain ⟨_, -, h⟩ := Run.bind_eq_ok.mp h
  obtain ⟨_, -, h⟩ := Run.bind_eq_ok.mp h
  obtain ⟨_, -, h⟩ := Run.bind_eq_ok.mp h
  cases h
  rfl

theorem state_tcpAbandon {reset : Bool} (h : tcpAbandon s reset = .ok s') :
    s'.pcb.state = .CLOSED := by
  unfold tcpAbandon at h
  split at h
  · obtain ⟨s₁, h₁, h⟩ := Run.bind_eq_ok.mp h
    cases h
    have e₁ := state_tcpPcbRemove h₁
    exact e₁
  · obtain ⟨s₁, h₁, h⟩ := Run.bind_eq_ok.mp h
    cases h
    have e₁ : s₁.pcb.state = .CLOSED := by
      split at h₁
      · next hb =>
        cases h₁
        exact hb.1
      · obtain ⟨s₂, h₂, h₁⟩ := Run.bind_eq_ok.mp h₁
        cases h₁
        have e₂ := state_tcpPcbRemove h₂
        exact e₂
    dsimp only
    split
    · exact (congrArg RcvView.state (rcvView_tcpRst _ _ _ _)).trans e₁
    · exact e₁

theorem tcpCloseRst {a : Api} (ha : a = .close ∨ a = .shutdown true true)
    (hu : s.pcb.unread) (h : Rudp.tcpCloseRst s = .ok s') : CallEdge s.pcb a s'.pcb.state := by
  obtain ⟨_, -, h⟩ := Run.bind_eq_ok.mp h
  have hv : (tcpRst s s.pcb.sndNxt s.pcb.rcvNxt s.pcb.connId).pcb.state = s.pcb.state :=
    congrArg RcvView.state (rcvView_tcpRst _ _ _ _)
  generalize tcpRst s s.pcb.sndNxt s.pcb.rcvNxt s.pcb.connId = s₁ at h hv
  have hp : (tcpPcbPurge s₁.pcb).state = s₁.pcb.state := by
    unfold tcpPcbPurge
    split <;> rfl
  dsimp only at h
  rw [hp, hv] at h
  split at h
  · next he =>
    cases h
    exact .reset ha he hu
  · split at h <;> cases h <;> exact stays (hp.trans hv)

theorem tcpCloseFin {a : Api} {st : TcpState} {err : Err} (ha : a.Closes)
    (hst : closeState s.pcb.state = some st) (h : Rudp.tcpCloseFin s st = .ok (err, s')) :
    CallEdge s.pcb a s'.pcb.state := by
  obtain ⟨⟨err₁, s₁⟩, h₁, h⟩ := Run.bind_eq_ok.mp h
  dsimp only at h
  split at h
  · obtain ⟨⟨err₂, s₂⟩, h₂, h⟩ := Run.bind_eq_ok.mp h
    cases h
    have e₂ : s₂.pcb.state = st := congrArg RcvView.state (rcvView_tcpOutput h₂)
    exact e₂ ▸ .fin ha hst
  · cases h
    exact of_rcvView (rcvView_tcpSendFin h₁)

theorem tcpCloseShutdown {a : Api} {rst : Bool} {err : Err} (ha : a.Closes)
    (hrst : rst = true → a = .close ∨ a = .shutdown true true)
    (h : Rudp.tcpCloseShutdown s rst = .ok (err, s')) : CallEdge s.pcb a s'.pcb.state := by
  unfold Rudp.tcpCloseShutdown at h
  split at h
  · next hc =>
    obtain ⟨s₁, h₁, h⟩ := Run.bind_eq_ok.mp h
    cases h
    have he := tcpCloseRst (hrst hc.1) hc.2.2 h₁
    exact he
  · split at h
    · cases h
      exact stays rfl
    · next hs =>
      obtain ⟨s₁, h₁, h⟩ := Run.bind_eq_ok.mp h
      cases h
      obtain ⟨s₂, h₂, h₁⟩ := Run.bind_eq_ok.mp h₁
      cases h₁
      have e : s₂.pcb.state = .CLOSED := state_tcpPcbRemove h₂
      exact e ▸ .delete ha hs
    · next hs => exact tcpCloseFin ha (by rw [hs]; rfl) h
    · next hs => exact tcpCloseFin ha (by rw [hs]; rfl) h
    · next hs => exact tcpCloseFin ha (by rw [hs]; rfl) h
    · cases h
      exact stays rfl

theorem tcpShutdown {rx tx : Bool} {err : Err} (h : Rudp.tcpShutdown s rx tx = .ok (err, s')) :
    CallEdge s.pcb (.shutdown rx tx) s'.pcb.state := by
  unfold Rudp.tcpShutdown at h
  split at h
  · next hc =>
    obtain ⟨rfl, rfl⟩ := hc
    have he := tcpCloseShutdown (s := { s with pcb.tfRxClosed := true }) (.inr ⟨true, rfl⟩)
      (fun _ => .inr rfl) h
    exact he.congr rfl id
  · generalize hs₁ : (if rx = true then
      ({ s with pcb.tfRxClosed := true, pcb.refusedData := none } : St W) else s) = s₁ at h
    have e₁ : s₁.pcb.state = s.pcb.state ∧ (s₁.pcb.unread → s.pcb.unread) := by
      rw [← hs₁]
      split
      · exact ⟨rfl, .imp_left fun hc => absurd rfl hc⟩
      · exact ⟨rfl, id⟩
    have he : CallEdge s₁.pcb (.shutdown rx tx) s'.pcb.state := by
      dsimp only at h
      split at h
      · next htx =>
        split at h
        · refine tcpCloseShutdown (.inr ⟨rx, by rw [htx]⟩) (fun hr => ?_) h
          exact .inr (by rw [hr, htx])
        · cases h
          exact stays rfl
      · cases h
        exact stays rfl
    exact he.congr e₁.1 e₁.2

/-- A call moves the pcb along the diagram. -/
theorem apiCall {a : Api} {err : Err} (hP : NoConnect s.core a)
    (h : Rudp.apiCall s a = .ok (err, s')) : CallEdge s.pcb a s'.pcb.state := by
  obtain ⟨_, -, h⟩ := Run.bind_eq_ok.mp h
  cases a with
  | connect newPort iss => exact hP.elim
  | write arg copy more =>
    obtain ⟨⟨err₁, s₁⟩, h₁, h⟩ := Run.bind_eq_ok.mp h
    cases h
    have e₁ : s₁.pcb.state = s.pcb.state := congrArg RcvView.state (rcvView_tcpWrite h₁)
    refine stays ?_
    split <;> exact e₁
  | output => exact of_rcvView (rcvView_tcpOutput h)
  | recved len =>
    obtain ⟨s₁, h₁, h⟩ := Run.bind_eq_ok.mp h
    cases h
    obtain ⟨w, -, h₁⟩ := Run.bind_eq_ok.mp h₁
    obtain ⟨⟨n, pcb⟩, hp, h₁⟩ := Run.bind_eq_ok.mp h₁
    obtain ⟨aw, rfl⟩ := tcpUpdateRcvAnnWnd_ok hp
    dsimp only at h₁
    split at h₁
    · obtain ⟨⟨err₂, s₂⟩, h₂, rfl⟩ := Run.map_eq_ok.mp h₁
      have e₂ : s₂.pcb.state = s.pcb.state := congrArg RcvView.state (rcvView_tcpOutput h₂)
      exact stays e₂
    · cases h₁
      exact stays rfl
  | close =>
    have he := tcpCloseShutdown (s := { s with pcb.tfRxClosed := true }) (.inl rfl)
      (fun _ => .inl rfl) h
    exact he.congr rfl id
  | shutdown rx tx => exact tcpShutdown h
  | abort =>
    obtain ⟨s₁, h₁, h⟩ := Run.bind_eq_ok.mp h
    cases h
    exact state_tcpAbandon h₁ ▸ .abort
  | nagle disable =>
    cases h
    exact stays rfl

end CallEdge

/-! ## The state machine -/

/-- In the operation, `tcp_receive` is called in `t` for the segment. -/
def ReceivesIn (app : App W) (s : St W) (op : List Bool × Op) (t : St W) (seg : InSegment) : Prop :=
  op.2 = .input seg ∧ Receives app { s with fails := op.1 } seg t

/-- In the operation, `tcp_receive` takes the FIN of the peer. -/
def TakesPeerFin (app : App W) (s : St W) (op : List Bool × Op) : Prop :=
  ∃ t seg t', ReceivesIn app s op t seg ∧ t.recvGotFin = false ∧ tcpReceive t seg = .ok t' ∧
    t'.recvGotFin = true

/-- What the diagram asks of a state, and of the operations that follow it and meet `ok`. -/
structure StatesSound (ok : St W → List Bool × Op → Prop) (app : App W) (s : St W) : Prop where
  sound : s.core.FinSound
  /-- An operation takes turns, and sound states lie between them. -/
  path {op : List Bool × Op} {s' : St W} : ok s op → connStep app s op = .ok s' →
    ReflTransGen (SoundTurn (ReceivesIn app s op)) s s'
  /-- Behind a FIN none is queued. -/
  once {op : List Bool × Op} {s' : St W} : ok s op → connStep app s op = .ok s' →
    s.pcb.tfFin = true → s'.pcb.tfFin = true ∧ s'.core.fins ≤ s.core.fins
  /-- The states behind the peer's FIN are entered with it. -/
  taken {op : List Bool × Op} {s' : St W} : ok s op → connStep app s op = .ok s' →
    s'.pcb.state.BehindFin → s.pcb.state.BehindFin ∨ TakesPeerFin app s op
  call {a : Api} {err : Err} {s' : St W} : NoConnect s.core a → apiCall s a = .ok (err, s') →
    CallEdge s.pcb a s'.pcb.state

/-- In every run in which `tcp_receive` takes no FIN behind an accept callback that moved the pcb,
    the state machine is sound. -/
theorem states_sound {app : App W} {s₀ : St W} (happ : AppOk NoConnect app) (h₀ : Begun s₀)
    (hr : Run.Reach (connStep app) (Kept.StepOk NoConnect AcceptOpen (fun _ _ => True) app) s₀ s) :
    StatesSound (Kept.StepOk NoConnect AcceptOpen (fun _ _ => True) app) app s := by
  -- the flag is clear in front of `tcp_receive`
  have hop {S : St W → InSegment → Prop} {s : St W} {op : List Bool × Op}
      (hS : ∀ t seg, ReceivesIn app s op t seg → S t seg)
      (h : Kept.StepOk NoConnect AcceptOpen (fun _ _ => True) app s op) :
      Kept.StepOk NoConnect (Arrives S) (fun _ _ => True) app s op := by
    obtain ⟨fails, op⟩ := op
    cases op with
    | input seg => exact fun t ht => ⟨h t ht, ht.recvGotFin happ, hS t seg ⟨rfl, ht⟩⟩
    | _ => exact h
  have hI : PhaseInv (fun _ _ => True) s₀ s :=
    kept_phaseInv.reach happ (h₀.phaseInv _) (hr.mono fun _ _ h => hop (fun _ _ _ => trivial) h)
  have hstep {op : List Bool × Op} {s' : St W}
      (h : Kept.StepOk NoConnect AcceptOpen (fun _ _ => True) app s op)
      (he : connStep app s op = .ok s') : ReflTransGen (SoundTurn (ReceivesIn app s op)) s s' :=
    (kept_phaseInv.step happ (hop (fun _ _ => id) h) he ⟨hI.mss, hI.sound, .refl, hI.ooseq⟩).path
  constructor
  · exact hI.sound
  · exact hstep
  · exact fun h he => Turn.once_of_path (hstep h he)
  · exact fun h he => Turn.taken_of_path (hstep h he)
  · exact CallEdge.apiCall

/-! ### Two runs -/

/-- An application that closes the connection when it is accepted. -/
def closeApp : App Unit := fun e s =>
  match e with
  | .accept => apiCall s .close
  | _ => .ok (.ok, s)

theorem appOk_closeApp : AppOk NoConnect closeApp := by
  intro e s ret s' h
  cases e with
  | accept => exact .single (.inr ⟨.close, ret, trivial, h⟩)
  | _ =>
    cases h
    exact .refl

/-- A segment of the client that gave the connection the id 7. -/
def clientSeg (seqno ackno : U32) (flags : TcpFlags) : InSegment :=
  { tcphdr := { connid1 := 7, connid2 := 4000, seqno := seqno, ackno := ackno, hdrlen := 5
                flags := flags, wnd := TCP_WND }
    p := [], bound := noData_bound }

/-- The server has answered the SYN. -/
def listening : St Unit :=
  match tcpListenSynAck (tcpListenPcb client (clientSeg 0 0 { syn := true }) 80 4000) with
  | .ok (_, s) => s
  | .error _ => client

theorem begun_listening : Begun listening :=
  .listen (s := client) (clientSeg 0 0 { syn := true }) 80 4000 ⟨⟨_, _, _, 0, rfl⟩, rfl⟩ rfl rfl

/-- The ACK of the SYN, and whether the client has closed. -/
def clientAck (fin : Bool) : List Bool × Op :=
  ([], .input (clientSeg 1 1 { ack := true, fin := fin }))

/-- Its FIN, with the acknowledgment of the server's. -/
def clientFin : List Bool × Op := ([], .input (clientSeg 1 2 { ack := true, fin := true }))

/-- The client closes later. -/
theorem states_sound_close : ∃ s : St Unit, Run.exec (connStep closeApp) listening
      [clientAck false, clientFin] = .ok s ∧ s.pcb.state = .TIME_WAIT ∧ s.pcb.tfFin = true ∧
    StatesSound (Kept.StepOk NoConnect AcceptOpen (fun _ _ => True) closeApp) closeApp s := by
  refine ⟨_, rfl, rfl, rfl, states_sound appOk_closeApp begun_listening
    (.step clientFin (.step (clientAck false) .refl (fun t ht hlast => .inr fun htakes => ?_) rfl)
      (fun t ht hlast => ?_) rfl)⟩
  · cases htakes.1
  · obtain ⟨s₁, h₁, -, s₂, rfl, ⟨-, -, -, rfl⟩ | ⟨hst, -⟩⟩ := ht
    · cases h₁
      cases hlast
    · cases h₁
      cases hst

/-- The segment that ends the handshake has the FIN of the client, and its callback closes. The
    next close queues another FIN. -/
theorem states_sound_fails : ∃ s s' : St Unit, Begun listening ∧ AppOk NoConnect closeApp ∧
    Run.exec (connStep closeApp) listening [clientAck true] = .ok s ∧
    s.pcb.state = .CLOSE_WAIT ∧ s.pcb.tfFin = true ∧ (∀ ok, ¬ StatesSound ok closeApp s) ∧
    connStep closeApp s ([], .api .close) = .ok s' ∧
    s'.pcb.unacked.map (·.tcphdr.flags.fin) = [true, true] :=
  ⟨_, _, begun_listening, appOk_closeApp, rfl, rfl, rfl,
    fun _ h => (h.sound.closing rfl).2.2.2 rfl, rfl, rfl⟩

end Rudp

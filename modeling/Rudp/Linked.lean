import Rudp.Host
import Rudp.Reader
import Rudp.States

/-!
# The axioms of the lists

`tcp_impl.h` says which pcbs are on which list. A pcb is moved in nine places and freed in eleven, some
of them inside callbacks, and each has to leave it where its state belongs. `St.Listed` is what a pcb
must say of itself for that.

Results:
* `listed_tcpInput` and its companions: every operation keeps `St.Listed`.
-/

namespace Rudp

variable {W : Type} {s s' : St W} {app : App W}

/-! ## Lists and states -/

/-- A state in which data is accepted or sent. -/
def TcpState.Active (state : TcpState) : Prop :=
  state ≠ .CLOSED ∧ state ≠ .LISTEN ∧ state ≠ .TIME_WAIT

instance (state : TcpState) : Decidable state.Active := inferInstanceAs (Decidable (_ ∧ _))

/-- The state belongs to the list (tcp_impl.h:346-371). -/
def PcbList.Holds (list : PcbList) (state : TcpState) : Prop :=
  match list with
  | .none => True
  | .bound => state = .CLOSED
  | .active => state.Active
  | .tw => state = .TIME_WAIT

/-- The axioms (tcp_impl.h:366-371), for one pcb: a freed pcb is on no list, one on a list is in a
    state that belongs to it, and one in use that is on no list is closed, but where `tcp_input` has
    been told to free it. -/
structure St.Listed (s : St W) : Prop where
  unlinked : s.freed = true → s.list = .none
  state : s.list.Holds s.pcb.state
  closed : s.list = .none → s.freed = false → s.pcb.state = .CLOSED ∨ s.recvClosed = true

theorem Removed.listed (h : Removed s s') : s'.Listed where
  unlinked _ := h.list
  state := by
    rw [h.list]
    trivial
  closed _ hf := by
    rw [h.freed] at hf
    cases hf

theorem live_of_ok {u : Unit} (h : s.live = .ok u) : s.freed = false := by
  unfold St.live at h
  split at h
  · cases h
  · next hf => simpa using hf

theorem live_of_rcvView (hv : s'.rcvView = s.rcvView) (hlive : s.freed = false) :
    s'.freed = false :=
  (congrArg (fun v => v.freed) hv).trans hlive

namespace St.Listed

/-- The pcb has stayed where it was, and its state with it, or it has moved from one active state to
    another. -/
theorem of_eq (h : s.Listed) (hl : s'.list = s.list) (hf : s'.freed = s.freed)
    (hr : s.recvClosed = true → s'.recvClosed = true)
    (hst : s'.pcb.state = s.pcb.state ∨ s.pcb.state.Active ∧ s'.pcb.state.Active) : s'.Listed := by
  have hs := h.state
  refine ⟨fun hf' => ?_, ?_, fun hl' hf' => ?_⟩
  · rw [hl]
    exact h.unlinked (hf.symm.trans hf')
  · rw [hl]
    rcases hst with e | ⟨ha, ha'⟩
    · rw [e]
      exact hs
    · cases hlist : s.list with
      | none => trivial
      | bound =>
        rw [hlist] at hs
        exact absurd hs ha.1
      | active => exact ha'
      | tw =>
        rw [hlist] at hs
        exact absurd hs ha.2.2
  · rcases h.closed (hl.symm.trans hl') (hf.symm.trans hf') with hc | hc
    · rcases hst with e | ⟨ha, -⟩
      · exact .inl (e.trans hc)
      · exact absurd hc ha.1
    · exact .inr (hr hc)

theorem congr (h : s.Listed) (hl : s'.list = s.list) (hf : s'.freed = s.freed)
    (hr : s'.recvClosed = s.recvClosed) (hst : s'.pcb.state = s.pcb.state) : s'.Listed :=
  h.of_eq hl hf hr.trans (.inl hst)

/-- The pcb enters another active state. -/
theorem enter (h : s.Listed) (state : TcpState) (ha : s.pcb.state.Active) (ha' : state.Active)
    (hst : s'.pcb.state = state) (hl : s'.list = s.list) (hf : s'.freed = s.freed)
    (hr : s'.recvClosed = s.recvClosed) : s'.Listed :=
  h.of_eq hl hf hr.trans (.inr ⟨ha, hst ▸ ha'⟩)

theorem view (h : s.Listed) (hv : s'.rcvView = s.rcvView) : s'.Listed :=
  h.congr (congrArg (fun v => v.list) hv) (congrArg (fun v => v.freed) hv)
    (congrArg (fun v => v.recvClosed) hv) (congrArg RcvView.state hv)

/-- The pcb is in use, and now on this list. -/
theorem move (hf : s.freed = false) (hl : s.list ≠ .none) (hs : s.list.Holds s.pcb.state) :
    s.Listed where
  unlinked hf' := by
    rw [hf] at hf'
    cases hf'
  state := hs
  closed hl' := absurd hl' hl

end St.Listed

/-! ### The API -/

theorem listed_tcpCloseRst (hlive : s.freed = false) (h : tcpCloseRst s = .ok s') : s'.Listed := by
  obtain ⟨_, -, h⟩ := Run.bind_eq_ok.mp h
  have hf : (tcpRst s s.pcb.sndNxt s.pcb.rcvNxt s.pcb.connId).freed = false :=
    live_of_rcvView (rcvView_tcpRst s _ _ _) hlive
  dsimp only at h
  split at h
  · cases h
    exact .move hf nofun rfl
  · split at h
    · cases h
      exact ⟨fun _ => rfl, trivial, fun _ _ => .inr rfl⟩
    · cases h
      exact ⟨fun _ => rfl, trivial, nofun⟩

theorem listed_tcpCloseFin {state : TcpState} {err : Err} (hs : s.Listed)
    (ha : s.pcb.state.Active) (ha' : state.Active) (h : tcpCloseFin s state = .ok (err, s')) :
    s'.Listed := by
  obtain ⟨⟨e, s₁⟩, h₁, h⟩ := Run.bind_eq_ok.mp h
  have hv := rcvView_tcpSendFin h₁
  have hs₁ := hs.view hv
  dsimp only at h
  split at h
  · obtain ⟨⟨e', s₂⟩, h₂, h⟩ := Run.bind_eq_ok.mp h
    cases h
    have ha₁ : s₁.pcb.state.Active := by
      rw [show s₁.pcb.state = s.pcb.state from congrArg RcvView.state hv]
      exact ha
    have hst : ({ s₁ with pcb.state := state } : St W).Listed :=
      hs₁.enter state ha₁ ha' rfl rfl rfl rfl
    exact hst.view (rcvView_tcpOutput h₂)
  · cases h
    exact hs₁

theorem listed_tcpCloseShutdown {rst : Bool} {err : Err} (hs : s.Listed) (hlive : s.freed = false)
    (h : tcpCloseShutdown s rst = .ok (err, s')) : s'.Listed := by
  unfold tcpCloseShutdown at h
  split at h
  · obtain ⟨s₁, h₁, h⟩ := Run.bind_eq_ok.mp h
    cases h
    exact listed_tcpCloseRst hlive h₁
  · split at h
    · cases h
      exact ⟨fun _ => rfl, trivial, nofun⟩
    · obtain ⟨s₁, h₁, h⟩ := Run.bind_eq_ok.mp h
      cases h
      obtain ⟨s₂, h₂, h₁⟩ := Run.bind_eq_ok.mp h₁
      cases h₁
      have hl : s₂.list = .none := (events_tcpPcbRemove h₂).1
      refine ⟨fun _ => hl, ?_, nofun⟩
      show s₂.list.Holds _
      rw [hl]
      trivial
    · next hst => exact listed_tcpCloseFin hs (by rw [hst]; decide) (by decide) h
    · next hst => exact listed_tcpCloseFin hs (by rw [hst]; decide) (by decide) h
    · next hst => exact listed_tcpCloseFin hs (by rw [hst]; decide) (by decide) h
    · cases h
      exact hs

theorem listed_tcpShutdown {rx tx : Bool} {err : Err} (hs : s.Listed) (hlive : s.freed = false)
    (h : tcpShutdown s rx tx = .ok (err, s')) : s'.Listed := by
  have hclosed : ({ s with pcb.tfRxClosed := true } : St W).Listed := hs.congr rfl rfl rfl rfl
  unfold tcpShutdown at h
  split at h
  · exact listed_tcpCloseShutdown hclosed (by exact hlive) h
  · generalize hs₁ : (if rx = true then
      ({ s with pcb.tfRxClosed := true, pcb.refusedData := none } : St W) else s) = s₁ at h
    have hl₁ : s₁.Listed ∧ s₁.freed = false := by
      rw [← hs₁]
      split
      · exact ⟨hs.congr rfl rfl rfl rfl, hlive⟩
      · exact ⟨hs, hlive⟩
    dsimp only at h
    split at h
    · split at h
      · exact listed_tcpCloseShutdown hl₁.1 hl₁.2 h
      · cases h
        exact hl₁.1
    · cases h
      exact hl₁.1

theorem listed_tcpConnect {newPort : ℕ} {iss : U32} {err : Err} (hs : s.Listed)
    (hlive : s.freed = false) (h : tcpConnect s newPort iss = .ok (err, s')) : s'.Listed := by
  rcases rcvView_tcpConnect h with hv | ⟨port, hv | hv⟩
  · exact hs.view hv
  · exact (hs.congr rfl rfl rfl rfl : St.Listed { s with pcb := s.pcb.connecting port iss }).view hv
  · exact (.move hlive nofun (show TcpState.Active .SYN_SENT by decide) : St.Listed { s with
      pcb := { s.pcb.connecting port iss with state := .SYN_SENT }
      list := .active, changed := true }).view hv

theorem listed_apiCall {a : Api} {err : Err} (hs : s.Listed) (h : apiCall s a = .ok (err, s')) :
    s'.Listed := by
  obtain ⟨_, hlive, h⟩ := Run.bind_eq_ok.mp h
  have hlive := live_of_ok hlive
  cases a with
  | connect newPort iss => exact listed_tcpConnect hs hlive h
  | write arg copy more =>
    obtain ⟨⟨e, s₁⟩, h₁, h⟩ := Run.bind_eq_ok.mp h
    cases h
    have hs₁ := hs.view (rcvView_tcpWrite h₁)
    split
    · exact hs₁.congr rfl rfl rfl rfl
    · exact hs₁
  | output => exact hs.view (rcvView_tcpOutput h)
  | recved len =>
    obtain ⟨s₁, h₁, h⟩ := Run.bind_eq_ok.mp h
    cases h
    obtain ⟨w, -, hv⟩ := rcvView_tcpRecved h₁
    exact hs.congr (congrArg (fun v => v.list) hv) (congrArg (fun v => v.freed) hv)
      (congrArg (fun v => v.recvClosed) hv) (congrArg RcvView.state hv)
  | close =>
    exact listed_tcpCloseShutdown (s := { s with pcb.tfRxClosed := true })
      (hs.congr rfl rfl rfl rfl) hlive h
  | shutdown rx tx => exact listed_tcpShutdown hs hlive h
  | abort =>
    obtain ⟨s₁, h₁, h⟩ := Run.bind_eq_ok.mp h
    cases h
    exact (removed_tcpAbandon h₁).listed
  | nagle disable =>
    cases h
    exact hs.congr rfl rfl rfl rfl

/-! ### Callbacks -/

theorem listed_tcpEvent {P : Core → Api → Prop} (happ : AppOk P app) {e : Event} {ret : Err}
    (hs : s.Listed) (h : tcpEvent app e s = .ok (ret, s')) : s'.Listed := by
  obtain ⟨⟨ret', s₁⟩, h₁, h⟩ := Run.bind_eq_ok.mp h
  cases h
  have hs₁ : s₁.Listed := (happ e s _ s₁ h₁).invariant (I := fun t : St W => t.Listed)
    (fun _ _ ht => ht.congr rfl rfl rfl rfl) (fun _ _ _ _ ht _ hc => listed_apiCall ht hc) hs
  exact hs₁.congr rfl rfl rfl rfl

variable {P : Core → Api → Prop}

theorem listed_tcpEventClosed (happ : AppOk P app) {ret : Err} (hs : s.Listed)
    (h : tcpEventClosed app s = .ok (ret, s')) : s'.Listed := by
  refine listed_tcpEvent happ (s := { s with pcb := rcvWndFin s.pcb })
    (hs.congr rfl rfl rfl ?_) h
  show (rcvWndFin s.pcb).state = _
  unfold rcvWndFin
  split <;> rfl

theorem listed_tcpProcessRefusedData (happ : AppOk P app) {err : Err} (hs : s.Listed)
    (h : tcpProcessRefusedData app s = .ok (err, s')) :
    s'.Listed ∧ s'.recvFlags = s.recvFlags := by
  unfold tcpProcessRefusedData at h
  split at h
  · cases h
  · obtain ⟨⟨ret, s₁⟩, h₁, h⟩ := Run.bind_eq_ok.mp h
    have hs₁ : s₁.Listed := listed_tcpEvent happ (s := { s with pcb.refusedData := none })
      (hs.congr rfl rfl rfl rfl) h₁
    have hf₁ : s₁.recvFlags = s.recvFlags :=
      recvFlags_tcpEvent happ (s := { s with pcb.refusedData := none }) h₁
    dsimp only at h
    split at h
    · split at h
      · obtain ⟨_, -, h⟩ := Run.bind_eq_ok.mp h
        obtain ⟨⟨ret', s₂⟩, h₂, h⟩ := Run.bind_eq_ok.mp h
        cases h
        exact ⟨listed_tcpEventClosed happ hs₁ h₂,
          (recvFlags_tcpEvent happ (s := { s₁ with pcb := rcvWndFin s₁.pcb }) h₂).trans hf₁⟩
      · cases h
        exact ⟨hs₁, hf₁⟩
    · split at h
      · cases h
        exact ⟨hs₁, hf₁⟩
      · obtain ⟨_, -, h⟩ := Run.bind_eq_ok.mp h
        cases h
        exact ⟨hs₁.congr rfl rfl rfl rfl, hf₁⟩

/-! ### The timers -/

theorem listed_tcpFasttmr (happ : AppOk P app) (hs : s.Listed) (h : tcpFasttmr app s = .ok s') :
    s'.Listed := by
  obtain ⟨s₁, h₁, h⟩ := Run.bind_eq_ok.mp h
  have hs₁ := hs.view (rcvView_tcpFasttmrAck h₁)
  split at h
  · obtain ⟨⟨err, s₂⟩, h₂, rfl⟩ := Run.map_eq_ok.mp h
    exact (listed_tcpProcessRefusedData happ (s := { s₁ with changed := false })
      (hs₁.congr rfl rfl rfl rfl) h₂).1
  · cases h
    exact hs₁

theorem listed_tcpSlowtmr (happ : AppOk P app) (hs : s.Listed) (h : tcpSlowtmr app s = .ok s') :
    s'.Listed := by
  obtain ⟨t, ht, h⟩ := tcpSlowtmr_parts h
  have hs₁ : t.Listed := by
    rcases ht with ht | ht
    · exact hs.view ht
    · exact (hs.congr rfl rfl rfl rfl : ({ s with pcb.ooseq := [] } : St W).Listed).view ht
  rcases h with ⟨reset, rfl⟩ | hs' | ⟨err, u, hu, hs'⟩
  · exact (removed_tcpSlowtmrRemove t reset).listed
  · exact hs₁.view hs'
  · exact (listed_tcpEvent happ (s := { t with pcb.polltmr := 0, changed := false })
      (hs₁.congr rfl rfl rfl rfl) hu).view hs'

theorem listed_tcpSlowtmrTw (hs : s.Listed) : (tcpSlowtmrTw s).Listed := by
  unfold tcpSlowtmrTw
  split
  · exact ⟨fun _ => rfl, trivial, nofun⟩
  · exact hs

/-! ### Segments -/

theorem St.Listed.receive (hs : s.Listed) {seg : InSegment} (h : tcpReceive s seg = .ok s') :
    s'.Listed := by
  have hv := ctlView_tcpReceive h
  refine hs.of_eq (congrArg CtlView.list hv) (congrArg CtlView.freed hv)
    (congrArg CtlView.recvClosed hv).trans ?_
  rcases state_tcpReceive h with e | ⟨e, e'⟩
  · exact .inl e
  · rw [e, e']
    exact .inr (by decide)

/-- A FIN is not taken in `TIME_WAIT`. -/
theorem active_of_gotFin {seg : InSegment} (h : tcpReceive s seg = .ok s')
    (hs : s.recvGotFin = false) (hgot : s'.recvGotFin = true) : s'.pcb.state.Active := by
  obtain ⟨hnum, s₁, -, hv, h₂⟩ := tcpReceive_parts h
  have hst : s₁.pcb.state = s.pcb.state := congrArg RcvView.state hv
  have hlt : s.pcb.state.num < TcpState.CLOSE_WAIT.num := by
    rcases tcpReceiveData_cases h₂ with e | ⟨-, hlt, -⟩
    · rw [show s'.recvGotFin = s.recvGotFin from congrArg RcvView.recvGotFin (e.trans hv), hs] at hgot
      cases hgot
    · exact hst ▸ hlt
  rcases state_tcpReceive h with e | ⟨-, e⟩
  · rw [e]
    revert hnum hlt
    cases s.pcb.state <;> decide
  · rw [e]
    decide

theorem listed_tcpProcessAfter {state : TcpState} {seg : InSegment} (hs : s.Listed)
    (hlive : s.freed = false) (ha : s.pcb.state.Active) : (tcpProcessAfter state seg s).Listed := by
  have hto (st : TcpState) (hst : st.Active) : ({ tcpAckNow s with pcb.state := st } : St W).Listed :=
    hs.enter st ha hst rfl rfl rfl rfl
  have htw : (toTimeWait (tcpAckNow s)).Listed := .move hlive nofun rfl
  unfold tcpProcessAfter
  dsimp only
  split
  · split_ifs
    exacts [hto _ (by decide), hs]
  · split_ifs
    exacts [hto _ (by decide), hs]
  · split_ifs
    · exact htw
    · exact hto _ (by decide)
    · exact hs.enter .FIN_WAIT_2 ha (by decide) rfl rfl rfl rfl
    · exact hs
  · split_ifs
    exacts [htw, hs]
  · split_ifs
    · exact .move hlive nofun rfl
    · exact hs
  · split_ifs
    · exact hs.of_eq rfl rfl (fun _ => rfl) (.inl rfl)
    · exact hs
  · exact hs

theorem listed_tcpProcessReceive {seg : InSegment} {after : St W → St W}
    (hafter : ∀ t, tcpReceive s seg = .ok t → (after t).Listed)
    (h : tcpProcessReceive s seg after = .ok s') : s'.Listed := by
  obtain ⟨s₁, h₁, h⟩ := Run.bind_eq_ok.mp h
  cases h
  exact (hafter s₁ h₁).congr rfl rfl rfl rfl

theorem listed_tcpProcessSynSent (happ : AppOk P app) {seg : InSegment} {err : Err}
    (hs : s.Listed) (hst : s.pcb.state = .SYN_SENT)
    (h : tcpProcessSynSent app s seg = .ok (err, s')) : s'.Listed := by
  unfold tcpProcessSynSent at h
  split at h
  · cases h
  · next rseg rest _ =>
    split at h
    · obtain ⟨_, -, h⟩ := Run.bind_eq_ok.mp h
      obtain ⟨⟨ret, s₁⟩, h₁, h⟩ := Run.bind_eq_ok.mp h
      have ha : s.pcb.state.Active := by
        rw [hst]
        decide
      have hs₁ : s₁.Listed := listed_tcpEvent happ (s := { s with pcb := establish s.pcb seg rest })
        (hs.enter .ESTABLISHED ha (by decide) rfl rfl rfl rfl) h₁
      dsimp only at h
      split at h
      · cases h
        exact hs₁
      · obtain ⟨_, -, h⟩ := Run.bind_eq_ok.mp h
        cases h
        exact hs₁.congr rfl rfl rfl rfl
    · split at h
      · cases h
        exact hs.view (rcvView_tcpRstReply s seg)
      · cases h
        exact hs

theorem listed_tcpProcessSynRcvd (happ : AppOk P app) {seg : InSegment} {err : Err}
    (hs : s.Listed) (hst : s.pcb.state = .SYN_RCVD) (hgot : s.recvGotFin = false)
    (h : tcpProcessSynRcvd app s seg = .ok (err, s')) : s'.Listed := by
  unfold tcpProcessSynRcvd at h
  split at h
  · split at h
    · obtain ⟨⟨ret, s₁⟩, h₁, h⟩ := Run.bind_eq_ok.mp h
      have ha : s.pcb.state.Active := by
        rw [hst]
        decide
      have hs₁ : s₁.Listed := listed_tcpEvent happ (s := { s with pcb.state := .ESTABLISHED })
        (hs.enter .ESTABLISHED ha (by decide) rfl rfl rfl rfl) h₁
      have hgot₁ : s₁.recvGotFin = false :=
        (congrArg Prod.fst (recvFlags_tcpEvent happ (s := { s with pcb.state := .ESTABLISHED }) h₁)).trans
          hgot
      dsimp only at h
      split at h
      · split at h
        · obtain ⟨_, -, h⟩ := Run.bind_eq_ok.mp h
          obtain ⟨s₂, h₂, h⟩ := Run.bind_eq_ok.mp h
          cases h
          exact (removed_tcpAbandon h₂).listed
        · cases h
          exact hs₁
      · obtain ⟨_, -, h⟩ := Run.bind_eq_ok.mp h
        obtain ⟨s₂, h₂, h⟩ := Run.bind_eq_ok.mp h
        cases h
        refine listed_tcpProcessReceive (fun t ht => ?_) h₂
        have hs₂ := hs₁.receive ht
        unfold tcpProcessAcceptAfter
        dsimp only
        split
        · next hg =>
          exact hs₂.enter .CLOSE_WAIT (active_of_gotFin ht hgot₁ hg) (by decide) rfl rfl rfl rfl
        · exact hs₂.congr rfl rfl rfl rfl
    · cases h
      exact hs.view (rcvView_tcpRstReply s seg)
  · split at h
    · cases h
      exact hs.view (rcvView_tcpRexmit s)
    · cases h
      exact hs

theorem listed_tcpProcess (happ : AppOk P app) {seg : InSegment} {err : Err} (hs : s.Listed)
    (hlive : s.freed = false) (hgot : s.recvGotFin = false)
    (h : tcpProcess app s seg = .ok (err, s')) : s'.Listed := by
  unfold tcpProcess at h
  split at h
  · have e : s' = (tcpProcessRst s seg).2 := congrArg Prod.snd (Except.ok.inj h).symm
    rw [e]
    rcases tcpProcessRst_cases s seg with e | e
    · rw [e]
      exact hs.congr rfl rfl rfl rfl
    · rw [e]
      exact hs
  · split at h
    · cases h
      exact hs.congr rfl rfl rfl rfl
    · have hv := rcvView_tcpProcessStart s seg
      have hs₁ := hs.view hv
      have hlive₁ : (tcpProcessStart s seg).freed = false := live_of_rcvView hv hlive
      have hgot₁ : (tcpProcessStart s seg).recvGotFin = false :=
        (congrArg RcvView.recvGotFin hv).trans hgot
      generalize tcpProcessStart s seg = s₁ at h hs₁ hlive₁ hgot₁
      have hafter (ha : s₁.pcb.state.Active) (t : St W) (ht : tcpReceive s₁ seg = .ok t) :
          (tcpProcessAfter s₁.pcb.state seg t).Listed := by
        have hl : t.freed = false := (congrArg CtlView.freed (ctlView_tcpReceive ht)).trans hlive₁
        refine listed_tcpProcessAfter (hs₁.receive ht) hl ?_
        rcases state_tcpReceive ht with e | ⟨-, e⟩
        · rw [e]
          exact ha
        · rw [e]
          decide
      unfold tcpProcessState at h
      split at h
      · next hst => exact listed_tcpProcessSynSent happ hs₁ hst h
      · next hst => exact listed_tcpProcessSynRcvd happ hs₁ hst hgot₁ h
      all_goals first
        | (cases h
           exact hs₁)
        | (next hst =>
           obtain ⟨s₂, h₂, h⟩ := Run.bind_eq_ok.mp h
           cases h
           exact listed_tcpProcessReceive (hafter (by rw [hst]; decide)) h₂)

theorem listed_tcpInputRecv (happ : AppOk P app) {gone : Bool} (hs : s.Listed)
    (h : tcpInputRecv app s = .ok (gone, s')) : s'.Listed := by
  unfold tcpInputRecv at h
  split at h
  · cases h
    exact hs
  · obtain ⟨_, -, h⟩ := Run.bind_eq_ok.mp h
    split at h
    · obtain ⟨s₁, h₁, h⟩ := Run.bind_eq_ok.mp h
      cases h
      exact (removed_tcpAbandon h₁).listed
    · obtain ⟨⟨ret, s₁⟩, h₁, h⟩ := Run.bind_eq_ok.mp h
      have hs₁ := listed_tcpEvent happ hs h₁
      dsimp only at h
      split at h
      · cases h
        exact hs₁
      · obtain ⟨_, -, h⟩ := Run.bind_eq_ok.mp h
        split at h
        · cases h
          exact hs₁.congr rfl rfl rfl rfl
        · cases h
          exact hs₁

theorem listed_tcpInputFin (happ : AppOk P app) {aborted : Bool} (hs : s.Listed)
    (h : tcpInputFin app s = .ok (aborted, s')) : s'.Listed := by
  unfold tcpInputFin at h
  split at h
  · split at h
    · cases h
      exact hs.congr rfl rfl rfl rfl
    · obtain ⟨⟨ret, s₁⟩, h₁, h⟩ := Run.bind_eq_ok.mp h
      cases h
      exact listed_tcpEventClosed happ hs h₁
  · cases h
    exact hs

theorem St.Listed.aborted (hs : s.Listed) : (tcpInputAborted s).Listed :=
  hs.congr rfl rfl rfl rfl

theorem listed_tcpInputEvents (happ : AppOk P app) (hs : s.Listed)
    (h : tcpInputEvents app s = .ok s') : s'.Listed := by
  obtain ⟨⟨err, s₁⟩, h₁, h⟩ := Run.bind_eq_ok.mp h
  have hs₁ : s₁.Listed := by
    unfold tcpInputSent at h₁
    split at h₁
    · exact listed_tcpEvent happ hs h₁
    · cases h₁
      exact hs
  dsimp only at h
  split at h
  · cases h
    exact hs₁.aborted
  · obtain ⟨_, -, h⟩ := Run.bind_eq_ok.mp h
    split at h
    · exact (removed_tcpInputRemove h).listed
    · obtain ⟨⟨gone, s₂⟩, h₂, h⟩ := Run.bind_eq_ok.mp h
      have hs₂ := listed_tcpInputRecv happ hs₁ h₂
      dsimp only at h
      split at h
      · cases h
        exact hs₂.aborted
      · obtain ⟨⟨aborted, s₃⟩, h₃, h⟩ := Run.bind_eq_ok.mp h
        have hs₃ := listed_tcpInputFin happ hs₂ h₃
        dsimp only at h
        split at h
        · cases h
          exact hs₃.aborted
        · obtain ⟨_, -, h⟩ := Run.bind_eq_ok.mp h
          obtain ⟨⟨err', s₄⟩, h₄, h⟩ := Run.bind_eq_ok.mp h
          cases h
          have hs₃' : ({ s₃ with inputPcb := false } : St W).Listed :=
            hs₃.congr rfl rfl rfl rfl
          exact (hs₃'.view (rcvView_tcpOutput h₄)).aborted

theorem listed_tcpInputRefused (happ : AppOk P app) {seg : InSegment} {dropped : Bool}
    (hs : s.Listed) (hlive : s.freed = false) (h : tcpInputRefused app s seg = .ok (dropped, s')) :
    s'.Listed ∧ s'.recvFlags = s.recvFlags ∧ (dropped = false → s'.freed = false) := by
  unfold tcpInputRefused at h
  split at h
  · obtain ⟨⟨err, s₁⟩, h₁, h⟩ := Run.bind_eq_ok.mp h
    obtain ⟨hs₁, hf₁⟩ := listed_tcpProcessRefusedData happ hs h₁
    dsimp only at h
    split at h
    · cases h
      exact ⟨hs₁, hf₁, nofun⟩
    · obtain ⟨_, hlive₁, h⟩ := Run.bind_eq_ok.mp h
      cases h
      exact ⟨hs₁, hf₁, fun _ => live_of_ok hlive₁⟩
  · cases h
    exact ⟨hs, rfl, fun _ => hlive⟩

theorem listed_tcpInput (happ : AppOk P app) {seg : InSegment} (hs : s.Listed)
    (hl : s.list ≠ .none) (hlive : s.freed = false) (h : tcpInput app s seg = .ok s') :
    s'.Listed := by
  obtain ⟨⟨dropped, s₁⟩, h₁, h⟩ := Run.bind_eq_ok.mp h
  obtain ⟨hs₁, hf₁, hlive₁⟩ := listed_tcpInputRefused happ (s := s.resetRecv)
    (.move hlive hl hs.state) hlive h₁
  dsimp only at h
  split at h
  · cases h
    exact hs₁.aborted
  · next hd =>
    obtain ⟨⟨err, s₂⟩, h₂, h⟩ := Run.bind_eq_ok.mp h
    have hs₂ := listed_tcpProcess happ (s := { s₁ with inputPcb := true })
      (hs₁.congr rfl rfl rfl rfl) (hlive₁ (by simpa using hd)) (congrArg Prod.fst hf₁) h₂
    dsimp only at h
    split at h
    · cases h
      exact hs₂.aborted
    · split at h
      · exact (removed_tcpInputRemove h).listed
      · exact listed_tcpInputEvents happ hs₂ h

/-- The pcb that `tcp_listen_input` makes, behind its SYN-ACK. -/
theorem listed_tcpListenSynAck {seg : InSegment} {localPort : ℕ} {serverId : U32} {err : Err}
    (hlive : s.freed = false)
    (h : tcpListenSynAck (tcpListenPcb s seg localPort serverId) = .ok (err, s')) : s'.Listed := by
  have hs : (tcpListenPcb s seg localPort serverId).Listed := by
    refine .move hlive nofun ?_
    show TcpState.Active .SYN_RCVD
    decide
  obtain ⟨⟨err', s₁⟩, h₁, h⟩ := Run.bind_eq_ok.mp h
  have hs₁ := hs.view (rcvView_tcpEnqueueFlags h₁)
  dsimp only at h
  split at h
  · obtain ⟨s₂, h₂, h⟩ := Run.bind_eq_ok.mp h
    cases h
    exact (removed_tcpAbandon h₂).listed
  · exact hs₁.view (rcvView_tcpOutput h)

end Rudp

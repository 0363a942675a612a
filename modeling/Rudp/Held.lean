import Rudp.Each

/-!
# No pcb is lost

`tcp_close` in `CLOSE_WAIT` with data unread takes the pcb off the active list, and frees it, but not
inside `tcp_input` for this pcb: there it sets `TF_CLOSED`, and `tcp_input` is to free it. It looks at
the flag behind the sent callback, and not behind the recv callback.

Results:
* `Host.none_lost`: in every run of a host whose recv callbacks do not close so, each pcb in use is
  closed or on a list.
* `Host.none_lost_fails`: a recv callback that does, and a pcb that is lost.
-/

namespace Rudp

variable {W : Type} {s s' : St W} {app : App W}

/-! ## What is left to `tcp_input` -/

/-- The pcb has been freed, or nothing is left to `tcp_input`, which is not running for it. -/
def St.Settled (s : St W) : Prop := s.freed = true ∨ (s.inputPcb = false ∧ s.recvClosed = false)

namespace St.Settled

theorem congr (h : s.Settled) (hf : s'.freed = s.freed) (hi : s'.inputPcb = s.inputPcb)
    (hr : s'.recvClosed = s.recvClosed) : s'.Settled := by
  unfold St.Settled
  rw [hf, hi, hr]
  exact h

theorem view (h : s.Settled) (hv : s'.rcvView = s.rcvView) : s'.Settled :=
  h.congr (congrArg (fun v => v.freed) hv) (congrArg (fun v => v.inputPcb) hv)
    (congrArg (fun v => v.recvClosed) hv)

end St.Settled

/-! ### The API -/

theorem settled_tcpCloseShutdown {rst : Bool} {err : Err} (hs : s.Settled) (hlive : s.freed = false)
    (h : tcpCloseShutdown s rst = .ok (err, s')) : s'.Settled := by
  have hfin {state : TcpState} (h : tcpCloseFin s state = .ok (err, s')) : s'.Settled := by
    obtain ⟨⟨e, s₁⟩, h₁, h⟩ := Run.bind_eq_ok.mp h
    have hs₁ := hs.view (rcvView_tcpSendFin h₁)
    dsimp only at h
    split at h
    · obtain ⟨⟨e', s₂⟩, h₂, h⟩ := Run.bind_eq_ok.mp h
      cases h
      have hst : ({ s₁ with pcb.state := state } : St W).Settled := hs₁.congr rfl rfl rfl
      exact hst.view (rcvView_tcpOutput h₂)
    · cases h
      exact hs₁
  unfold tcpCloseShutdown at h
  split at h
  · obtain ⟨s₁, h₁, h⟩ := Run.bind_eq_ok.mp h
    cases h
    obtain ⟨_, -, h₁⟩ := Run.bind_eq_ok.mp h₁
    have hr := hs.view (rcvView_tcpRst s s.pcb.sndNxt s.pcb.rcvNxt s.pcb.connId)
    have hi : (tcpRst s s.pcb.sndNxt s.pcb.rcvNxt s.pcb.connId).inputPcb = s.inputPcb :=
      congrArg (fun v => v.inputPcb) (rcvView_tcpRst s _ _ _)
    dsimp only at h₁
    split at h₁
    · cases h₁
      exact hr.congr rfl rfl rfl
    · split at h₁
      · next hin =>
        rcases hs with hs | hs
        · rw [hlive] at hs
          cases hs
        · rw [hi, hs.1] at hin
          cases hin
      · cases h₁
        exact .inl rfl
  · split at h
    · cases h
      exact .inl rfl
    · obtain ⟨s₁, -, h⟩ := Run.bind_eq_ok.mp h
      cases h
      exact .inl rfl
    · exact hfin h
    · exact hfin h
    · exact hfin h
    · cases h
      exact hs

theorem settled_apiCall {a : Api} {err : Err} (hs : s.Settled) (h : apiCall s a = .ok (err, s')) :
    s'.Settled := by
  obtain ⟨_, hlive, h⟩ := Run.bind_eq_ok.mp h
  have hlive := live_of_ok hlive
  cases a with
  | connect newPort iss =>
    rcases rcvView_tcpConnect h with hv | ⟨port, hv | hv⟩
    · exact hs.view hv
    · exact (hs.congr rfl rfl rfl : St.Settled { s with pcb := s.pcb.connecting port iss }).view hv
    · exact (hs.congr rfl rfl rfl : St.Settled { s with
        pcb := { s.pcb.connecting port iss with state := .SYN_SENT }
        list := .active, changed := true }).view hv
  | write arg copy more =>
    obtain ⟨⟨e, s₁⟩, h₁, h⟩ := Run.bind_eq_ok.mp h
    cases h
    have hs₁ := hs.view (rcvView_tcpWrite h₁)
    split
    · exact hs₁.congr rfl rfl rfl
    · exact hs₁
  | output => exact hs.view (rcvView_tcpOutput h)
  | recved len =>
    obtain ⟨s₁, h₁, h⟩ := Run.bind_eq_ok.mp h
    cases h
    obtain ⟨w, -, hv⟩ := rcvView_tcpRecved h₁
    exact hs.congr (congrArg (fun v => v.freed) hv) (congrArg (fun v => v.inputPcb) hv)
      (congrArg (fun v => v.recvClosed) hv)
  | close =>
    exact settled_tcpCloseShutdown (s := { s with pcb.tfRxClosed := true }) (hs.congr rfl rfl rfl)
      hlive h
  | shutdown rx tx =>
    replace h : tcpShutdown s rx tx = .ok (err, s') := h
    unfold tcpShutdown at h
    split at h
    · exact settled_tcpCloseShutdown (s := { s with pcb.tfRxClosed := true }) (hs.congr rfl rfl rfl)
        hlive h
    · generalize hs₁ : (if rx = true then
        ({ s with pcb.tfRxClosed := true, pcb.refusedData := none } : St W) else s) = s₁ at h
      have hl₁ : s₁.Settled ∧ s₁.freed = false := by
        rw [← hs₁]
        split
        · exact ⟨hs.congr rfl rfl rfl, hlive⟩
        · exact ⟨hs, hlive⟩
      dsimp only at h
      split at h
      · split at h
        · exact settled_tcpCloseShutdown hl₁.1 hl₁.2 h
        · cases h
          exact hl₁.1
      · cases h
        exact hl₁.1
  | abort =>
    obtain ⟨s₁, h₁, h⟩ := Run.bind_eq_ok.mp h
    cases h
    exact .inl (tcpAbandon_unlinks h₁).2
  | nagle disable =>
    cases h
    exact hs.congr rfl rfl rfl

/-! ### Callbacks and timers -/

variable {P : Core → Api → Prop}

theorem settled_tcpEvent (happ : AppOk P app) {e : Event} {ret : Err} (hs : s.Settled)
    (h : tcpEvent app e s = .ok (ret, s')) : s'.Settled := by
  obtain ⟨⟨ret', s₁⟩, h₁, h⟩ := Run.bind_eq_ok.mp h
  cases h
  have hs₁ : s₁.Settled := (happ e s _ s₁ h₁).invariant (I := fun t : St W => t.Settled)
    (fun _ _ ht => ht.congr rfl rfl rfl) (fun _ _ _ _ ht _ hc => settled_apiCall ht hc) hs
  exact hs₁.congr rfl rfl rfl

theorem settled_tcpProcessRefusedData (happ : AppOk P app) {err : Err} (hs : s.Settled)
    (h : tcpProcessRefusedData app s = .ok (err, s')) : s'.Settled := by
  unfold tcpProcessRefusedData at h
  split at h
  · cases h
  · obtain ⟨⟨ret, s₁⟩, h₁, h⟩ := Run.bind_eq_ok.mp h
    have hs₁ : s₁.Settled := settled_tcpEvent happ (s := { s with pcb.refusedData := none })
      (hs.congr rfl rfl rfl) h₁
    dsimp only at h
    split at h
    · split at h
      · obtain ⟨_, -, h⟩ := Run.bind_eq_ok.mp h
        obtain ⟨⟨ret', s₂⟩, h₂, h⟩ := Run.bind_eq_ok.mp h
        cases h
        exact settled_tcpEvent happ (s := { s₁ with pcb := rcvWndFin s₁.pcb })
          (hs₁.congr rfl rfl rfl) h₂
      · cases h
        exact hs₁
    · split at h
      · cases h
        exact hs₁
      · obtain ⟨_, -, h⟩ := Run.bind_eq_ok.mp h
        cases h
        exact hs₁.congr rfl rfl rfl

theorem settled_tcpFasttmr (happ : AppOk P app) (hs : s.Settled) (h : tcpFasttmr app s = .ok s') :
    s'.Settled := by
  obtain ⟨s₁, h₁, h⟩ := Run.bind_eq_ok.mp h
  have hs₁ := hs.view (rcvView_tcpFasttmrAck h₁)
  split at h
  · obtain ⟨⟨err, s₂⟩, h₂, rfl⟩ := Run.map_eq_ok.mp h
    exact settled_tcpProcessRefusedData happ (s := { s₁ with changed := false })
      (hs₁.congr rfl rfl rfl) h₂
  · cases h
    exact hs₁

theorem settled_tcpSlowtmr (happ : AppOk P app) (hs : s.Settled) (h : tcpSlowtmr app s = .ok s') :
    s'.Settled := by
  obtain ⟨t, ht, h⟩ := tcpSlowtmr_parts h
  have hs₁ : t.Settled := by
    rcases ht with ht | ht
    · exact hs.view ht
    · exact (hs.congr rfl rfl rfl : ({ s with pcb.ooseq := [] } : St W).Settled).view ht
  rcases h with ⟨reset, rfl⟩ | hs' | ⟨err, u, hu, hs'⟩
  · exact .inl rfl
  · exact hs₁.view hs'
  · exact (settled_tcpEvent happ (s := { t with pcb.polltmr := 0, changed := false })
      (hs₁.congr rfl rfl rfl) hu).view hs'

/-! ### `tcp_input` -/

/-- An application that returns `ERR_ABRT` only for a pcb that it has aborted, and whose recv callback
    does not close a pcb in `CLOSE_WAIT` while it has data unread. -/
structure Tidy (app : App W) : Prop where
  abrt {e : Event} {s s' : St W} : app e s = .ok (.abrt, s') → s'.freed = true
  recv {e : Event} {s s' : St W} {ret : Err} : (∃ data, e = .recv data) ∨ e = .closed →
    app e s = .ok (ret, s') → s.recvClosed = false → s'.recvClosed = false

namespace Tidy

variable (htidy : Tidy app)

include htidy

theorem freed {e : Event} (h : tcpEvent app e s = .ok (.abrt, s')) : s'.freed = true := by
  obtain ⟨⟨ret, s₁⟩, h₁, h⟩ := Run.bind_eq_ok.mp h
  cases h
  have hfreed : s₁.freed = true := htidy.abrt h₁
  exact hfreed

theorem recvClosed {e : Event} {ret : Err} (he : (∃ data, e = .recv data) ∨ e = .closed)
    (hs : s.recvClosed = false) (h : tcpEvent app e s = .ok (ret, s')) : s'.recvClosed = false := by
  obtain ⟨⟨ret', s₁⟩, h₁, h⟩ := Run.bind_eq_ok.mp h
  cases h
  have hr₁ : s₁.recvClosed = false := htidy.recv he h₁ hs
  exact hr₁

theorem tcpProcess {seg : InSegment} (h : Rudp.tcpProcess app s seg = .ok (.abrt, s')) :
    s'.freed = true := by
  unfold Rudp.tcpProcess at h
  split at h
  · rcases tcpProcessRst_cases s seg with e | e <;> rw [e] at h <;> cases h
  · split at h
    · cases h
    · generalize tcpProcessStart s seg = s₁ at h
      unfold tcpProcessState at h
      split at h
      · unfold tcpProcessSynSent at h
        split at h
        · cases h
        · split at h
          · obtain ⟨_, -, h⟩ := Run.bind_eq_ok.mp h
            obtain ⟨⟨ret, s₂⟩, h₂, h⟩ := Run.bind_eq_ok.mp h
            dsimp only at h
            split at h
            · next hret =>
              cases h
              rw [hret] at h₂
              exact htidy.freed h₂
            · obtain ⟨_, -, h⟩ := Run.bind_eq_ok.mp h
              cases h
          · split at h <;> cases h
      · unfold tcpProcessSynRcvd at h
        split at h
        · split at h
          · obtain ⟨⟨ret, s₂⟩, h₂, h⟩ := Run.bind_eq_ok.mp h
            dsimp only at h
            split at h
            · split at h
              · obtain ⟨_, -, h⟩ := Run.bind_eq_ok.mp h
                obtain ⟨s₃, h₃, h⟩ := Run.bind_eq_ok.mp h
                cases h
                exact (tcpAbandon_unlinks h₃).2
              · next hret =>
                cases h
                rw [show ret = .abrt by simpa using hret] at h₂
                exact htidy.freed h₂
            · obtain ⟨_, -, h⟩ := Run.bind_eq_ok.mp h
              obtain ⟨s₃, -, h⟩ := Run.bind_eq_ok.mp h
              cases h
          · cases h
        · split at h <;> cases h
      all_goals first
        | cases h
        | (obtain ⟨s₂, -, h⟩ := Run.bind_eq_ok.mp h
           cases h)

theorem tcpInputRecv {gone : Bool} (hs : s.recvClosed = false)
    (h : Rudp.tcpInputRecv app s = .ok (gone, s')) :
    (gone = true → s'.freed = true) ∧ (gone = false → s'.recvClosed = false) := by
  unfold Rudp.tcpInputRecv at h
  split at h
  · cases h
    exact ⟨nofun, fun _ => hs⟩
  · obtain ⟨_, -, h⟩ := Run.bind_eq_ok.mp h
    split at h
    · obtain ⟨s₁, h₁, h⟩ := Run.bind_eq_ok.mp h
      cases h
      exact ⟨fun _ => (tcpAbandon_unlinks h₁).2, nofun⟩
    · obtain ⟨⟨ret, s₁⟩, h₁, h⟩ := Run.bind_eq_ok.mp h
      have hr₁ := htidy.recvClosed (.inl ⟨_, rfl⟩) hs h₁
      dsimp only at h
      split at h
      · next hret =>
        cases h
        rw [hret] at h₁
        exact ⟨fun _ => htidy.freed h₁, nofun⟩
      · obtain ⟨_, -, h⟩ := Run.bind_eq_ok.mp h
        split at h
        · cases h
          exact ⟨nofun, fun _ => hr₁⟩
        · cases h
          exact ⟨nofun, fun _ => hr₁⟩

theorem tcpInputFin {aborted : Bool} (hs : s.recvClosed = false)
    (h : Rudp.tcpInputFin app s = .ok (aborted, s')) :
    (aborted = true → s'.freed = true) ∧ (aborted = false → s'.recvClosed = false) := by
  unfold Rudp.tcpInputFin at h
  split at h
  · split at h
    · cases h
      exact ⟨nofun, fun _ => hs⟩
    · obtain ⟨⟨ret, s₁⟩, h₁, h⟩ := Run.bind_eq_ok.mp h
      cases h
      refine ⟨fun hret => ?_, fun _ => ?_⟩
      · rw [show ret = .abrt by simpa using hret] at h₁
        exact htidy.freed h₁
      · exact htidy.recvClosed (s := { s with pcb := rcvWndFin s.pcb }) (.inr rfl) hs h₁
  · cases h
    exact ⟨nofun, fun _ => hs⟩

theorem tcpInputEvents (h : Rudp.tcpInputEvents app s = .ok s') : s'.Settled := by
  obtain ⟨⟨err, s₁⟩, h₁, h⟩ := Run.bind_eq_ok.mp h
  dsimp only at h
  split at h
  · next herr =>
    cases h
    unfold tcpInputSent at h₁
    split at h₁
    · rw [herr] at h₁
      have hfreed := htidy.freed h₁
      exact .inl hfreed
    · cases h₁
      cases herr
  · obtain ⟨_, -, h⟩ := Run.bind_eq_ok.mp h
    split at h
    · exact .inl (removed_tcpInputRemove h).freed
    · next hr₁ =>
      obtain ⟨⟨gone, s₂⟩, h₂, h⟩ := Run.bind_eq_ok.mp h
      obtain ⟨hgone, hr₂⟩ := htidy.tcpInputRecv (by simpa using hr₁) h₂
      dsimp only at h
      split at h
      · next hg =>
        cases h
        exact .inl (hgone hg)
      · next hg =>
        obtain ⟨⟨aborted, s₃⟩, h₃, h⟩ := Run.bind_eq_ok.mp h
        obtain ⟨habort, hr₃⟩ := htidy.tcpInputFin (hr₂ (by simpa using hg)) h₃
        dsimp only at h
        split at h
        · next ha =>
          cases h
          exact .inl (habort ha)
        · next ha =>
          obtain ⟨_, -, h⟩ := Run.bind_eq_ok.mp h
          obtain ⟨⟨err', s₄⟩, h₄, h⟩ := Run.bind_eq_ok.mp h
          cases h
          have hr₄ : s₄.recvClosed = s₃.recvClosed :=
            congrArg (fun v => v.recvClosed) (rcvView_tcpOutput h₄)
          exact .inr ⟨rfl, hr₄.trans (hr₃ (by simpa using ha))⟩

theorem tcpInput (happ : AppOk P app) {seg : InSegment} (hs : s.Settled)
    (h : Rudp.tcpInput app s seg = .ok s') : s'.Settled := by
  obtain ⟨⟨dropped, s₁⟩, h₁, h⟩ := Run.bind_eq_ok.mp h
  have hreset : s.resetRecv.Settled := hs.imp id fun h => ⟨h.1, rfl⟩
  have hs₁ : s₁.Settled := by
    unfold tcpInputRefused at h₁
    split at h₁
    · obtain ⟨⟨err, s₂⟩, h₂, h₁⟩ := Run.bind_eq_ok.mp h₁
      have hs₂ := settled_tcpProcessRefusedData happ hreset h₂
      dsimp only at h₁
      split at h₁
      · cases h₁
        exact hs₂
      · obtain ⟨_, -, h₁⟩ := Run.bind_eq_ok.mp h₁
        cases h₁
        exact hs₂
    · cases h₁
      exact hreset
  dsimp only at h
  split at h
  · cases h
    exact hs₁.imp id fun h => ⟨rfl, h.2⟩
  · obtain ⟨⟨err, s₂⟩, h₂, h⟩ := Run.bind_eq_ok.mp h
    dsimp only at h
    split at h
    · next herr =>
      cases h
      rw [herr] at h₂
      have hfreed := htidy.tcpProcess h₂
      exact .inl hfreed
    · split at h
      · exact .inl (removed_tcpInputRemove h).freed
      · exact htidy.tcpInputEvents h

end Tidy

/-! ## Hosts -/

namespace Host

variable {pool : List ℕ} {h : Host W}

theorem each_settled (htidy : Tidy app) (happ : AppOk P app) :
    Each app (fun _ _ => True) (fun _ _ => True) St.Settled where
  alloc _ _ _ _ := .inr ⟨rfl, rfl⟩
  frame {s s'} hs _ _ hfreed hr hi := by
    by_cases hf : s'.freed = true
    · exact .inl hf
    · refine hs.imp (fun h => ?_) fun h => ⟨hi.trans h.1, hr.trans h.2⟩
      rw [hfreed (by simpa using hf)] at h
      cases h
  api _ h hs := settled_apiCall hs h
  abandon h _ := .inl (tcpAbandon_unlinks h).2
  listen {s s' seg localPort serverId err} _ hr hi h := by
    have hs : (tcpListenPcb s seg localPort serverId).Settled := .inr ⟨hi, hr⟩
    obtain ⟨⟨err', s₁⟩, h₁, h⟩ := Run.bind_eq_ok.mp h
    have hs₁ := hs.view (rcvView_tcpEnqueueFlags h₁)
    dsimp only at h
    split at h
    · obtain ⟨s₂, h₂, h⟩ := Run.bind_eq_ok.mp h
      cases h
      exact .inl (tcpAbandon_unlinks h₂).2
    · exact hs₁.view (rcvView_tcpOutput h)
  input _ h hs := htidy.tcpInput happ hs h
  timewait h hs := hs.view (rcvView_tcpTimewaitInput h)
  fasttmr h hs := settled_tcpFasttmr happ hs h
  slowtmr h hs := settled_tcpSlowtmr happ hs h
  slowtmrTw {s} hs := by
    unfold tcpSlowtmrTw
    split
    · exact .inl rfl
    · exact hs

/-- In every run of a host whose recv callbacks do not close a pcb in `CLOSE_WAIT` with data unread,
    no pcb is lost: each one in use is closed, and its application has it, or it is on a list. -/
theorem none_lost (htidy : Tidy app) (happ : AppOk P app) (hpool : pool.Nodup) {callbackArg : W}
    (hr : Run.Reach (hostStep app) HostOk (Host.boot pool callbackArg) h) {a : ℕ}
    (hlive : (h.mem a).st.freed = false) (hopen : (h.mem a).st.pcb.state ≠ .CLOSED) :
    ∃ l ≠ PcbList.none, a ∈ h.listOf l := by
  have hI := inv_of_reach happ hpool hr
  have hs : (h.mem a).st.Settled := (each_settled htidy happ).reach happ hpool
    (hr.mono fun h op hop => ⟨hop, eachOk_trivial h op⟩) a
  have hr : (h.mem a).st.recvClosed = false := by
    rcases hs with hs | hs
    · rw [hlive] at hs
      cases hs
    · exact hs.2
  have hl : (h.mem a).st.list ≠ .none := by
    intro hl
    rcases (hI.listed a).closed hl hlive with hc | hc
    · exact hopen hc
    · rw [hr] at hc
      cases hc
  exact ⟨_, hl, (hI.lists.mem_iff _ hl a).mpr rfl⟩

theorem tidy_refusingApp : Tidy refusingApp where
  abrt {e s s'} h := by
    unfold refusingApp at h
    split at h
    · split at h
      · obtain ⟨_, -, h⟩ := Run.bind_eq_ok.mp h
        obtain ⟨s₁, h₁, h⟩ := Run.bind_eq_ok.mp h
        cases h
        exact (tcpAbandon_unlinks h₁).2
      · cases h
    · cases h
  recv {e s s' ret} _ h hs := by
    unfold refusingApp at h
    split at h
    · split at h
      · obtain ⟨_, -, h⟩ := Run.bind_eq_ok.mp h
        obtain ⟨s₁, h₁, h⟩ := Run.bind_eq_ok.mp h
        cases h
        have hr := recvState_tcpAbandon h₁
        exact (congrArg Prod.snd hr).trans hs
      · cases h
        exact hs
    · cases h
      exact hs

/-- The connections of `busy` whose data has been refused. -/
theorem none_lost_busy : (busy.mem 0).st.pcb.refusedData ≠ none ∧
    (∃ l ≠ PcbList.none, 0 ∈ busy.listOf l) ∧ (busy.mem 1).st.pcb.refusedData ≠ none ∧
    ∃ l ≠ PcbList.none, 1 ∈ busy.listOf l := by
  have held {a : ℕ} (h2 : (busy.mem a).st.freed = false) (h3 : (busy.mem a).st.pcb.state ≠ .CLOSED) :
      ∃ l ≠ PcbList.none, a ∈ busy.listOf l :=
    none_lost (P := fun _ _ => True) tidy_refusingApp (appOk_refusingApp fun _ => trivial)
      (by decide) reach_busy h2 h3
  exact ⟨by decide +kernel, held (by decide +kernel) (by decide +kernel), by decide +kernel,
    held (by decide +kernel) (by decide +kernel)⟩

/-- An application that closes as soon as data arrives. -/
def closingApp : App Unit := fun e s =>
  match e with
  | .recv _ => do
    let (_, s) ← apiCall s .close
    .ok (.ok, s)
  | _ => .ok (.ok, s)

/-- The client of `clientSyn` sends one byte, and its FIN with it. -/
def lastByte : InSegment where
  tcphdr := { connid1 := 4000, connid2 := 7, seqno := 1000, ackno := 2, hdrlen := 5
              flags := { ack := true, fin := true }, wnd := TCP_WND }
  p := [{ payload := [7] }]
  bound := oneByte_bound

/-- `tcp_input` does not come back to the flag, and the pcb is neither on a list nor free. -/
theorem none_lost_fails : ∃ h, Run.exec (hostStep closingApp) (Host.boot [0, 1] ())
    [(fun _ => [], .new 1 ()), (fun _ => [], .bind 0 80), (fun _ => [], .listen 0),
      (fun _ => [], .input clientSyn 1 7 []), (fun _ => [], .input lastByte 1 7 [])] = .ok h ∧
    (h.mem 0).st.pcb.state = .CLOSE_WAIT ∧ h.free = [1] ∧ ∀ l, h.listOf l = [] := by
  refine ⟨_, rfl, ?_, ?_, fun l => ?_⟩
  · decide +kernel
  · decide +kernel
  · cases l <;> decide +kernel

end Host

end Rudp

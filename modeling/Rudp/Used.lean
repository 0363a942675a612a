import Rudp.Held
import Rudp.Room

/-!
# No freed pcb is used

A callback may free the pcb that it is called for. `tcp_input` and the timers go on behind it, and
learn of it from the value that it returns, or, behind the poll callback, from
`tcp_active_pcbs_changed`.

Results:
* `Host.none_used`: in every run of a host, no operation uses a pcb that has been freed, if the
  callbacks other than poll return `ERR_ABRT` when they have freed their pcb.
* `Host.none_used_fails`: where `tcp_close` frees the pcb, a callback that returns what `tcp_close`
  did is not enough.
-/

namespace Rudp

open Run (Fails)

variable {W : Type} {s s' : St W} {app : App W} {P : Core → Api → Prop}

/-- The fault is not an access to a pcb that has been freed. -/
def Fault.NotUse (e : Fault) : Prop := e ≠ .useAfterFree

theorem notUse_inner (e : Fault) (_ : e.Glue) (h : e ≠ .useAfterFree) : e.NotUse := h

theorem notUse_assert (message : String) : (Fault.assert message).NotUse := nofun

theorem notUse_lwipAssert {message : String} {p : Prop} [Decidable p] :
    Fails Fault.NotUse (lwipAssert message p) :=
  Fails.lwipAssert fun _ => notUse_assert message

theorem notUse_live (hlive : s.freed = false) : Fails Fault.NotUse s.live := by
  unfold St.live
  rw [hlive]
  exact .ok _

theorem notUse_tcpReceive (s : St W) (seg : InSegment) : Fails Fault.NotUse (tcpReceive s seg) :=
  fails_tcpReceive (fun _ _ => notUse_assert _) (notUse_assert _) notUse_inner fun _ =>
    fails_tcpReceiveAck (fun _ _ => notUse_assert _) s seg

/-! ## Calls and callbacks -/

theorem notUse_apiCall (hlive : s.freed = false) (a : Api) : Fails Fault.NotUse (apiCall s a) := by
  refine .bind (notUse_live hlive) fun _ _ => ?_
  cases a with
  | connect newPort iss => exact fails_tcpConnect notUse_inner s newPort iss
  | write arg copy more =>
    refine .bind (fails_tcpWrite (fun _ _ => notUse_assert _) (fun _ => notUse_assert _)
      (fun _ _ _ => notUse_assert _) arg copy more) fun _ _ => .ok _
  | output => exact fails_tcpOutput notUse_inner s
  | recved len =>
    exact .bind (fails_tcpRecved notUse_inner (notUse_assert _) (notUse_assert _) s len)
      fun _ _ => .ok _
  | close => exact fails_tcpCloseShutdown notUse_inner _ _
  | shutdown shutRx shutTx => exact fails_tcpShutdown notUse_inner s shutRx shutTx
  | abort => exact .bind (fails_tcpAbandon notUse_inner s true) fun _ _ => .ok _
  | nagle disable => exact .ok _

/-- A callback that frees its pcb returns `ERR_ABRT`, or it is the poll callback, and it makes no call
    for a pcb that it has freed. -/
structure Careful (app : App W) : Prop where
  freed {e : Event} {s s' : St W} {ret : Err} : app e s = .ok (ret, s') → s.freed = false →
    s'.freed = true → ret = .abrt ∨ e = .poll
  used {e : Event} {s : St W} : s.freed = false → Fails Fault.NotUse (app e s)

namespace Careful

variable (hc : Careful app)

include hc

theorem tcpEvent {e : Event} (hlive : s.freed = false) :
    Fails Fault.NotUse (Rudp.tcpEvent app e s) :=
  .bind (hc.used hlive) fun _ _ => .ok _

/-- Behind a callback that does not return `ERR_ABRT` the pcb is in use. -/
theorem live {e : Event} {ret : Err} (h : Rudp.tcpEvent app e s = .ok (ret, s'))
    (hlive : s.freed = false) (he : e ≠ .poll) (hret : ret ≠ .abrt) : s'.freed = false := by
  obtain ⟨⟨ret', s₁⟩, h₁, h⟩ := Run.bind_eq_ok.mp h
  cases h
  show s₁.freed = false
  by_contra hf
  rcases hc.freed h₁ hlive (by simpa using hf) with h | h
  · exact hret h
  · exact he h

theorem tcpProcessRefusedData (hlive : s.freed = false) :
    Fails Fault.NotUse (Rudp.tcpProcessRefusedData app s) := by
  unfold Rudp.tcpProcessRefusedData
  split
  · exact .error (by simp [Fault.NotUse])
  · refine .bind (hc.tcpEvent (by exact hlive)) fun x hx => ?_
    obtain ⟨ret, s₁⟩ := x
    have hlive₁ (hret : ret ≠ .abrt) : s₁.freed = false :=
      hc.live hx hlive (by simp) hret
    dsimp only
    split
    · next hok =>
      have hlive₁ := hlive₁ (by simp [hok])
      split
      · refine .bind (notUse_live hlive₁) fun _ _ => ?_
        exact .bind (hc.tcpEvent (by exact hlive₁)) fun _ _ => .ok _
      · exact .ok _
    · split
      · exact .ok _
      · next hret => exact .bind (notUse_live (hlive₁ hret)) fun _ _ => .ok _

theorem refused_live {err : Err} (hlive : s.freed = false) (herr : err ≠ .abrt)
    (h : Rudp.tcpProcessRefusedData app s = .ok (err, s')) : s'.freed = false := by
  unfold Rudp.tcpProcessRefusedData at h
  split at h
  · cases h
  · obtain ⟨⟨ret, s₁⟩, h₁, h⟩ := Run.bind_eq_ok.mp h
    have hlive₁ (hret : ret ≠ .abrt) : s₁.freed = false :=
      hc.live h₁ hlive (by simp) hret
    dsimp only at h
    split at h
    · next hok =>
      have hlive₁ := hlive₁ (by simp [hok])
      split at h
      · obtain ⟨_, -, h⟩ := Run.bind_eq_ok.mp h
        obtain ⟨⟨ret', s₂⟩, h₂, h⟩ := Run.bind_eq_ok.mp h
        cases h
        refine hc.live h₂ hlive₁ (by simp) fun hret => ?_
        exact herr (if_pos hret)
      · cases h
        exact hlive₁
    · split at h
      · cases h
        exact absurd rfl herr
      · next hret =>
        obtain ⟨_, -, h⟩ := Run.bind_eq_ok.mp h
        cases h
        exact hlive₁ hret

/-! ## The timers -/

theorem tcpFasttmr (hlive : s.freed = false) : Fails Fault.NotUse (Rudp.tcpFasttmr app s) := by
  refine .bind (fails_tcpFasttmrAck notUse_inner s) fun s₁ h₁ => ?_
  have hlive₁ : s₁.freed = false := live_of_rcvView (rcvView_tcpFasttmrAck h₁) hlive
  split
  · exact .map _ (hc.tcpProcessRefusedData (by exact hlive₁))
  · exact .ok _

/-- The poll callback may have freed the pcb: then it has taken it off the list, and the flag is
    set. -/
theorem tcpSlowtmr (happ : AppOk P app) (hs : s.Listed) (hl : s.list = .active)
    (hlive : s.freed = false) : Fails Fault.NotUse (Rudp.tcpSlowtmr app s) := by
  refine .bind (fails_tcpSlowtmrSend notUse_inner s) fun s₁ h₁ => ?_
  have hv : (tcpSlowtmrKeepalive s₁).2.rcvView = s.rcvView :=
    (rcvView_tcpSlowtmrKeepalive s₁).trans (rcvView_tcpSlowtmrSend h₁)
  generalize tcpSlowtmrKeepalive s₁ = x at hv ⊢
  obtain ⟨reset, s₂⟩ := x
  dsimp only at hv ⊢
  have hs₂ : (tcpSlowtmrOoseq s₂).Listed ∧ (tcpSlowtmrOoseq s₂).list = .active ∧
      (tcpSlowtmrOoseq s₂).freed = false := by
    have hl₂ : s₂.list = .active := (list_of_rcvView hv).trans hl
    have hf₂ : s₂.freed = false := live_of_rcvView hv hlive
    unfold tcpSlowtmrOoseq
    split
    · exact ⟨(hs.view hv).congr rfl rfl rfl rfl, hl₂, hf₂⟩
    · exact ⟨hs.view hv, hl₂, hf₂⟩
  split
  · exact .ok _
  generalize tcpSlowtmrOoseq s₂ = s₃ at hs₂ ⊢
  unfold tcpSlowtmrPoll
  dsimp only
  split
  · refine .bind (hc.tcpEvent (by exact hs₂.2.2)) fun x hx => ?_
    obtain ⟨err, s₄⟩ := x
    obtain ⟨hs₄, hn₄⟩ := noticed_tcpEvent happ
      (s := { s₃ with pcb.polltmr := 0, changed := false }) (hs₂.1.congr rfl rfl rfl rfl)
      (.inl hs₂.2.1) hx
    dsimp only
    split
    · next hgo =>
      have hl₄ : s₄.list = .active := hn₄.resolve_right (by simp [hgo.1])
      have hlive₄ : s₄.freed = false := by
        by_contra hf
        have hu := hs₄.unlinked (by simpa using hf)
        rw [hl₄] at hu
        cases hu
      exact .bind (notUse_live hlive₄) fun _ _ => .map _ (fails_tcpOutput notUse_inner _)
    · exact .ok _
  · exact .ok _

/-! ## Segments -/

omit hc in
theorem tcpProcessReceive {seg : InSegment} (after : St W → St W) :
    Fails Fault.NotUse (Rudp.tcpProcessReceive s seg after) :=
  .bind (notUse_tcpReceive s seg) fun _ _ => .ok _

theorem tcpProcessSynSent {seg : InSegment} (hlive : s.freed = false) :
    Fails Fault.NotUse (Rudp.tcpProcessSynSent app s seg) := by
  unfold Rudp.tcpProcessSynSent
  split
  · exact .error (by simp [Fault.NotUse])
  next rseg rest _ =>
  split
  · refine .bind notUse_lwipAssert fun _ _ => ?_
    refine .bind (hc.tcpEvent (by exact hlive)) fun x hx => ?_
    obtain ⟨err, s₁⟩ := x
    dsimp only
    split
    · exact .ok _
    · next hret =>
      have hlive₁ : s₁.freed = false := hc.live hx hlive (by simp) hret
      exact .bind (notUse_live hlive₁) fun _ _ => .ok _
  · split <;> exact .ok _

theorem tcpProcessSynRcvd {seg : InSegment} (hlive : s.freed = false) :
    Fails Fault.NotUse (Rudp.tcpProcessSynRcvd app s seg) := by
  unfold Rudp.tcpProcessSynRcvd
  split
  · split
    · refine .bind (hc.tcpEvent (by exact hlive)) fun x hx => ?_
      obtain ⟨err, s₁⟩ := x
      have hlive₁ (hret : err ≠ .abrt) : s₁.freed = false :=
        hc.live hx hlive (by simp) hret
      dsimp only
      split
      · split
        · next hret =>
          refine .bind (notUse_live (hlive₁ hret)) fun _ _ => ?_
          exact .bind (fails_tcpAbandon notUse_inner _ _) fun _ _ => .ok _
        · exact .ok _
      · next hok =>
        have hok : err = .ok := by simpa using hok
        refine .bind (notUse_live (hlive₁ (by simp [hok]))) fun _ _ => ?_
        exact .bind (tcpProcessReceive _) fun _ _ => .ok _
    · exact .ok _
  · split <;> exact .ok _

theorem tcpProcess {seg : InSegment} (hlive : s.freed = false) :
    Fails Fault.NotUse (Rudp.tcpProcess app s seg) := by
  unfold Rudp.tcpProcess
  split
  · exact .ok _
  split
  · exact .ok _
  have hlive₁ : (tcpProcessStart s seg).freed = false :=
    live_of_rcvView (rcvView_tcpProcessStart s seg) hlive
  unfold tcpProcessState
  split
  · exact hc.tcpProcessSynSent hlive₁
  · exact hc.tcpProcessSynRcvd hlive₁
  all_goals first
    | exact .bind (tcpProcessReceive _) fun _ _ => .ok _
    | exact .ok _

omit hc in
theorem freed_tcpProcessReceive {seg : InSegment} {after : St W → St W}
    (hafter : ∀ t, (after t).freed = t.freed) (h : Rudp.tcpProcessReceive s seg after = .ok s') :
    s'.freed = s.freed := by
  obtain ⟨s₁, h₁, h⟩ := Run.bind_eq_ok.mp h
  cases h
  exact (hafter s₁).trans (congrArg CtlView.freed (ctlView_tcpReceive h₁))

omit hc in
theorem freed_tcpProcessAfter (state : TcpState) (seg : InSegment) (s : St W) :
    (tcpProcessAfter state seg s).freed = s.freed := by
  unfold tcpProcessAfter
  dsimp only
  split <;> first | rfl | (split_ifs <;> rfl)

omit hc in
theorem freed_tcpProcessAcceptAfter (s : St W) : (tcpProcessAcceptAfter s).freed = s.freed := by
  unfold tcpProcessAcceptAfter
  dsimp only
  split <;> rfl

omit hc in
/-- Behind `tcp_process` the pcb is in use, unless it returns `ERR_ABRT`. -/
theorem process_live {seg : InSegment} {err : Err} (hlive : s.freed = false) (herr : err ≠ .abrt)
    (h : Rudp.tcpProcess app s seg = .ok (err, s')) : s'.freed = false := by
  unfold Rudp.tcpProcess at h
  split at h
  · have e : s' = (tcpProcessRst s seg).2 := congrArg Prod.snd (Except.ok.inj h).symm
    rw [e]
    rcases tcpProcessRst_cases s seg with e | e <;> rw [e] <;> exact hlive
  split at h
  · cases h
    exact hlive
  have hlive₁ : (tcpProcessStart s seg).freed = false :=
    live_of_rcvView (rcvView_tcpProcessStart s seg) hlive
  generalize tcpProcessStart s seg = s₁ at h hlive₁
  unfold tcpProcessState at h
  split at h
  · unfold Rudp.tcpProcessSynSent at h
    split at h
    · cases h
    split at h
    · obtain ⟨_, -, h⟩ := Run.bind_eq_ok.mp h
      obtain ⟨⟨ret, s₂⟩, h₂, h⟩ := Run.bind_eq_ok.mp h
      dsimp only at h
      split at h
      · cases h
        exact absurd rfl herr
      · obtain ⟨_, hl₂, h⟩ := Run.bind_eq_ok.mp h
        cases h
        exact live_of_ok hl₂
    · split at h
      · cases h
        exact live_of_rcvView (rcvView_tcpRstReply s₁ seg) hlive₁
      · cases h
        exact hlive₁
  · unfold Rudp.tcpProcessSynRcvd at h
    split at h
    · split at h
      · obtain ⟨⟨ret, s₂⟩, h₂, h⟩ := Run.bind_eq_ok.mp h
        dsimp only at h
        split at h
        · split at h
          · obtain ⟨_, -, h⟩ := Run.bind_eq_ok.mp h
            obtain ⟨s₃, -, h⟩ := Run.bind_eq_ok.mp h
            cases h
            exact absurd rfl herr
          · cases h
            exact absurd rfl herr
        · obtain ⟨_, hl₂, h⟩ := Run.bind_eq_ok.mp h
          obtain ⟨s₃, h₃, h⟩ := Run.bind_eq_ok.mp h
          cases h
          exact (freed_tcpProcessReceive freed_tcpProcessAcceptAfter h₃).trans (live_of_ok hl₂)
      · cases h
        exact live_of_rcvView (rcvView_tcpRstReply s₁ seg) hlive₁
    · split at h
      · cases h
        exact live_of_rcvView (rcvView_tcpRexmit s₁) hlive₁
      · cases h
        exact hlive₁
  all_goals first
    | (cases h
       exact hlive₁)
    | (obtain ⟨s₂, h₂, h⟩ := Run.bind_eq_ok.mp h
       cases h
       exact (freed_tcpProcessReceive (freed_tcpProcessAfter _ seg) h₂).trans hlive₁)

theorem tcpInputRecv (hlive : s.freed = false) : Fails Fault.NotUse (Rudp.tcpInputRecv app s) := by
  unfold Rudp.tcpInputRecv
  split
  · exact .ok _
  refine .bind notUse_lwipAssert fun _ _ => ?_
  split
  · exact .bind (fails_tcpAbandon notUse_inner _ _) fun _ _ => .ok _
  refine .bind (hc.tcpEvent hlive) fun x hx => ?_
  obtain ⟨err, s₁⟩ := x
  dsimp only
  split
  · exact .ok _
  · next hret =>
    refine .bind (notUse_live (hc.live hx hlive (by simp) hret)) fun _ _ => ?_
    split <;> exact .ok _

omit hc in
theorem recv_live (hlive : s.freed = false) (h : Rudp.tcpInputRecv app s = .ok (false, s')) :
    s'.freed = false := by
  unfold Rudp.tcpInputRecv at h
  split at h
  · cases h
    exact hlive
  obtain ⟨_, -, h⟩ := Run.bind_eq_ok.mp h
  split at h
  · obtain ⟨s₁, -, h⟩ := Run.bind_eq_ok.mp h
    cases h
  obtain ⟨⟨err, s₁⟩, h₁, h⟩ := Run.bind_eq_ok.mp h
  dsimp only at h
  split at h
  · cases h
  obtain ⟨_, hl₁, h⟩ := Run.bind_eq_ok.mp h
  split at h
  · cases h
    exact live_of_ok hl₁
  · cases h
    exact live_of_ok hl₁

theorem tcpInputFin (hlive : s.freed = false) : Fails Fault.NotUse (Rudp.tcpInputFin app s) := by
  unfold Rudp.tcpInputFin
  split
  · split
    · exact .ok _
    · exact .bind (hc.tcpEvent (by exact hlive)) fun _ _ => .ok _
  · exact .ok _

theorem fin_live (hlive : s.freed = false) (h : Rudp.tcpInputFin app s = .ok (false, s')) :
    s'.freed = false := by
  unfold Rudp.tcpInputFin at h
  split at h
  · split at h
    · cases h
      exact hlive
    · obtain ⟨⟨ret, s₁⟩, h₁, h⟩ := Run.bind_eq_ok.mp h
      obtain ⟨hret, rfl⟩ := Prod.mk.inj (Except.ok.inj h)
      exact hc.live h₁ hlive (by simp) (of_decide_eq_false hret)
  · cases h
    exact hlive

theorem tcpInputSent (hlive : s.freed = false) : Fails Fault.NotUse (Rudp.tcpInputSent app s) := by
  unfold Rudp.tcpInputSent
  split
  · exact hc.tcpEvent hlive
  · exact .ok _

theorem sent_live {err : Err} (hlive : s.freed = false) (herr : err ≠ .abrt)
    (h : Rudp.tcpInputSent app s = .ok (err, s')) : s'.freed = false := by
  unfold Rudp.tcpInputSent at h
  split at h
  · exact hc.live h hlive (by simp) herr
  · cases h
    exact hlive

theorem tcpInputEvents (hlive : s.freed = false) :
    Fails Fault.NotUse (Rudp.tcpInputEvents app s) := by
  refine .bind (hc.tcpInputSent hlive) fun x hx => ?_
  obtain ⟨err, s₁⟩ := x
  dsimp only
  split
  · exact .ok _
  next hret =>
  have hlive₁ := hc.sent_live hlive hret hx
  refine .bind (notUse_live hlive₁) fun _ _ => ?_
  split
  · exact fails_tcpInputRemove notUse_inner _ _
  refine .bind (hc.tcpInputRecv hlive₁) fun x hx => ?_
  obtain ⟨gone, s₂⟩ := x
  dsimp only
  split
  · exact .ok _
  next hgone =>
  rw [show gone = false by simpa using hgone] at hx
  have hlive₂ := recv_live hlive₁ hx
  refine .bind (hc.tcpInputFin hlive₂) fun x hx => ?_
  obtain ⟨aborted, s₃⟩ := x
  dsimp only
  split
  · exact .ok _
  next habort =>
  rw [show aborted = false by simpa using habort] at hx
  refine .bind (notUse_live (hc.fin_live hlive₂ hx)) fun _ _ => ?_
  exact .bind (fails_tcpOutput notUse_inner _) fun _ _ => .ok _

theorem tcpInputRefused {seg : InSegment} (hlive : s.freed = false) :
    Fails Fault.NotUse (Rudp.tcpInputRefused app s seg) := by
  unfold Rudp.tcpInputRefused
  split
  · refine .bind (hc.tcpProcessRefusedData hlive) fun x hx => ?_
    obtain ⟨err, s₁⟩ := x
    dsimp only
    split
    · exact .ok _
    · next hret =>
      exact .bind (notUse_live (hc.refused_live hlive hret hx)) fun _ _ => .ok _
  · exact .ok _

omit hc in
theorem inputRefused_live {seg : InSegment} (hlive : s.freed = false)
    (h : Rudp.tcpInputRefused app s seg = .ok (false, s')) : s'.freed = false := by
  unfold Rudp.tcpInputRefused at h
  split at h
  · obtain ⟨⟨err, s₁⟩, -, h⟩ := Run.bind_eq_ok.mp h
    dsimp only at h
    split at h
    · cases h
    · obtain ⟨_, hl₁, h⟩ := Run.bind_eq_ok.mp h
      obtain ⟨-, rfl⟩ := Prod.mk.inj (Except.ok.inj h)
      exact live_of_ok hl₁
  · cases h
    exact hlive

theorem tcpInput {seg : InSegment} (hlive : s.freed = false) :
    Fails Fault.NotUse (Rudp.tcpInput app s seg) := by
  have hlive₀ : s.resetRecv.freed = false := hlive
  refine .bind (hc.tcpInputRefused hlive₀) fun x hx => ?_
  obtain ⟨dropped, s₁⟩ := x
  dsimp only
  split
  · exact .ok _
  next hd =>
  rw [show dropped = false by simpa using hd] at hx
  have hlive₁ := inputRefused_live hlive₀ hx
  refine .bind (hc.tcpProcess (by exact hlive₁)) fun x hx => ?_
  obtain ⟨err, s₂⟩ := x
  dsimp only
  split
  · exact .ok _
  next hret =>
  split
  · exact fails_tcpInputRemove notUse_inner _ _
  · exact hc.tcpInputEvents (process_live (s := { s₁ with inputPcb := true }) hlive₁ hret hx)

end Careful

theorem notUse_tcpTimewaitInput (s : St W) (seg : InSegment) :
    Fails Fault.NotUse (tcpTimewaitInput s seg) := by
  unfold tcpTimewaitInput
  split
  · exact .ok _
  split
  · exact .ok _
  generalize (if seg.flags.syn = false ∧ seg.flags.fin = true then _ else _) = s₁
  dsimp only
  split
  · exact .map _ (fails_tcpOutput notUse_inner _)
  · exact .ok _

theorem notUse_tcpListenSynAck (s : St W) : Fails Fault.NotUse (tcpListenSynAck s) := by
  refine .bind (fun e he => absurd he (tcpEnqueueFlags_ne_error (.inl rfl) e)) fun _ _ => ?_
  dsimp only
  split
  · exact .bind (fails_tcpAbandon notUse_inner _ _) fun _ _ => .ok _
  · exact fails_tcpOutput notUse_inner _

/-! ## Hosts -/

namespace Host

variable {pool : List ℕ} {h : Host W}

theorem notUse_abandonIf (h : Host W) (fails : ℕ → List Bool) (inactive : Option Slot)
    (reset : Bool) : Fails Fault.NotUse (h.abandonIf fails inactive reset) := by
  unfold abandonIf
  split
  · exact .ok _
  · exact .bind (fails_tcpAbandon notUse_inner _ _) fun _ _ => .ok _

/-- The walk of a kill over a list. -/
theorem notUse_kill (hS : Sane pool h) {l : PcbList} (hl : l ≠ .none) (fails : ℕ → List Bool)
    (inactive : Option Slot) (reset : Bool) :
    Fails Fault.NotUse (do h.reads (h.listOf l); h.abandonIf fails inactive reset) := by
  rw [hS.reads hl]
  exact notUse_abandonIf _ _ _ _

theorem notUse_tcpKillState (hS : Sane pool h) (fails : ℕ → List Bool) (state : TcpState) :
    Fails Fault.NotUse (h.tcpKillState fails state) :=
  .bind notUse_lwipAssert fun _ _ => notUse_kill hS (l := .active) nofun _ _ _

theorem notUse_attempt {x : Except Fault (Host W)} (hx : Fails Fault.NotUse x) :
    Fails Fault.NotUse (if h.free = [] then x else .ok h) := by
  split
  · exact hx
  · exact .ok _

theorem notUse_tcpAlloc (hI : Inv pool h) (fails : ℕ → List Bool) (prio : ℕ) (iss : U32)
    (callbackArg : W) : Fails Fault.NotUse (h.tcpAlloc fails prio iss callbackArg) := by
  refine .bind (notUse_attempt (notUse_kill hI.toSane (l := .tw) nofun _ _ _)) fun h₁ e₁ => ?_
  have hI₁ := hI.attempt hI.kill e₁
  refine .bind (notUse_attempt (notUse_tcpKillState hI₁.toSane _ _)) fun h₂ e₂ => ?_
  have hI₂ := hI₁.attempt hI₁.killState e₂
  refine .bind (notUse_attempt (notUse_tcpKillState hI₂.toSane _ _)) fun h₃ e₃ => ?_
  have hI₃ := hI₂.attempt hI₂.killState e₃
  refine .bind (notUse_attempt (notUse_kill hI₃.toSane (l := .active) nofun _ _ _)) fun _ _ => ?_
  exact .ok _

theorem Inv.active_live (hI : Inv pool h) {a : ℕ} (ha : a ∈ h.activePcbs) :
    (h.mem a).st.freed = false := by
  apply hI.live
  rw [hI.mem_active.mp ha]
  decide

theorem Inv.tw_live (hI : Inv pool h) {a : ℕ} (ha : a ∈ h.twPcbs) :
    (h.mem a).st.freed = false := by
  apply hI.live
  rw [hI.mem_tw.mp ha]
  decide

theorem notUse_findActive (hdr : TcpHdr) {l : List ℕ} (hl : ∀ a ∈ l, (h.mem a).st.freed = false) :
    Fails Fault.NotUse (h.findActive hdr l) := by
  induction l with
  | nil => exact .ok _
  | cons a l ih =>
    obtain ⟨ha, hl⟩ := List.forall_mem_cons.mp hl
    refine .bind (notUse_live ha) fun _ _ => .bind notUse_lwipAssert fun _ _ => ?_
    refine .bind notUse_lwipAssert fun _ _ => .bind notUse_lwipAssert fun _ _ => ?_
    split
    · exact .ok _
    · exact ih hl

theorem notUse_findTw (hdr : TcpHdr) {l : List ℕ} (hl : ∀ a ∈ l, (h.mem a).st.freed = false) :
    Fails Fault.NotUse (h.findTw hdr l) := by
  induction l with
  | nil => exact .ok _
  | cons a l ih =>
    obtain ⟨ha, hl⟩ := List.forall_mem_cons.mp hl
    refine .bind (notUse_live ha) fun _ _ => .bind notUse_lwipAssert fun _ _ => ?_
    split
    · exact .ok _
    · exact ih hl

theorem notUse_tcpListenInput (hI : Inv pool h) (fails : ℕ → List Bool) (rstFails : List Bool)
    (lpcb : ListenPcb W) (seg : InSegment) (iss serverId : U32) :
    Fails Fault.NotUse (h.tcpListenInput fails rstFails lpcb seg iss serverId) := by
  unfold Host.tcpListenInput
  split
  · exact .ok _
  split
  · exact .ok _
  split
  · refine .bind (notUse_tcpAlloc hI _ _ _ _) fun x _ => ?_
    obtain ⟨npcb, h₁⟩ := x
    cases npcb with
    | none => exact .ok _
    | some npcb => exact .bind (notUse_tcpListenSynAck _) fun _ _ => .ok _
  · exact .ok _

theorem notUse_tcpPcbsSane (hI : Inv pool h) : Fails Fault.NotUse h.tcpPcbsSane := by
  rw [hI.toSane.tcpPcbsSane]
  exact .ok _

theorem notUse_tcpInput (hc : Careful app) (happ : AppOk P app) (hI : Inv pool h)
    (fails : ℕ → List Bool) (rstFails : List Bool) (seg : InSegment) (iss serverId : U32) :
    Fails Fault.NotUse (h.tcpInput app fails rstFails seg iss serverId) := by
  refine .bind (notUse_findActive _ fun _ => hI.active_live) fun found hfound => ?_
  cases found with
  | some pcb =>
    have hp := mem_of_findActive hfound
    refine .bind (hc.tcpInput (by exact hI.active_live hp)) fun s hs => ?_
    refine .bind notUse_lwipAssert fun _ _ => ?_
    exact .bind (notUse_tcpPcbsSane (hI.found happ hp hs)) fun _ _ => .ok _
  | none =>
    refine .bind (notUse_findTw _ fun _ => hI.tw_live) fun found _ => ?_
    cases found with
    | some pcb => exact .bind (notUse_tcpTimewaitInput _ _) fun _ _ => .ok _
    | none =>
      dsimp only
      split
      · exact notUse_tcpListenInput hI _ _ _ _ _ _
      · split
        · exact .bind (notUse_tcpPcbsSane hI) fun _ _ => .ok _
        · exact .error (by simp [Fault.NotUse])

theorem notUse_walk {visit : ℕ → Elem W → Except Fault (Walk.Turn × Elem W)} (hI : Inv pool h)
    (hv : Turns h visit) (hvisit : ∀ a ∈ h.activePcbs, Fails Fault.NotUse (visit a (h.mem a))) :
    Fails Fault.NotUse (h.walk visit) := by
  rw [walk_eq hI.toSane hI.marked hv]
  exact .map _ (Walk.once_fails false true (notUse_assert _) (hI.lists.nodup .active) hvisit)

/-- The walk over the `TIME_WAIT` list does not fail. -/
theorem notUse_slowtmrTw (hI : Inv pool h) : Fails Fault.NotUse (slowtmrTw h.twPcbs h) := by
  obtain ⟨h', he, -⟩ := slowtmrTw_exact hI (l := h.twPcbs) (fun _ ha => ha) (hI.lists.nodup .tw)
  rw [he]
  exact .ok _

/-- The application names only pcbs that are in use. -/
def Owns (h : Host W) : HostOp W → Prop
  | .setprio pcb _ | .bind pcb _ | .listen pcb | .api pcb _ => (h.mem pcb).st.freed = false
  | _ => True

theorem notUse_hostStep (hc : Careful app) (happ : AppOk P app) (hI : Inv pool h)
    {op : (ℕ → List Bool) × HostOp W} (hown : h.Owns op.2) :
    Fails Fault.NotUse (hostStep app h op) := by
  obtain ⟨fails, op⟩ := op
  unfold hostStep
  cases op with
  | new iss callbackArg => exact .map _ (notUse_tcpAlloc hI _ _ _ _)
  | setprio pcb prio => exact .bind (notUse_live hown) fun _ _ => .ok _
  | bind pcb port =>
    refine .bind (notUse_live hown) fun _ _ => .bind notUse_lwipAssert fun _ _ => ?_
    split
    · exact .ok _
    split
    · exact .error (by simp [Fault.NotUse])
    · exact .ok _
  | listen pcb =>
    refine .bind (notUse_live hown) fun _ _ => .bind notUse_lwipAssert fun _ _ => ?_
    split <;> exact .ok _
  | api pcb call => exact .bind (notUse_apiCall (by exact hown) call) fun _ _ => .ok _
  | input seg iss serverId rstFails => exact notUse_tcpInput hc happ hI _ _ _ _ _
  | fasttmr =>
    refine .bind (notUse_walk hI (turns_fastVisit happ fails) fun a ha => ?_) fun _ _ => .ok _
    have hlive := hI.active_live ha
    exact .bind (notUse_live hlive) fun _ _ => .bind (hc.tcpFasttmr hlive) fun _ _ => .ok _
  | slowtmr =>
    have hturns := turns_slowVisit (h := h) happ fails
    refine .bind (notUse_walk hI hturns fun a ha => ?_) fun h₁ hw =>
      notUse_slowtmrTw (hI.walked hturns hw)
    have hlive := hI.active_live ha
    refine .bind (notUse_live hlive) fun _ _ => .bind notUse_lwipAssert fun _ _ => ?_
    refine .bind notUse_lwipAssert fun _ _ => .bind notUse_lwipAssert fun _ _ => ?_
    refine .bind ?_ fun _ _ => .ok _
    exact hc.tcpSlowtmr happ ((hI.listed a).congr rfl rfl rfl rfl) (hI.mem_active.mp ha) hlive

/-- In every run of a host whose callbacks, but for poll, return `ERR_ABRT` when they have freed their
    pcb, no pcb that `memp_free` has returned to the pool is used: neither by a call that the
    application makes for a pcb in use, nor in a search or a walk over a list, in a turn of a timer,
    behind a callback, or by `tcp_alloc` when it looks for a pcb to kill. -/
theorem none_used (hc : Careful app) (happ : AppOk P app) (hpool : pool.Nodup) {callbackArg : W}
    (hr : Run.Reach (hostStep app) HostOk (Host.boot pool callbackArg) h)
    {op : (ℕ → List Bool) × HostOp W} (hown : h.Owns op.2) :
    hostStep app h op ≠ .error .useAfterFree := fun he =>
  notUse_hostStep hc happ (inv_of_reach happ hpool hr) hown _ he rfl

theorem careful_refusingApp : Careful refusingApp where
  freed {e s s' ret} h hlive hf := by
    unfold refusingApp at h
    split at h
    · split at h
      · obtain ⟨_, -, h⟩ := Run.bind_eq_ok.mp h
        obtain ⟨s₁, -, h⟩ := Run.bind_eq_ok.mp h
        cases h
        exact .inl rfl
      · cases h
        exact absurd (hlive.symm.trans hf) (by decide)
    · cases h
      exact absurd (hlive.symm.trans hf) (by decide)
  used {e s} hlive := by
    unfold refusingApp
    split
    · split
      · exact notUse_apiCall hlive _
      · exact .ok _
    · exact .ok _

/-- Two callbacks free their pcbs in the walk of the timer. -/
theorem none_used_busy : (∃ h', hostStep refusingApp busy (fun _ => [], .fasttmr) = .ok h' ∧
      h'.free = [0, 1]) ∧
    hostStep refusingApp busy (fun _ => [], .fasttmr) ≠ .error .useAfterFree := by
  refine ⟨⟨_, rfl, ?_⟩, none_used (P := fun _ _ => True) careful_refusingApp
    (appOk_refusingApp fun _ => trivial) (by decide) reach_busy trivial⟩
  decide +kernel

/-- An application that refuses data at first, and closes when it is offered again. -/
def closingAgainApp : App Bool := fun e s =>
  match e with
  | .recv _ =>
    if s.world = true then do
      let (_, s) ← apiCall s .close
      .ok (.ok, s)
    else .ok (.mem, { s with world := true })
  | _ => .ok (.ok, s)

/-- `tcp_close` frees a pcb in `CLOSE_WAIT` with data unread, and `tcp_process_refused_data` goes on to
    the FIN that came with the data. -/
theorem none_used_fails : Run.exec (hostStep closingAgainApp) (Host.boot [0, 1] false)
    [(fun _ => [], .new 1 false), (fun _ => [], .bind 0 80), (fun _ => [], .listen 0),
      (fun _ => [], .input clientSyn 1 7 []), (fun _ => [], .input lastByte 1 7 []),
      (fun _ => [], .fasttmr)] = .error .useAfterFree := by
  rfl

end Host

end Rudp

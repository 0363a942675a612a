import Rudp.Retried
import Rudp.Room

/-!
# The lifetime of an fd

`rudp_close` frees the fd when `tcp_close` has returned `ERR_OK`, and `rudp_free` then resets the
callbacks of the pcb. Is the pcb still allocated? That depends on what `tcp_close` found (`Keeps`).
`rudp_error` resets them too, and most err callbacks come behind `memp_free`. `Tidy` rules out both.

Results:
* `closeSt_spec`: what `tcp_close` leaves.
* `Inv.writes`: what a step writes into the log. It passes no freed pcb exactly when it is tidy.
* `Ledger.grows`: an fd is made and freed in turn.
* `Inv.fails`: no step runs into the assertion of a setter.
* `fds_touch_live_pcbs`: all of it for every run of tidy steps.
* `fds_touch_live_pcbs_fails`: an fd that is closed before it was connected.
-/

namespace Rudp.Layer

variable {s s' : Sys} {a p : Addr} {fd : RudpFd}

open Run (bind_eq_ok Fails)

/-! ## `tcp_close` and the pcb -/

/-- `tcp_close` leaves the pcb allocated. -/
def Keeps (st : St Unit) : Prop :=
  st.pcb.state ≠ .CLOSED ∧ st.pcb.state ≠ .LISTEN ∧ st.pcb.state ≠ .SYN_SENT ∧
    ¬ (st.pcb.state = .CLOSE_WAIT ∧ st.pcb.unread ∧ st.inputPcb = false)

theorem keeps_tcpCloseFin {st st' : St Unit} {t : TcpState} {err : Err}
    (h : tcpCloseFin st t = .ok (err, st')) :
    st'.freed = st.freed ∧ (st'.pcb.state = t ∨ st'.pcb.state = st.pcb.state) := by
  obtain ⟨⟨err₁, st₁⟩, h₁, h⟩ := bind_eq_ok.mp h
  have hv := rcvView_tcpSendFin h₁
  have hf : st₁.freed = st.freed := congrArg (fun v => v.freed) hv
  have hs : st₁.pcb.state = st.pcb.state := congrArg RcvView.state hv
  dsimp only at h
  split at h
  · obtain ⟨⟨err₂, st₂⟩, h₂, h⟩ := bind_eq_ok.mp h
    have hv₂ := rcvView_tcpOutput h₂
    have hf₂ : st₂.freed = st₁.freed := congrArg (fun v => v.freed) hv₂
    have hs₂ : st₂.pcb.state = t := congrArg RcvView.state hv₂
    cases h
    exact ⟨hf₂.trans hf, .inl hs₂⟩
  · cases h
    exact ⟨hf, .inr hs⟩

theorem state_tcpPcbPurge (pcb : Pcb) : (tcpPcbPurge pcb).state = pcb.state := by
  unfold tcpPcbPurge
  split <;> rfl

theorem state_tcpPcbRemove {st st' : St Unit} (h : tcpPcbRemove st = .ok st') :
    st'.pcb.state = .CLOSED := by
  obtain ⟨_, -, h⟩ := bind_eq_ok.mp h
  obtain ⟨_, -, h⟩ := bind_eq_ok.mp h
  obtain ⟨_, -, h⟩ := bind_eq_ok.mp h
  obtain ⟨_, -, h⟩ := bind_eq_ok.mp h
  cases h
  rfl

theorem tcpCloseRst_freed {st st' : St Unit} (h : tcpCloseRst st = .ok st') :
    (st'.pcb.state = .TIME_WAIT ∨ st'.pcb.state = st.pcb.state) ∧ st'.freed =
      if st.pcb.state = .ESTABLISHED ∨ st.inputPcb = true then st.freed else true := by
  obtain ⟨_, -, h⟩ := bind_eq_ok.mp h
  have hv := rcvView_tcpRst st st.pcb.sndNxt st.pcb.rcvNxt st.pcb.connId
  have hf : (tcpRst st st.pcb.sndNxt st.pcb.rcvNxt st.pcb.connId).freed = st.freed :=
    congrArg (fun v => v.freed) hv
  have hs : (tcpPcbPurge (tcpRst st st.pcb.sndNxt st.pcb.rcvNxt st.pcb.connId).pcb).state =
      st.pcb.state := (state_tcpPcbPurge _).trans (congrArg RcvView.state hv)
  have hi : (tcpRst st st.pcb.sndNxt st.pcb.rcvNxt st.pcb.connId).inputPcb = st.inputPcb :=
    congrArg (fun v => v.inputPcb) hv
  dsimp only at h
  rw [hs, hi] at h
  split at h
  · next he =>
    cases h
    simp [he, hf]
  · next he =>
    split at h
    · next hin =>
      cases h
      simp [hin, hf, hs]
    · next hin =>
      cases h
      simp [he, hin, hs, St.free]

/-- What `tcp_close` leaves, and when it frees the pcb. -/
theorem closeSt_spec {st st' : St Unit} {err : Err} (h : closeSt st = .ok (err, st')) :
    st'.pcb.state ≠ .LISTEN ∧ (Keeps st → st'.freed = st.freed) ∧
      (¬ Keeps st → err = .ok ∧ st'.freed = true) := by
  unfold closeSt at h
  split at h
  · next hl =>
    cases h
    simp [Keeps, hl, St.free]
  next hl =>
  unfold Rudp.tcpClose tcpCloseShutdown at h
  split at h
  · next hrst =>
    obtain ⟨-, hst, hun⟩ := hrst
    obtain ⟨st₁, h₁, h⟩ := bind_eq_ok.mp h
    cases h
    obtain ⟨hs, hf⟩ := tcpCloseRst_freed h₁
    have hst : st.pcb.state = .ESTABLISHED ∨ st.pcb.state = .CLOSE_WAIT := hst
    have hun : st.pcb.unread := hun
    refine ⟨?_, fun hk => ?_, fun hk => ⟨rfl, ?_⟩⟩
    · rcases hs with hs | hs
      · simp [hs]
      · rw [hs]
        exact hl
    · rw [hf]
      rcases hst with hst | hst
      · simp [hst]
      · have hin : st.inputPcb = true := by
          by_contra hin
          exact hk.2.2.2 ⟨hst, hun, by simpa using hin⟩
        simp [hin]
    · rw [hf]
      rcases hst with hst | hst
      · simp [Keeps, hst] at hk
      · have hin : st.inputPcb = false := by
          by_contra hin
          apply hk
          simp [Keeps, hst, hin]
        simp [hst, hin]
  · next hrst =>
    have hn : ¬ (st.pcb.state = .CLOSE_WAIT ∧ st.pcb.unread ∧ st.inputPcb = false) := by
      rintro ⟨hst, hun, -⟩
      exact hrst ⟨rfl, .inr hst, hun⟩
    have hfin {t : TcpState} (ht : t ≠ .LISTEN) (hst : Keeps st)
        (h : tcpCloseFin { st with pcb.tfRxClosed := true } t = .ok (err, st')) :
        st'.pcb.state ≠ .LISTEN ∧ (Keeps st → st'.freed = st.freed) ∧
          (¬ Keeps st → err = .ok ∧ st'.freed = true) := by
      obtain ⟨hf, hs⟩ := keeps_tcpCloseFin h
      refine ⟨?_, fun _ => hf, fun hk => absurd hst hk⟩
      rcases hs with hs | hs
      · rw [hs]
        exact ht
      · rw [hs]
        exact hl
    split at h
    · next hst =>
      have hst : st.pcb.state = .CLOSED := hst
      cases h
      simp [Keeps, hst, St.free]
    · next hst =>
      have hst : st.pcb.state = .SYN_SENT := hst
      obtain ⟨st₁, h₁, h⟩ := bind_eq_ok.mp h
      obtain ⟨st₂, h₂, h₁⟩ := bind_eq_ok.mp h₁
      cases h
      cases h₁
      simp [Keeps, hst, St.free, state_tcpPcbRemove h₂]
    · next hst =>
      have hst : st.pcb.state = .SYN_RCVD := hst
      exact hfin (by decide) (by simp [Keeps, hst]) h
    · next hst =>
      have hst : st.pcb.state = .ESTABLISHED := hst
      exact hfin (by decide) (by simp [Keeps, hst]) h
    · next hst =>
      have hst : st.pcb.state = .CLOSE_WAIT := hst
      refine hfin (by decide) ⟨?_, ?_, ?_, hn⟩ h <;> simp [hst]
    · next h1 h2 h3 h4 h5 =>
      cases h
      refine ⟨hl, fun _ => rfl, fun hk => absurd ⟨h1, hl, h2, hn⟩ hk⟩

/-! ## The ledger -/

/-- The block is an fd: it was made, and not freed since. -/
def Held (a : Addr) : List Act → Prop := Log.Since (fun x => x = .made a) (fun x => x = .freed a)

/-- An fd is made of a block that is not one, and only an fd is freed. -/
def Paired (past : List Act) : Act → Prop
  | .made a => ¬ Held a past
  | .freed a => Held a past
  | _ => True

/-- The log tells which blocks are fds, and each of them is freed once. -/
structure Ledger (s : Sys) : Prop where
  alloc : ∀ a, s.fds a ≠ none ↔ Held a s.log
  once : Log.Throughout Paired s.log

/-- Says nothing about fds. -/
def Act.Neutral (x : Act) : Prop := ∀ a, x ≠ .made a ∧ x ≠ .freed a

/-- The log grows by these events, and the fds with it. -/
inductive Grows (s s' : Sys) : List Act → Prop
  | keep {l : List Act} (hl : ∀ y ∈ l, y.Neutral) (hlog : s'.log = s.log ++ l)
      (hfds : ∀ b, s'.fds b = none ↔ s.fds b = none) : Grows s s' l
  | made {a : Addr} {l₁ l₂ : List Act} (ha : s.fds a = none) (h₁ : ∀ y ∈ l₁, y.Neutral)
      (h₂ : ∀ y ∈ l₂, y.Neutral) (hlog : s'.log = s.log ++ (l₁ ++ .made a :: l₂))
      (hfds : ∀ b, s'.fds b = none ↔ b ≠ a ∧ s.fds b = none) : Grows s s' (l₁ ++ .made a :: l₂)
  | freed {a : Addr} {l : List Act} (ha : s.fds a ≠ none) (hl : ∀ y ∈ l, y.Neutral)
      (hlog : s'.log = s.log ++ (l ++ [.freed a]))
      (hfds : ∀ b, s'.fds b = none ↔ b = a ∨ s.fds b = none) : Grows s s' (l ++ [.freed a])

theorem Act.Neutral.paired {x : Act} (h : x.Neutral) (t : List Act) : Paired t x := by
  cases x with
  | made a => exact absurd rfl (h a).1
  | freed a => exact absurd rfl (h a).2
  | pass p live => trivial
  | tcpClose caller p err => trivial
  | refused a => trivial
  | callback f a => trivial

variable {l t : List Act}

/-- Such events change nothing. -/
theorem held_append (hl : ∀ y ∈ l, y.Neutral) : Held a (t ++ l) ↔ Held a t := by
  apply Log.since_append
  · intro y hy
    exact (hl y hy a).1
  · intro y hy
    exact (hl y hy a).2

theorem held_made {b : Addr} : Held b (t ++ [.made a]) ↔ b = a ∨ Held b t := by
  unfold Held
  rw [Log.since_concat]
  simp [eq_comm]

theorem held_freed {b : Addr} : Held b (t ++ [.freed a]) ↔ b ≠ a ∧ Held b t := by
  unfold Held
  rw [Log.since_concat]
  simp [eq_comm, and_comm]

theorem once_append (h : Log.Throughout Paired t) (hl : ∀ y ∈ l, y.Neutral) :
    Log.Throughout Paired (t ++ l) :=
  h.append fun y hy => (hl y hy).paired

theorem Grows.log (h : Grows s s' l) : s'.log = s.log ++ l := by
  cases h with
  | keep hl hlog hfds => exact hlog
  | made ha h₁ h₂ hlog hfds => exact hlog
  | freed ha hl hlog hfds => exact hlog

/-- A step keeps the ledger. -/
theorem Ledger.grows (h : Ledger s) (hg : Grows s s' l) : Ledger s' := by
  cases hg with
  | keep hl hlog hfds =>
    constructor
    · intro b
      rw [hlog, held_append hl, ← h.alloc b]
      exact not_congr (hfds b)
    · rw [hlog]
      exact once_append h.once hl
  | @made a l₁ l₂ ha h₁ h₂ hlog hfds =>
    have hlog' : s'.log = s.log ++ l₁ ++ [.made a] ++ l₂ := by simp [hlog]
    constructor
    · intro b
      rw [hlog', held_append h₂, held_made, held_append h₁, ← h.alloc b]
      have hb := hfds b
      tauto
    · rw [hlog']
      refine once_append (Log.throughout_concat.mpr ⟨once_append h.once h₁, ?_⟩) h₂
      intro hh
      rw [held_append h₁, ← h.alloc a] at hh
      exact hh ha
  | @freed a l ha hl hlog hfds =>
    have hlog' : s'.log = s.log ++ l ++ [.freed a] := by simp [hlog]
    constructor
    · intro b
      rw [hlog', held_freed, held_append hl, ← h.alloc b]
      have hb := hfds b
      tauto
    · rw [hlog']
      refine Log.throughout_concat.mpr ⟨once_append h.once hl, ?_⟩
      show Held a _
      rw [held_append hl, ← h.alloc a]
      exact ha

theorem Ledger.init : Ledger init where
  alloc a := by
    constructor
    · intro h
      exact absurd rfl h
    · intro h
      exact absurd h Log.Since.not_nil
  once := Log.throughout_nil

/-! ## What a step writes into the log -/

/-- A callback that finds the fd marked finds a pcb that `tcp_close` keeps. -/
def RetryKeeps (s : Sys) (p : Addr) : Prop :=
  ∀ a ∈ (s.pcbs p).callbackArg, ∀ fd, s.fds a = some fd → fd.isClosing ≠ 0 →
    Keeps (s.pcbs fd.pcb).st

/-- `rudp_close` is called, by the application or again by a callback, for an fd that is still there
    and a pcb that `tcp_close` keeps, and an err callback comes in front of `memp_free`. -/
def Tidy (s : Sys) : LayerOp → Prop
  | .close a _ => ∃ fd, s.fds a = some fd ∧ Keeps (s.pcbs fd.pcb).st
  | .sent p _ => (s.pcbs p).sent = true → RetryKeeps s p
  | .poll p _ => (s.pcbs p).poll = true → RetryKeeps s p
  | .abort p early => early = true → (s.pcbs p).errf = false
  | _ => True

/-- No pcb is passed behind `memp_free`. -/
def AllLive (l : List Act) : Prop := ∀ p, .pass p false ∉ l

theorem allLive_passes {live : Bool} : AllLive (passes p live) ↔ live = true := by
  unfold AllLive
  cases live with
  | true => simp [passes]
  | false =>
    simp only [Bool.false_eq_true, iff_false]
    intro h
    exact h p (by simp [passes])

theorem allLive_append {l₁ l₂ : List Act} : AllLive (l₁ ++ l₂) ↔ AllLive l₁ ∧ AllLive l₂ := by
  unfold AllLive
  simp only [List.mem_append, not_or]
  exact forall_and

/-- A step writes `l`, and it is tidy exactly when `l` passes no freed pcb. -/
def Writes (s s' : Sys) (op : LayerOp) : Prop := ∃ l, Grows s s' l ∧ (Tidy s op ↔ AllLive l)

theorem neutral_passes {live : Bool} : ∀ y ∈ passes p live, y.Neutral := by
  intro y hy
  rw [List.eq_of_mem_replicate hy]
  simp [Act.Neutral]

theorem neutral_append {l₁ l₂ : List Act} (h₁ : ∀ y ∈ l₁, y.Neutral) (h₂ : ∀ y ∈ l₂, y.Neutral) :
    ∀ y ∈ l₁ ++ l₂, y.Neutral := by
  intro y hy
  rcases List.mem_append.mp hy with hy | hy
  · exact h₁ y hy
  · exact h₂ y hy

/-- A step that writes nothing about pcbs and makes or frees no fd. -/
theorem Writes.quiet {op : LayerOp} (ht : Tidy s op) (hlog : s'.log = s.log)
    (hfds : ∀ b, s'.fds b = none ↔ s.fds b = none) : Writes s s' op := by
  refine ⟨[], .keep (by simp) (by simp [hlog]) hfds, ?_⟩
  simp [ht, AllLive]

theorem setFd_fds {fd' : RudpFd} (ha : s.fds a = some fd) (b : Addr) :
    (s.setFd a fd').fds b = none ↔ s.fds b = none := by
  by_cases hb : b = a
  · subst hb
    simp [ha]
  · simp [hb]

/-- A block becomes an fd. -/
theorem update_some {f : Addr → Option RudpFd} (b : Addr) :
    Function.update f a (some fd) b = none ↔ b ≠ a ∧ f b = none := by
  by_cases hb : b = a
  · subst hb
    simp
  · simp [hb]

theorem update_none {f : Addr → Option RudpFd} (b : Addr) :
    Function.update f a none b = none ↔ b = a ∨ f b = none := by
  by_cases hb : b = a
  · subst hb
    simp
  · simp [hb]

namespace Inv

variable {c : Prop}

theorem writes_socket {block : Option (Addr × RudpFd)} {pcb : Option (Addr × St Unit)}
    (he : Env s (.socket block pcb)) (hr : Layer.rudpSocket s block pcb = .ok s') :
    Writes s s' (.socket block pcb) := by
  obtain ⟨hb, hx⟩ := he
  cases block with
  | none =>
    cases hr
    exact .quiet trivial rfl fun _ => Iff.rfl
  | some b =>
    obtain ⟨a, content⟩ := b
    cases pcb with
    | none =>
      cases hr
      exact .quiet trivial rfl fun _ => Iff.rfl
    | some x =>
      obtain ⟨p, st⟩ := x
      have hlive : st.freed = false := (hx (p, st) rfl).2.2
      obtain ⟨fd, hfd, -, rfl⟩ := setupPcb_spec hr
      refine ⟨[] ++ .made a :: passes p true, .made (hb (a, content) rfl) (by simp)
        neutral_passes (by simp [hlive]) ?_, ?_⟩
      · simp [update_some]
      · simp only [Tidy, true_iff]
        intro q
        simp [passes]

theorem writes_listen {lpcb : Option Addr} {acceptCb recvCb : Addr} (h : Inv c s)
    (hr : Layer.rudpListen s a lpcb acceptCb recvCb = .ok s') :
    Writes s s' (.listen a lpcb acceptCb recvCb) := by
  obtain ⟨fd, ha, hr⟩ := bind_eq_ok.mp hr
  obtain ⟨_, -, hr⟩ := bind_eq_ok.mp hr
  replace ha := deref_ok.mp ha
  cases lpcb with
  | none =>
    cases hr
    exact .quiet trivial rfl fun _ => Iff.rfl
  | some l =>
    cases hr
    have ho := h.owned a fd ha
    refine ⟨[.pass l true, .pass l true], .keep (by simp [Act.Neutral]) ?_ ?_, ?_⟩
    · simp [tcpArg, tcpAccept, ho.live]
    · exact setFd_fds ha
    · simp [Tidy, AllLive]

theorem writes_send {buf : List Byte} {fails : List Bool}
    (hr : Layer.rudpSend s a buf fails = .ok s') : Writes s s' (.send a buf fails) := by
  obtain ⟨fd, ha, hr⟩ := bind_eq_ok.mp hr
  obtain ⟨⟨ret, st⟩, hst, hr⟩ := bind_eq_ok.mp hr
  cases hr
  split
  · refine ⟨[.refused a], .keep (by simp [Act.Neutral]) (by simp) (fun _ => Iff.rfl), ?_⟩
    simp [Tidy, AllLive]
  · exact .quiet trivial rfl fun _ => Iff.rfl

/-- `rudp_close` of an fd whose pcb is allocated. -/
theorem writes_close {caller : Caller} {fails : List Bool} {op : LayerOp}
    (h : Inv c s) (ha : s.fds a = some fd) (ht : Tidy s op ↔ Keeps (s.pcbs fd.pcb).st)
    (hr : Layer.rudpClose s a caller fails = .ok s') : Writes s s' op := by
  obtain ⟨fd', err, st, ha', hcl, hs⟩ := rudpClose_spec hr
  obtain rfl : fd = fd' := Option.some.inj (ha.symm.trans ha')
  have hlive := (h.owned a fd ha).live
  obtain ⟨-, hkeep, hfree⟩ := closeSt_spec hcl
  have hkeep : Keeps (s.pcbs fd.pcb).st → st.freed = false := fun hk => (hkeep hk).trans hlive
  have hfree : ¬ Keeps (s.pcbs fd.pcb).st → err = .ok ∧ st.freed = true := hfree
  rcases hs with ⟨-, rfl⟩ | ⟨herr, rfl⟩
  · refine ⟨_, .freed (by simp [ha]) (l := [.pass fd.pcb true, .tcpClose caller fd.pcb .ok] ++
      passes fd.pcb (!st.freed)) ?_ (by simp [hlive]) update_none, ?_⟩
    · exact neutral_append (by simp [Act.Neutral]) neutral_passes
    · rw [ht, allLive_append, allLive_append, allLive_passes]
      simp only [AllLive, List.mem_cons, List.mem_nil_iff]
      by_cases hk : Keeps (s.pcbs fd.pcb).st
      · simp [hk, hkeep hk]
      · simp [hk, (hfree hk).2]
  · have hk : Keeps (s.pcbs fd.pcb).st := by
      by_contra hk
      exact herr (hfree hk).1
    refine ⟨[.pass fd.pcb true, .tcpClose caller fd.pcb err], .keep (by simp [Act.Neutral])
      (by simp [hlive]) (setFd_fds ha), ?_⟩
    rw [ht]
    simp [AllLive, hk]

/-- The pcb of an fd has a callback that tries again. -/
theorem writes_retry {fails : List Bool} {op : LayerOp} (h : Inv c s) (hp : s.Connection p)
    (hh : (s.pcbs p).Hooked) (ht : Tidy s op ↔ RetryKeeps s p)
    (hr : Layer.retryClose s (s.pcbs p).callbackArg fails = .ok s') : Writes s s' op := by
  obtain ⟨a, fd, harg, ha, rfl⟩ := h.hooked p hp.1 hh
  rw [harg] at hr
  obtain ⟨fd', ha', hr⟩ := bind_eq_ok.mp hr
  obtain rfl : fd = fd' := Option.some.inj (ha.symm.trans (deref_ok.mp ha'))
  have hk : RetryKeeps s fd.pcb ↔ (fd.isClosing ≠ 0 → Keeps (s.pcbs fd.pcb).st) := by
    unfold RetryKeeps
    simp [harg, ha]
  split at hr
  · next hne =>
    refine h.writes_close ha ?_ hr
    rw [ht, hk]
    simp [hne]
  · next hne =>
    cases hr
    refine .quiet ?_ rfl fun _ => Iff.rfl
    rw [ht, hk]
    intro h
    exact absurd h hne

theorem writes_accept {block : Option (Addr × RudpFd)} {fails : List Bool}
    (he : Env s (.accept p block fails)) (hr : Layer.layerStep s (.accept p block fails) = .ok s') :
    Writes s s' (.accept p block fails) := by
  obtain ⟨⟨hlive, -⟩, -, hb⟩ := he
  dsimp only [Layer.layerStep] at hr
  split at hr
  · unfold Layer.onAccept at hr
    dsimp only at hr
    cases block with
    | none =>
      obtain ⟨⟨err, s₁⟩, hcl, rfl⟩ := Run.map_eq_ok.mp hr
      obtain ⟨st, -, rfl⟩ := tcpClose_spec hcl
      refine ⟨[.pass p true, .pass p true, .tcpClose .accept p err], .keep (by simp [Act.Neutral])
        (by simp [tcpSetprio, hlive]) (fun _ => Iff.rfl), ?_⟩
      simp [Tidy, AllLive]
    | some b =>
      obtain ⟨a, content⟩ := b
      obtain ⟨s₁, hset, hr⟩ := bind_eq_ok.mp hr
      obtain ⟨fd, -, -, rfl⟩ := setupPcb_spec hset
      split at hr
      · cases hr
      · obtain ⟨listenFd, -, hr⟩ := bind_eq_ok.mp hr
        obtain ⟨newFd, -, hr⟩ := bind_eq_ok.mp hr
        rw [← Except.ok.inj hr]
        refine ⟨[.pass p true] ++ .made a :: (passes p true ++ [.callback listenFd.acceptCb a]),
          .made (hb (a, content) rfl) (by simp [Act.Neutral])
          (neutral_append neutral_passes (by simp [Act.Neutral])) ?_ ?_, ?_⟩
        · simp [tcpSetprio, hlive]
        · simp [tcpSetprio, update_some]
        · simp only [Tidy, true_iff]
          intro q
          simp [passes]
  · cases hr
    exact .quiet trivial rfl fun _ => Iff.rfl

theorem writes_callback {op : LayerOp} {fn : Addr} (ht : Tidy s op)
    (hlog : s'.log = s.log ++ [.callback fn a]) (hfds : s'.fds = s.fds) : Writes s s' op := by
  refine ⟨[.callback fn a], .keep (by simp [Act.Neutral]) hlog (by simp [hfds]), ?_⟩
  simp [ht, AllLive]

theorem writes_recv {arg : Option Addr} {len : Option ℕ} {op : LayerOp} (ht : Tidy s op)
    (hr : Layer.onRecv s arg p len = .ok s') : Writes s s' op := by
  cases arg with
  | none =>
    cases len with
    | none =>
      cases hr
      exact .quiet ht rfl fun _ => Iff.rfl
    | some n => cases hr
  | some a =>
    cases len with
    | none =>
      obtain ⟨fd, -, hr⟩ := bind_eq_ok.mp hr
      rw [← Except.ok.inj hr]
      exact writes_callback ht rfl rfl
    | some n =>
      obtain ⟨fd, -, hr⟩ := bind_eq_ok.mp hr
      obtain ⟨st, -, hr⟩ := bind_eq_ok.mp hr
      rw [← Except.ok.inj hr]
      exact writes_callback ht rfl rfl

theorem writes_connect {arg : Option Addr} {op : LayerOp} {t : Sys} (ht : Tidy s op)
    (hlog : t.log = s.log) (hfds : t.fds = s.fds) (hr : Layer.onConnect t arg = .ok s') :
    Writes s s' op := by
  cases arg with
  | none => cases hr
  | some a =>
    obtain ⟨fd, -, hr⟩ := bind_eq_ok.mp hr
    rw [← Except.ok.inj hr]
    have hlog' : (t.emit (.callback fd.connectedCb a)).log = s.log ++ [.callback fd.connectedCb a] := by
      simp [hlog]
    exact writes_callback ht hlog' hfds

theorem writes_abort {early : Bool} (h : Inv c s) (hp : s.Connection p)
    (hr : Layer.layerStep s (.abort p early) = .ok s') : Writes s s' (.abort p early) := by
  cases herr : (s.pcbs p).errf with
  | false =>
    rw [abort_quiet herr hr]
    exact .quiet (fun _ => herr) rfl fun _ => Iff.rfl
  | true =>
    obtain ⟨a, fd, harg, ha, rfl⟩ := h.hooked p hp.1 (.inr (.inr (.inl herr)))
    rw [abort_spec hp.1 herr harg ha hr]
    refine ⟨_, .freed (by simp [ha]) neutral_passes rfl update_none, ?_⟩
    rw [allLive_append, allLive_passes]
    simp [Tidy, AllLive, herr]

/-- What a step writes into the log. -/
theorem writes {op : LayerOp} (h : Inv c s) (he : Env s op) (hr : Layer.layerStep s op = .ok s') :
    Writes s s' op := by
  cases op with
  | socket block pcb => exact writes_socket he hr
  | bind a udp port =>
    obtain ⟨fd, -, hr⟩ := bind_eq_ok.mp hr
    split at hr
    · obtain ⟨_, -, hr⟩ := bind_eq_ok.mp hr
      obtain ⟨_, -, hr⟩ := bind_eq_ok.mp hr
      cases hr
      exact .quiet trivial rfl fun _ => Iff.rfl
    · cases hr
      exact .quiet trivial rfl fun _ => Iff.rfl
  | listen a lpcb acceptCb recvCb => exact h.writes_listen hr
  | connect a connectedCb recvCb newPort iss fails =>
    obtain ⟨fd, ha, hr⟩ := bind_eq_ok.mp hr
    obtain ⟨⟨err, st⟩, -, hr⟩ := bind_eq_ok.mp hr
    cases hr
    exact .quiet trivial rfl (setFd_fds (deref_ok.mp ha))
  | send a buf fails => exact writes_send hr
  | close a fails =>
    obtain ⟨fd, err, st, ha, -⟩ := rudpClose_spec hr
    refine h.writes_close ha ?_ hr
    simp [Tidy, ha]
  | accept p block fails => exact writes_accept he hr
  | recv p len =>
    dsimp only [Layer.layerStep] at hr
    split at hr
    · exact writes_recv trivial hr
    · cases hr
      exact .quiet trivial rfl fun _ => Iff.rfl
  | connected p =>
    dsimp only [Layer.layerStep] at hr
    split at hr
    · exact writes_connect (t := s.setPcb p { s.pcbs p with st.pcb.state := .ESTABLISHED }) trivial
        rfl rfl hr
    · cases hr
      exact .quiet trivial rfl fun _ => Iff.rfl
  | sent p fails =>
    dsimp only [Layer.layerStep] at hr
    split at hr
    · next hs => exact h.writes_retry he (.inr (.inl hs)) (by simp [Tidy, hs]) hr
    · next hs =>
      cases hr
      exact .quiet (fun h => absurd h hs) rfl fun _ => Iff.rfl
  | poll p fails =>
    dsimp only [Layer.layerStep] at hr
    split at hr
    · next hs => exact h.writes_retry he (.inr (.inr (.inr hs))) (by simp [Tidy, hs]) hr
    · next hs =>
      cases hr
      exact .quiet (fun h => absurd h hs) rfl fun _ => Iff.rfl
  | abort p early => exact h.writes_abort he hr
  | syn l p st =>
    cases hr
    exact .quiet trivial rfl fun _ => Iff.rfl
  | move p st =>
    cases hr
    exact .quiet trivial rfl fun _ => Iff.rfl
  | expire p =>
    cases hr
    exact .quiet trivial rfl fun _ => Iff.rfl

end Inv

/-! ## The assertions of the setters -/

/-- The assertions on the state in the setters. -/
def setterMessages : List String :=
  ["invalid socket state for recv callback", "invalid socket state for sent callback",
    "invalid socket state for err callback", "invalid socket state for poll"]

/-- Not an assertion of a setter. -/
def NotSetter (e : Fault) : Prop := ∀ m ∈ setterMessages, e ≠ .assert m

theorem NotSetter.assert {m : String} (h : m ∉ setterMessages) : NotSetter (.assert m) := by
  intro m' hm' he
  cases he
  exact h hm'

theorem notSetter_glue (e : Fault) (h : e.Glue) : NotSetter e := by
  intro m hm he
  subst he
  simp only [setterMessages, List.mem_cons, List.not_mem_nil, or_false] at hm
  rcases hm with rfl | rfl | rfl | rfl <;> simp [Fault.Glue] at h

theorem notSetter_inner (e : Fault) (h : e.Glue) (_ : e ≠ .useAfterFree) : NotSetter e :=
  notSetter_glue e h

theorem fails_deref : Fails NotSetter (s.deref a) := by
  unfold Sys.deref
  split
  · exact .ok _
  · exact .error (notSetter_glue _ trivial)

/-- A pcb that does not listen. -/
theorem fails_setCallback {message : String} {set : TcpPcb → TcpPcb}
    (h : (s.pcbs p).st.pcb.state ≠ .LISTEN) : Fails NotSetter (setCallback message set s p) := by
  refine .bind (Fails.lwipAssert fun hn => absurd h hn) fun _ _ => .ok _

theorem fails_setupPcb (h : (s.pcbs p).st.pcb.state ≠ .LISTEN) :
    Fails NotSetter (setupPcb s a p) := by
  have h₀ : ((tcpArg s p (some a)).pcbs p).st.pcb.state ≠ .LISTEN := by simpa [tcpArg] using h
  refine .bind fails_deref fun fd _ => ?_
  refine .bind (fails_setCallback h₀) fun s₁ h₁ => ?_
  obtain ⟨-, rfl⟩ := setCallback_ok h₁
  refine .bind (fails_setCallback (by simpa using h₀)) fun s₂ h₂ => ?_
  obtain ⟨-, rfl⟩ := setCallback_ok h₂
  refine .bind (fails_setCallback (by simpa using h₀)) fun s₃ h₃ => ?_
  obtain ⟨-, rfl⟩ := setCallback_ok h₃
  exact fails_setCallback (by simpa using h₀)

theorem fails_rudpFree (ha : s.fds a = some fd) (h : (s.pcbs fd.pcb).st.pcb.state ≠ .LISTEN) :
    Fails NotSetter (rudpFree s a) := by
  refine .bind fails_deref fun fd' ha' => ?_
  obtain rfl : fd = fd' := Option.some.inj (ha.symm.trans (deref_ok.mp ha'))
  have h₀ : ((tcpArg s fd.pcb none).pcbs fd.pcb).st.pcb.state ≠ .LISTEN := by simpa [tcpArg] using h
  refine .bind (fails_setCallback h₀) fun s₁ h₁ => ?_
  obtain ⟨-, rfl⟩ := setCallback_ok h₁
  refine .bind (fails_setCallback (by simpa using h₀)) fun s₂ h₂ => ?_
  obtain ⟨-, rfl⟩ := setCallback_ok h₂
  refine .bind (fails_setCallback (by simpa using h₀)) fun s₃ h₃ => ?_
  obtain ⟨-, rfl⟩ := setCallback_ok h₃
  exact .bind (fails_setCallback (by simpa using h₀)) fun _ _ => .ok _

theorem fails_closeSt (st : St Unit) : Fails NotSetter (closeSt st) := by
  unfold closeSt
  split
  · exact .ok _
  · exact fails_tcpCloseShutdown notSetter_inner _ _

theorem fails_tcpClose {caller : Caller} {fails : List Bool} :
    Fails NotSetter (tcpClose s p caller fails) :=
  .bind (fails_closeSt _) fun _ _ => .ok _

/-- `rudp_free` finds no listening pcb: `tcp_close` has closed it. -/
theorem fails_rudpClose {caller : Caller} {fails : List Bool} :
    Fails NotSetter (rudpClose s a caller fails) := by
  refine .bind fails_deref fun fd ha => ?_
  refine .bind fails_tcpClose fun x hx => ?_
  obtain ⟨err, s₁⟩ := x
  obtain ⟨st, hcl, rfl⟩ := tcpClose_spec hx
  dsimp only
  split
  · have ha' : s.fds a = some fd := deref_ok.mp ha
    refine fails_rudpFree ha' ?_
    simpa using (closeSt_spec hcl).1
  · exact .ok _

theorem fails_retryClose {arg : Option Addr} {fails : List Bool} :
    Fails NotSetter (retryClose s arg fails) := by
  cases arg with
  | none => exact .ok _
  | some a =>
    refine .bind fails_deref fun fd _ => ?_
    split
    · exact fails_rudpClose
    · exact .ok _

theorem fails_rudpSend {b : Bool} (st : St Unit) (buf : List Byte) :
    Fails NotSetter (Rudp.rudpSend b st buf) := by
  unfold Rudp.rudpSend
  split
  · exact .ok _
  · refine .bind (fails_tcpWrite (F := NotSetter) ?_ ?_ ?_ _ _ _) fun _ _ => .ok _
    · intro m hm
      apply NotSetter.assert
      simp only [sizeMessages, List.mem_cons, List.not_mem_nil, or_false] at hm
      rcases hm with rfl | rfl | rfl | rfl | rfl <;> simp [setterMessages]
    · intro _
      exact NotSetter.assert (by simp [setterMessages])
    · intro _ m hm
      apply NotSetter.assert
      simp only [queueMessages, List.mem_cons, List.not_mem_nil, or_false] at hm
      rcases hm with rfl | rfl | rfl <;> simp [setterMessages]

theorem fails_onRecv {arg : Option Addr} {len : Option ℕ} : Fails NotSetter (onRecv s arg p len) := by
  have hrecved (st : St Unit) (n : ℕ) : Fails NotSetter (tcpRecved st n) :=
    fails_tcpRecved notSetter_inner (NotSetter.assert (by simp [setterMessages]))
      (NotSetter.assert (by simp [setterMessages])) st n
  cases arg with
  | none =>
    cases len with
    | none => exact .ok _
    | some n => exact .error (NotSetter.assert (by simp [setterMessages]))
  | some a =>
    cases len with
    | none => exact .bind fails_deref fun _ _ => .ok _
    | some n => exact .bind fails_deref fun _ _ => .bind (hrecved _ _) fun _ _ => .ok _

theorem fails_onConnect {arg : Option Addr} : Fails NotSetter (onConnect s arg) := by
  cases arg with
  | none => exact .error (notSetter_glue _ trivial)
  | some a => exact .bind fails_deref fun _ _ => .ok _

/-- No step runs into the assertion of a setter. -/
theorem Inv.fails {c : Prop} {op : LayerOp} (h : Inv c s) (he : Env s op) :
    Fails NotSetter (Layer.layerStep s op) := by
  have hassert {m : String} {q : Prop} [Decidable q] (hm : m ∉ setterMessages) :
      Fails NotSetter (lwipAssert m q) := Fails.lwipAssert fun _ => NotSetter.assert hm
  cases op with
  | socket block pcb =>
    cases block with
    | none => exact .ok _
    | some b =>
      obtain ⟨a, content⟩ := b
      cases pcb with
      | none => exact .ok _
      | some x =>
        obtain ⟨p, st⟩ := x
        obtain ⟨-, ⟨⟨_, _, _, _, hst⟩, -⟩, -⟩ := he.2 (p, st) rfl
        apply fails_setupPcb
        simp only [Sys.setPcb, Sys.setFd, Sys.emit, Function.update_self]
        rw [show st.pcb = _ from hst]
        exact TcpState.noConfusion
  | bind a udp port =>
    refine .bind fails_deref fun fd _ => ?_
    split
    · exact .bind (hassert (by simp [setterMessages])) fun _ _ =>
        .bind (hassert (by simp [setterMessages])) fun _ _ => .ok _
    · exact .ok _
  | listen a lpcb acceptCb recvCb =>
    refine .bind fails_deref fun fd _ => .bind (hassert (by simp [setterMessages])) fun _ _ => ?_
    split <;> exact .ok _
  | connect a connectedCb recvCb newPort iss fails =>
    exact .bind fails_deref fun fd _ => .bind (fails_tcpConnect notSetter_inner _ _ _) fun _ _ => .ok _
  | send a buf fails => exact .bind fails_deref fun fd _ => .bind (fails_rudpSend _ _) fun _ _ => .ok _
  | close a fails => exact fails_rudpClose
  | accept p block fails =>
    dsimp only [Layer.layerStep]
    split
    · unfold Layer.onAccept
      dsimp only
      split
      · exact .map _ fails_tcpClose
      · refine .bind (fails_setupPcb (by simp [tcpSetprio])) fun s₁ _ => ?_
        split
        · exact .error (notSetter_glue _ trivial)
        · exact .bind fails_deref fun _ _ => .bind fails_deref fun _ _ => .ok _
    · exact .ok _
  | recv p len =>
    dsimp only [Layer.layerStep]
    split
    · exact fails_onRecv
    · exact .ok _
  | connected p =>
    dsimp only [Layer.layerStep]
    split
    · exact fails_onConnect
    · exact .ok _
  | sent p fails =>
    dsimp only [Layer.layerStep]
    split
    · exact fails_retryClose
    · exact .ok _
  | poll p fails =>
    dsimp only [Layer.layerStep]
    split
    · exact fails_retryClose
    · exact .ok _
  | abort p early =>
    have herror (t : Sys) (ht : (t.pcbs p).errf = (s.pcbs p).errf)
        (harg : (t.pcbs p).callbackArg = (s.pcbs p).callbackArg) (hfds : t.fds = s.fds)
        (hst : (t.pcbs p).st.pcb.state = (s.pcbs p).st.pcb.state) : Fails NotSetter (tcpEventErr t p) := by
      unfold tcpEventErr
      split
      · next herr =>
        rw [ht] at herr
        obtain ⟨a, fd, hcb, ha, rfl⟩ := h.hooked p he.1 (.inr (.inr (.inl herr)))
        rw [harg, hcb]
        have ha' : t.fds a = some fd := by
          rw [hfds]
          exact ha
        apply fails_rudpFree ha'
        rw [hst]
        exact he.2
      · exact .ok _
    cases early with
    | true =>
      apply herror (s.freePcb p) <;> simp [Sys.freePcb, St.free]
    | false => exact .map _ (herror s rfl rfl rfl rfl)
  | syn l p st => exact .ok _
  | move p st => exact .ok _
  | expire p => exact .ok _

/-! ## Runs -/

/-- The fd that the step gives to `rudp_close` or `rudp_error`. -/
def closes (s : Sys) : LayerOp → Option Addr
  | .close a _ => some a
  | .sent p _ => if (s.pcbs p).sent then (s.pcbs p).callbackArg else none
  | .poll p _ => if (s.pcbs p).poll then (s.pcbs p).callbackArg else none
  | .abort p _ => if (s.pcbs p).errf then (s.pcbs p).callbackArg else none
  | _ => none

theorem Inv.closes_alloc {c : Prop} {op : LayerOp} (h : Inv c s) (he : Env s op) (ht : Tidy s op)
    (ha : a ∈ closes s op) : s.fds a ≠ none := by
  have hhook {p : Addr} (hp : s.Connection p) (hh : (s.pcbs p).Hooked)
      (harg : (s.pcbs p).callbackArg = some a) : s.fds a ≠ none := by
    obtain ⟨b, fd, hb, hfd, -⟩ := h.hooked p hp.1 hh
    obtain rfl : a = b := Option.some.inj (harg.symm.trans hb)
    simp [hfd]
  cases op with
  | close b fails =>
    obtain ⟨fd, hfd, -⟩ := ht
    obtain rfl : b = a := Option.mem_some.mp ha
    simp [hfd]
  | sent p fails =>
    dsimp only [closes] at ha
    split at ha
    · next hs => exact hhook he (.inr (.inl hs)) ha
    · cases ha
  | poll p fails =>
    dsimp only [closes] at ha
    split at ha
    · next hs => exact hhook he (.inr (.inr (.inr hs))) ha
    · cases ha
  | abort p early =>
    dsimp only [closes] at ha
    split at ha
    · next hs => exact hhook he (.inr (.inr (.inl hs))) ha
    · cases ha
  | _ => cases ha

/-- In every run of tidy steps no pcb is passed behind `memp_free`, each fd is freed once, and no setter
    finds a listening pcb; and the first step that is not tidy passes a pcb that has been freed. -/
theorem fds_touch_live_pcbs (hr : Run.Reach layerStep (fun s op => Env s op ∧ Tidy s op) init s) :
    Ledger s ∧ AllLive s.log ∧ ∀ op, Env s op →
      (Tidy s op → ∀ a ∈ closes s op, s.fds a ≠ none) ∧ Fails NotSetter (layerStep s op) ∧
      ∀ s', layerStep s op = .ok s' → (Tidy s op ↔ AllLive s'.log) := by
  obtain ⟨h, hledger, hlive⟩ : Inv False s ∧ Ledger s ∧ AllLive s.log := by
    refine hr.invariant (I := fun s => Inv False s ∧ Ledger s ∧ AllLive s.log)
      ⟨Inv.init False, Ledger.init, fun p hp => List.not_mem_nil hp⟩ ?_
    intro s op s' hI hop hs
    obtain ⟨l, hg, ht⟩ := hI.1.writes hop.1 hs
    refine ⟨hI.1.layerStep hop.1 False.elim hs, hI.2.1.grows hg, ?_⟩
    rw [hg.log, allLive_append]
    exact ⟨hI.2.2, ht.mp hop.2⟩
  refine ⟨hledger, hlive, fun op he => ⟨fun ht a ha => h.closes_alloc he ht ha, h.fails he, ?_⟩⟩
  intro s' hs
  obtain ⟨l, hg, ht⟩ := h.writes he hs
  rw [ht, hg.log, allLive_append]
  simp [hlive]

/-- A connection that is closed with a FIN. -/
theorem fds_touch_live_pcbs_fin : ∃ s, Run.exec layerStep init
    [socketOp 0, .connect 0 1 2 4000 1000 [], .connected 0, .close 0 []] = .ok s ∧
      s.log.getLast? = some (.freed 0) ∧ Ledger s ∧ AllLive s.log := by
  refine ⟨_, rfl, rfl, ?_⟩
  have h := fds_touch_live_pcbs (.step (.close 0 []) (.step (.connected 0)
    (.step (.connect 0 1 2 4000 1000 []) (.step (socketOp 0) .refl ⟨env_socketOp 0, trivial⟩ rfl)
      ⟨trivial, trivial⟩ rfl) ⟨⟨⟨rfl, by decide⟩, rfl⟩, trivial⟩ rfl)
    ⟨trivial, _, rfl, by decide, by decide, by decide, by decide⟩ rfl)
  exact ⟨h.1, h.2.1⟩

/-- `rudp_close` of an fd that was never connected: `tcp_close` frees the pcb, and `rudp_free` resets
    its callbacks. -/
theorem fds_touch_live_pcbs_fails : ∃ s, Run.Reach layerStep Env init s ∧
    s.log = .made 0 :: (passes 0 true ++ [.pass 0 true, .tcpClose (.app 0) 0 .ok] ++
      (passes 0 false ++ [.freed 0])) ∧ ¬ AllLive s.log := by
  obtain ⟨s, hr, hlog⟩ : ∃ s, Run.Reach layerStep Env init s ∧
      s.log = .made 0 :: (passes 0 true ++ [.pass 0 true, .tcpClose (.app 0) 0 .ok] ++
        (passes 0 false ++ [.freed 0])) :=
    ⟨_, .step (.close 0 []) (.step (socketOp 0) .refl (env_socketOp 0) rfl) trivial rfl, rfl⟩
  refine ⟨s, hr, hlog, fun h => ?_⟩
  rw [hlog] at h
  exact h 0 (by simp [passes])

end Rudp.Layer

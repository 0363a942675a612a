import Rudp.Layer
import Rudp.Stream

/-!
# Retries

`rudp_close` marks an fd whose `tcp_close` failed, and `rudp_poll` and `rudp_sent` try again. The mark
is a field of a block that nothing clears, so the runs in which it means what it says are those in
which `mem_malloc` returns clean blocks.

Results:
* `setupPcb_spec`, `rudpFree_spec`, `rudpClose_spec`, `abort_spec`: what the functions of the layer do.
* `Inv.layerStep`: fds and pcbs point to one another, and a marked fd has been closed in vain.
* `only_failed_close_retried`: only a close that failed is tried again.
* `only_failed_close_retried_fails`: a block that is not zero.
-/

namespace Rudp.Layer

variable {s s' : Sys} {a p : Addr}

open Run (bind_eq_ok)

/-! ## What the functions do -/

/-- The pcb behind `setup_pcb`. -/
def TcpPcb.hook (x : TcpPcb) (a : Addr) : TcpPcb :=
  { x with callbackArg := some a, recv := true, sent := true, errf := true, poll := true }

/-- The pcb behind `rudp_free`. -/
def TcpPcb.unhook (x : TcpPcb) : TcpPcb :=
  { x with callbackArg := none, recv := false, sent := false, errf := false, poll := false }

/-- The pcb is handed to five setters. -/
def passes (p : Addr) (live : Bool) : List Act := List.replicate 5 (.pass p live)

theorem setCallback_ok {message : String} {set : TcpPcb → TcpPcb}
    (h : setCallback message set s p = .ok s') : (s.pcbs p).st.pcb.state ≠ .LISTEN ∧
      s' = (s.pass p).setPcb p (set (s.pcbs p)) := by
  obtain ⟨_, ha, h⟩ := bind_eq_ok.mp h
  cases h
  exact ⟨lwipAssert_ok ha, rfl⟩

theorem deref_ok {fd : RudpFd} : s.deref a = .ok fd ↔ s.fds a = some fd := by
  unfold Sys.deref
  cases h : s.fds a with
  | none => simp
  | some fd' => simp

theorem setupPcb_spec (h : setupPcb s a p = .ok s') : ∃ fd, s.fds a = some fd ∧
    (s.pcbs p).st.pcb.state ≠ .LISTEN ∧ s' =
      { fds := Function.update s.fds a (some { fd with pcb := p })
        pcbs := Function.update s.pcbs p ((s.pcbs p).hook a)
        log := s.log ++ passes p (!(s.pcbs p).st.freed) } := by
  obtain ⟨fd, hfd, h⟩ := bind_eq_ok.mp h
  obtain ⟨s₁, h₁, h⟩ := bind_eq_ok.mp h
  obtain ⟨s₂, h₂, h⟩ := bind_eq_ok.mp h
  obtain ⟨s₃, h₃, h₄⟩ := bind_eq_ok.mp h
  obtain ⟨hst, rfl⟩ := setCallback_ok h₁
  obtain ⟨-, rfl⟩ := setCallback_ok h₂
  obtain ⟨-, rfl⟩ := setCallback_ok h₃
  obtain ⟨-, rfl⟩ := setCallback_ok h₄
  refine ⟨fd, deref_ok.mp hfd, by simpa [tcpArg] using hst, ?_⟩
  simp [tcpArg, TcpPcb.hook, passes, List.replicate]

theorem rudpFree_spec (h : rudpFree s a = .ok s') : ∃ fd, s.fds a = some fd ∧
    (s.pcbs fd.pcb).st.pcb.state ≠ .LISTEN ∧ s' =
      { fds := Function.update s.fds a none
        pcbs := Function.update s.pcbs fd.pcb (s.pcbs fd.pcb).unhook
        log := s.log ++ (passes fd.pcb (!(s.pcbs fd.pcb).st.freed) ++ [.freed a]) } := by
  obtain ⟨fd, hfd, h⟩ := bind_eq_ok.mp h
  obtain ⟨s₁, h₁, h⟩ := bind_eq_ok.mp h
  obtain ⟨s₂, h₂, h⟩ := bind_eq_ok.mp h
  obtain ⟨s₃, h₃, h⟩ := bind_eq_ok.mp h
  obtain ⟨s₄, h₄, h⟩ := bind_eq_ok.mp h
  cases h
  obtain ⟨hst, rfl⟩ := setCallback_ok h₁
  obtain ⟨-, rfl⟩ := setCallback_ok h₂
  obtain ⟨-, rfl⟩ := setCallback_ok h₃
  obtain ⟨-, rfl⟩ := setCallback_ok h₄
  refine ⟨fd, deref_ok.mp hfd, by simpa [tcpArg] using hst, ?_⟩
  simp [tcpArg, TcpPcb.unhook, passes, List.replicate]

/-- A `tcp_close` that fails leaves the pcb where it was. -/
theorem closeSt_err {st st' : St Unit} {err : Err} (h : closeSt st = .ok (err, st'))
    (herr : err ≠ .ok) : st'.freed = st.freed ∧ st'.pcb.state = st.pcb.state ∧
      (st.pcb.state = .SYN_RCVD ∨ st.pcb.state = .ESTABLISHED ∨ st.pcb.state = .CLOSE_WAIT) := by
  unfold closeSt at h
  split at h
  · cases h
    exact absurd rfl herr
  · obtain ⟨hr, hs⟩ := tcpCloseShutdown_err h herr
    obtain ⟨hst, -, -⟩ := hr rfl
    have hs' := hs.asBefore.state
    unfold Restored at hs
    exact ⟨by rw [hs], hs', hst⟩

theorem tcpClose_spec {caller : Caller} {fails : List Bool} {err : Err}
    (h : tcpClose s p caller fails = .ok (err, s')) : ∃ st : St Unit,
      closeSt { (s.pcbs p).st with fails := fails } = .ok (err, st) ∧ s' =
        { fds := s.fds
          pcbs := Function.update s.pcbs p { s.pcbs p with st := st }
          log := s.log ++ [.pass p (!(s.pcbs p).st.freed), .tcpClose caller p err] } := by
  obtain ⟨⟨err', st⟩, h₁, h⟩ := bind_eq_ok.mp h
  cases h
  exact ⟨st, h₁, by simp⟩

/-- `rudp_close` frees the fd, or marks it. -/
theorem rudpClose_spec {caller : Caller} {fails : List Bool}
    (h : rudpClose s a caller fails = .ok s') : ∃ fd err st, s.fds a = some fd ∧
      closeSt { (s.pcbs fd.pcb).st with fails := fails } = .ok (err, st) ∧
      ((err = .ok ∧ s' =
          { fds := Function.update s.fds a none
            pcbs := Function.update s.pcbs fd.pcb (TcpPcb.unhook { s.pcbs fd.pcb with st := st })
            log := s.log ++ [.pass fd.pcb (!(s.pcbs fd.pcb).st.freed), .tcpClose caller fd.pcb .ok] ++
              (passes fd.pcb (!st.freed) ++ [.freed a]) }) ∨
        (err ≠ .ok ∧ s' =
          { fds := Function.update s.fds a (some { fd with isClosing := 1 })
            pcbs := Function.update s.pcbs fd.pcb { s.pcbs fd.pcb with st := st }
            log := s.log ++
              [.pass fd.pcb (!(s.pcbs fd.pcb).st.freed), .tcpClose caller fd.pcb err] })) := by
  obtain ⟨fd, hfd, h⟩ := bind_eq_ok.mp h
  obtain ⟨⟨err, s₁⟩, h₁, h⟩ := bind_eq_ok.mp h
  obtain ⟨st, hst, hs₁⟩ := tcpClose_spec h₁
  refine ⟨fd, err, st, deref_ok.mp hfd, hst, ?_⟩
  dsimp only at h
  by_cases herr : err = .ok
  · rw [if_pos herr] at h
    left
    obtain ⟨fd', hfd', -, rfl⟩ := rudpFree_spec h
    rw [hs₁] at hfd'
    obtain rfl : fd = fd' := Option.some.inj ((deref_ok.mp hfd).symm.trans hfd')
    refine ⟨herr, ?_⟩
    rw [hs₁, herr]
    simp [passes, List.append_assoc]
  · rw [if_neg herr] at h
    cases h
    right
    refine ⟨herr, ?_⟩
    rw [hs₁]
    rfl

/-! ## The invariant -/

/-- The application has called `rudp_close` on the fd since it was made, and `tcp_close` returned an
    error for its pcb. -/
def ClosedInVain (a p : Addr) : List Act → Prop :=
  Log.Since (fun x => ∃ err, err ≠ .ok ∧ x = .tcpClose (.app a) p err) (fun x => x = .made a)

/-- The layer closes a connection by itself, or refuses to send on it, only behind such a call. -/
def JustifiedBy (past : List Act) : Act → Prop
  | .tcpClose (.retry a) p _ => ClosedInVain a p past
  | .tcpClose .accept _ _ => False
  | .refused a => ∃ p, ClosedInVain a p past
  | _ => True

/-- The state of a pcb that the layer has not closed. -/
def Open (st : TcpState) : Prop :=
  st = .CLOSED ∨ st = .SYN_SENT ∨ st = .ESTABLISHED ∨ st = .CLOSE_WAIT

/-- One of the four callbacks is set. -/
def TcpPcb.Hooked (x : TcpPcb) : Prop :=
  x.recv = true ∨ x.sent = true ∨ x.errf = true ∨ x.poll = true

/-- The pcb `x` of the fd `fd` at `a`. `c` is whether the blocks were clean. -/
structure Owned (c : Prop) (log : List Act) (a : Addr) (fd : RudpFd) (x : TcpPcb) : Prop where
  live : x.st.freed = false
  arg : x.callbackArg = some a
  kind : x.st.pcb.state = .LISTEN ∨ (x.errf = true ∧ Open x.st.pcb.state)
  closing : c → fd.isClosing ≠ 0 → ClosedInVain a fd.pcb log ∧
    x.st.pcb.state ≠ .CLOSED ∧ x.st.pcb.state ≠ .LISTEN

/-- Fds and pcbs point to one another, and what the layer did by itself was justified. -/
structure Inv (c : Prop) (s : Sys) : Prop where
  owned : ∀ a fd, s.fds a = some fd → Owned c s.log a fd (s.pcbs fd.pcb)
  hooked : ∀ p, (s.pcbs p).st.freed = false → (s.pcbs p).Hooked →
    ∃ a fd, (s.pcbs p).callbackArg = some a ∧ s.fds a = some fd ∧ fd.pcb = p
  past : c → Log.Throughout JustifiedBy s.log

/-- The blocks of `mem_malloc` have a zero where `is_closing` is, and `on_accept` gets one. -/
def Clean : LayerOp → Prop
  | .socket block _ => ∀ b ∈ block, b.2.isClosing = 0
  | .accept _ block _ => ∃ b, block = some b ∧ b.2.isClosing = 0
  | _ => True

/-- Nothing to justify. -/
def Act.Plain : Act → Prop
  | .freed _ => True
  | .pass _ _ => True
  | .callback _ _ => True
  | .tcpClose (.app _) _ _ => True
  | _ => False

theorem Act.Plain.justified {x : Act} (h : x.Plain) (t : List Act) : JustifiedBy t x := by
  cases x with
  | tcpClose caller p err =>
    cases caller with
    | app a => trivial
    | retry a => cases h
    | accept => cases h
  | refused a => cases h
  | made a => cases h
  | freed a => trivial
  | pass p b => trivial
  | callback f a => trivial

theorem Act.Plain.ne_made {x : Act} (h : x.Plain) (a : Addr) : x ≠ .made a := by
  rintro rfl
  exact h

variable {c : Prop} {fd : RudpFd} {x : TcpPcb} {log l : List Act}

theorem Owned.append (h : Owned c log a fd x) (hl : ∀ y ∈ l, y ≠ .made a) :
    Owned c (log ++ l) a fd x where
  live := h.live
  arg := h.arg
  kind := h.kind
  closing hc hf := ⟨(h.closing hc hf).1.append hl, (h.closing hc hf).2⟩

namespace Inv

/-- An fd owns its pcb alone. -/
theorem owner (h : Inv c s) {b : Addr} {gd : RudpFd} (ha : s.fds a = some fd)
    (hb : s.fds b = some gd) (hp : fd.pcb = gd.pcb) : a = b := by
  have h1 := (h.owned a fd ha).arg
  have h2 := (h.owned b gd hb).arg
  rw [hp, h2] at h1
  exact (Option.some.inj h1).symm

/-- The log grows. -/
theorem append (h : Inv c s) (hl : ∀ y ∈ l, ∀ a, y ≠ .made a)
    (hj : c → Log.Throughout JustifiedBy (s.log ++ l)) : Inv c { s with log := s.log ++ l } where
  owned a fd ha := (h.owned a fd ha).append fun y hy => hl y hy a
  hooked := h.hooked
  past := hj

theorem plain (h : Inv c s) (hl : ∀ y ∈ l, y.Plain) : Inv c { s with log := s.log ++ l } :=
  h.append (fun y hy => (hl y hy).ne_made) fun hc => (h.past hc).append fun y hy => (hl y hy).justified

/-- A pcb changes. -/
theorem setPcb (h : Inv c s) (ho : ∀ a fd, s.fds a = some fd → fd.pcb = p → Owned c s.log a fd x)
    (hh : x.st.freed = false → x.Hooked →
      ∃ a fd, x.callbackArg = some a ∧ s.fds a = some fd ∧ fd.pcb = p) : Inv c (s.setPcb p x) where
  owned a fd ha := by
    by_cases hp : fd.pcb = p
    · rw [hp]
      simpa using ho a fd ha hp
    · simpa [hp] using h.owned a fd ha
  hooked q hl hq := by
    by_cases hp : q = p
    · subst hp
      simp only [Sys.setPcb, Function.update_self] at hl hq ⊢
      exact hh hl hq
    · simp only [Sys.setPcb, Function.update_of_ne hp] at hl hq ⊢
      exact h.hooked q hl hq
  past := h.past

/-- A pcb without an fd changes. -/
theorem setPcb_unowned (h : Inv c s) (hp : ∀ a fd, s.fds a = some fd → fd.pcb ≠ p)
    (hh : x.st.freed = true ∨ ¬ x.Hooked) : Inv c (s.setPcb p x) := by
  refine h.setPcb (fun a fd ha he => absurd he (hp a fd ha)) fun hl hx => ?_
  rcases hh with hh | hh
  · rw [hl] at hh
    cases hh
  · exact absurd hx hh

/-- A pcb keeps its callbacks. -/
theorem setSt (h : Inv c s) {st : St Unit} (hf : st.freed = (s.pcbs p).st.freed)
    (ho : ∀ a fd, s.fds a = some fd → fd.pcb = p →
      Owned c s.log a fd { s.pcbs p with st := st }) :
    Inv c (s.setPcb p { s.pcbs p with st := st }) :=
  h.setPcb ho fun hl hx => h.hooked p (hf.symm.trans hl) hx

/-- An fd changes. -/
theorem setFd (h : Inv c s) {fd' : RudpFd} (ha : s.fds a = some fd) (hp : fd'.pcb = fd.pcb)
    (ho : Owned c s.log a fd' (s.pcbs fd.pcb)) : Inv c (s.setFd a fd') where
  owned b gd hb := by
    by_cases hab : b = a
    · subst hab
      simp only [Sys.setFd, Function.update_self, Option.some.injEq] at hb
      subst hb
      rw [hp]
      exact ho
    · simp only [Sys.setFd, Function.update_of_ne hab] at hb
      exact h.owned b gd hb
  hooked q hl hq := by
    obtain ⟨b, gd, harg, hb, hgd⟩ := h.hooked q hl hq
    by_cases hab : b = a
    · subst hab
      refine ⟨b, fd', harg, by simp, ?_⟩
      obtain rfl : gd = fd := Option.some.inj (hb.symm.trans ha)
      rw [hp, hgd]
    · exact ⟨b, gd, harg, by simpa [hab] using hb, hgd⟩
  past := h.past

/-- An fd goes, and its pcb with it, or the callbacks of the pcb. -/
theorem drop (h : Inv c s) (ha : s.fds a = some fd) (hx : x.st.freed = true ∨ ¬ x.Hooked) :
    Inv c { s with fds := Function.update s.fds a none, pcbs := Function.update s.pcbs fd.pcb x } where
  owned b gd hb := by
    by_cases hab : b = a
    · subst hab
      simp at hb
    · simp only [Function.update_of_ne hab] at hb
      have hne : gd.pcb ≠ fd.pcb := fun e => hab (h.owner hb ha e)
      simpa [hne] using h.owned b gd hb
  hooked q hl hq := by
    by_cases hqp : q = fd.pcb
    · subst hqp
      simp only [Function.update_self] at hl hq
      rcases hx with hx | hx
      · rw [hl] at hx
        cases hx
      · exact absurd hq hx
    · simp only [Function.update_of_ne hqp] at hl hq ⊢
      obtain ⟨b, gd, harg, hb, hgd⟩ := h.hooked q hl hq
      have hab : b ≠ a := by
        rintro rfl
        obtain rfl : gd = fd := Option.some.inj (hb.symm.trans ha)
        exact hqp hgd.symm
      exact ⟨b, gd, harg, by simpa [hab] using hb, hgd⟩
  past := h.past

/-- A new fd gets a pcb that had none. -/
theorem make (h : Inv c s) (ha : s.fds a = none) (hp : ∀ b gd, s.fds b = some gd → gd.pcb ≠ fd.pcb)
    (hl : ∀ y ∈ l, ∀ b, b ≠ a → y ≠ .made b) (hj : c → Log.Throughout JustifiedBy (s.log ++ l))
    (ho : Owned c (s.log ++ l) a fd x) : Inv c
      { fds := Function.update s.fds a (some fd)
        pcbs := Function.update s.pcbs fd.pcb x
        log := s.log ++ l } where
  owned b gd hb := by
    by_cases hab : b = a
    · subst hab
      simp only [Function.update_self, Option.some.injEq] at hb
      subst hb
      simpa using ho
    · simp only [Function.update_of_ne hab] at hb
      simpa [hp b gd hb] using (h.owned b gd hb).append fun y hy => hl y hy b hab
  hooked q hlive hq := by
    by_cases hqp : q = fd.pcb
    · subst hqp
      simp only [Function.update_self] at hlive hq ⊢
      exact ⟨a, fd, ho.arg, by simp, rfl⟩
    · simp only [Function.update_of_ne hqp] at hlive hq ⊢
      obtain ⟨b, gd, harg, hb, hgd⟩ := h.hooked q hlive hq
      have hab : b ≠ a := by
        rintro rfl
        rw [ha] at hb
        cases hb
      exact ⟨b, gd, harg, by simpa [hab] using hb, hgd⟩
  past := hj

/-- A pcb that is not allocated has no fd. -/
theorem unowned_freed (h : Inv c s) (hp : (s.pcbs p).st.freed = true) {b : Addr} {gd : RudpFd}
    (hb : s.fds b = some gd) : gd.pcb ≠ p := by
  rintro rfl
  rw [(h.owned b gd hb).live] at hp
  cases hp

/-- A pcb that is neither listening nor open has no fd. -/
theorem unowned_state (h : Inv c s) (hp : (s.pcbs p).st.pcb.state ≠ .LISTEN)
    (ho : ¬ Open (s.pcbs p).st.pcb.state) {b : Addr} {gd : RudpFd} (hb : s.fds b = some gd) :
    gd.pcb ≠ p := by
  rintro rfl
  rcases (h.owned b gd hb).kind with hk | ⟨-, hk⟩
  · exact hp hk
  · exact ho hk

/-! ### The functions keep it -/

/-- `setup_pcb` on a new fd and a pcb that has none. -/
theorem setup (h : Inv c s) {t : Sys} {content : RudpFd} (ha : s.fds a = none)
    (hp : ∀ b gd, s.fds b = some gd → gd.pcb ≠ p)
    (ht : t = { fds := Function.update s.fds a (some content)
                pcbs := Function.update s.pcbs p x
                log := s.log ++ l })
    (hl : ∀ y ∈ l, y = .made a ∨ y.Plain) (hlive : x.st.freed = false) (hst : Open x.st.pcb.state)
    (hc : c → content.isClosing = 0) (hr : setupPcb t a p = .ok s') :
    Inv c s' ∧ s'.fds a = some { content with pcb := p } := by
  obtain ⟨fd, hfd, -, rfl⟩ := setupPcb_spec hr
  subst ht
  obtain rfl : content = fd := by simpa using hfd
  refine ⟨?_, by simp⟩
  have hl' : ∀ y ∈ l ++ passes p (!x.st.freed), y = .made a ∨ y.Plain := by
    intro y hy
    rcases List.mem_append.mp hy with hy | hy
    · exact hl y hy
    · rw [List.eq_of_mem_replicate hy]
      exact .inr trivial
  have hmake : Inv c
      { fds := Function.update s.fds a (some { content with pcb := p })
        pcbs := Function.update s.pcbs p (x.hook a)
        log := s.log ++ (l ++ passes p (!x.st.freed)) } := by
    apply @Inv.make s a c { content with pcb := p } _ _ h ha hp
    · intro y hy b hb
      rcases hl' y hy with rfl | hy
      · rintro ⟨⟩
        exact hb rfl
      · exact hy.ne_made b
    · intro hcl
      refine (h.past hcl).append fun y hy => ?_
      rcases hl' y hy with rfl | hy
      · exact fun _ => trivial
      · exact hy.justified
    · exact ⟨hlive, rfl, .inr ⟨rfl, hst⟩, fun hcl hne => absurd (hc hcl) hne⟩
  simpa using hmake

/-- Who may call `rudp_close`: the application, or a callback that finds the fd marked. -/
def MayClose (s : Sys) (a : Addr) (caller : Caller) : Prop :=
  caller = .app a ∨ (caller = .retry a ∧ ∀ fd, s.fds a = some fd → fd.isClosing ≠ 0)

/-- The call of `tcp_close` in `rudp_close` is justified. -/
theorem closeLog {caller : Caller} {err : Err} {live : Bool} (h : Inv c s) (hv : MayClose s a caller)
    (ha : s.fds a = some fd) :
    Inv c { s with log := s.log ++ [.pass fd.pcb live, .tcpClose caller fd.pcb err] } := by
  have h₁ : Inv c { s with log := s.log ++ [.pass fd.pcb live] } := h.plain (by simp [Act.Plain])
  have h₂ := h₁.append (l := [.tcpClose caller fd.pcb err]) (by simp) fun hc => ?_
  · simpa using h₂
  · refine Log.throughout_concat.mpr ⟨h₁.past hc, ?_⟩
    rcases hv with rfl | ⟨rfl, hne⟩
    · trivial
    · exact ((h₁.owned a fd ha).closing hc (hne fd ha)).1

/-- Behind a call that failed the fd has been closed in vain. -/
theorem closedInVain {caller : Caller} {err : Err} {live : Bool} (h : Inv c s)
    (hv : MayClose s a caller) (ha : s.fds a = some fd) (hc : c) (herr : err ≠ .ok) :
    ClosedInVain a fd.pcb (s.log ++ [.pass fd.pcb live, .tcpClose caller fd.pcb err]) := by
  rcases hv with rfl | ⟨rfl, hne⟩
  · rw [← List.singleton_append, ← List.append_assoc]
    exact Log.Since.concat ⟨err, herr, rfl⟩
  · exact ((h.owned a fd ha).closing hc (hne fd ha)).1.append (by simp)

theorem rudpClose {caller : Caller} {fails : List Bool} (h : Inv c s) (hv : MayClose s a caller)
    (hr : rudpClose s a caller fails = .ok s') : Inv c s' := by
  obtain ⟨fd, err, st, ha, hcl, ⟨-, rfl⟩ | ⟨herr, rfl⟩⟩ := rudpClose_spec hr
  · have h₁ : Inv c { s with log := s.log ++
        [.pass fd.pcb (!(s.pcbs fd.pcb).st.freed), .tcpClose caller fd.pcb .ok] } := h.closeLog hv ha
    have h₂ := (h₁.plain (l := passes fd.pcb (!st.freed) ++ [.freed a]) ?_).drop ha
      (x := TcpPcb.unhook { s.pcbs fd.pcb with st := st }) (.inr (by simp [TcpPcb.Hooked, TcpPcb.unhook]))
    · exact h₂
    · intro y hy
      rcases List.mem_append.mp hy with hy | hy
      · rw [List.eq_of_mem_replicate hy]
        trivial
      · obtain rfl := List.mem_singleton.mp hy
        trivial
  · have h₁ : Inv c { s with log := s.log ++
        [.pass fd.pcb (!(s.pcbs fd.pcb).st.freed), .tcpClose caller fd.pcb err] } := h.closeLog hv ha
    have ho := h₁.owned a fd ha
    obtain ⟨hf, hst, hst'⟩ := closeSt_err hcl herr
    have hopen : st.pcb.state ≠ .CLOSED ∧ st.pcb.state ≠ .LISTEN := by
      rw [← hst] at hst'
      rcases hst' with e | e | e
      · simp [e]
      · simp [e]
      · simp [e]
    have hnew : ∀ fd', fd'.pcb = fd.pcb → Owned c
        (s.log ++ [.pass fd.pcb (!(s.pcbs fd.pcb).st.freed), .tcpClose caller fd.pcb err]) a fd'
        { s.pcbs fd.pcb with st := st } := by
      intro fd' hp
      refine ⟨hf.trans ho.live, ho.arg, ?_, fun hc _ => ⟨?_, hopen⟩⟩
      · show st.pcb.state = _ ∨ _ ∧ Open st.pcb.state
        rw [hst]
        exact ho.kind
      · rw [hp]
        exact h.closedInVain hv ha hc herr
    have h₂ := h₁.setSt (p := fd.pcb) hf fun b gd hb hp => ?_
    · refine h₂.setFd ha rfl ?_
      simpa using hnew { fd with isClosing := 1 } rfl
    · obtain rfl := h.owner hb ha hp
      exact hnew gd hp

/-! ### A pcb that stays open -/

end Inv

/-- The pcb is not freed, and does not leave the open states. -/
structure Stays (st st' : St Unit) : Prop where
  freed : st'.freed = st.freed
  state : st'.pcb.state = st.pcb.state ∨
    (Open st.pcb.state → Open st'.pcb.state ∧ st'.pcb.state ≠ .CLOSED) ∧ st.pcb.state ≠ .LISTEN

theorem Open.ne_listen {st : TcpState} (h : Open st) : st ≠ .LISTEN := by
  rcases h with rfl | rfl | rfl | rfl <;> decide

theorem Owned.stays (h : Owned c log a fd x) {y : TcpPcb} (hs : Stays x.st y.st)
    (harg : y.callbackArg = x.callbackArg) (herr : y.errf = x.errf) : Owned c log a fd y where
  live := hs.freed.trans h.live
  arg := harg.trans h.arg
  kind := by
    rw [herr]
    rcases hs.state with e | ⟨hopen, hl⟩
    · rw [e]
      exact h.kind
    · right
      obtain ⟨he, hk⟩ := h.kind.resolve_left hl
      exact ⟨he, (hopen hk).1⟩
  closing hc hf := by
    obtain ⟨h1, h2, h3⟩ := h.closing hc hf
    refine ⟨h1, ?_⟩
    rcases hs.state with e | ⟨hopen, hl⟩
    · rw [e]
      exact ⟨h2, h3⟩
    · obtain ⟨-, hk⟩ := h.kind.resolve_left hl
      exact ⟨(hopen hk).2, (hopen hk).1.ne_listen⟩

theorem StackMoves.stays {st st' : St Unit} (h : StackMoves st st') : Stays st st' where
  freed := h.freed
  state := by
    obtain ⟨-, h⟩ := h
    generalize st'.pcb.state = t at h
    induction h with
    | refl => exact .inl rfl
    | @tail t t' _ he ih =>
      right
      rcases ih with e | ⟨ih, hl⟩
      · rw [← e]
        cases he <;> simp [Open]
      · refine ⟨fun ho => ?_, hl⟩
        obtain ⟨ho', -⟩ := ih ho
        cases he <;> simp_all [Open]

theorem stays_tcpConnectSyn {st st' : St Unit} {newPort : ℕ} {iss : U32} {err : Err}
    (h : tcpConnectSyn st newPort iss = .ok (err, st')) : Stays st st' := by
  obtain ⟨_, ha, h⟩ := bind_eq_ok.mp h
  have hst := lwipAssert_ok ha
  generalize (if st.pcb.localPort = 0 then newPort else st.pcb.localPort) = port at h
  dsimp only at h
  split at h
  · cases h
    exact ⟨rfl, .inl rfl⟩
  · obtain ⟨⟨err', st₁⟩, h₁, h⟩ := bind_eq_ok.mp h
    have hv := rcvView_tcpEnqueueFlags h₁
    have hf : st₁.freed = st.freed := congrArg (fun v => v.freed) hv
    have hs : st₁.pcb.state = st.pcb.state := congrArg RcvView.state hv
    dsimp only at h
    split at h
    · cases h
      refine ⟨hf, .inr ⟨fun _ => ⟨.inr (.inl rfl), TcpState.noConfusion⟩, ?_⟩⟩
      rw [hst]
      decide
    · cases h
      exact ⟨hf, .inl hs⟩

theorem stays_tcpConnect {st st' : St Unit} {newPort : ℕ} {iss : U32} {err : Err}
    (h : tcpConnect st newPort iss = .ok (err, st')) : Stays st st' := by
  obtain ⟨⟨err₁, st₁⟩, h₁, h⟩ := bind_eq_ok.mp h
  have hs := stays_tcpConnectSyn h₁
  dsimp only at h
  split at h
  · obtain ⟨⟨err₂, st₂⟩, h₂, h⟩ := bind_eq_ok.mp h
    cases h
    have hv := rcvView_tcpOutput h₂
    have hf : st₂.freed = st₁.freed := congrArg (fun v => v.freed) hv
    have he : st₂.pcb.state = st₁.pcb.state := congrArg RcvView.state hv
    refine ⟨hf.trans hs.freed, ?_⟩
    rw [he]
    exact hs.state
  · cases h
    exact hs

theorem stays_rudpSend {st st' : St Unit} {b : Bool} {buf : List Byte} {ret : ℤ}
    (h : Rudp.rudpSend b st buf = .ok (ret, st')) : Stays st st' := by
  unfold Rudp.rudpSend at h
  split at h
  · cases h
    exact ⟨rfl, .inl rfl⟩
  · obtain ⟨⟨err, st₁⟩, h₁, h⟩ := bind_eq_ok.mp h
    cases h
    have hv := rcvView_tcpWrite h₁
    have hf : st₁.freed = st.freed := congrArg (fun v => v.freed) hv
    have hst : st₁.pcb.state = st.pcb.state := congrArg RcvView.state hv
    split <;> exact ⟨hf, .inl hst⟩

theorem stays_tcpRecved {st st' : St Unit} {len : ℕ} (h : tcpRecved st len = .ok st') :
    Stays st st' := by
  obtain ⟨w, -, hv⟩ := rcvView_tcpRecved h
  exact ⟨congrArg (fun v => v.freed) hv, .inl (congrArg RcvView.state hv)⟩

namespace Inv

theorem stays (h : Inv c s) (hs : Stays (s.pcbs p).st x.st)
    (harg : x.callbackArg = (s.pcbs p).callbackArg) (herr : x.errf = (s.pcbs p).errf)
    (hh : x.Hooked → (s.pcbs p).Hooked) : Inv c (s.setPcb p x) := by
  refine h.setPcb (fun a fd ha hp => ?_) fun hl hx => ?_
  · exact (hp ▸ h.owned a fd ha).stays hs harg herr
  · rw [harg]
    exact h.hooked p (hs.freed.symm.trans hl) (hh hx)

theorem staysSt (h : Inv c s) {st : St Unit} (hs : Stays (s.pcbs p).st st) :
    Inv c (s.setPcb p { s.pcbs p with st := st }) :=
  h.stays hs rfl rfl id

/-- Other callbacks of the application. -/
theorem callbacks (h : Inv c s) {fd' : RudpFd} (ha : s.fds a = some fd) (hp : fd'.pcb = fd.pcb)
    (hc : fd'.isClosing = fd.isClosing) : Inv c (s.setFd a fd') := by
  have ho := h.owned a fd ha
  refine h.setFd ha hp ⟨ho.live, ho.arg, ho.kind, fun hcl hne => ?_⟩
  rw [hp]
  exact ho.closing hcl (hc ▸ hne)

theorem emit (h : Inv c s) {y : Act} (hy : y.Plain) : Inv c (s.emit y) :=
  h.plain fun z hz => by
    obtain rfl := List.mem_singleton.mp hz
    exact hy

/-- An allocated pcb without an fd has no callbacks. -/
theorem unhooked (h : Inv c s) (hl : (s.pcbs p).st.freed = false)
    (hp : ∀ a fd, s.fds a = some fd → fd.pcb ≠ p) : ¬ (s.pcbs p).Hooked := by
  intro hh
  obtain ⟨a, fd, -, ha, hfd⟩ := h.hooked p hl hh
  exact hp a fd ha hfd

/-! ### The calls -/

theorem rudpSocket {block : Option (Addr × RudpFd)} {pcb : Option (Addr × St Unit)} (h : Inv c s)
    (he : Env s (.socket block pcb)) (hc : c → ∀ b ∈ block, b.2.isClosing = 0)
    (hr : rudpSocket s block pcb = .ok s') : Inv c s' := by
  obtain ⟨hb, hx⟩ := he
  match block, pcb with
  | none, _ =>
    cases hr
    exact h
  | some _, none =>
    cases hr
    exact h
  | some (a, content), some (p, st) =>
    obtain ⟨hfree, ⟨⟨_, _, _, _, hst⟩, -⟩, hlive⟩ := hx (p, st) rfl
    refine (h.setup (a := a) (p := p) (x := { st := st }) (l := [.made a]) (hb (a, content) rfl)
      (fun b gd => h.unowned_freed hfree) ?_ (by simp) hlive (.inl ?_)
      (fun hcl => hc hcl (a, content) rfl) hr).1
    · simp
    · show st.pcb.state = _
      rw [hst]
      rfl

theorem rudpBind {udp : Bool} {port : ℕ} (h : Inv c s) (hr : rudpBind s a udp port = .ok s') :
    Inv c s' := by
  obtain ⟨fd, -, hr⟩ := bind_eq_ok.mp hr
  split at hr
  · obtain ⟨_, -, hr⟩ := bind_eq_ok.mp hr
    obtain ⟨_, -, hr⟩ := bind_eq_ok.mp hr
    cases hr
    exact h.staysSt ⟨rfl, .inl rfl⟩
  · cases hr
    exact h

theorem rudpListen {lpcb : Option Addr} {acceptCb recvCb : Addr} (h : Inv c s)
    (he : Env s (.listen a lpcb acceptCb recvCb))
    (hr : rudpListen s a lpcb acceptCb recvCb = .ok s') : Inv c s' := by
  obtain ⟨fd, ha, hr⟩ := bind_eq_ok.mp hr
  obtain ⟨_, hst, hr⟩ := bind_eq_ok.mp hr
  replace ha := deref_ok.mp ha
  replace hst := lwipAssert_ok hst
  cases lpcb with
  | none =>
    cases hr
    exact h
  | some l =>
    cases hr
    have hl : (s.pcbs l).st.freed = true := he l rfl
    have hne : fd.pcb ≠ l := h.unowned_freed hl ha
    have ho := h.owned a fd ha
    have h₁ := h.drop (x := { s.pcbs fd.pcb with st := (s.pcbs fd.pcb).st.free }) ha (.inl rfl)
    have h₂ := @Inv.make _ a c { fd with pcb := l, recvCb := recvCb, acceptCb := acceptCb }
      { st := { (s.pcbs fd.pcb).st with pcb.state := .LISTEN }, callbackArg := some a, accept := true }
      [.pass l true, .pass l true] h₁ (by simp) ?_ (by simp) (fun hc => (h₁.past hc).append ?_) ⟨?_, rfl, .inl rfl, ?_⟩
    · simpa [tcpArg, tcpAccept, ho.live] using h₂
    · intro b gd hb
      apply h₁.unowned_freed _ hb
      simpa [hne.symm] using hl
    · simp [JustifiedBy]
    · exact ho.live
    · intro hc hclosing
      exact absurd hst (ho.closing hc hclosing).2.1

theorem rudpConnect {connectedCb recvCb : Addr} {newPort : ℕ} {iss : U32} {fails : List Bool}
    (h : Inv c s) (hr : rudpConnect s a connectedCb recvCb newPort iss fails = .ok s') :
    Inv c s' := by
  obtain ⟨fd, ha, hr⟩ := bind_eq_ok.mp hr
  obtain ⟨⟨err, st⟩, hst, hr⟩ := bind_eq_ok.mp hr
  cases hr
  have h₁ : Inv c (s.setFd a { fd with connectedCb := connectedCb, recvCb := recvCb }) :=
    h.callbacks (deref_ok.mp ha) rfl rfl
  have hs := stays_tcpConnect hst
  exact h₁.stays ⟨hs.freed, hs.state⟩ rfl rfl id

theorem rudpSend {buf : List Byte} {fails : List Bool} (h : Inv c s)
    (hr : rudpSend s a buf fails = .ok s') : Inv c s' := by
  obtain ⟨fd, ha, hr⟩ := bind_eq_ok.mp hr
  obtain ⟨⟨ret, st⟩, hst, hr⟩ := bind_eq_ok.mp hr
  replace ha := deref_ok.mp ha
  cases hr
  have hs := stays_rudpSend hst
  have h₁ : Inv c (s.setPcb fd.pcb { s.pcbs fd.pcb with st := st }) := h.staysSt ⟨hs.freed, hs.state⟩
  split
  · next hne =>
    refine h₁.append (by simp) fun hc => Log.throughout_concat.mpr ⟨h₁.past hc, ?_⟩
    exact ⟨fd.pcb, ((h.owned a fd ha).closing hc hne).1⟩
  · exact h₁

/-! ### The events -/

theorem retryClose {arg : Option Addr} {fails : List Bool} (h : Inv c s)
    (hr : retryClose s arg fails = .ok s') : Inv c s' := by
  cases arg with
  | none =>
    cases hr
    exact h
  | some a =>
    obtain ⟨fd, ha, hr⟩ := bind_eq_ok.mp hr
    split at hr
    · next hne =>
      refine h.rudpClose (.inr ⟨rfl, fun fd' ha' => ?_⟩) hr
      obtain rfl := Option.some.inj (ha'.symm.trans (deref_ok.mp ha))
      exact hne
    · cases hr
      exact h

theorem onAccept {block : Option (Addr × RudpFd)} {fails : List Bool} (h : Inv c s)
    (he : Env s (.accept p block fails)) (hc : c → ∃ b, block = some b ∧ b.2.isClosing = 0)
    (hr : layerStep s (.accept p block fails) = .ok s') : Inv c s' := by
  obtain ⟨⟨hlive, hne⟩, hst, hb⟩ := he
  have hun : ∀ b gd, s.fds b = some gd → gd.pcb ≠ p := by
    intro b gd
    apply h.unowned_state hne
    rw [hst]
    unfold Open
    decide
  have hh := h.unhooked hlive hun
  dsimp only [layerStep] at hr
  split at hr
  · unfold Layer.onAccept at hr
    dsimp only at hr
    cases block with
    | none =>
      obtain ⟨⟨err, s₁⟩, hcl, rfl⟩ := Run.map_eq_ok.mp hr
      obtain ⟨st, -, rfl⟩ := tcpClose_spec hcl
      have hn : ¬ c := by
        intro hcl
        obtain ⟨b, hb, -⟩ := hc hcl
        cases hb
      have h₂ := (h.append (l := [.pass p true, .pass p true, .tcpClose .accept p err]) (by simp)
        fun hcl => absurd hcl hn).setPcb_unowned (x := { s.pcbs p with st := st }) hun (.inr hh)
      simpa [tcpSetprio, hlive] using h₂
    | some b =>
      obtain ⟨a, content⟩ := b
      obtain ⟨s₁, hset, hr⟩ := bind_eq_ok.mp hr
      have hz : c → content.isClosing = 0 := by
        intro hcl
        obtain ⟨b, hb, hz⟩ := hc hcl
        cases hb
        exact hz
      obtain ⟨x, hx, hlive', ht⟩ : ∃ x : TcpPcb, Open x.st.pcb.state ∧ x.st.freed = false ∧
          ((tcpSetprio (s.setPcb p { s.pcbs p with st.pcb.state := .ESTABLISHED }) p
            TCP_PRIO_MIN).setFd a content).emit (.made a) =
          { fds := Function.update s.fds a (some content)
            pcbs := Function.update s.pcbs p x
            log := s.log ++ [.pass p true, .made a] } :=
        ⟨{ s.pcbs p with st.pcb.state := .ESTABLISHED, st.pcb.prio := TCP_PRIO_MIN },
          .inr (.inr (.inl rfl)), hlive, by simp [tcpSetprio, hlive]⟩
      obtain ⟨h₂, ha⟩ := h.setup (hb (a, content) rfl) hun ht (by simp [Act.Plain]) hlive' hx hz hset
      split at hr
      · cases hr
      · obtain ⟨listenFd, -, hr⟩ := bind_eq_ok.mp hr
        obtain ⟨newFd, ha', hr⟩ := bind_eq_ok.mp hr
        rw [← Except.ok.inj hr]
        have h₃ : Inv c (s₁.setFd a { newFd with recvCb := listenFd.recvCb }) :=
          h₂.callbacks (deref_ok.mp ha') rfl rfl
        exact h₃.emit (y := .callback listenFd.acceptCb a) trivial
  · cases hr
    exact h.setPcb_unowned hun (.inr hh)

theorem onRecv {arg : Option Addr} {len : Option ℕ} (h : Inv c s)
    (hr : onRecv s arg p len = .ok s') : Inv c s' := by
  cases arg with
  | none =>
    cases len with
    | none =>
      cases hr
      exact h
    | some n => cases hr
  | some a =>
    cases len with
    | none =>
      obtain ⟨fd, -, hr⟩ := bind_eq_ok.mp hr
      rw [← Except.ok.inj hr]
      exact h.emit (y := .callback fd.recvCb a) trivial
    | some n =>
      obtain ⟨fd, -, hr⟩ := bind_eq_ok.mp hr
      obtain ⟨st, hst, hr⟩ := bind_eq_ok.mp hr
      rw [← Except.ok.inj hr]
      exact (h.staysSt (stays_tcpRecved hst)).emit (y := .callback fd.recvCb a) trivial

theorem onConnect {arg : Option Addr} (h : Inv c s) (hr : onConnect s arg = .ok s') : Inv c s' := by
  cases arg with
  | none => cases hr
  | some a =>
    obtain ⟨fd, -, hr⟩ := bind_eq_ok.mp hr
    rw [← Except.ok.inj hr]
    exact h.emit (y := .callback fd.connectedCb a) trivial

/-- A pcb without an err callback has no fd, unless it listens. -/
theorem unowned_errf (h : Inv c s) (hp : s.Connection p) (he : (s.pcbs p).errf = false) {b : Addr}
    {gd : RudpFd} (hb : s.fds b = some gd) : gd.pcb ≠ p := by
  rintro rfl
  rcases (h.owned b gd hb).kind with hk | ⟨hk, -⟩
  · exact hp.2 hk
  · rw [he] at hk
    cases hk

/-- `rudp_error` for a connection that has an fd. -/
theorem tcpEventErr_spec (herr : (s.pcbs fd.pcb).errf = true)
    (harg : (s.pcbs fd.pcb).callbackArg = some a) (ha : s.fds a = some fd)
    (hr : tcpEventErr s fd.pcb = .ok s') : s' =
      { fds := Function.update s.fds a none
        pcbs := Function.update s.pcbs fd.pcb (s.pcbs fd.pcb).unhook
        log := s.log ++ (passes fd.pcb (!(s.pcbs fd.pcb).st.freed) ++ [.freed a]) } := by
  unfold tcpEventErr at hr
  rw [if_pos herr, harg] at hr
  obtain ⟨fd', ha', -, rfl⟩ := rudpFree_spec hr
  obtain rfl : fd' = fd := Option.some.inj (ha'.symm.trans ha)
  rfl

/-- A pcb without an err callback is freed. -/
theorem abort_quiet {early : Bool} (herr : (s.pcbs p).errf = false)
    (hr : layerStep s (.abort p early) = .ok s') : s' = s.freePcb p := by
  cases early with
  | true =>
    have he : ((s.freePcb p).pcbs p).errf = false := by simpa [Sys.freePcb] using herr
    simpa [layerStep, tcpEventErr, he, eq_comm] using hr
  | false => simpa [layerStep, tcpEventErr, herr, Functor.map, Except.map, eq_comm] using hr

/-- The pcb of an fd is freed, and the fd with it. -/
theorem abort_spec {early : Bool} (hlive : (s.pcbs fd.pcb).st.freed = false)
    (herr : (s.pcbs fd.pcb).errf = true) (harg : (s.pcbs fd.pcb).callbackArg = some a)
    (ha : s.fds a = some fd) (hr : layerStep s (.abort fd.pcb early) = .ok s') : s' =
      { fds := Function.update s.fds a none
        pcbs := Function.update s.pcbs fd.pcb
          (TcpPcb.unhook { s.pcbs fd.pcb with st := (s.pcbs fd.pcb).st.free })
        log := s.log ++ (passes fd.pcb (!early) ++ [.freed a]) } := by
  cases early with
  | true =>
    rw [tcpEventErr_spec (s := s.freePcb fd.pcb) (by simpa [Sys.freePcb] using herr)
      (by simpa [Sys.freePcb] using harg) ha hr]
    simp [Sys.freePcb, St.free]
  | false =>
    obtain ⟨s₁, h₁, rfl⟩ := Run.map_eq_ok.mp hr
    rw [tcpEventErr_spec herr harg ha h₁]
    simp [Sys.freePcb, St.free, TcpPcb.unhook, hlive]

theorem abort {early : Bool} (h : Inv c s) (hp : s.Connection p)
    (hr : layerStep s (.abort p early) = .ok s') : Inv c s' := by
  cases herr : (s.pcbs p).errf with
  | false =>
    rw [abort_quiet herr hr]
    exact h.setPcb_unowned (fun b gd => h.unowned_errf hp herr) (.inl rfl)
  | true =>
    obtain ⟨a, fd, harg, ha, rfl⟩ := h.hooked p hp.1 (.inr (.inr (.inl herr)))
    rw [abort_spec hp.1 herr harg ha hr]
    refine (h.plain (l := passes fd.pcb (!early) ++ [.freed a]) fun y hy => ?_).drop
      (x := TcpPcb.unhook { s.pcbs fd.pcb with st := (s.pcbs fd.pcb).st.free }) ha (.inl rfl)
    rcases List.mem_append.mp hy with hy | hy
    · rw [List.eq_of_mem_replicate hy]
      trivial
    · obtain rfl := List.mem_singleton.mp hy
      trivial

/-- Every step keeps it. -/
theorem layerStep {op : LayerOp} (h : Inv c s) (he : Env s op) (hc : c → Clean op)
    (hr : layerStep s op = .ok s') : Inv c s' := by
  cases op with
  | socket block pcb => exact h.rudpSocket he hc hr
  | bind a udp port => exact h.rudpBind hr
  | listen a lpcb acceptCb recvCb => exact h.rudpListen he hr
  | connect a connectedCb recvCb newPort iss fails => exact h.rudpConnect hr
  | send a buf fails => exact h.rudpSend hr
  | close a fails => exact h.rudpClose (.inl rfl) hr
  | accept p block fails => exact h.onAccept he hc hr
  | recv p len =>
    dsimp only [Layer.layerStep] at hr
    split at hr
    · exact h.onRecv hr
    · cases hr
      exact h
  | connected p =>
    obtain ⟨hp, hst⟩ := he
    have h₁ : Inv c (s.setPcb p { s.pcbs p with st.pcb.state := .ESTABLISHED }) := by
      refine h.staysSt ⟨rfl, .inr ⟨fun _ => ⟨.inr (.inr (.inl rfl)), ?_⟩, hp.2⟩⟩
      exact TcpState.noConfusion
    dsimp only [Layer.layerStep] at hr
    split at hr
    · exact h₁.onConnect hr
    · cases hr
      exact h₁
  | sent p fails =>
    dsimp only [Layer.layerStep] at hr
    split at hr
    · exact h.retryClose hr
    · cases hr
      exact h
  | poll p fails =>
    dsimp only [Layer.layerStep] at hr
    split at hr
    · exact h.retryClose hr
    · cases hr
      exact h
  | abort p early => exact h.abort he hr
  | syn l p st =>
    cases hr
    refine h.setPcb_unowned (fun b gd => h.unowned_freed he.2.2.1) (.inr ?_)
    simp [TcpPcb.Hooked]
  | move p st =>
    cases hr
    exact h.staysSt he.2.stays
  | expire p =>
    cases hr
    obtain ⟨hp, hst⟩ := he
    refine h.setPcb_unowned (fun b gd => h.unowned_state hp.2 ?_) (.inl rfl)
    unfold Open
    rcases hst with e | e <;> rw [e] <;> decide

theorem init (c : Prop) : Inv c init where
  owned a fd ha := by cases ha
  hooked p hl := by cases hl
  past _ := Log.throughout_nil

end Inv

/-! ## Retries -/

/-- In every run in which the blocks of `mem_malloc` have a zero where `is_closing` is, and
    `on_accept` gets one: `rudp_poll` and `rudp_sent` call `tcp_close`, and `rudp_send` refuses data,
    only behind a `rudp_close` of the application on this fd for which `tcp_close` returned an error,
    and nothing else of the layer calls `tcp_close`. -/
theorem only_failed_close_retried
    (hr : Run.Reach layerStep (fun s op => Env s op ∧ Clean op) init s) :
    Log.Throughout JustifiedBy s.log := by
  have h : Inv True s := hr.invariant (Inv.init True) fun s op s' hI hop hs =>
    hI.layerStep hop.1 (fun _ => hop.2) hs
  exact h.past trivial

/-! ### Two runs -/

/-- A block of `mem_malloc`. -/
def block (isClosing : Byte) : RudpFd where
  isClosing := isClosing
  pcb := 0
  recvCb := 0
  acceptCb := 0
  connectedCb := 0

/-- `rudp_socket` gets such a block. -/
def socketOp (isClosing : Byte) : LayerOp := .socket (some (0, block isClosing)) (some (0, client))

theorem env_socketOp (isClosing : Byte) : Env init (socketOp isClosing) := by
  refine ⟨fun b _ => rfl, fun x hx => ?_⟩
  obtain rfl := Option.mem_some.mp hx
  exact ⟨rfl, ⟨⟨_, _, _, 0, rfl⟩, rfl⟩, rfl⟩

theorem clean_socketOp : Clean (socketOp 0) := by
  intro b hb
  obtain rfl := Option.mem_some.mp hb
  rfl

/-- The FIN finds no memory, and the poll event tries again. -/
theorem only_failed_close_retried_poll : ∃ s, Run.exec layerStep init
    [socketOp 0, .connect 0 1 2 4000 1000 [], .connected 0, .close 0 [true], .poll 0 []] = .ok s ∧
      s.log.getLast? = some (.freed 0) ∧ Log.Throughout JustifiedBy s.log := by
  refine ⟨_, rfl, rfl, only_failed_close_retried
    (.step (.poll 0 []) (.step (.close 0 [true]) (.step (.connected 0)
      (.step (.connect 0 1 2 4000 1000 []) (.step (socketOp 0) .refl
        ⟨env_socketOp 0, clean_socketOp⟩ rfl) ⟨trivial, trivial⟩ rfl)
      ⟨⟨⟨rfl, by decide⟩, rfl⟩, trivial⟩ rfl) ⟨trivial, trivial⟩ rfl)
      ⟨⟨rfl, by decide⟩, trivial⟩ rfl)⟩

/-- The block of the fd is not zero: the first poll event closes the connection. -/
theorem only_failed_close_retried_fails : ∃ s, Run.Reach layerStep Env init s ∧
    s.log = .made 0 :: (passes 0 true ++ [.callback 1 0, .pass 0 true]) ++
      .tcpClose (.retry 0) 0 .ok :: (passes 0 true ++ [.freed 0]) ∧
      ¬ Log.Throughout JustifiedBy s.log := by
  obtain ⟨s, hr, hlog⟩ : ∃ s, Run.Reach layerStep Env init s ∧
      s.log = .made 0 :: (passes 0 true ++ [.callback 1 0, .pass 0 true]) ++
        .tcpClose (.retry 0) 0 .ok :: (passes 0 true ++ [.freed 0]) :=
    ⟨_, .step (.poll 0 []) (.step (.connected 0) (.step (.connect 0 1 2 4000 1000 [])
      (.step (socketOp 1) .refl (env_socketOp 1) rfl) trivial rfl) ⟨⟨rfl, by decide⟩, rfl⟩ rfl)
      ⟨rfl, by decide⟩ rfl, rfl⟩
  refine ⟨s, hr, hlog, fun h => ?_⟩
  have hc : ClosedInVain 0 0 (.made 0 :: (passes 0 true ++ [.callback 1 0, .pass 0 true])) :=
    h _ _ _ hlog
  obtain ⟨x, hx, err, -, rfl⟩ := hc.exists_mem
  simp [passes] at hx

end Rudp.Layer

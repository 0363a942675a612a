import Rudp.Timing
import Rudp.States
import Rudp.Owed
import Rudp.Sent

/-!
# The congestion window

`cwnd` and `ssthresh` are 16-bit. Most of their updates are guarded: an addition that would wrap is
skipped. An MSS option is read in every segment, so that `mss` can grow under a `cwnd` that was
computed from a smaller one.

Results:
* `cwnd_safe`: `cwnd` is at least 1 in every run and at least `mss` in every run in which no option
  raises `mss` behind the handshake, and what each ACK, each retransmission and each handshake makes
  of it.
* `cwnd_safe_fails`: the ACK that ends fast recovery raises `cwnd` above `ssthresh`, and an option
  raises `mss` above `cwnd`.
-/

namespace Rudp

variable {W : Type} {s s' : St W} {app : App W}

/-! ## The updates -/

/-- The handshake has not come to its end. -/
def TcpState.Opens (st : TcpState) : Prop := st = .SYN_SENT ∨ st = .SYN_RCVD

theorem Leaves.not_opens {st st' : TcpState} (h : Leaves st st') : ¬ st'.Opens :=
  not_or.mpr ⟨h.1, h.2.1⟩

theorem not_opens_of_num {st : TcpState} (h : TcpState.ESTABLISHED.num ≤ st.num) : ¬ st.Opens :=
  not_or.mpr (TcpState.synchronized h)

/-- What the fields are bounded by: `cwnd` is no divisor zero, and a pcb in fast recovery has a
    `ssthresh` from `fastSsthresh` or `rtoSsthresh`. -/
structure Timers.Sized (v : Timers) : Prop where
  mss : 0 < v.mss ∧ v.mss ≤ TCP_MSS
  cwnd : 1 ≤ v.cwnd ∧ v.cwnd < 2 ^ 16
  recovery : v.tfInfr = true → 2 ≤ v.ssthresh ∧ v.ssthresh < 2 ^ 15
  opens : v.state.Opens → v.tfInfr = false

/-- The congestion window has room for a segment, and so it will have behind fast recovery. -/
structure Timers.Roomy (v : Timers) : Prop where
  cwnd : v.state = .ESTABLISHED ∨ v.state = .CLOSE_WAIT ∨ v.state = .LAST_ACK → v.mss ≤ v.cwnd
  recovery : v.tfInfr = true → 2 * v.mss ≤ v.ssthresh

theorem TCP_MSS_eq : TCP_MSS = 536 := rfl

/-- An addition to `cwnd` as the code guards it: it is exact, or it wraps and is skipped. -/
theorem guarded_add {c n : ℕ} (hc : c < 2 ^ 16) (hn : n ≤ TCP_MSS) :
    let c' := if u16 (c + n) > c then u16 (c + n) else c
    (c' = c + n ∧ c + n < 2 ^ 16) ∨ (c' = c ∧ 2 ^ 16 ≤ c + n) := by
  intro c'
  have hm := TCP_MSS_eq
  have hc' : c' = if u16 (c + n) > c then u16 (c + n) else c := rfl
  clear_value c'
  unfold u16 at hc'
  split at hc' <;> omega

/-- A guarded addition never lowers `cwnd` and stays inside 16 bits, whatever is added. -/
theorem guarded_bounds {c n : ℕ} (hc : c < 2 ^ 16) :
    let c' := if u16 (c + n) > c then u16 (c + n) else c
    c ≤ c' ∧ c' < 2 ^ 16 := by
  intro c'
  have hc' : c' = if u16 (c + n) > c then u16 (c + n) else c := rfl
  clear_value c'
  unfold u16 at hc'
  split at hc' <;> omega

/-- What an ACK of new data adds to `cwnd`: slow start or congestion avoidance. -/
def Timers.growth (v : Timers) : ℕ := if v.cwnd < v.ssthresh then v.mss else v.mss * v.mss / v.cwnd

theorem Timers.growth_le {v : Timers} (h : v.cwnd < v.ssthresh ∨ v.mss ≤ v.cwnd) :
    v.growth ≤ v.mss := by
  unfold Timers.growth
  split
  · exact le_rfl
  · next hc => exact Nat.div_le_of_le_mul (Nat.mul_le_mul_right v.mss (h.resolve_left hc))

theorem Timers.grown_eq (v : Timers) :
    v.grown = if u16 (v.cwnd + v.growth) > v.cwnd then u16 (v.cwnd + v.growth) else v.cwnd := by
  unfold Timers.grown Timers.growth Timers.inflated
  split <;> rfl

/-- The end of fast recovery. -/
def Timers.recovered (v : Timers) : Timers :=
  if v.tfInfr then { v with tfInfr := false, cwnd := v.ssthresh } else v

theorem timers_recover (pcb : Pcb) : pcb.recover.timers = pcb.timers.recovered := by
  unfold Pcb.recover Timers.recovered
  change _ = if pcb.tfInfr then _ else _
  split <;> rfl

theorem recovered_keeps (v : Timers) : v.recovered.state = v.state ∧ v.recovered.mss = v.mss ∧
    v.recovered.ssthresh = v.ssthresh ∧ v.recovered.tfInfr = false ∧
    v.recovered.cwnd = if v.tfInfr then v.ssthresh else v.cwnd := by
  unfold Timers.recovered
  split
  · exact ⟨rfl, rfl, rfl, rfl, rfl⟩
  · next hi => exact ⟨rfl, rfl, rfl, by simpa using hi, rfl⟩

theorem Timers.Sized.recovered {v : Timers} (h : v.Sized) : v.recovered.Sized := by
  obtain ⟨e₁, e₂, e₃, e₄, e₅⟩ := recovered_keeps v
  refine ⟨e₂ ▸ h.mss, ?_, fun hi => ?_, fun _ => e₄⟩
  · rw [e₅]
    split
    · next hi =>
      have hr := h.recovery hi
      omega
    · exact h.cwnd
  · rw [e₄] at hi
    cases hi

/-- The window behind an update. -/
theorem timers_window (pcb : Pcb) (seg : InSegment) : ∃ sndWnd persistBackoff,
    (tcpReceiveWindow pcb seg).timers =
      { pcb.timers with sndWnd := sndWnd, persistBackoff := persistBackoff } := by
  obtain ⟨wnd, wmax, wl1, wl2, cnt, pb, hw, -⟩ := tcpReceiveWindow_keeps pcb seg
  exact ⟨wnd, pb, by rw [hw]; rfl⟩

/-- Two segments do not wrap. -/
theorem Timers.Sized.two_mss {pcb : Pcb} (h : pcb.timers.Sized) : u16 (2 * pcb.mss) = 2 * pcb.mss := by
  have hm : pcb.mss ≤ TCP_MSS := h.mss.2
  have e := TCP_MSS_eq
  unfold u16
  omega

theorem rtoSsthresh_bounds {pcb : Pcb} (h : pcb.timers.Sized) :
    2 * pcb.mss ≤ rtoSsthresh pcb ∧ rtoSsthresh pcb < 2 ^ 15 ∧
      rtoSsthresh pcb = max (min pcb.cwnd pcb.sndWnd / 2) (2 * pcb.mss) := by
  have hm : pcb.mss ≤ TCP_MSS := h.mss.2
  have hc : pcb.cwnd < 2 ^ 16 := h.cwnd.2
  have e := TCP_MSS_eq
  unfold rtoSsthresh
  rw [h.two_mss]
  split <;> omega

theorem fastSsthresh_bounds {pcb : Pcb} (h : pcb.timers.Sized) :
    2 * pcb.mss ≤ fastSsthresh pcb ∧ fastSsthresh pcb < 2 ^ 15 ∧
      fastSsthresh pcb = max (min pcb.cwnd pcb.sndWnd / 2) (2 * pcb.mss) := by
  have hm : pcb.mss ≤ TCP_MSS := h.mss.2
  have hc : pcb.cwnd < 2 ^ 16 := h.cwnd.2
  have e := TCP_MSS_eq
  unfold fastSsthresh
  dsimp only
  rw [h.two_mss]
  split_ifs <;> omega

/-- The window of a fast retransmission does not wrap. -/
theorem fastRexmit_cwnd {pcb : Pcb} (h : pcb.timers.Sized) :
    (fastRexmit pcb).cwnd = fastSsthresh pcb + 3 * pcb.mss ∧ (fastRexmit pcb).cwnd < 2 ^ 16 := by
  have hm : pcb.mss ≤ TCP_MSS := h.mss.2
  have e := TCP_MSS_eq
  obtain ⟨-, hf, -⟩ := fastSsthresh_bounds h
  show u16 _ = _ ∧ u16 _ < _
  unfold u16
  omega

theorem initialCwnd_bounds {mss : ℕ} (h : 0 < mss ∧ mss ≤ TCP_MSS) :
    mss ≤ initialCwnd mss ∧ 1 ≤ initialCwnd mss ∧ initialCwnd mss ≤ 4 * mss ∧
      initialCwnd mss < 2 ^ 16 := by
  have e := TCP_MSS_eq
  unfold initialCwnd
  omega

/-! ## The invariant -/

/-- The pcb is past its handshake, with room for a segment. -/
def Timers.Past (v : Timers) : Prop := ¬ v.state.Opens ∧ v.mss ≤ v.cwnd

/-- The invariant inside an operation: `mss` is what it was before, `M`, or what the option makes of
    it, `N`. With `c` no option raises it behind the handshake; with `b` the pcb is past its own. -/
structure Timers.Tracks (c b : Prop) (M N : ℕ) (v : Timers) : Prop where
  sized : v.Sized
  mss : c → v.mss = M ∨ v.mss = N
  roomy : c → v.Roomy
  past : c → b → v.Past

/-- The option makes `mss` what the invariant says, and does not raise it behind the handshake. -/
def OptionIs (c : Prop) (M N : ℕ) (s : St W) (_ : InSegment) : Prop :=
  c → s.pcb.mss = N ∧ (¬ s.pcb.state.Opens → N ≤ M)

namespace Timers.Tracks

variable {c b : Prop} {M N : ℕ} {v w : Timers}

/-- A step that leaves `mss` alone. -/
theorem move (h : v.Tracks c b M N) (hm : w.mss = v.mss) (hs : w.Sized) (hr : v.Roomy → w.Roomy)
    (hp : v.Roomy → v.Past → w.Past) : w.Tracks c b M N where
  sized := hs
  mss hc := hm ▸ h.mss hc
  roomy hc := hr (h.roomy hc)
  past hc hb := hp (h.roomy hc) (h.past hc hb)

/-- Other fields. -/
theorem congr (h : v.Tracks c b M N) (hst : w.state = v.state) (hm : w.mss = v.mss)
    (hc : w.cwnd = v.cwnd) (hss : w.ssthresh = v.ssthresh) (hi : w.tfInfr = v.tfInfr) :
    w.Tracks c b M N := by
  refine h.move hm ⟨?_, ?_, ?_, ?_⟩ (fun hr => ⟨?_, ?_⟩) fun _ hp => ?_
  · rw [hm]
    exact h.sized.mss
  · rw [hc]
    exact h.sized.cwnd
  · rw [hss, hi]
    exact h.sized.recovery
  · rw [hst, hi]
    exact h.sized.opens
  · rw [hst, hm, hc]
    exact hr.cwnd
  · rw [hi, hm, hss]
    exact hr.recovery
  · unfold Past
    rw [hst, hm, hc]
    exact hp

theorem leave {st : TcpState} (h : v.Tracks c b M N) (hl : Leaves v.state st) :
    ({ v with state := st } : Timers).Tracks c b M N := by
  refine h.move rfl ⟨h.sized.mss, h.sized.cwnd, h.sized.recovery, ?_⟩ (fun hr => ⟨?_, hr.recovery⟩)
    fun _ hp => ⟨hl.not_opens, hp.2⟩
  · exact fun ho => absurd ho hl.not_opens
  · rintro (rfl | ho)
    · exact absurd rfl hl.2.2.1
    · exact hr.cwnd ((hl.2.2.2 ho).imp_right .inl)

/-- `cwnd` grows. -/
theorem raise {n : ℕ} (h : v.Tracks c b M N) (hle : v.cwnd ≤ n) (hlt : n < 2 ^ 16) :
    ({ v with cwnd := n } : Timers).Tracks c b M N := by
  have hc := h.sized.cwnd
  refine h.move rfl ⟨h.sized.mss, ⟨?_, hlt⟩, h.sized.recovery, h.sized.opens⟩
    (fun hr => ⟨fun hst => (hr.cwnd hst).trans hle, hr.recovery⟩)
    fun _ hp => ⟨hp.1, hp.2.trans hle⟩
  show 1 ≤ n
  omega

theorem recovered (h : v.Tracks c b M N) : v.recovered.Tracks c b M N := by
  obtain ⟨e₁, e₂, e₃, e₄, e₅⟩ := recovered_keeps v
  have hle (hr : v.Roomy) (hc : v.mss ≤ v.cwnd) : v.recovered.mss ≤ v.recovered.cwnd := by
    rw [e₂, e₅]
    split
    · next hi =>
      have h2 := hr.recovery hi
      omega
    · exact hc
  refine h.move e₂ h.sized.recovered (fun hr => ⟨fun hst => ?_, fun hi => ?_⟩) fun hr hp => ⟨?_, ?_⟩
  · rw [e₁] at hst
    exact hle hr (hr.cwnd hst)
  · rw [e₄] at hi
    cases hi
  · rw [e₁]
    exact hp.1
  · exact hle hr hp.2

/-- Both retransmissions that look at the congestion window. -/
theorem loss {ssthresh cwnd : ℕ} (h : v.Tracks c b M N) (hss : 2 * v.mss ≤ ssthresh)
    (hlt : ssthresh < 2 ^ 15) (hle : v.mss ≤ cwnd) (hc : cwnd < 2 ^ 16) (infr : Bool)
    (ho : v.state.Opens → infr = false) :
    ({ v with ssthresh := ssthresh, cwnd := cwnd, tfInfr := infr } : Timers).Tracks c b M N := by
  have hm := h.sized.mss
  refine h.move rfl ⟨hm, ⟨?_, hc⟩, fun _ => ⟨?_, hlt⟩, ho⟩ (fun _ => ⟨fun _ => hle, fun _ => hss⟩)
    fun _ hp => ⟨hp.1, hle⟩
  · show 1 ≤ cwnd
    omega
  · show 2 ≤ ssthresh
    omega

/-- An ACK. -/
theorem ack {pcb p : Pcb} {seg : InSegment} (h : pcb.timers.Tracks c b M N)
    (hst : TcpState.ESTABLISHED.num ≤ pcb.state.num) (hp : AckTimers pcb seg p) :
    p.timers.Tracks c b M N := by
  obtain ⟨wnd, pb, hw⟩ := timers_window pcb seg
  have h₁ : (tcpReceiveWindow pcb seg).timers.Tracks c b M N := by
    rw [hw]
    exact h.congr rfl rfl rfl rfl rfl
  have hst₁ : ¬ (tcpReceiveWindow pcb seg).timers.state.Opens := by
    rw [hw]
    exact not_opens_of_num hst
  cases hp with
  | keep _ _ => exact h₁
  | inflate _ _ =>
    rw [timers_cwndInflate]
    generalize tcpReceiveWindow pcb seg = q at h₁
    obtain ⟨hl, hu⟩ := guarded_bounds (c := q.timers.cwnd) (n := q.timers.mss) h₁.sized.cwnd.2
    exact h₁.raise hl hu
  | fast _ =>
    generalize tcpReceiveWindow pcb seg = q at h₁ hst₁
    obtain ⟨f₁, f₂, -⟩ := fastSsthresh_bounds h₁.sized
    obtain ⟨g₁, g₂⟩ := fastRexmit_cwnd h₁.sized
    have hle : q.timers.mss ≤ (fastRexmit q).cwnd := by
      rw [g₁]
      show q.mss ≤ _
      omega
    exact (h₁.loss f₁ f₂ hle g₂ true fun ho => absurd ho hst₁).congr rfl rfl rfl rfl rfl
  | advance _ =>
    rw [timers_cwndAck]
    generalize tcpReceiveWindow pcb seg = q at h₁
    have h₂ : ({ q.recover with nrtx := 0, rto := s16 (pcb.sa / 8 + pcb.sv) } : Pcb).timers.Tracks
        c b M N := by
      have hr := h₁.recovered
      rw [← timers_recover] at hr
      exact hr.congr rfl rfl rfl rfl rfl
    refine h₂.raise ?_ ?_
    · rw [grown_eq]
      exact (guarded_bounds h₂.sized.cwnd.2).1
    · rw [grown_eq]
      exact (guarded_bounds h₂.sized.cwnd.2).2

end Timers.Tracks

theorem timedBase_tracks (c b : Prop) (M N : ℕ) : TimedBase (W := W) NoConnect (fun _ _ => True)
    (fun _ _ => True) (OptionIs c M N) (Timers.Tracks c b M N) where
  noConnect := id
  leave hl hI := hI.leave hl
  backoff _ _ _ hI := hI.congr rfl rfl rfl rfl rfl
  rto {s rto} _ _ _ hI := by
    obtain ⟨f₁, f₂, -⟩ := rtoSsthresh_bounds hI.sized
    have hm := hI.sized.mss
    have e := TCP_MSS_eq
    have h := hI.loss f₁ f₂ (le_refl s.pcb.timers.mss) (by omega) s.pcb.tfInfr hI.sized.opens
    exact h.congr rfl rfl rfl rfl rfl
  rexmit _ _ _ _ hI := hI.congr rfl rfl rfl rfl rfl
  mss {s seg tmr n} hn hO hI := by
    have hle (hc : c) (ho : ¬ s.pcb.state.Opens) : n ≤ s.pcb.timers.mss := by
      obtain ⟨h₁, h₂⟩ := hO hc
      have h₃ : n = N := h₁
      have h₄ := h₂ ho
      rcases hI.mss hc with e | e <;> omega
    refine ⟨⟨?_, hI.sized.cwnd, hI.sized.recovery, hI.sized.opens⟩, fun hc => .inr (hO hc).1,
      fun hc => ⟨fun hst => ?_, fun hi => ?_⟩, fun hc hb => ⟨(hI.past hc hb).1, ?_⟩⟩
    · rcases hn with rfl | hn
      · exact hI.sized.mss
      · exact hn
    · refine (hle hc ?_).trans ((hI.roomy hc).cwnd hst)
      change s.pcb.state = _ ∨ s.pcb.state = _ ∨ s.pcb.state = _ at hst
      rintro (e | e) <;> rw [e] at hst <;> revert hst <;> decide
    · have hno : ¬ s.pcb.state.Opens := fun ho => by
        have h₁ := hI.sized.opens ho
        rw [h₁] at hi
        cases hi
      have h₁ := (hI.roomy hc).recovery hi
      have h₂ := hle hc hno
      show 2 * n ≤ s.pcb.timers.ssthresh
      omega
    · exact (hle hc (hI.past hc hb).1).trans (hI.past hc hb).2
  establish {s seg rseg rest} hst _ _ _ hI := by
    obtain ⟨i₁, i₂, -, i₃⟩ := initialCwnd_bounds hI.sized.mss
    have hi : s.pcb.timers.tfInfr = false := hI.sized.opens (.inl hst)
    refine ⟨⟨hI.sized.mss, ⟨i₂, i₃⟩, fun h => ?_, fun _ => hi⟩, hI.mss,
      fun _ => ⟨fun _ => i₁, fun h => ?_⟩, fun hc hb => absurd (.inl hst) (hI.past hc hb).1⟩
    · rw [show (establish s.pcb seg rest).timers.tfInfr = false from hi] at h
      cases h
    · rw [show (establish s.pcb seg rest).timers.tfInfr = false from hi] at h
      cases h
  ack hst _ hp hI := hI.ack hst hp
  sample hst _ hp _ hI := (hI.ack hst hp).congr rfl rfl rfl rfl rfl

/-! ## Duplicate ACKs -/

/-- No duplicate ACK is counted before the handshake has come to its end. -/
def St.NoDupacks (s : St W) : Prop := s.pcb.state.Opens → s.pcb.dupacks = 0

theorem dupacks_of_calm {p q : Pcb} (h : p.calm = q.calm) :
    p.state = q.state ∧ p.dupacks = q.dupacks :=
  ⟨(congrArg Pcb.state h :), (congrArg Pcb.dupacks h :)⟩

theorem Queues.dupacks (h : Queues s s') :
    s'.pcb.state = s.pcb.state ∧ s'.pcb.dupacks = s.pcb.dupacks :=
  ⟨(congrArg Pcb.state h.1 :), (congrArg Pcb.dupacks h.1 :)⟩

/-- What the API does to the state and this counter: nothing but a change of the state. -/
theorem keptApi_dupacks {K : TcpState → ℕ → Prop}
    (hleave : ∀ {st st' d}, Leaves st st' → K st d → K st' d) :
    KeptApi NoConnect (fun s : St W => K s.pcb.state s.pcb.dupacks) where
  frame {s s'} hI hq _ _ _ := by
    have e₁ : s'.pcb.state = s.pcb.state := (congrArg Pcb.state hq :)
    have e₂ : s'.pcb.dupacks = s.pcb.dupacks := (congrArg Pcb.dupacks hq :)
    rw [e₁, e₂]
    exact hI
  unpark hI := hI
  callback _ hI := hI
  ackNow hI := hI
  rst {s seqno ackno} hI := by rw [(tcpRst_cases s seqno ackno s.pcb.connId).1]; exact hI
  connect hP := absurd hP id
  write {s s' arg copy more err} hP hr hI := by
    obtain ⟨e₁, e₂⟩ := (tcpWrite_queues hr).dupacks
    rw [← e₁, ← e₂] at hI
    split <;> exact hI
  recved hP hw hp hI := by
    obtain ⟨aw, rfl⟩ := tcpUpdateRcvAnnWnd_ok hp
    exact hI
  fin {s s' a st err} hP ha hst hr hI := by
    obtain ⟨e₁, e₂⟩ := (tcpSendFin_queues hr).dupacks
    split
    · show K st s'.pcb.dupacks
      rw [e₂]
      exact hleave (.of_closeState hst) hI
    · rw [e₁, e₂]
      exact hI
  output hr hI := by
    obtain ⟨e₁, e₂⟩ := dupacks_of_calm (calm_tcpOutput hr)
    rw [e₁, e₂]
    exact hI
  purge {s} _ hI := by
    have h : (tcpPcbPurge s.pcb).state = s.pcb.state ∧
        (tcpPcbPurge s.pcb).dupacks = s.pcb.dupacks := by
      unfold tcpPcbPurge
      split <;> exact ⟨rfl, rfl⟩
    show K (tcpPcbPurge s.pcb).state (tcpPcbPurge s.pcb).dupacks
    rw [h.1, h.2]
    exact hI
  timeWait _ _ _ _ _ _ hI := hleave (.of_other (.inr (.inr (.inr (.inr rfl))))) hI
  closed _ _ _ _ hI := hleave (.of_other (.inl rfl)) hI
  clear _ _ hI := hI

/-- `tcp_receive` is not called before the handshake has come to its end, and does not go back. -/
theorem not_opens_processReceive {seg : InSegment} {after : St W → St W}
    (hafter : ∀ t, Settles t.core (after t).core) (hr : tcpProcessReceive s seg after = .ok s') :
    ¬ s'.pcb.state.Opens := by
  obtain ⟨hnum, s₁, s₂, -, hv, h₂, rfl⟩ := processReceive_parts hr
  have hst := not_opens_of_num hnum
  have e₁ : s₁.pcb.state = s.pcb.state := congrArg RcvView.state hv
  have hst₂ : ¬ s₂.pcb.state.Opens := by
    rcases state_tcpReceiveData h₂ with e | ⟨-, e⟩
    · rw [e, e₁]
      exact hst
    · rw [e]
      exact nofun
  show ¬ (after s₂).core.state.Opens
  rcases (hafter s₂).state with e | e | e | e | e
  · rw [e]
    exact hst₂
  all_goals
    rw [e]
    exact nofun

theorem keptApi_noDupacks : KeptApi NoConnect (St.NoDupacks (W := W)) :=
  keptApi_dupacks (K := fun st d => st.Opens → d = 0) fun hl _ ho => absurd ho hl.not_opens

theorem keptBase_noDupacks {O : St W → InSegment → Prop} :
    KeptBase NoConnect (fun _ _ => True) (fun _ _ => True) app St.NoDupacks O where
  toKeptApi := keptApi_noDupacks
  reset hr hI := keptApi_noDupacks.tcpInputRemove hr hI
  keepalive {s} hI := by
    obtain ⟨e₁, e₂⟩ := dupacks_of_calm (calm_tcpKeepalive s)
    unfold St.NoDupacks
    rw [e₁, e₂]
    exact hI
  fasttmr {s s' err} _ _ hr hI := by
    have h : s'.NoDupacks := keptApi_noDupacks.output (s := tcpAckNow s) hr hI
    exact h
  probe {s n} _ _ hI := by
    obtain ⟨e₁, e₂⟩ := dupacks_of_calm (calm_tcpZeroWindowProbe { s with pcb.persistCnt := n })
    unfold St.NoDupacks
    rw [e₁, e₂]
    exact hI
  backoff _ _ _ hI := hI
  rtime _ hI := hI
  rto {s s' rto ssthresh} _ he _ _ hr hI := by
    unfold tcpRexmitRto at hr
    split at hr
    · cases hr
      exact hI
    · obtain ⟨⟨err, s₁⟩, h₁, hr⟩ := Run.bind_eq_ok.mp hr
      cases hr
      refine keptApi_noDupacks.output h₁ ?_
      exact hI
  park _ hI := hI
  rcvWndFin {s} _ hI := by
    show (rcvWndFin s.pcb).state.Opens → (rcvWndFin s.pcb).dupacks = 0
    unfold rcvWndFin
    split <;> exact hI
  start _ _ hI := hI
  synSent happ _ _ hr hI :=
    keptApi_noDupacks.tcpProcessSynSent (fun _ _ _ _ ho => by rcases ho with h | h <;> cases h)
      happ hr hI
  receive _ _ _ hr _ ho := absurd ho (not_opens_processReceive (settles_tcpProcessAfter _ _) hr)
  ooseq hI := hI

/-! ## The handshake on the passive side -/

theorem state_tcpAbandon {reset : Bool} (h : tcpAbandon s reset = .ok s') :
    s'.pcb.state = .CLOSED := by
  have hk : KeptApi NoConnect (fun _ : St W => True) :=
    keptApi_dupacks (K := fun _ _ => True) fun _ _ => trivial
  unfold tcpAbandon at h
  split at h
  · obtain ⟨s₁, h₁, h⟩ := Run.bind_eq_ok.mp h
    cases h
    exact (hk.tcpPcbRemove h₁ trivial).2.1
  · obtain ⟨s₁, h₁, h⟩ := Run.bind_eq_ok.mp h
    cases h
    have hst : s₁.pcb.state = .CLOSED := by
      split at h₁
      · next hb =>
        cases h₁
        exact hb.1
      · obtain ⟨s₂, h₂, h₃⟩ := Run.bind_eq_ok.mp h₁
        cases h₃
        exact (hk.tcpPcbRemove h₂ trivial).2.1
    dsimp only
    split_ifs
    · show (tcpRst _ _ _ _).pcb.state = _
      rw [(tcpRst_cases _ _ _ _).1]
      exact hst
    · exact hst

theorem AckTimers.mss {pcb p : Pcb} {seg : InSegment} (hp : AckTimers pcb seg p) :
    p.mss = pcb.mss ∧ (¬ FastRexmits pcb seg → pcb.tfInfr = false → p.tfInfr = false) := by
  obtain ⟨wnd, pb, hw⟩ := timers_window pcb seg
  have e₁ : (tcpReceiveWindow pcb seg).mss = pcb.mss := congrArg Timers.mss hw
  have e₂ : (tcpReceiveWindow pcb seg).tfInfr = pcb.tfInfr := congrArg Timers.tfInfr hw
  cases hp with
  | keep _ _ => exact ⟨e₁, fun _ hi => e₂.trans hi⟩
  | inflate _ _ =>
    have h := timers_cwndInflate (tcpReceiveWindow pcb seg)
    exact ⟨(congrArg Timers.mss h).trans e₁, fun _ hi => (congrArg Timers.tfInfr h).trans (e₂.trans hi)⟩
  | fast hf => exact ⟨e₁, fun hn _ => absurd hf hn⟩
  | advance _ =>
    obtain ⟨-, r₁, -, r₂, -⟩ := recovered_keeps (tcpReceiveWindow pcb seg).timers
    rw [← timers_recover] at r₁ r₂
    have h := timers_cwndAck { (tcpReceiveWindow pcb seg).recover with
      nrtx := 0, rto := s16 (pcb.sa / 8 + pcb.sv) }
    exact ⟨(congrArg Timers.mss h).trans (r₁.trans e₁), fun _ _ => (congrArg Timers.tfInfr h).trans r₂⟩

/-- The ACK of the SYN sets the congestion window. -/
theorem cwnd_processAccept {seg : InSegment} (hi : s.pcb.tfInfr = false) (hd : s.pcb.dupacks = 0)
    (hr : tcpProcessReceive s seg tcpProcessAcceptAfter = .ok s') :
    s'.pcb.mss = s.pcb.mss ∧ s'.pcb.tfInfr = false ∧ s'.pcb.cwnd = initialCwnd s.pcb.mss := by
  obtain ⟨-, s₁, s₂, h₁, -, h₂, rfl⟩ := processReceive_parts hr
  have hf : ¬ FastRexmits s.pcb seg := fun hf => by
    have h2 := hf.2.2.1
    omega
  have hI₁ : s₁.pcb.mss = s.pcb.mss ∧ s₁.pcb.tfInfr = false := by
    rcases h₁ with ⟨hack, h₁⟩ | ⟨-, rfl⟩
    · obtain ⟨p, hp, ht | ⟨-, ht⟩⟩ := tcpReceiveAck_timers hack h₁
      · exact ⟨(congrArg Timers.mss ht).trans hp.mss.1,
          (congrArg Timers.tfInfr ht).trans (hp.mss.2 hf hi)⟩
      · exact ⟨(congrArg Timers.mss ht).trans hp.mss.1,
          (congrArg Timers.tfInfr ht).trans (hp.mss.2 hf hi)⟩
    · exact ⟨rfl, hi⟩
  have ht := still_tcpReceiveData h₂
  have e₁ : s₂.pcb.mss = s.pcb.mss := (congrArg Timers.mss ht).trans hI₁.1
  have e₂ : s₂.pcb.tfInfr = false := (congrArg Timers.tfInfr ht).trans hI₁.2
  show (tcpProcessAcceptAfter s₂).pcb.mss = _ ∧ (tcpProcessAcceptAfter s₂).pcb.tfInfr = _ ∧
    (tcpProcessAcceptAfter s₂).pcb.cwnd = _
  unfold tcpProcessAcceptAfter
  dsimp only
  split
  · exact ⟨e₁, e₂, congrArg initialCwnd e₁⟩
  · exact ⟨e₁, e₂, congrArg initialCwnd e₁⟩

theorem keptApi_still (v : Timers) : KeptApi NoConnect fun t : St W =>
    t.pcb.timers.still = v.still :=
  TimedBase.keptApi_timers (I := fun w => w.still = v.still) id fun _ hI => hI

theorem keptApi_accept (v : Timers) : KeptApi NoConnect fun t : St W =>
    t.pcb.timers.still = v.still ∧ t.pcb.dupacks = 0 :=
  (keptApi_still v).and (keptApi_dupacks (K := fun _ d => d = 0) fun _ hd => hd)

/-- In the accept callback the pcb is `ESTABLISHED` with the congestion window of the handshake. -/
theorem still_accept {s₁ : St W} {ret : Err} (happ : AppOk NoConnect app)
    (hst : s.pcb.state = .SYN_RCVD) (hd : s.NoDupacks)
    (h : tcpEvent app .accept { s with pcb.state := .ESTABLISHED } = .ok (ret, s₁)) :
    s₁.pcb.timers.still = s.pcb.timers.still ∧ s₁.pcb.dupacks = 0 :=
  (keptApi_accept s.pcb.timers).tcpEvent happ h ⟨rfl, hd (.inr hst)⟩

/-- The ACK of the SYN that is accepted sets the congestion window, whatever the callback does. -/
theorem cwnd_accept {seg : InSegment} (happ : AppOk NoConnect app) (hst : s.pcb.state = .SYN_RCVD)
    (hi : s.pcb.tfInfr = false) (hd : s.NoDupacks)
    (hr : tcpProcessAccept app s seg = .ok (.ok, s')) :
    s'.pcb.mss = s.pcb.mss ∧ s'.pcb.cwnd = initialCwnd s.pcb.mss := by
  obtain ⟨⟨ret, s₁⟩, h₁, hr⟩ := Run.bind_eq_ok.mp hr
  have hk := still_accept happ hst hd h₁
  dsimp only at hr
  split at hr
  · split at hr
    · obtain ⟨_, -, hr⟩ := Run.bind_eq_ok.mp hr
      obtain ⟨s₂, -, hr⟩ := Run.bind_eq_ok.mp hr
      cases hr
    · cases hr
  · obtain ⟨_, -, hr⟩ := Run.bind_eq_ok.mp hr
    obtain ⟨s₂, h₂, hr⟩ := Run.bind_eq_ok.mp hr
    cases hr
    have e₁ : s₁.pcb.mss = s.pcb.mss := (congrArg Timers.mss hk.1 :)
    have e₂ : s₁.pcb.tfInfr = s.pcb.tfInfr := (congrArg Timers.tfInfr hk.1 :)
    obtain ⟨f₁, -, f₂⟩ := cwnd_processAccept (e₂.trans hi) hk.2 h₂
    rw [← e₁]
    exact ⟨f₁, f₂⟩

/-- The segment is the SYN-ACK that `tcp_process` expects in `SYN_SENT`. -/
def Pcb.Connects (pcb : Pcb) (seg : InSegment) : Prop :=
  seg.flags.ack = true ∧ seg.flags.syn = true ∧
    ∃ rseg rest, pcb.unacked = rseg :: rest ∧ seg.ackno = rseg.tcphdr.seqno + 1

/-- The SYN-ACK sets the congestion window, whatever the callback does. -/
theorem cwnd_connected {seg : InSegment} {err : Err} (happ : AppOk NoConnect app)
    (hc : s.pcb.Connects seg) (hr : tcpProcessSynSent app s seg = .ok (err, s')) :
    s'.pcb.mss = s.pcb.mss ∧ s'.pcb.cwnd = initialCwnd s.pcb.mss := by
  obtain ⟨hack, hsyn, rseg, rest, hu, hno⟩ := hc
  unfold tcpProcessSynSent at hr
  rw [hu] at hr
  dsimp only at hr
  rw [if_pos ⟨hack, hsyn, hno⟩] at hr
  obtain ⟨_, -, hr⟩ := Run.bind_eq_ok.mp hr
  obtain ⟨⟨ret, s₁⟩, h₁, hr⟩ := Run.bind_eq_ok.mp hr
  have hk := (keptApi_still (establish s.pcb seg rest).timers).tcpEvent happ h₁ rfl
  have e₁ : s₁.pcb.mss = s.pcb.mss := (congrArg Timers.mss hk :)
  have e₂ : s₁.pcb.cwnd = initialCwnd s.pcb.mss := (congrArg Timers.cwnd hk :)
  dsimp only at hr
  split at hr
  · cases hr
    exact ⟨e₁, e₂⟩
  · obtain ⟨_, -, hr⟩ := Run.bind_eq_ok.mp hr
    cases hr
    exact ⟨e₁, e₂⟩

namespace Timers.Tracks

variable {c b : Prop} {M N : ℕ}

/-- The end of the handshake, whatever becomes of the connection. -/
theorem opened {v w : Timers} (h : v.Tracks c b M N) (ho : v.state.Opens) (hm : w.mss = v.mss)
    (hi : w.tfInfr = false) (hc : 1 ≤ w.cwnd ∧ w.cwnd < 2 ^ 16)
    (hr : c → w.state = .CLOSED ∨ w.mss ≤ w.cwnd) : w.Tracks c b M N := by
  have hni : ¬ w.tfInfr = true := by
    rw [hi]
    decide
  refine ⟨⟨?_, hc, fun h => absurd h hni, fun _ => hi⟩, fun h' => ?_,
    fun h' => ⟨fun hst => ?_, fun h => absurd h hni⟩, fun h' hb => absurd ho (h.past h' hb).1⟩
  · rw [hm]
    exact h.sized.mss
  · rw [hm]
    exact h.mss h'
  · refine (hr h').resolve_left fun hcl => ?_
    rw [hcl] at hst
    revert hst
    decide

theorem synRcvd {seg : InSegment} {err : Err} (happ : AppOk NoConnect app)
    (habrt : c → AbortOk app) (hst : s.pcb.state = .SYN_RCVD)
    (hr : tcpProcessSynRcvd app s seg = .ok (err, s'))
    (hI : s.pcb.timers.Tracks c b M N) (hd : s.NoDupacks) :
    s'.pcb.timers.Tracks c b M N ∧ s'.NoDupacks := by
  have ho : s.pcb.timers.state.Opens := .inr hst
  have hi : s.pcb.tfInfr = false := hI.sized.opens ho
  unfold tcpProcessSynRcvd at hr
  split at hr
  · split at hr
    · obtain ⟨⟨ret, s₁⟩, h₁, hr⟩ := Run.bind_eq_ok.mp hr
      have hk₁ := still_accept happ hst hd h₁
      have hend {t : St W} (ht : t.pcb.timers.still = s.pcb.timers.still)
          (hcl : c → t.pcb.state = .CLOSED) : t.pcb.timers.Tracks c b M N := by
        have e₁ : t.pcb.timers.cwnd = s.pcb.timers.cwnd := (congrArg Timers.cwnd ht :)
        have e₂ : t.pcb.timers.tfInfr = s.pcb.timers.tfInfr := (congrArg Timers.tfInfr ht :)
        refine hI.opened ho (congrArg Timers.mss ht :) (e₂.trans hi) ?_ fun hc => .inl (hcl hc)
        rw [e₁]
        exact hI.sized.cwnd
      dsimp only at hr
      split at hr
      · next hne =>
        split at hr
        · obtain ⟨_, -, hr⟩ := Run.bind_eq_ok.mp hr
          obtain ⟨s₂, h₂, hr⟩ := Run.bind_eq_ok.mp hr
          cases hr
          have hk₂ := (keptApi_accept s.pcb.timers).tcpAbandon h₂ hk₁
          exact ⟨hend hk₂.1 fun _ => state_tcpAbandon h₂, fun _ => hk₂.2⟩
        · next hab =>
          cases hr
          refine ⟨hend hk₁.1 fun hc => ?_, fun _ => hk₁.2⟩
          obtain ⟨⟨ret', s₂⟩, h₂, h₁⟩ := Run.bind_eq_ok.mp h₁
          cases h₁
          rw [not_not.mp hab] at h₂
          have hcl : s₂.pcb.state = .CLOSED := habrt hc _ _ _ h₂
          exact hcl
      · obtain ⟨_, -, hr⟩ := Run.bind_eq_ok.mp hr
        obtain ⟨s₂, h₂, hr⟩ := Run.bind_eq_ok.mp hr
        cases hr
        have e₁ : s₁.pcb.mss = s.pcb.mss := (congrArg Timers.mss hk₁.1 :)
        have e₂ : s₁.pcb.tfInfr = false := (congrArg Timers.tfInfr hk₁.1 :).trans hi
        obtain ⟨f₁, f₂, f₃⟩ := cwnd_processAccept e₂ hk₁.2 h₂
        rw [e₁] at f₁ f₃
        obtain ⟨i₁, i₂, -, i₃⟩ := initialCwnd_bounds hI.sized.mss
        refine ⟨hI.opened ho f₁ f₂ ?_ fun _ => .inr ?_, fun hop => ?_⟩
        · show 1 ≤ s'.pcb.cwnd ∧ s'.pcb.cwnd < 2 ^ 16
          rw [f₃]
          exact ⟨i₂, i₃⟩
        · show s'.pcb.mss ≤ s'.pcb.cwnd
          rw [f₁, f₃]
          exact i₁
        · exact absurd hop (not_opens_processReceive settles_tcpProcessAcceptAfter h₂)
    · cases hr
      rw [tcpRstReply, timers_tcpRst]
      exact ⟨hI, keptApi_noDupacks.rst hd⟩
  · split at hr
    · cases hr
      by_cases hu : s.pcb.unacked = []
      · rw [tcpRexmit_nil hu]
        exact ⟨hI, hd⟩
      · rw [timers_tcpRexmit hu]
        refine ⟨hI.congr rfl rfl rfl rfl rfl, ?_⟩
        unfold tcpRexmit
        split
        · exact hd
        · exact hd
    · cases hr
      exact ⟨hI, hd⟩

end Timers.Tracks

/-- Every operation keeps the invariant. -/
theorem keptSteps_tracks {c b : Prop} {M N : ℕ} (habrt : c → AbortOk app) :
    KeptSteps NoConnect (fun _ _ => True) (fun _ _ => True) app
      (fun s : St W => s.pcb.timers.Tracks c b M N ∧ s.NoDupacks) (OptionIs c M N) :=
  { (timedBase_tracks c b M N).toKeptBase.and keptBase_noDupacks fun _ hd =>
      ⟨hd.mono fun _ => And.left, hd.mono fun _ => And.right⟩ with
    synRcvd := fun happ hst _ _ hr hI => Timers.Tracks.synRcvd happ habrt hst hr hI.1 hI.2 }

/-! ## Runs -/

/-- The application does not connect the pcb again. -/
def Runs (app : App W) : St W → List Bool × Op → Prop :=
  Kept.StepOk NoConnect (fun _ _ => True) (fun _ _ => True) app

/-- And no option raises `mss` behind the handshake. -/
def CwndOk (app : App W) (s : St W) (op : List Bool × Op) : Prop :=
  Runs app s op ∧ Kept.OptionsOk (fun t _ => ¬ t.pcb.state.Opens → t.pcb.mss ≤ s.pcb.mss) app s op

/-- The options of a segment are read once, so that there is one `mss` behind them. -/
theorem optionIs_exists {c : Prop} {op : List Bool × Op}
    (hop : c → Kept.OptionsOk (fun t _ => ¬ t.pcb.state.Opens → t.pcb.mss ≤ s.pcb.mss) app s op) :
    ∃ N, Kept.OptionsOk (OptionIs c s.pcb.mss N) app s op := by
  by_cases h : ∃ seg t, op.2 = .input seg ∧ Processes app { s with fails := op.1 } seg t
  · obtain ⟨seg, t, hs, ht⟩ := h
    refine ⟨t.pcb.mss, fun seg' hs' t' ht' hc => ?_⟩
    have hle := hop hc seg' hs' t' ht'
    rw [hs] at hs'
    cases hs'
    obtain ⟨s₁, h₁, -, -, rfl⟩ := ht
    obtain ⟨s₂, h₂, -, -, rfl⟩ := ht'
    rw [h₁] at h₂
    cases h₂
    exact ⟨rfl, hle⟩
  · exact ⟨0, fun seg hs t ht => absurd ⟨seg, t, hs, ht⟩ h⟩

/-- The invariant between operations. -/
def St.Tracks (c b : Prop) (s : St W) : Prop :=
  s.pcb.timers.Tracks c b s.pcb.mss s.pcb.mss ∧ s.NoDupacks

theorem St.Tracks.step {c b : Prop} {op : List Bool × Op} (happ : AppOk NoConnect app)
    (habrt : c → AbortOk app) (hop : Runs app s op) (hc : c → CwndOk app s op)
    (hr : connStep app s op = .ok s') (hI : s.Tracks c b) : s'.Tracks c b := by
  obtain ⟨N, hO⟩ := optionIs_exists fun h => (hc h).2
  have hI₀ : s.pcb.timers.Tracks c b s.pcb.mss N :=
    ⟨hI.1.sized, fun _ => .inl rfl, hI.1.roomy, hI.1.past⟩
  have hI₁ := (keptSteps_tracks habrt).stepOptions happ hop hO hr ⟨hI₀, hI.2⟩
  exact ⟨⟨hI₁.1.sized, fun _ => .inl rfl, hI₁.1.roomy, hI₁.1.past⟩, hI₁.2⟩

theorem Begun.noDupacks (h : Begun s) : s.pcb.dupacks = 0 := by
  obtain ⟨t, err, ht, hr⟩ := h.opening
  exact (dupacks_of_calm (calm_tcpOutput hr)).2.trans ht.dupacks

theorem Begun.tracks (h : Begun s) {c b : Prop} (hb : ¬ b) : s.Tracks c b := by
  have hs := h.timers
  have hi : ¬ s.pcb.timers.tfInfr = true := by
    rw [hs.tfInfr]
    decide
  refine ⟨⟨⟨hs.mss, ?_, fun h => absurd h hi, fun _ => hs.tfInfr⟩, fun _ => .inl rfl,
    fun _ => ⟨fun hst => ?_, fun h => absurd h hi⟩, fun _ h => absurd h hb⟩, fun _ => h.noDupacks⟩
  · rw [hs.cwnd]
    decide
  · rcases hs.state with e | e <;> rw [e] at hst <;> exact absurd hst (by decide)

/-- In every run `cwnd` and `ssthresh` are bounded. -/
theorem sized_reach {s₀ : St W} (happ : AppOk NoConnect app) (h₀ : Begun s₀)
    (hr : Run.Reach (connStep app) (Runs app) s₀ s) : s.Tracks False False :=
  hr.invariant (h₀.tracks id) fun _ _ _ hI hop he =>
    hI.step happ False.elim hop False.elim he

/-- In every run in which no option raises `mss`, `cwnd` has room for a segment. -/
theorem roomy_reach {s₀ : St W} (happ : AppOk NoConnect app) (habrt : AbortOk app) (h₀ : Begun s₀)
    (hr : Run.Reach (connStep app) (CwndOk app) s₀ s) : s.Tracks True False :=
  hr.invariant (h₀.tracks id) fun _ _ _ hI hop he =>
    hI.step happ (fun _ => habrt) hop.1 (fun _ => hop) he

/-- The invariant where `tcp_receive` is called. -/
theorem St.Tracks.receives {c b : Prop} {t : St W} {seg : InSegment} {fails : List Bool}
    (happ : AppOk NoConnect app) (habrt : c → AbortOk app)
    (hc : c → CwndOk app s (fails, .input seg)) (ht : Receives app { s with fails := fails } seg t)
    (hI : s.Tracks c b) : t.pcb.timers.Sized ∧
      (c → t.pcb.tfInfr = true → 2 * t.pcb.mss ≤ t.pcb.ssthresh) ∧
      (c → b → t.pcb.mss ≤ t.pcb.cwnd) := by
  obtain ⟨N, hO⟩ := optionIs_exists fun h => (hc h).2
  have hI₀ : s.pcb.timers.Tracks c b s.pcb.mss N :=
    ⟨hI.1.sized, fun _ => .inl rfl, hI.1.roomy, hI.1.past⟩
  obtain ⟨s₂, ⟨hI₂, hd₂⟩, rfl | ⟨hst, ht⟩⟩ := (keptSteps_tracks habrt).receives
    (s := { s with fails := fails }) happ (hO seg rfl) ht ⟨hI₀, hI.2⟩
  · exact ⟨hI₂.sized, fun h => (hI₂.roomy h).recovery, fun h hb => (hI₂.past h hb).2⟩
  · have hk := (still_accept happ hst hd₂ ht).1
    have e₁ : t.pcb.timers.mss = s₂.pcb.timers.mss := (congrArg Timers.mss hk :)
    have e₂ : t.pcb.timers.cwnd = s₂.pcb.timers.cwnd := (congrArg Timers.cwnd hk :)
    have e₃ : t.pcb.timers.tfInfr = s₂.pcb.timers.tfInfr := (congrArg Timers.tfInfr hk :)
    have hi : t.pcb.timers.tfInfr = false := e₃.trans (hI₂.sized.opens (.inr hst))
    have hni : ¬ t.pcb.timers.tfInfr = true := by
      rw [hi]
      decide
    refine ⟨⟨?_, ?_, fun h => absurd h hni, fun _ => hi⟩, fun _ h => absurd h hni,
      fun h hb => absurd (.inr hst) (hI₂.past h hb).1⟩
    · rw [e₁]
      exact hI₂.sized.mss
    · rw [e₂]
      exact hI₂.sized.cwnd

/-- The bounds hold behind the options of a segment. -/
theorem St.Tracks.processes {t : St W} {seg : InSegment} {fails : List Bool}
    (happ : AppOk NoConnect app) (ht : Processes app { s with fails := fails } seg t)
    (hI : s.Tracks False False) : t.pcb.timers.Sized ∧ t.NoDupacks := by
  have hk : KeptSteps NoConnect (fun _ _ => True) (fun _ _ => True) app
      (fun s : St W => s.pcb.timers.Tracks False False 0 0 ∧ s.NoDupacks) (OptionIs False 0 0) :=
    keptSteps_tracks False.elim
  have hI₀ : s.pcb.timers.Tracks False False 0 0 := ⟨hI.1.sized, nofun, nofun, nofun⟩
  obtain ⟨s₁, h₁, -, -, rfl⟩ := ht
  have hI₁ := hk.tcpInputRefused happ h₁ ⟨hI₀, hI.2⟩
  have hI₂ := hk.tcpProcessStart (s := { s₁ with inputPcb := true }) seg nofun hI₁
  exact ⟨hI₂.1.sized, hI₂.2⟩

/-! ## The result -/

/-- `add` is added to `c`, exactly or, if that would wrap, not at all. -/
def Adds (c add c' : ℕ) : Prop := (c' = c + add ∧ c + add < 2 ^ 16) ∨ (c' = c ∧ 2 ^ 16 ≤ c + add)

/-- The congestion window that an ACK of new data starts from: `ssthresh` when fast recovery ends. -/
def Pcb.ackedCwnd (pcb : Pcb) : ℕ := if pcb.tfInfr then pcb.ssthresh else pcb.cwnd

/-- What the ACK adds. -/
def Pcb.ackedGrowth (pcb : Pcb) : ℕ :=
  if pcb.ackedCwnd < pcb.ssthresh then pcb.mss else pcb.mss * pcb.mss / pcb.ackedCwnd

/-- What an ACK of new data makes of the pcb `p`. -/
structure CwndAcked (p q : Pcb) : Prop where
  pos : 1 ≤ p.ackedCwnd
  tfInfr : q.tfInfr = false
  ssthresh : q.ssthresh = p.ssthresh
  le : p.ackedCwnd ≤ q.cwnd
  adds : p.ackedCwnd < p.ssthresh ∨ p.mss ≤ p.ackedCwnd →
    p.ackedGrowth ≤ p.mss ∧ Adds p.ackedCwnd p.ackedGrowth q.cwnd

/-- What the timer or a third duplicate ACK makes of `ssthresh`. -/
def lossSsthresh (pcb : Pcb) : ℕ := max (min pcb.cwnd pcb.sndWnd / 2) (2 * pcb.mss)

/-- What holds of a state in every run: `cwnd` is at least 1 and fits, and each update of it is
    what the formula says, without a wrap. -/
structure CwndSound (app : App W) (s : St W) : Prop where
  pos : 1 ≤ s.pcb.cwnd
  lt : s.pcb.cwnd < 2 ^ 16
  ack : ∀ fails seg t s₁, Receives app { s with fails := fails } seg t → AcksNew t.pcb seg →
    tcpReceiveAck t seg = .ok s₁ → CwndAcked t.pcb s₁.pcb
  fast : ∀ fails seg t s₁, Receives app { s with fails := fails } seg t → FastRexmits t.pcb seg →
    tcpReceiveAck t seg = .ok s₁ → s₁.pcb.ssthresh = lossSsthresh (tcpReceiveWindow t.pcb seg) ∧
      s₁.pcb.cwnd = s₁.pcb.ssthresh + 3 * t.pcb.mss ∧ s₁.pcb.tfInfr = true
  keep : ∀ fails seg t s₁, Receives app { s with fails := fails } seg t → seg.flags.ack = true →
    ¬ AcksNew t.pcb seg → ¬ FastRexmits t.pcb seg → tcpReceiveAck t seg = .ok s₁ →
    s₁.pcb.ssthresh = t.pcb.ssthresh ∧ (s₁.pcb.cwnd = t.pcb.cwnd ∨
      (DupAck t.pcb seg ∧ 3 ≤ t.pcb.dupacks ∧ Adds t.pcb.cwnd t.pcb.mss s₁.pcb.cwnd))
  expiry : ∀ fails s₁, s.pcb.Expires →
    tcpSlowtmrSend { s with fails := fails, ticks := s.ticks + 1 } = .ok s₁ →
    s₁.pcb.ssthresh = lossSsthresh s.pcb ∧ s₁.pcb.cwnd = s.pcb.mss
  accept : ∀ fails seg t s₁, Processes app { s with fails := fails } seg t →
    t.pcb.state = .SYN_RCVD → tcpProcessAccept app t seg = .ok (.ok, s₁) →
    s₁.pcb.cwnd = initialCwnd s₁.pcb.mss ∧ s₁.pcb.mss ≤ s₁.pcb.cwnd
  connected : ∀ fails seg t err s₁, Processes app { s with fails := fails } seg t →
    t.pcb.state = .SYN_SENT → t.pcb.Connects seg → tcpProcessSynSent app t seg = .ok (err, s₁) →
    s₁.pcb.cwnd = initialCwnd s₁.pcb.mss ∧ s₁.pcb.mss ≤ s₁.pcb.cwnd
  opened : initialCwnd s.pcb.mss < 2 ^ 16 ∧ s.pcb.mss ≤ initialCwnd s.pcb.mss

/-- What holds in a run in which no option raises `mss` behind the handshake: behind it, `cwnd` is
    at least `mss`, and stays so, and fast recovery ends with a `ssthresh` of two segments. -/
structure CwndRoomy (app : App W) (s : St W) : Prop where
  opened : s.pcb.state = .ESTABLISHED ∨ s.pcb.state = .CLOSE_WAIT ∨ s.pcb.state = .LAST_ACK →
    s.pcb.mss ≤ s.pcb.cwnd
  stays : ∀ s', ¬ s.pcb.state.Opens → s.pcb.mss ≤ s.pcb.cwnd →
    Run.Reach (connStep app) (CwndOk app) s s' → s'.pcb.mss ≤ s'.pcb.cwnd ∧
      ∀ fails seg t, CwndOk app s' (fails, .input seg) →
        Receives app { s' with fails := fails } seg t → t.pcb.mss ≤ t.pcb.cwnd
  recovery : ∀ fails seg t, CwndOk app s (fails, .input seg) →
    Receives app { s with fails := fails } seg t → t.pcb.tfInfr = true →
    2 * t.pcb.mss ≤ t.pcb.ssthresh

theorem CwndAcked.congr {p q q' : Pcb} (h : CwndAcked p q) (hi : q'.tfInfr = q.tfInfr)
    (hs : q'.ssthresh = q.ssthresh) (hc : q'.cwnd = q.cwnd) : CwndAcked p q' := by
  refine ⟨h.pos, hi.trans h.tfInfr, hs.trans h.ssthresh, ?_, ?_⟩
  · rw [hc]
    exact h.le
  · rw [hc]
    exact h.adds

/-- What `Timers.growth` adds when fast recovery is over. -/
theorem cwndAcked_grown {p q : Pcb} {v : Timers} (h : p.timers.Sized) (hm : v.mss = p.mss)
    (hs : v.ssthresh = p.ssthresh) (hc : v.cwnd = p.ackedCwnd) (hi : q.tfInfr = false)
    (hqs : q.ssthresh = p.ssthresh) (hq : q.cwnd = v.grown) : CwndAcked p q := by
  have hg : v.growth = p.ackedGrowth := by
    unfold Timers.growth Pcb.ackedGrowth
    rw [hm, hs, hc]
  have hb : 1 ≤ p.ackedCwnd ∧ p.ackedCwnd < 2 ^ 16 := by
    unfold Pcb.ackedCwnd
    split
    · next hi =>
      have h₁ := h.recovery hi
      change 2 ≤ p.ssthresh ∧ p.ssthresh < 2 ^ 15 at h₁
      omega
    · exact h.cwnd
  rw [Timers.grown_eq, hc, hg] at hq
  refine ⟨hb.1, hi, hqs, ?_, fun hle => ?_⟩
  · rw [hq]
    exact (guarded_bounds hb.2).1
  · have hle' : p.ackedGrowth ≤ p.mss := by
      rw [← hg, ← hm]
      refine Timers.growth_le ?_
      rw [hc, hs, hm]
      exact hle
    refine ⟨hle', ?_⟩
    rw [hq]
    exact guarded_add hb.2 (hle'.trans h.mss.2)

theorem cwndAcked {p q : Pcb} {seg : InSegment} (h : p.timers.Sized) (hp : AckTimers p seg q)
    (hnew : AcksNew p seg) : CwndAcked p q := by
  cases hp with
  | keep hn _ => exact absurd hnew hn
  | inflate hd _ => exact absurd hnew hd.not_acksNew
  | fast hf => exact absurd hnew hf.2.1.not_acksNew
  | advance _ =>
    obtain ⟨wnd, pb, hw⟩ := timers_window p seg
    obtain ⟨-, r₁, r₂, r₃, r₄⟩ := recovered_keeps (tcpReceiveWindow p seg).timers
    rw [← timers_recover] at r₁ r₂ r₃ r₄
    have hg := timers_cwndAck { (tcpReceiveWindow p seg).recover with
      nrtx := 0, rto := s16 (p.sa / 8 + p.sv) }
    have e₁ : (tcpReceiveWindow p seg).mss = p.mss := congrArg Timers.mss hw
    have e₂ : (tcpReceiveWindow p seg).ssthresh = p.ssthresh := congrArg Timers.ssthresh hw
    have e₃ : (tcpReceiveWindow p seg).timers.tfInfr = p.tfInfr := congrArg Timers.tfInfr hw
    have e₄ : (tcpReceiveWindow p seg).timers.cwnd = p.cwnd := congrArg Timers.cwnd hw
    have e₅ : (tcpReceiveWindow p seg).timers.ssthresh = p.ssthresh := e₂
    rw [e₃, e₄, e₅] at r₄
    exact cwndAcked_grown h (r₁.trans e₁) (r₂.trans e₂) r₄ ((congrArg Timers.tfInfr hg).trans r₃)
      ((congrArg Timers.ssthresh hg).trans (r₂.trans e₂)) (congrArg Timers.cwnd hg)

/-- An ACK that acknowledges nothing new and does not retransmit. -/
theorem cwnd_kept {p q : Pcb} {seg : InSegment} (h : p.timers.Sized) (hp : AckTimers p seg q)
    (hnew : ¬ AcksNew p seg) (hf : ¬ FastRexmits p seg) : q.ssthresh = p.ssthresh ∧
      (q.cwnd = p.cwnd ∨ (DupAck p seg ∧ 3 ≤ p.dupacks ∧ Adds p.cwnd p.mss q.cwnd)) := by
  obtain ⟨wnd, pb, hw⟩ := timers_window p seg
  have e₁ : (tcpReceiveWindow p seg).timers.mss = p.mss := congrArg Timers.mss hw
  have e₂ : (tcpReceiveWindow p seg).ssthresh = p.ssthresh := congrArg Timers.ssthresh hw
  have e₃ : (tcpReceiveWindow p seg).timers.cwnd = p.cwnd := congrArg Timers.cwnd hw
  cases hp with
  | keep _ _ => exact ⟨e₂, .inl e₃⟩
  | inflate hd h3 =>
    have hg := timers_cwndInflate (tcpReceiveWindow p seg)
    have hc : (cwndInflate (tcpReceiveWindow p seg)).cwnd =
        (tcpReceiveWindow p seg).timers.inflated := congrArg Timers.cwnd hg
    unfold Timers.inflated at hc
    rw [e₁, e₃] at hc
    refine ⟨(congrArg Timers.ssthresh hg).trans e₂, .inr ⟨hd, h3, ?_⟩⟩
    rw [hc]
    exact guarded_add h.cwnd.2 h.mss.2
  | fast h => exact absurd h hf
  | advance h => exact absurd h hnew

/-- A fast retransmission. -/
theorem cwnd_fast {p q : Pcb} {seg : InSegment} (h : p.timers.Sized) (hp : AckTimers p seg q)
    (hf : FastRexmits p seg) : q.ssthresh = lossSsthresh (tcpReceiveWindow p seg) ∧
      q.cwnd = q.ssthresh + 3 * p.mss ∧ q.tfInfr = true := by
  cases hp with
  | keep _ hn => exact absurd hf hn
  | inflate _ h3 =>
    have h2 := hf.2.2.1
    omega
  | advance hnew => exact absurd hnew hf.2.1.not_acksNew
  | fast _ =>
    obtain ⟨wnd, pb, hw⟩ := timers_window p seg
    have hs : (tcpReceiveWindow p seg).timers.Sized := by
      rw [hw]
      exact ⟨h.mss, h.cwnd, h.recovery, h.opens⟩
    have e₁ : (tcpReceiveWindow p seg).mss = p.mss := congrArg Timers.mss hw
    have hc := (fastRexmit_cwnd hs).1
    rw [e₁] at hc
    exact ⟨(fastSsthresh_bounds hs).2.2, hc, rfl⟩

theorem CwndSound.of_tracks (happ : AppOk NoConnect app) (hI : s.Tracks False False) :
    CwndSound app s where
  pos := hI.1.sized.cwnd.1
  lt := hI.1.sized.cwnd.2
  ack fails seg t s₁ ht hnew h₁ := by
    obtain ⟨hs, -⟩ := hI.receives happ False.elim False.elim ht
    obtain ⟨p, hp, he | ⟨-, he⟩⟩ := tcpReceiveAck_timers hnew.1 h₁
    · exact (cwndAcked hs hp hnew).congr (congrArg Timers.tfInfr he) (congrArg Timers.ssthresh he)
        (congrArg Timers.cwnd he)
    · exact (cwndAcked hs hp hnew).congr (congrArg Timers.tfInfr he) (congrArg Timers.ssthresh he)
        (congrArg Timers.cwnd he)
  fast fails seg t s₁ ht hf h₁ := by
    obtain ⟨hs, -⟩ := hI.receives happ False.elim False.elim ht
    obtain ⟨p, hp, he | ⟨hm, -⟩⟩ := tcpReceiveAck_timers hf.1 h₁
    · obtain ⟨f₁, f₂, f₃⟩ := cwnd_fast hs hp hf
      have e₁ : s₁.pcb.ssthresh = p.ssthresh := congrArg Timers.ssthresh he
      have e₂ : s₁.pcb.cwnd = p.cwnd := congrArg Timers.cwnd he
      have e₃ : s₁.pcb.tfInfr = p.tfInfr := congrArg Timers.tfInfr he
      rw [e₁, e₂, e₃]
      exact ⟨f₁, f₂, f₃⟩
    · exact absurd hf hm.2.2.2
  keep fails seg t s₁ ht hack hnew hf h₁ := by
    obtain ⟨hs, -⟩ := hI.receives happ False.elim False.elim ht
    obtain ⟨p, hp, hr⟩ := tcpReceiveAck_timers hack h₁
    have he : s₁.pcb.ssthresh = p.ssthresh ∧ s₁.pcb.cwnd = p.cwnd := by
      rcases hr with he | ⟨-, he⟩
      · exact ⟨congrArg Timers.ssthresh he, congrArg Timers.cwnd he⟩
      · exact ⟨congrArg Timers.ssthresh he, congrArg Timers.cwnd he⟩
    rw [he.1, he.2]
    exact cwnd_kept hs hp hnew hf
  expiry fails s₁ hx h₁ := by
    obtain ⟨rto, -, ht⟩ := tcpSlowtmrSend_expires (by exact hx) h₁
    have hc : s₁.pcb.cwnd = s.pcb.mss := congrArg Timers.cwnd ht
    have hs : s₁.pcb.ssthresh = rtoSsthresh s.pcb := congrArg Timers.ssthresh ht
    exact ⟨hs.trans (rtoSsthresh_bounds hI.1.sized).2.2, hc⟩
  accept fails seg t s₁ ht hst h₁ := by
    obtain ⟨hs, hd⟩ := hI.processes happ ht
    obtain ⟨e₁, e₂⟩ := cwnd_accept happ hst (hs.opens (.inr hst)) hd h₁
    rw [e₁, e₂]
    exact ⟨rfl, (initialCwnd_bounds hs.mss).1⟩
  connected fails seg t err s₁ ht _ hc h₁ := by
    obtain ⟨hs, -⟩ := hI.processes happ ht
    obtain ⟨e₁, e₂⟩ := cwnd_connected happ hc h₁
    rw [e₁, e₂]
    exact ⟨rfl, (initialCwnd_bounds hs.mss).1⟩
  opened := by
    obtain ⟨h₁, -, -, h₂⟩ := initialCwnd_bounds hI.1.sized.mss
    exact ⟨h₂, h₁⟩

theorem CwndRoomy.of_tracks (happ : AppOk NoConnect app) (habrt : AbortOk app)
    (hI : s.Tracks True False) : CwndRoomy app s where
  opened := (hI.1.roomy trivial).cwnd
  stays s' ho hle hr := by
    have hI₀ : s.Tracks True True :=
      ⟨⟨hI.1.sized, hI.1.mss, hI.1.roomy, fun _ _ => ⟨ho, hle⟩⟩, hI.2⟩
    have hI₁ : s'.Tracks True True := hr.invariant hI₀ fun _ _ _ hI hop he =>
      hI.step happ (fun _ => habrt) hop.1 (fun _ => hop) he
    refine ⟨(hI₁.1.past trivial trivial).2, fun fails seg t hop ht => ?_⟩
    exact (hI₁.receives happ (fun _ => habrt) (fun _ => hop) ht).2.2 trivial trivial
  recovery fails seg t hop ht :=
    (hI.receives happ (fun _ => habrt) (fun _ => hop) ht).2.1 trivial

/-- In every run the congestion window is computed without a wrap, and in every run in which no
    option raises `mss` behind the handshake it has room for a segment. -/
theorem cwnd_safe {s₀ : St W} (happ : AppOk NoConnect app) (habrt : AbortOk app) (h₀ : Begun s₀) :
    (∀ s, Run.Reach (connStep app) (Runs app) s₀ s → CwndSound app s) ∧
      ∀ s, Run.Reach (connStep app) (CwndOk app) s₀ s → CwndRoomy app s :=
  ⟨fun _ hr => .of_tracks happ (sized_reach happ h₀ hr),
    fun _ hr => .of_tracks happ habrt (roomy_reach happ habrt h₀ hr)⟩

/-! ### Runs -/

/-- Another segment of the server: an ACK with an MSS option. -/
def mssOp (ackno : U32) (flags : TcpFlags) (seqno : U32) (mss : ℕ) : List Bool × Op :=
  ([], .input { tcphdr := { serverHdr seqno ackno flags TCP_WND with hdrlen := 6 }
                options := [2, 4, UInt8.ofNat (mss / 256), UInt8.ofNat (mss % 256)]
                p := [], bound := noData_bound })

/-- The handshake, and a byte that is acknowledged. -/
theorem cwnd_safe_ack : ∃ s : St Unit, Run.exec (connStep idleApp) connecting
      ([synAckOp TCP_WND] ++ writeOps [7] ++ [ackOp 1001 TCP_WND]) = .ok s ∧
    s.pcb.cwnd = 2680 ∧ CwndSound idleApp s ∧ CwndRoomy idleApp s := by
  have h := cwnd_safe appOk_idleApp abortOk_idleApp begun_connecting
  have hm (s : St Unit) (a : Api) (ha : NoConnect s.core a) : CwndOk idleApp s ([], .api a) :=
    ⟨ha, nofun⟩
  refine ⟨_, rfl, rfl, h.1 _ (.step (ackOp 1001 TCP_WND) (.step ([], .api .output)
      (.step ([], .api (.write [7] true false)) (.step (synAckOp TCP_WND) .refl
        (fun _ _ => trivial) rfl) trivial rfl) trivial rfl) (fun _ _ => trivial) rfl),
    h.2 _ (.step (ackOp 1001 TCP_WND) (.step ([], .api .output)
      (.step ([], .api (.write [7] true false)) (.step (synAckOp TCP_WND) .refl
        ⟨fun _ _ => trivial, ?_⟩ rfl) (hm _ _ trivial) rfl) (hm _ _ trivial) rfl)
      ⟨fun _ _ => trivial, ?_⟩ rfl)⟩
  · rintro seg hs t ⟨s₁, h₁, -, -, rfl⟩
    cases hs
    cases h₁
    intro ho
    exact absurd (.inl rfl) ho
  · rintro seg hs t ⟨s₁, h₁, -, -, rfl⟩
    cases hs
    cases h₁
    intro _
    decide

/-- A SYN with a closed window. -/
def shutSyn : InSegment where
  tcphdr := { connid1 := 7, connid2 := 4000, seqno := 0, ackno := 0, hdrlen := 5
              flags := { syn := true }, wnd := 0 }
  p := []
  bound := noData_bound

/-- The server has answered it. -/
def listeningShut : St Unit :=
  match tcpListenSynAck (tcpListenPcb client shutSyn 80 4000) with
  | .ok (_, s) => s
  | .error _ => client

theorem begun_listeningShut : Begun listeningShut :=
  .listen (s := client) shutSyn 80 4000 ⟨⟨_, _, _, 0, rfl⟩, rfl⟩ rfl rfl

set_option maxRecDepth 4000 in
/-- Three duplicate ACKs and the ACK that ends fast recovery; an MSS option of 100 and later one of
    536; and a `tcp_close` in `SYN_RCVD`, behind a SYN with a closed window. -/
theorem cwnd_safe_fails :
    (∃ s s' : St Unit, Run.exec (connStep idleApp) connecting ([synAckOp TCP_WND] ++ writeOps [7] ++
        List.replicate 4 (ackOp 1000 TCP_WND)) = .ok s ∧
      connStep idleApp s (ackOp 1001 TCP_WND) = .ok s' ∧ s.pcb.tfInfr = true ∧
      s'.pcb.tfInfr = false ∧ s.pcb.ssthresh = 1072 ∧ s'.pcb.cwnd = 1340) ∧
    (∃ s : St Unit, Run.exec (connStep idleApp) connecting
        [mssOp 1000 { syn := true, ack := true } 0 100, mssOp 1000 { ack := true } 1 536] = .ok s ∧
      s.pcb.state = .ESTABLISHED ∧ s.pcb.cwnd = 400 ∧ s.pcb.mss = 536) ∧
    ∃ s s' : St Unit, Begun listeningShut ∧
      connStep idleApp listeningShut ([], .api .close) = .ok s ∧
      connStep idleApp s (clientAck false) = .ok s' ∧ s.pcb.cwnd = 1 ∧ s.pcb.tfInfr = false ∧
      s'.pcb.cwnd = 25153 ∧ s.pcb.mss = 536 :=
  ⟨⟨_, _, rfl, rfl, rfl, rfl, rfl, rfl⟩, ⟨_, rfl, rfl, rfl, rfl⟩, _, _, begun_listeningShut, rfl, rfl, rfl, rfl,
    rfl, rfl⟩

end Rudp

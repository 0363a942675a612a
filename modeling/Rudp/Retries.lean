import Rudp.Timing
import Rudp.States
import Rudp.Faults

/-!
# Retry counters

`tcp_slowtmr` looks at `nrtx` before each retransmission and removes the pcb when it is `TCP_MAXRTX`,
and `nrtx` and `persist_backoff` index the tables of the back-off. `tcp_rexmit`, called for a third
duplicate ACK and for another copy of the SYN, increments `nrtx` without looking at it.

Results:
* `retries_bounded`: in every run in which no segment is retransmitted from input while `nrtx` is
  `TCP_MAXRTX`, the counters stay in their tables, and a connection whose retransmissions are never
  acknowledged is removed.
* `retries_bounded_fails`: thirteen copies of the SYN between two ticks lead behind the table.
-/

namespace Rudp

variable {W : Type} {s s' : St W} {app : App W}

/-! ## The invariant -/

/-- The counters are inside their limits. -/
structure Timers.Counted (v : Timers) : Prop where
  nrtx : v.nrtx ≤ TCP_MAXRTX
  synSent : v.state = .SYN_SENT → v.nrtx ≤ TCP_SYNMAXRTX
  persistBackoff : v.persistBackoff ≤ tcpPersistBackoff.length

/-- A duplicate ACK does not retransmit a segment when the limit is reached. -/
def DupAckInLimit (s : St W) (seg : InSegment) : Prop :=
  FastRexmits s.pcb seg → s.pcb.nrtx < TCP_MAXRTX

/-- Another copy of the SYN does not retransmit the SYN-ACK when the limit is reached. -/
def SynInLimit (s : St W) (seg : InSegment) : Prop :=
  s.pcb.state = .SYN_RCVD → RepeatsSyn s.pcb seg → s.pcb.unacked ≠ [] → s.pcb.nrtx < TCP_MAXRTX

/-- The condition on one operation. -/
def RetriesOk (app : App W) (s : St W) (op : List Bool × Op) : Prop :=
  Kept.StepOk NoConnect DupAckInLimit (fun _ _ => True) app s op ∧ Kept.OptionsOk SynInLimit app s op

theorem u8_nrtx {n : ℕ} (h : n ≤ TCP_MAXRTX) : u8 (n + 1) = n + 1 := by
  have e : TCP_MAXRTX = 12 := rfl
  unfold u8
  omega

/-- Another retransmission stays inside the limits. -/
theorem Timers.Counted.next {v : Timers} (h : v.Counted) (hlt : v.nrtx < TCP_MAXRTX)
    (hsyn : v.state = .SYN_SENT → v.nrtx < TCP_SYNMAXRTX) :
    ({ v with nrtx := u8 (v.nrtx + 1) } : Timers).Counted := by
  rw [u8_nrtx h.nrtx]
  exact ⟨hlt, fun hs => hsyn hs, h.persistBackoff⟩

/-- The window update and what it leaves alone. -/
theorem Timers.Counted.window {pcb : Pcb} (h : pcb.timers.Counted) (seg : InSegment) :
    (tcpReceiveWindow pcb seg).timers.Counted := by
  obtain ⟨wnd, wmax, wl1, wl2, cnt, pb, hw, hpb⟩ := tcpReceiveWindow_keeps pcb seg
  have h7 : tcpPersistBackoff.length = 7 := rfl
  have hold : pcb.persistBackoff ≤ tcpPersistBackoff.length := h.persistBackoff
  rw [hw]
  refine ⟨h.nrtx, h.synSent, ?_⟩
  show pb ≤ _
  omega

theorem Timers.Counted.newAck {pcb : Pcb} (h : pcb.timers.Counted) (rto : ℤ) :
    (cwndAck { pcb.recover with nrtx := 0, rto := rto }).timers.Counted := by
  have hr : pcb.recover.persistBackoff = pcb.persistBackoff := by
    unfold Pcb.recover
    split <;> rfl
  rw [timers_cwndAck]
  refine ⟨Nat.zero_le _, fun _ => Nat.zero_le _, ?_⟩
  show pcb.recover.persistBackoff ≤ _
  rw [hr]
  exact h.persistBackoff

theorem Timers.Counted.ack {s : St W} {seg : InSegment} {p : Pcb} (h : s.pcb.timers.Counted)
    (hst : TcpState.ESTABLISHED.num ≤ s.pcb.state.num) (hQ : DupAckInLimit s seg)
    (hp : AckTimers s.pcb seg p) : p.timers.Counted := by
  have hw := h.window seg
  cases hp with
  | keep _ _ => exact hw
  | inflate _ _ =>
    rw [timers_cwndInflate]
    exact ⟨hw.nrtx, hw.synSent, hw.persistBackoff⟩
  | fast hf =>
    obtain ⟨wnd, wmax, wl1, wl2, cnt, pb, e, -⟩ := tcpReceiveWindow_keeps s.pcb seg
    have hn : (tcpReceiveWindow s.pcb seg).timers.nrtx = s.pcb.nrtx := by
      rw [e]
      rfl
    have hs : (tcpReceiveWindow s.pcb seg).timers.state = s.pcb.state := by
      rw [e]
      rfl
    have hnext := hw.next (hn ▸ hQ hf) fun hsyn => by
      rw [hs] at hsyn
      rw [hsyn] at hst
      exact absurd hst (by decide)
    exact ⟨hnext.nrtx, hnext.synSent, hnext.persistBackoff⟩
  | advance _ => exact hw.newAck _

theorem timed_counted : Timed (W := W) NoConnect DupAckInLimit (fun _ _ => True) SynInLimit
    Timers.Counted where
  noConnect := id
  leave hl hI := ⟨hI.nrtx, fun h => absurd h hl.1, hI.persistBackoff⟩
  accept _ hI := ⟨hI.nrtx, nofun, hI.persistBackoff⟩
  opened hst hI := by
    refine ⟨hI.nrtx, fun h => ?_, hI.persistBackoff⟩
    rcases hst with rfl | rfl
    · exact hI.synSent h
    · cases h
  backoff _ _ hb hI := by
    refine ⟨hI.nrtx, hI.synSent, ?_⟩
    rcases hb with rfl | hb
    · exact hI.persistBackoff
    · exact hb
  rto {s _} _ he _ hI := by
    have hm := not_or.mp he.1
    have hn : s.pcb.timers.nrtx < TCP_MAXRTX := lt_of_le_of_ne hI.nrtx hm.2
    have hnext := hI.next hn fun hs => lt_of_le_of_ne (hI.synSent hs) fun hc => hm.1 ⟨hs, hc⟩
    exact ⟨hnext.nrtx, hnext.synSent, hnext.persistBackoff⟩
  rexmit hst hrep hu hO hI := hI.next (hO hst hrep hu) fun hs => by
    change _ = _ at hs
    exact absurd (hst.symm.trans hs) (by decide)
  mss _ _ hI := ⟨hI.nrtx, hI.synSent, hI.persistBackoff⟩
  establish {s _ _ rest} _ _ _ _ hI := by
    refine ⟨?_, nofun, hI.persistBackoff⟩
    show (if rest = [] then s.pcb.nrtx else 0) ≤ _
    split
    · exact hI.nrtx
    · exact Nat.zero_le _
  ack hst hQ hp hI := hI.ack hst hQ hp
  sample hst hQ hp _ hI := by
    have h := hI.ack hst hQ hp
    exact ⟨h.nrtx, h.synSent, h.persistBackoff⟩

/-! ## Nothing is acknowledged -/

/-- The segment acknowledges nothing that `tcp_receive` has not seen acknowledged. -/
def DupAckUnanswered (s : St W) (seg : InSegment) : Prop :=
  DupAckInLimit s seg ∧ ¬ AcksNew s.pcb seg

/-- The segment does not acknowledge the SYN. -/
def SynUnanswered (s : St W) (seg : InSegment) : Prop :=
  SynInLimit s seg ∧ (s.pcb.state = .SYN_SENT → ∀ rseg ∈ s.pcb.unacked.head?, ¬ SynAcks seg rseg)

/-- An operation that meets the condition and acknowledges nothing. -/
def Unanswered (app : App W) (s : St W) (op : List Bool × Op) : Prop :=
  Kept.StepOk NoConnect DupAckUnanswered (fun _ _ => True) app s op ∧
    Kept.OptionsOk SynUnanswered app s op

/-- An ACK that acknowledges nothing new does not decrease `nrtx`. -/
theorem AckTimers.nrtx {pcb p : Pcb} {seg : InSegment} (hp : AckTimers pcb seg p)
    (hle : pcb.nrtx ≤ TCP_MAXRTX) (hnew : ¬ AcksNew pcb seg) : pcb.nrtx ≤ p.nrtx := by
  obtain ⟨wnd, wmax, wl1, wl2, cnt, pb, hw, -⟩ := tcpReceiveWindow_keeps pcb seg
  have hn : (tcpReceiveWindow pcb seg).nrtx = pcb.nrtx := by rw [hw]
  cases hp with
  | keep _ _ => exact hn.ge
  | inflate _ _ =>
    have hi : (cwndInflate (tcpReceiveWindow pcb seg)).nrtx = pcb.nrtx :=
      (congrArg Timers.nrtx (timers_cwndInflate _)).trans hn
    exact hi.ge
  | fast _ =>
    show pcb.nrtx ≤ u8 ((tcpReceiveWindow pcb seg).nrtx + 1)
    rw [hn, u8_nrtx hle]
    exact Nat.le_succ _
  | advance h => exact absurd h hnew

/-- As long as nothing is acknowledged, `nrtx` does not decrease. -/
theorem timed_atLeast (k : ℕ) : Timed (W := W) NoConnect DupAckUnanswered (fun _ _ => True)
    SynUnanswered (fun v => v.Counted ∧ k ≤ v.nrtx) where
  noConnect := id
  leave hl hI := ⟨timed_counted.leave (W := W) hl hI.1, hI.2⟩
  accept hst hI := ⟨timed_counted.accept (W := W) hst hI.1, hI.2⟩
  opened hst hI := ⟨timed_counted.opened (W := W) hst hI.1, hI.2⟩
  backoff h₀ hb hle hI := ⟨timed_counted.backoff (W := W) h₀ hb hle hI.1, hI.2⟩
  rto {s rto} _ he hrto hI := by
    refine ⟨timed_counted.rto trivial he hrto hI.1, ?_⟩
    show k ≤ u8 (s.pcb.timers.nrtx + 1)
    rw [u8_nrtx hI.1.nrtx]
    exact Nat.le_succ_of_le hI.2
  rexmit {s seg} hst hrep hu hO hI := by
    refine ⟨timed_counted.rexmit hst hrep hu hO.1 hI.1, ?_⟩
    show k ≤ u8 (s.pcb.timers.nrtx + 1)
    rw [u8_nrtx hI.1.nrtx]
    exact Nat.le_succ_of_le hI.2
  mss _ _ hI := ⟨⟨hI.1.nrtx, hI.1.synSent, hI.1.persistBackoff⟩, hI.2⟩
  establish {s seg rseg rest} hst hu hc hO _ :=
    absurd hc (hO.2 hst rseg (by rw [hu]; rfl))
  ack hst hQ hp hI := ⟨hI.1.ack hst hQ.1 hp, hI.2.trans (hp.nrtx hI.1.nrtx hQ.2)⟩
  sample hst hQ hp hs hI :=
    ⟨timed_counted.sample hst hQ.1 hp hs hI.1, hI.2.trans (hp.nrtx hI.1.nrtx hQ.2)⟩

/-! ## Runs -/

/-- The retransmission timer expires in this operation. -/
def Expiry (s : St W) (op : List Bool × Op) : Prop :=
  op.2 = .slowtmr ∧ s.list = .active ∧ s.pcb.Expires

/-- `Retransmits app n s s'`: a run from `s` to `s'` in which the retransmission timer expires `n`
    times and nothing is acknowledged. -/
inductive Retransmits (app : App W) : ℕ → St W → St W → Prop
  | refl (s : St W) : Retransmits app 0 s s
  | other {n : ℕ} {s s₁ s₂ : St W} (op : List Bool × Op) : Retransmits app n s s₁ →
    Unanswered app s₁ op → ¬ Expiry s₁ op → connStep app s₁ op = .ok s₂ → Retransmits app n s s₂
  | expire {n : ℕ} {s s₁ s₂ : St W} (op : List Bool × Op) : Retransmits app n s s₁ →
    Unanswered app s₁ op → Expiry s₁ op → connStep app s₁ op = .ok s₂ →
    Retransmits app (n + 1) s s₂

/-- An expiry increments `nrtx`. -/
theorem atLeast_expiry {k : ℕ} {op : List Bool × Op} (happ : AppOk NoConnect app)
    (he : Expiry s op) (hr : connStep app s op = .ok s')
    (hI : s.pcb.timers.Counted ∧ k ≤ s.pcb.nrtx) :
    s'.pcb.timers.Counted ∧ k + 1 ≤ s'.pcb.nrtx := by
  obtain ⟨fails, op⟩ := op
  obtain ⟨rfl, hl, he⟩ := he
  unfold connStep connOp at hr
  dsimp only at hr
  rw [hl] at hr
  dsimp only at hr
  obtain ⟨s₁, h₁, hr⟩ := Run.bind_eq_ok.mp hr
  have hk : Kept NoConnect DupAckUnanswered (fun _ _ => True) app
      (fun s : St W => s.pcb.timers.Counted ∧ k + 1 ≤ s.pcb.timers.nrtx) SynUnanswered :=
    (timed_atLeast (k + 1)).toKept
  have hI₁ : s₁.pcb.timers.Counted ∧ k + 1 ≤ s₁.pcb.timers.nrtx := by
    obtain ⟨rto, hrto, ht⟩ := tcpSlowtmrSend_expires (by exact he) h₁
    rw [ht]
    refine ⟨timed_counted.rto (W := W) (s := { s with fails := fails, ticks := s.ticks + 1 })
      trivial he hrto hI.1, ?_⟩
    show k + 1 ≤ u8 (s.pcb.timers.nrtx + 1)
    rw [u8_nrtx hI.1.nrtx]
    exact Nat.succ_le_succ hI.2
  have hI₂ := hk.toSteps.tcpSlowtmrKeepalive hI₁
  generalize tcpSlowtmrKeepalive s₁ = x at hr hI₂
  obtain ⟨pcbReset, s₂⟩ := x
  dsimp only at hr hI₂
  have hI₃ := hk.toSteps.tcpSlowtmrOoseq hI₂
  split at hr
  · cases hr
    exact hk.toSteps.tcpSlowtmrRemove _ hI₃
  · exact hk.toSteps.tcpSlowtmrPoll happ hr hI₃

/-- Each retransmission of the timer counts as long as nothing is acknowledged. -/
theorem Retransmits.counted {n : ℕ} (happ : AppOk NoConnect app) (h : Retransmits app n s s')
    (hI : s.pcb.timers.Counted) : s'.pcb.timers.Counted ∧ s.pcb.nrtx + n ≤ s'.pcb.nrtx := by
  induction h with
  | refl s => exact ⟨hI, le_rfl⟩
  | @other n s _ _ op _ hop _ he ih =>
    exact (timed_atLeast (s.pcb.nrtx + n)).toKept.stepOptions happ hop.1 hop.2 he (ih hI)
  | expire op _ hop hx he ih => exact atLeast_expiry happ hx he (ih hI)

/-- The limit is reached, and the pcb is removed at the next tick. -/
theorem tcpSlowtmr_maxRtx (hm : s.pcb.maxRtx) (hr : tcpSlowtmr app s = .ok s') :
    s'.freed = true ∧ s'.list = .none := by
  obtain ⟨s₁, h₁, hr⟩ := Run.bind_eq_ok.mp hr
  dsimp only at hr
  rw [if_pos (.inl (decide_eq_true hm))] at hr
  cases hr
  unfold tcpSlowtmrRemove
  dsimp only
  split
  · exact ⟨rfl, congrArg (fun v : RcvView W => v.list) (rcvView_tcpRst _ _ _ _)⟩
  · exact ⟨rfl, rfl⟩

/-! ## The tables -/

open Run (Fails)

theorem inBounds_lwipAssert (message : String) (p : Prop) [Decidable p] :
    Fails (· ≠ .outOfBounds) (lwipAssert message p) :=
  Fails.lwipAssert fun _ => nofun

theorem inBounds_tcpOutputLoop (q : List TcpSeg) (s : St W) :
    Fails (· ≠ .outOfBounds) (tcpOutputLoop q s) := by
  induction q generalizing s with
  | nil => exact .ok _
  | cons seg q ih =>
    rw [tcpOutputLoop]
    split
    · refine .bind (inBounds_lwipAssert _ _) fun _ _ => ?_
      split
      · exact .ok _
      · split
        split
        · exact .ok _
        · exact ih _
    · exact .ok _

theorem inBounds_tcpOutput (s : St W) : Fails (· ≠ .outOfBounds) (tcpOutput s) := by
  unfold tcpOutput
  split
  · exact .ok _
  split
  · exact .ok _
  · refine .bind (inBounds_tcpOutputLoop _ _) fun _ _ => ?_
    dsimp only
    split <;> exact .ok _

/-- `tcp_slowtmr` reads its tables at indices that they have. -/
theorem Timers.Counted.inBounds (h : s.pcb.timers.Counted) :
    Fails (· ≠ .outOfBounds) (tcpSlowtmrSend s) := by
  have h12 : TCP_MAXRTX = 12 := rfl
  have h13 : tcpBackoff.length = 13 := rfl
  have hn : s.pcb.nrtx ≤ TCP_MAXRTX := h.nrtx
  have hb : s.pcb.persistBackoff ≤ tcpPersistBackoff.length := h.persistBackoff
  unfold tcpSlowtmrSend
  split
  · exact .ok _
  split
  · next hp =>
    unfold tcpSlowtmrPersist
    split
    · next hnone =>
      have := List.getElem?_eq_none_iff.mp hnone
      omega
    · next cnt _ =>
      generalize (if s.pcb.persistCnt < cnt then ({ s with
        pcb.persistCnt := s.pcb.persistCnt + 1 } : St W) else s) = s₁
      dsimp only
      split
      · split
        · exact .ok _
        · exact .ok _
      · exact .ok _
  · unfold tcpSlowtmrRexmit
    have hs₁ : (if s.pcb.rtime ≥ 0 then ({ s with pcb.rtime := s16 (s.pcb.rtime + 1) } : St W)
        else s).pcb.nrtx = s.pcb.nrtx := by
      split <;> rfl
    generalize (if s.pcb.rtime ≥ 0 then ({ s with pcb.rtime := s16 (s.pcb.rtime + 1) } : St W)
      else s) = s₁ at hs₁
    dsimp only
    split
    · refine .bind ?_ fun rto _ => ?_
      · unfold rtoBackoff
        split
        · split
          · next hnone =>
            have := List.getElem?_eq_none_iff.mp hnone
            omega
          · exact .ok _
        · exact .ok _
      · unfold tcpRexmitRto
        split
        · exact .ok _
        · exact .bind (inBounds_tcpOutput _) fun _ _ => .ok _
    · exact .ok _

/-! ## The result -/

/-- The retries are bounded: the counters are inside their limits, `tcp_slowtmr` does not read
    behind a table, the timer does not expire more often than the limit allows while nothing is
    acknowledged, and the tick behind the last time removes the pcb. -/
structure RetriesSound (app : App W) (s : St W) : Prop where
  nrtx : s.pcb.nrtx ≤ TCP_MAXRTX
  synSent : s.pcb.state = .SYN_SENT → s.pcb.nrtx ≤ TCP_SYNMAXRTX
  persistBackoff : s.pcb.persistBackoff ≤ tcpPersistBackoff.length
  inBounds : ∀ fails, tcpSlowtmrSend { s with fails := fails, ticks := s.ticks + 1 } ≠
    .error .outOfBounds
  expires : ∀ n s', Retransmits app n s s' → s.pcb.nrtx + n ≤ s'.pcb.nrtx ∧
    s.pcb.nrtx + n ≤ TCP_MAXRTX ∧ (s'.pcb.state = .SYN_SENT → s.pcb.nrtx + n ≤ TCP_SYNMAXRTX)
  removed : s.pcb.maxRtx → s.list = .active → ∀ fails s',
    connStep app s (fails, .slowtmr) = .ok s' → s'.freed = true ∧ s'.list = .none

/-- In a run in which no segment is retransmitted from input at the limit, the counters stay in their
    tables and a connection whose retransmissions are never acknowledged is removed. -/
theorem retries_bounded {s₀ : St W} (happ : AppOk NoConnect app) (h₀ : Begun s₀)
    (hr : Run.Reach (connStep app) (RetriesOk app) s₀ s) : RetriesSound app s := by
  have hI : s.pcb.timers.Counted := by
    have hs := h₀.timers
    have hstart : s₀.pcb.timers.Counted :=
      ⟨by rw [hs.nrtx]; exact Nat.zero_le _, fun _ => by rw [hs.nrtx]; exact Nat.zero_le _,
        by rw [hs.persistBackoff]; exact Nat.zero_le _⟩
    refine hr.invariant (I := fun s => s.pcb.timers.Counted) hstart ?_
    intro s op s' hI hop he
    exact timed_counted.toKept.stepOptions happ hop.1 hop.2 he hI
  refine ⟨hI.nrtx, hI.synSent, hI.persistBackoff, ?_, ?_, ?_⟩
  · intro fails he
    exact Timers.Counted.inBounds (s := { s with fails := fails, ticks := s.ticks + 1 }) hI _ he rfl
  · intro n s' h
    obtain ⟨hI', hle⟩ := h.counted happ hI
    exact ⟨hle, hle.trans hI'.nrtx, fun hs => hle.trans (hI'.synSent hs)⟩
  · intro hm hl fails s' he
    unfold connStep connOp at he
    dsimp only at he
    rw [hl] at he
    exact tcpSlowtmr_maxRtx (by exact hm) he

/-! ### Two runs -/

/-- Another copy of the SYN. -/
def synCopyOp : List Bool × Op := ([], .input (clientSeg 0 0 { syn := true }))

/-- Another copy of the SYN arrives. -/
theorem retries_bounded_syn : ∃ s : St Unit, Run.exec (connStep idleApp) listening
      [synCopyOp] = .ok s ∧ s.pcb.nrtx = 1 ∧ RetriesSound idleApp s := by
  refine ⟨_, rfl, rfl, retries_bounded appOk_idleApp begun_listening
    (.step synCopyOp .refl ⟨fun t ht => ?_, fun seg hs t ht hst hrep hu => ?_⟩ rfl)⟩
  · obtain ⟨s₁, h₁, -, s₂, rfl, ht⟩ := ht
    cases h₁
    rcases ht with ⟨hnum, -⟩ | ⟨-, hack, -⟩
    · exact absurd hnum (by decide)
    · cases hack
  · cases hs
    obtain ⟨s₁, h₁, -, -, rfl⟩ := ht
    cases h₁
    show 0 < TCP_MAXRTX
    decide

/-- Thirteen copies of the SYN arrive before the next tick, `nrtx` is 13, and when the
    retransmission timer expires `tcp_slowtmr` reads behind its table. -/
theorem retries_bounded_fails : ∃ s s' : St Unit, Begun listening ∧ AppOk NoConnect idleApp ∧
    Run.exec (connStep idleApp) listening (List.replicate 13 synCopyOp) = .ok s ∧
    s.pcb.nrtx = 13 ∧ ¬ RetriesSound idleApp s ∧
    Run.exec (connStep idleApp) s (List.replicate 5 ([], .slowtmr)) = .ok s' ∧
    connStep idleApp s' ([], .slowtmr) = .error .outOfBounds := by
  refine ⟨_, _, begun_listening, appOk_idleApp, rfl, rfl, fun h => ?_, rfl, rfl⟩
  exact absurd h.nrtx (by decide)

end Rudp

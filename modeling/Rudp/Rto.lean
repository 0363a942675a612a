import Rudp.Timing
import Rudp.Sent

/-!
# The retransmission timeout

`sa`, `sv` and `rto` are 16-bit signed integers. A sample of the round trip time and the back-off
compute them without a look at their range, so they are what the formulas say as long as the exact
values fit.

Results:
* `rto_exact`: in every run in which they fit, the estimates are not negative and `rto` is positive
  and exact.
* `rto_exact_short`: they fit in every run in which no measured time is longer than 51 ticks.
* `rto_exact_fails`: a sample of 230 ticks behind six retransmissions.
-/

namespace Rudp

variable {W : Type} {s s' : St W} {app : App W}

/-! ## 16-bit arithmetic -/

theorem s16_eq {x : ℤ} (hl : -32768 ≤ x) (hu : x < 32768) : s16 x = x := by
  unfold s16
  rw [Int.bmod_def]
  split <;> omega

/-- `(pcb->sa >> 3) + pcb->sv`. -/
def Timers.base (v : Timers) : ℤ := v.sa / 8 + v.sv

/-- The estimates and the timeout are exact. -/
structure Timers.Exact (v : Timers) : Prop where
  sa : 0 ≤ v.sa
  sv : 3 ≤ v.sv
  rto : v.rto = v.base ∨ ∃ b ∈ tcpBackoff, v.rto = v.base * 2 ^ b
  lt : v.rto < 2 ^ 15

theorem Timers.Exact.base_pos {v : Timers} (h : v.Exact) : 0 < v.base := by
  have h₁ := h.sa
  have h₂ := h.sv
  unfold Timers.base
  omega

/-- The timeout is the base or a multiple of it. -/
theorem Timers.Exact.base_le {v : Timers} (h : v.Exact) : v.base ≤ v.rto := by
  have hp := h.base_pos
  rcases h.rto with e | ⟨b, -, e⟩
  · exact e.ge
  · rw [e]
    exact le_mul_of_one_le_right hp.le (one_le_pow₀ (by norm_num))

/-! ## The conditions -/

/-- The back-off of a timeout fits 16 bits. -/
def BackoffFits (s : St W) : Tmr → Prop
  | .fast => True
  | .slow => s.pcb.Expires → s.pcb.state ≠ .SYN_SENT →
    ∀ b ∈ tcpBackoff[s.pcb.nrtx]?, (s.pcb.sa / 8 + s.pcb.sv) * 2 ^ b < 2 ^ 15

/-- The ticks since the measurement began. -/
def St.elapsed (s : St W) : ℤ := (s.ticks - s.pcb.rttest).toNat

/-- The time that a sample measures fits 16 bits, and so does what it adds to the estimates. -/
def SampleFits (s : St W) (seg : InSegment) : Prop :=
  Samples s.pcb seg →
    s.elapsed < 2 ^ 15 ∧ s.pcb.sa - s.pcb.sa / 8 + s.elapsed < 2 ^ 15 ∧
      (s.pcb.sa - s.pcb.sa / 8 + s.elapsed) / 8 +
        (s.pcb.sv - s.pcb.sv / 4 + |s.elapsed - s.pcb.sa / 8|) < 2 ^ 15

/-- A sample that fits is computed exactly. -/
theorem sample_exact {pcb : Pcb} {m : ℤ} (hsa : 0 ≤ pcb.sa) (hsv : 3 ≤ pcb.sv) (hm : 0 ≤ m)
    (h₁ : m < 2 ^ 15) (h₂ : pcb.sa - pcb.sa / 8 + m < 2 ^ 15)
    (h₃ : (pcb.sa - pcb.sa / 8 + m) / 8 + (pcb.sv - pcb.sv / 4 + |m - pcb.sa / 8|) < 2 ^ 15) :
    (pcb.sample (s16 m)).sa = pcb.sa - pcb.sa / 8 + m ∧
      (pcb.sample (s16 m)).sv = pcb.sv - pcb.sv / 4 + |m - pcb.sa / 8| ∧
      (pcb.sample (s16 m)).rto = (pcb.sa - pcb.sa / 8 + m) / 8 +
        (pcb.sv - pcb.sv / 4 + |m - pcb.sa / 8|) := by
  unfold Pcb.sample
  dsimp only
  rw [s16_eq (x := m) (by omega) (by omega), s16_eq (x := m - pcb.sa / 8) (by omega) (by omega)]
  have habs : (if m - pcb.sa / 8 < 0 then s16 (-(m - pcb.sa / 8)) else m - pcb.sa / 8) =
      |m - pcb.sa / 8| := by
    split
    · next hn => rw [s16_eq (by omega) (by omega), abs_of_neg hn]
    · next hn => rw [abs_of_nonneg (by omega)]
  rw [habs]
  have ha : 0 ≤ |m - pcb.sa / 8| := abs_nonneg _
  have hb : |m - pcb.sa / 8| < 2 ^ 15 := abs_lt.mpr ⟨by omega, by omega⟩
  generalize |m - pcb.sa / 8| = d at *
  rw [s16_eq (x := pcb.sa + (m - pcb.sa / 8)) (by omega) (by omega),
    s16_eq (x := d - pcb.sv / 4) (by omega) (by omega),
    s16_eq (x := pcb.sv + (d - pcb.sv / 4)) (by omega) (by omega)]
  have e₁ : pcb.sa + (m - pcb.sa / 8) = pcb.sa - pcb.sa / 8 + m := by ring
  have e₂ : pcb.sv + (d - pcb.sv / 4) = pcb.sv - pcb.sv / 4 + d := by ring
  rw [e₁, e₂, s16_eq (by omega) (by omega)]
  exact ⟨rfl, rfl, rfl⟩

/-! ## The invariant -/

/-- Another state, and other fields. -/
theorem Timers.Exact.congr {v w : Timers} (h : v.Exact) (hsa : w.sa = v.sa) (hsv : w.sv = v.sv)
    (hrto : w.rto = v.rto) : w.Exact := by
  have hb : w.base = v.base := by
    unfold Timers.base
    rw [hsa, hsv]
  exact ⟨by rw [hsa]; exact h.sa, by rw [hsv]; exact h.sv, by rw [hrto, hb]; exact h.rto,
    by rw [hrto]; exact h.lt⟩

/-- An ACK leaves the estimates alone until it ends a measurement. -/
theorem AckTimers.estimates {pcb p : Pcb} {seg : InSegment} (hp : AckTimers pcb seg p) :
    p.sa = pcb.sa ∧ p.sv = pcb.sv ∧
      ((¬ AcksNew pcb seg ∧ p.rto = pcb.rto) ∨ p.rto = s16 (pcb.sa / 8 + pcb.sv)) := by
  obtain ⟨wnd, wmax, wl1, wl2, cnt, pb, hw, -⟩ := tcpReceiveWindow_keeps pcb seg
  have e₁ : (tcpReceiveWindow pcb seg).sa = pcb.sa := by rw [hw]
  have e₂ : (tcpReceiveWindow pcb seg).sv = pcb.sv := by rw [hw]
  have e₃ : (tcpReceiveWindow pcb seg).rto = pcb.rto := by rw [hw]
  have hi (q : Pcb) : (cwndInflate q).sa = q.sa ∧ (cwndInflate q).sv = q.sv ∧
      (cwndInflate q).rto = q.rto := by
    unfold cwndInflate
    split <;> exact ⟨rfl, rfl, rfl⟩
  cases hp with
  | keep hn _ => exact ⟨e₁, e₂, .inl ⟨hn, e₃⟩⟩
  | inflate hd _ =>
    obtain ⟨i₁, i₂, i₃⟩ := hi (tcpReceiveWindow pcb seg)
    exact ⟨i₁.trans e₁, i₂.trans e₂, .inl ⟨hd.not_acksNew, i₃.trans e₃⟩⟩
  | fast hf => exact ⟨e₁, e₂, .inl ⟨hf.2.1.not_acksNew, e₃⟩⟩
  | advance _ =>
    have hr : (tcpReceiveWindow pcb seg).recover.sa = pcb.sa ∧
        (tcpReceiveWindow pcb seg).recover.sv = pcb.sv := by
      unfold Pcb.recover
      split <;> exact ⟨e₁, e₂⟩
    have hc (q : Pcb) : (cwndAck q).sa = q.sa ∧ (cwndAck q).sv = q.sv ∧
        (cwndAck q).rto = q.rto := by
      have h := timers_cwndAck q
      exact ⟨congrArg Timers.sa h, congrArg Timers.sv h, congrArg Timers.rto h⟩
    obtain ⟨c₁, c₂, c₃⟩ := hc { (tcpReceiveWindow pcb seg).recover with
      nrtx := 0, rto := s16 (pcb.sa / 8 + pcb.sv) }
    exact ⟨c₁.trans hr.1, c₂.trans hr.2, .inr c₃⟩

/-- An ACK of new data makes the timeout the base. -/
theorem Timers.Exact.rto_base {pcb p : Pcb} (h : pcb.timers.Exact)
    (hr : p.rto = s16 (pcb.sa / 8 + pcb.sv)) :
    p.rto = pcb.sa / 8 + pcb.sv := by
  have hpos := h.base_pos
  have hle := h.base_le
  have hlt := h.lt
  exact hr.trans (s16_eq (x := pcb.timers.base) (by omega) (by omega))

theorem Timers.Exact.ack {pcb p : Pcb} {seg : InSegment} (h : pcb.timers.Exact)
    (hp : AckTimers pcb seg p) : p.timers.Exact := by
  obtain ⟨hsa, hsv, ⟨-, hrto⟩ | hrto⟩ := hp.estimates
  · exact h.congr hsa hsv hrto
  · have hr := h.rto_base hrto
    refine ⟨?_, ?_, .inl ?_, ?_⟩
    · show 0 ≤ p.sa
      rw [hsa]
      exact h.sa
    · show 3 ≤ p.sv
      rw [hsv]
      exact h.sv
    · show p.rto = p.sa / 8 + p.sv
      rw [hr, hsa, hsv]
    · show p.rto < 2 ^ 15
      rw [hr]
      exact lt_of_le_of_lt h.base_le h.lt

/-- The estimates behind a sample that fits. -/
theorem Timers.Exact.sample_eq {seg : InSegment} {p : Pcb} (h : s.pcb.timers.Exact)
    (hp : AckTimers s.pcb seg p) (hf : SampleFits s seg) (hs : Samples s.pcb seg) :
    (p.sample s.rtt).sa = s.pcb.sa - s.pcb.sa / 8 + s.elapsed ∧
      (p.sample s.rtt).sv = s.pcb.sv - s.pcb.sv / 4 + |s.elapsed - s.pcb.sa / 8| ∧
      (p.sample s.rtt).rto = (p.sample s.rtt).sa / 8 + (p.sample s.rtt).sv := by
  obtain ⟨hsa, hsv, -⟩ := hp.estimates
  obtain ⟨f₁, f₂, f₃⟩ := hf hs
  have a₁ : 0 ≤ s.pcb.sa := h.sa
  have a₂ : 3 ≤ s.pcb.sv := h.sv
  rw [← hsa] at f₂ f₃ a₁
  rw [← hsv] at f₃ a₂
  have h₀ : 0 ≤ s.elapsed := Int.natCast_nonneg _
  obtain ⟨e₁, e₂, e₃⟩ := sample_exact a₁ a₂ h₀ f₁ f₂ f₃
  rw [← hsa, ← hsv]
  refine ⟨e₁, e₂, ?_⟩
  show (p.sample (s16 s.elapsed)).rto =
    (p.sample (s16 s.elapsed)).sa / 8 + (p.sample (s16 s.elapsed)).sv
  rw [e₁, e₂, e₃]

theorem Timers.Exact.sample {seg : InSegment} {p : Pcb} (h : s.pcb.timers.Exact)
    (hp : AckTimers s.pcb seg p) (hf : SampleFits s seg) (hs : Samples s.pcb seg) :
    (p.sample s.rtt).timers.Exact := by
  obtain ⟨e₁, e₂, e₃⟩ := h.sample_eq hp hf hs
  obtain ⟨-, -, f₃⟩ := hf hs
  have h₀ : 0 ≤ s.elapsed := Int.natCast_nonneg _
  have a₁ : 0 ≤ s.pcb.sa := h.sa
  have a₂ : 3 ≤ s.pcb.sv := h.sv
  have ha : 0 ≤ |s.elapsed - s.pcb.sa / 8| := abs_nonneg _
  refine ⟨?_, ?_, .inl e₃, ?_⟩
  · show 0 ≤ (p.sample s.rtt).sa
    omega
  · show 3 ≤ (p.sample s.rtt).sv
    omega
  · show (p.sample s.rtt).rto < 2 ^ 15
    rw [e₃, e₁, e₂]
    exact f₃

/-- The back-off of the timer is exact when it fits. -/
theorem rtoBackoff_exact {pcb : Pcb} {rto : ℤ} (h : pcb.timers.Exact) (hst : pcb.state ≠ .SYN_SENT)
    (hf : ∀ b ∈ tcpBackoff[pcb.nrtx]?, (pcb.sa / 8 + pcb.sv) * 2 ^ b < 2 ^ 15)
    (hr : rtoBackoff pcb = .ok rto) :
    ∃ b, tcpBackoff[pcb.nrtx]? = some b ∧ rto = pcb.timers.base * 2 ^ b ∧ rto < 2 ^ 15 := by
  unfold rtoBackoff at hr
  rw [if_pos hst] at hr
  split at hr
  · cases hr
  · next b hb =>
    cases hr
    have hlt : pcb.timers.base * 2 ^ b < 2 ^ 15 := hf b hb
    have hpos : 0 < pcb.timers.base * 2 ^ b := mul_pos h.base_pos (by positivity)
    have e : s16 ((pcb.sa / 8 + pcb.sv) * 2 ^ b) = pcb.timers.base * 2 ^ b :=
      s16_eq (x := pcb.timers.base * 2 ^ b) (by omega) hlt
    refine ⟨b, hb, e, ?_⟩
    rw [e]
    exact hlt

theorem timed_exact : Timed (W := W) NoConnect SampleFits BackoffFits (fun _ _ => True)
    Timers.Exact where
  noConnect := id
  leave _ hI := hI.congr rfl rfl rfl
  accept _ hI := hI.congr rfl rfl rfl
  opened _ hI := hI.congr rfl rfl rfl
  backoff _ _ _ hI := hI.congr rfl rfl rfl
  rto {s rto} hR he hrto hI := by
    by_cases hst : s.pcb.state = .SYN_SENT
    · have e : rto = s.pcb.rto := by
        unfold rtoBackoff at hrto
        rw [if_neg (not_not.mpr hst)] at hrto
        exact (Except.ok.inj hrto).symm
      rw [e]
      exact hI.congr rfl rfl rfl
    · obtain ⟨b, hb, e, hlt⟩ := rtoBackoff_exact hI hst (hR he hst) hrto
      exact ⟨hI.sa, hI.sv, .inr ⟨b, List.mem_of_getElem? hb, e⟩, hlt⟩
  rexmit _ _ _ _ hI := hI.congr rfl rfl rfl
  mss _ _ hI := hI.congr rfl rfl rfl
  establish _ _ _ _ hI := hI.congr rfl rfl rfl
  ack _ _ hp hI := hI.ack hp
  sample _ hQ hp hs hI := hI.sample hp hQ hs

/-! ## The result -/

/-- The condition on one operation. -/
def RtoOk (app : App W) : St W → List Bool × Op → Prop :=
  Kept.StepOk NoConnect SampleFits BackoffFits app

/-- The timeout is in order: the estimates are not negative, the timeout is positive, exact and
    inside 16 bits; an expiry makes it the base times two to the back-off of `nrtx` and an ACK of new
    data makes it the base; and the timer counts up to it without an overflow. -/
structure RtoSound (ok : St W → List Bool × Op → Prop) (app : App W) (s : St W) : Prop where
  sa : 0 ≤ s.pcb.sa
  sv : 0 ≤ s.pcb.sv
  pos : 0 < s.pcb.rto
  lt : s.pcb.rto < 2 ^ 15
  rto : s.pcb.rto = s.pcb.sa / 8 + s.pcb.sv ∨
    ∃ b ∈ tcpBackoff, s.pcb.rto = (s.pcb.sa / 8 + s.pcb.sv) * 2 ^ b
  expiry : ∀ fails s₁, s.list = .active → s.pcb.Expires → s.pcb.state ≠ .SYN_SENT →
    ok s (fails, .slowtmr) → tcpSlowtmrSend { s with fails := fails, ticks := s.ticks + 1 } = .ok s₁ →
    ∃ b, tcpBackoff[s.pcb.nrtx]? = some b ∧ s₁.pcb.rto = (s.pcb.sa / 8 + s.pcb.sv) * 2 ^ b
  ack : ∀ fails seg t s₁, ok s (fails, .input seg) → Receives app { s with fails := fails } seg t →
    AcksNew t.pcb seg → tcpReceiveAck t seg = .ok s₁ → s₁.pcb.rto = s₁.pcb.sa / 8 + s₁.pcb.sv
  counts : 0 ≤ s.pcb.rtime → s.pcb.rtime < s.pcb.rto → s16 (s.pcb.rtime + 1) = s.pcb.rtime + 1

theorem Timers.Exact.sound (happ : AppOk NoConnect app) (h : s.pcb.timers.Exact) :
    RtoSound (RtoOk app) app s := by
  have hle := h.base_le
  have hpos := h.base_pos
  have hlt : s.pcb.rto < 2 ^ 15 := h.lt
  have hsv : 3 ≤ s.pcb.sv := h.sv
  refine ⟨h.sa, by omega, lt_of_lt_of_le hpos hle, hlt, h.rto, ?_, ?_, ?_⟩
  · intro fails s₁ hl he hst hop h₁
    obtain ⟨rto, hrto, ht⟩ := tcpSlowtmrSend_expires (by exact he) h₁
    obtain ⟨b, hb, e, -⟩ := rtoBackoff_exact h hst (hop hl he hst) hrto
    exact ⟨b, hb, (congrArg Timers.rto ht).trans e⟩
  · intro fails seg t s₁ hop ht hnew h₁
    have hk : Kept NoConnect SampleFits BackoffFits app
        (fun s : St W => s.pcb.timers.Exact) := timed_exact.toKept
    have hI : t.pcb.timers.Exact := hk.receives happ ht (by exact h)
    obtain ⟨p, hp, e | ⟨hs, e⟩⟩ := tcpReceiveAck_timers hnew.1 h₁
    · obtain ⟨hsa, hsv, ⟨hn, -⟩ | hrto⟩ := hp.estimates
      · exact absurd hnew hn
      have e₁ : s₁.pcb.sa = t.pcb.sa := (congrArg Timers.sa e).trans hsa
      have e₂ : s₁.pcb.sv = t.pcb.sv := (congrArg Timers.sv e).trans hsv
      have e₃ : s₁.pcb.rto = p.rto := congrArg Timers.rto e
      rw [e₁, e₂, e₃]
      exact hI.rto_base hrto
    · have e₁ : s₁.pcb.sa = (p.sample t.rtt).sa := congrArg Timers.sa e
      have e₂ : s₁.pcb.sv = (p.sample t.rtt).sv := congrArg Timers.sv e
      have e₃ : s₁.pcb.rto = (p.sample t.rtt).rto := congrArg Timers.rto e
      rw [e₁, e₂, e₃]
      exact (hI.sample_eq hp (hop t ht) hs).2.2
  · intro h₀ hr
    exact s16_eq (by omega) (by omega)

theorem Begun.exact (h : Begun s) : s.pcb.timers.Exact := by
  have hs := h.timers
  refine ⟨?_, ?_, .inl ?_, ?_⟩
  · rw [hs.sa]
  · rw [hs.sv]
    decide
  · unfold Timers.base
    rw [hs.sa, hs.sv, hs.rto]
    decide
  · rw [hs.rto]
    decide

/-- In a run in which every sample and every back-off fits, the timeout is exact. -/
theorem rto_exact {s₀ : St W} (happ : AppOk NoConnect app) (h₀ : Begun s₀)
    (hr : Run.Reach (connStep app) (RtoOk app) s₀ s) : RtoSound (RtoOk app) app s := by
  have hI : s.pcb.timers.Exact :=
    timed_exact.toKept.reach (I := fun s => s.pcb.timers.Exact) happ h₀.exact hr
  exact hI.sound happ

/-! ## Short round trips -/

/-- No sample measures more than 51 ticks. -/
def SampleShort (s : St W) (seg : InSegment) : Prop := Samples s.pcb seg → s.elapsed ≤ 51

/-- The estimates that such samples lead to. -/
def Timers.Short (v : Timers) : Prop := v.Exact ∧ v.sa ≤ 8 * 51 ∧ v.sv ≤ 4 * 51

theorem Timers.Short.backoff {pcb : Pcb} (h : pcb.timers.Short) {b : ℕ}
    (hb : tcpBackoff[pcb.nrtx]? = some b) : (pcb.sa / 8 + pcb.sv) * 2 ^ b < 2 ^ 15 := by
  have hle : b ≤ 7 := by
    have hall : ∀ b ∈ tcpBackoff, b ≤ 7 := by decide
    exact hall b (List.mem_of_getElem? hb)
  have h₁ : pcb.sa ≤ 8 * 51 := h.2.1
  have h₂ : pcb.sv ≤ 4 * 51 := h.2.2
  have hp : (2 : ℤ) ^ b ≤ 2 ^ 7 := pow_le_pow_right₀ (by norm_num) hle
  calc (pcb.sa / 8 + pcb.sv) * 2 ^ b ≤ 255 * 2 ^ b := by
        exact mul_le_mul_of_nonneg_right (by omega) (by positivity)
    _ ≤ 255 * 2 ^ 7 := by omega
    _ < 2 ^ 15 := by norm_num

theorem SampleShort.fits {seg : InSegment} (h : s.pcb.timers.Short) (hs : SampleShort s seg) :
    SampleFits s seg := by
  intro hm
  have h₀ : 0 ≤ s.elapsed := Int.natCast_nonneg _
  have h₁ := hs hm
  have h₂ : s.pcb.sa ≤ 8 * 51 := h.2.1
  have h₃ : s.pcb.sv ≤ 4 * 51 := h.2.2
  have h₄ : 0 ≤ s.pcb.sa := h.1.sa
  have h₅ : 3 ≤ s.pcb.sv := h.1.sv
  have ha : |s.elapsed - s.pcb.sa / 8| ≤ 51 := abs_le.mpr ⟨by omega, by omega⟩
  exact ⟨by omega, by omega, by omega⟩

theorem timed_short : Timed (W := W) NoConnect SampleShort (fun _ _ => True) (fun _ _ => True)
    Timers.Short where
  noConnect := id
  leave hl hI := ⟨timed_exact.leave (W := W) hl hI.1, hI.2⟩
  accept hst hI := ⟨timed_exact.accept (W := W) hst hI.1, hI.2⟩
  opened hst hI := ⟨timed_exact.opened (W := W) hst hI.1, hI.2⟩
  backoff h₀ hb hle hI := ⟨timed_exact.backoff (W := W) h₀ hb hle hI.1, hI.2⟩
  rto _ he hrto hI := by
    refine ⟨timed_exact.rto (fun _ _ b hb => hI.backoff hb) he hrto hI.1, hI.2⟩
  rexmit _ _ _ _ hI := ⟨hI.1.congr rfl rfl rfl, hI.2⟩
  mss _ _ hI := ⟨hI.1.congr rfl rfl rfl, hI.2⟩
  establish _ _ _ _ hI := ⟨hI.1.congr rfl rfl rfl, hI.2⟩
  ack _ _ hp hI := by
    obtain ⟨hsa, hsv, -⟩ := hp.estimates
    refine ⟨hI.1.ack hp, ?_, ?_⟩
    · exact hsa.trans_le hI.2.1
    · exact hsv.trans_le hI.2.2
  sample {s seg p} _ hQ hp hs hI := by
    have hf := hQ.fits hI
    obtain ⟨e₁, e₂, -⟩ := hI.1.sample_eq hp hf hs
    have h₀ : 0 ≤ s.elapsed := Int.natCast_nonneg _
    have h₁ := hQ hs
    have h₂ : s.pcb.sa ≤ 8 * 51 := hI.2.1
    have h₃ : s.pcb.sv ≤ 4 * 51 := hI.2.2
    have h₄ : 0 ≤ s.pcb.sa := hI.1.sa
    have ha : |s.elapsed - s.pcb.sa / 8| ≤ 51 := abs_le.mpr ⟨by omega, by omega⟩
    refine ⟨hI.1.sample hp hf hs, ?_, ?_⟩
    · show (p.sample s.rtt).sa ≤ 8 * 51
      omega
    · show (p.sample s.rtt).sv ≤ 4 * 51
      omega

/-- In a run in which no measured time is longer than 51 ticks, 25.5 seconds, everything fits. -/
theorem rto_exact_short {s₀ : St W} (happ : AppOk NoConnect app) (h₀ : Begun s₀)
    (hr : Run.Reach (connStep app) (Kept.StepOk NoConnect SampleShort (fun _ _ => True) app) s₀ s) :
    RtoSound (RtoOk app) app s := by
  have hs := h₀.timers
  have hstart : s₀.pcb.timers.Short := by
    refine ⟨h₀.exact, ?_, ?_⟩
    · rw [hs.sa]
      decide
    · rw [hs.sv]
      decide
  have hI : s.pcb.timers.Short :=
    timed_short.toKept.reach (I := fun s => s.pcb.timers.Short) happ hstart hr
  exact hI.1.sound happ

/-! ### Two runs -/

/-- The byte is acknowledged at once, and the sample improves the estimate. -/
theorem rto_exact_ack : ∃ s : St Unit, Run.exec (connStep idleApp) connecting
      ([synAckOp TCP_WND, ([], .slowtmr)] ++ writeOps [7] ++ [ackOp 1001 TCP_WND]) = .ok s ∧
    s.pcb.rto = 5 ∧ RtoSound (RtoOk idleApp) idleApp s := by
  refine ⟨_, rfl, rfl, rto_exact appOk_idleApp begun_connecting
    (.step (ackOp 1001 TCP_WND) (.step ([], .api .output) (.step ([], .api (.write [7] true false))
      (.step ([], .slowtmr) (.step (synAckOp TCP_WND) .refl ?_ rfl) (fun _ he => ?_) rfl)
      trivial rfl) trivial rfl) ?_ rfl)⟩
  · rintro t ⟨s₁, h₁, -, s₂, rfl, ht⟩
    cases h₁
    rcases ht with ⟨-, -, h, -⟩ | ⟨h, -⟩ <;> cases h
  · exact absurd rfl he.2.2.1
  · rintro t ⟨s₁, h₁, -, s₂, rfl, ht⟩
    cases h₁
    rcases ht with ⟨-, -, -, rfl⟩ | ⟨h, -⟩
    · intro _
      exact ⟨by decide, by decide, by decide⟩
    · cases h

/-- Ten bytes of which the server acknowledges five, six retransmissions, an ACK 230 ticks behind
    the last one, and the next expiry 33 ticks later. -/
def lateAckOps : List (List Bool × Op) :=
  [synAckOp TCP_WND] ++ writeOps (List.replicate 10 7) ++ [ackOp 1005 TCP_WND] ++
    List.replicate 608 ([], .slowtmr) ++ [ackOp 1005 TCP_WND] ++ List.replicate 33 ([], .slowtmr)

/-- The late ACK of the retransmitted segment gives a sample of 230 ticks and does not reset `nrtx`,
    so that the back-off by `2 ^ 7` overflows `rto`. -/
theorem rto_exact_fails : ∃ s : St Unit, Begun connecting ∧ AppOk NoConnect idleApp ∧
    Run.exec (connStep idleApp) connecting lateAckOps = .ok s ∧
    s.pcb.sa = 230 ∧ s.pcb.sv = 235 ∧ s.pcb.rto = -31872 ∧ ∀ ok, ¬ RtoSound ok idleApp s := by
  have hrun : ((Run.exec (connStep idleApp) connecting lateAckOps).toOption.any fun s =>
      decide (s.pcb.sa = 230 ∧ s.pcb.sv = 235 ∧ s.pcb.rto = -31872)) = true := by
    decide +kernel
  cases hs : Run.exec (connStep idleApp) connecting lateAckOps with
  | error e =>
    rw [hs] at hrun
    cases hrun
  | ok s =>
    rw [hs] at hrun
    obtain ⟨hsa, hsv, hrto⟩ := of_decide_eq_true hrun
    refine ⟨s, begun_connecting, appOk_idleApp, rfl, hsa, hsv, hrto, fun ok h => ?_⟩
    have hpos := h.pos
    omega

end Rudp

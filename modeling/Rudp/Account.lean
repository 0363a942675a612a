import Rudp.Room
import Rudp.Sent
import Rudp.Segs

/-!
# The counters of the sending side

`snd_queuelen` counts the pbufs on both queues, `snd_buf` the sequence numbers between `lastack` and
`snd_lbb`. Three functions add to them and two loops take away.

Results:
* `accounting`: in every run, up to the purge of the queues, both are exact, `snd_nxt` is at most
  `TCP_SND_BUF + 1` ahead of `lastack`, and no assertion on `snd_queuelen` fails.
-/

namespace Rudp

variable {W : Type} {s s' : St W}

open Run (Fails)
open Serial (dist)

/-! ## `snd_queuelen` -/

/-- `snd_queuelen` counts the pbufs on the queues, of which there are at most `n`. -/
structure Counts (n : ℕ) (c : Core) : Prop where
  count : c.sndQueuelen = pbufs c.unsent + pbufs c.unacked
  limit : c.sndQueuelen ≤ n

theorem pbufs_perm {q q' : List TcpSeg} (h : q.Perm q') : pbufs q = pbufs q' :=
  (h.map _).sum_eq

theorem length_le_pbufs {seg : TcpSeg} {q : List TcpSeg} (h : seg ∈ q) : seg.p.length ≤ pbufs q :=
  List.single_le_sum (by simp) _ (List.mem_map_of_mem h)

namespace Counts

variable {n m : ℕ} {c c' : Core}

theorem mono (h : Counts n c) (hnm : n ≤ m) : Counts m c := ⟨h.count, h.limit.trans hnm⟩

theorem congr (h : Counts n c) (hn : c'.sndQueuelen = c.sndQueuelen)
    (hq : pbufs c'.unsent + pbufs c'.unacked = pbufs c.unsent + pbufs c.unacked) : Counts n c' :=
  ⟨by rw [hn, hq, h.count], hn ▸ h.limit⟩

/-- `pbuf_clen` does not wrap. -/
theorem clen (h : Counts n c) (hn : n < 256) {seg : TcpSeg} (hs : seg ∈ c.segs) :
    pbufClen seg.p = seg.p.length := by
  have hle : seg.p.length ≤ pbufs c.segs := length_le_pbufs hs
  have hl := h.limit
  have hc := h.count
  unfold Core.segs at hle
  rw [pbufs_append] at hle
  exact Nat.mod_eq_of_lt (by omega)

theorem of_sndView (h : Counts n s.core) (hv : s'.sndView = s.sndView) : Counts n s'.core := by
  have hu : s'.core.unsent = s.core.unsent := congrArg SndView.unsent hv
  have ha : s'.core.unacked = s.core.unacked := congrArg SndView.unacked hv
  refine h.congr (congrArg SndView.sndQueuelen hv) ?_
  rw [hu, ha]

/-! ### Transmissions -/

theorem tcpOutput {err : Err} (h : Rudp.tcpOutput s = .ok (err, s')) (hf : Flight s.core)
    (hI : Counts n s.core) : Counts n s'.core := by
  refine (tcpOutput_rule (I := fun t => Flight t.core ∧ Counts n t.core) ?_ ?_ ?_ ?_ h ⟨hf, hI⟩).2
  · intro t ht
    rw [core_tcpSendEmptyAck]
    exact ht
  · intro t t₁ seg seg' rest ⟨hf, ht⟩ hq _ _ he
    obtain ⟨rfl, hc⟩ := core_tcpOutputSent rest he
    have hf' := hf.sent t₁.core.log hq (seg.same_stamp t.pcb t.pcb)
    have hfull : 0 < seg.tcplen := (hf.placed.sized seg (by
      show seg ∈ t.pcb.unsent ++ t.pcb.unacked
      rw [hq]
      simp)).full
    rw [hc]
    refine ⟨hf', ht.congr rfl ?_⟩
    show pbufs rest + pbufs (if seg.tcplen > 0 then putUnacked _ t.pcb.unacked else t.pcb.unacked) =
      pbufs t.pcb.unsent + pbufs t.pcb.unacked
    rw [if_pos hfull, pbufs_perm (perm_putUnacked _ _), hq, pbufs_cons, pbufs_cons]
    show pbufs rest + (seg.p.length + pbufs t.pcb.unacked) = _
    omega
  · intro t t₁ seg seg' rest err ⟨hf, ht⟩ hq _ _ he _
    obtain ⟨rfl, hc⟩ := core_tcpOutputFail rest he
    have hf' := hf.fail t₁.core.log hq (seg.same_stamp t.pcb t.pcb)
    rw [hc]
    refine ⟨hf', ht.congr rfl ?_⟩
    show seg.p.length + pbufs rest + pbufs t.pcb.unacked = pbufs t.pcb.unsent + pbufs t.pcb.unacked
    rw [hq, pbufs_cons]
  · intro t ⟨hf, ht⟩
    exact ⟨hf.congr rfl rfl rfl rfl rfl rfl rfl (.inl ⟨rfl, rfl⟩), ht.congr rfl rfl⟩

theorem tcpRexmit (hI : Counts n s.core) : Counts n (Rudp.tcpRexmit s).core := by
  unfold Rudp.tcpRexmit
  split
  · exact hI
  next seg rest hu =>
  refine hI.congr rfl ?_
  show pbufs (insertSeg seg s.pcb.unsent) + pbufs rest = pbufs s.pcb.unsent + pbufs s.pcb.unacked
  rw [pbufs_perm (perm_insertSeg seg s.pcb.unsent), hu, pbufs_cons, pbufs_cons]
  omega

theorem tcpRexmitRto (h : Rudp.tcpRexmitRto s = .ok s') (hf : Flight s.core)
    (hI : Counts n s.core) : Counts n s'.core := by
  unfold Rudp.tcpRexmitRto at h
  split at h
  · cases h
    exact hI
  next seg hl =>
  obtain ⟨⟨err, s₁⟩, h₁, h⟩ := Run.bind_eq_ok.mp h
  cases h
  refine Counts.tcpOutput h₁ (hf.rto _) (hI.congr rfl ?_)
  show pbufs (s.pcb.unacked ++ s.pcb.unsent) + 0 = pbufs s.pcb.unsent + pbufs s.pcb.unacked
  rw [pbufs_append]
  omega

/-! ### Queueing -/

theorem tcpWrite {arg : List Byte} {copy more : Bool} {err : Err}
    (h : Rudp.tcpWrite s arg copy more = .ok (err, s')) (hn : TCP_SND_QUEUELEN ≤ n)
    (hI : Counts n s.core) : Counts n s'.core := by
  obtain ⟨hcount, h40, hsame⟩ := tcpWrite_counted h
  have hua : s'.pcb.unacked = s.pcb.unacked := (tcpWrite_queues h).sameConn.unacked
  have hc : s.pcb.sndQueuelen = pbufs s.pcb.unsent + pbufs s.pcb.unacked := hI.count
  have hl : s.pcb.sndQueuelen ≤ n := hI.limit
  constructor
  · show s'.pcb.sndQueuelen = pbufs s'.pcb.unsent + pbufs s'.pcb.unacked
    rw [hua]
    omega
  · show s'.pcb.sndQueuelen ≤ n
    by_cases hok : err = .ok ∧ arg ≠ []
    · exact (h40 hok).trans hn
    · rw [hsame hok]
      exact hl

/-- A FIN takes one pbuf, or none. -/
theorem tcpSendFin {err : Err} (h : Rudp.tcpSendFin s = .ok (err, s')) (hn : n < 255)
    (hI : Counts n s.core) :
    Counts (n + 1) s'.core ∧ (err ≠ .ok → Counts n s'.core) := by
  have hc : s.pcb.sndQueuelen = pbufs s.pcb.unsent + pbufs s.pcb.unacked := hI.count
  have hl : s.pcb.sndQueuelen ≤ n := hI.limit
  have hkeep {t : St W} (h1 : t.pcb.sndQueuelen = s.pcb.sndQueuelen)
      (h2 : pbufs t.pcb.unsent = pbufs s.pcb.unsent) (h3 : t.pcb.unacked = s.pcb.unacked) :
      Counts n t.core := by
    refine hI.congr h1 ?_
    show pbufs t.pcb.unsent + pbufs t.pcb.unacked = pbufs s.pcb.unsent + pbufs s.pcb.unacked
    rw [h2, h3]
  have hboth {t : St W} (hk : Counts n t.core) :
      Counts (n + 1) t.core ∧ (err ≠ .ok → Counts n t.core) := ⟨hk.mono (Nat.le_succ n), fun _ => hk⟩
  have henq (h : tcpEnqueueFlags s { fin := true } = .ok (err, s')) :
      Counts (n + 1) s'.core ∧ (err ≠ .ok → Counts n s'.core) := by
    obtain ⟨_, -, h⟩ := Run.bind_eq_ok.mp h
    dsimp only at h
    split at h
    · cases h
      exact hboth (hkeep rfl rfl rfl)
    split at h
    · cases h
      exact hboth hI
    split at h
    · cases h
      exact hboth (hkeep rfl rfl rfl)
    split at h
    · next s₁ e =>
      have hp : s₁.pcb = s.pcb := (tcpCreateSegment_spec e).1
      cases h
      exact hboth (hkeep (congrArg Pcb.sndQueuelen hp :) (congrArg (fun p => pbufs p.unsent) hp :)
        (congrArg Pcb.unacked hp :))
    · next seg s₁ e =>
      have hp : s₁.pcb = s.pcb := (tcpCreateSegment_spec e).1
      have hseg := (tcpCreateSegment_spec e).2 seg rfl
      obtain ⟨_, -, h⟩ := Run.bind_eq_ok.mp h
      cases h
      have hlen : u16 (s₁.pcb.sndQueuelen + pbufClen seg.p) = s.pcb.sndQueuelen + 1 := by
        have hone : pbufClen seg.p = 1 := by
          rw [hseg]
          rfl
        rw [hp, hone]
        exact u16_of_lt (by omega)
      refine ⟨⟨?_, ?_⟩, fun hne => absurd rfl hne⟩
      · show u16 (s₁.pcb.sndQueuelen + pbufClen seg.p) =
          pbufs (s₁.pcb.unsent ++ [seg]) + pbufs s₁.pcb.unacked
        rw [hlen, hp, pbufs_append, pbufs_cons, hseg, hc]
        show _ = pbufs s.pcb.unsent + (1 + 0) + _
        omega
      · show u16 (s₁.pcb.sndQueuelen + pbufClen seg.p) ≤ n + 1
        omega
  unfold Rudp.tcpSendFin at h
  split at h
  · next last hq =>
    obtain ⟨init, hu⟩ := List.getLast?_eq_some_iff.mp hq
    split at h
    · cases h
      refine hboth (hkeep rfl ?_ rfl)
      show pbufs (modifyLast TcpSeg.setFin s.pcb.unsent) = pbufs s.pcb.unsent
      rw [hu, modifyLast_append_singleton, pbufs_append, pbufs_append]
      rfl
    · exact henq h
  · exact henq h

/-! ### Acknowledgments -/

theorem free {next : TcpSeg} (hn : n < 256)
    (hq : s.pcb.sndQueuelen = next.p.length + (pbufs s.pcb.unsent + pbufs s.pcb.unacked))
    (hl : s.pcb.sndQueuelen ≤ n) (h : tcpReceiveFree s next = .ok s') : Counts n s'.core := by
  have hclen : pbufClen next.p = next.p.length := Nat.mod_eq_of_lt (by omega)
  obtain ⟨_, -, h⟩ := Run.bind_eq_ok.mp h
  obtain ⟨_, -, h⟩ := Run.bind_eq_ok.mp h
  cases h
  constructor
  · show s.pcb.sndQueuelen - pbufClen next.p = pbufs s.pcb.unsent + pbufs s.pcb.unacked
    omega
  · show s.pcb.sndQueuelen - pbufClen next.p ≤ n
    omega

/-- The two assertions hold when the segment is counted. -/
theorem fails_free {F : Fault → Prop} {next : TcpSeg} (hn : n < 256)
    (hq : s.pcb.sndQueuelen = next.p.length + (pbufs s.pcb.unsent + pbufs s.pcb.unacked))
    (hl : s.pcb.sndQueuelen ≤ n) : Fails F (tcpReceiveFree s next) := by
  have hclen : pbufClen next.p = next.p.length := Nat.mod_eq_of_lt (by omega)
  refine .bind (Fails.lwipAssert fun h => absurd ?_ h) fun _ _ => ?_
  · omega
  refine .bind (Fails.lwipAssert fun h => absurd ?_ h) fun _ _ => .ok _
  dsimp only
  intro h0
  by_contra hc
  obtain ⟨hua, hun⟩ := not_or.mp hc
  rw [not_not.mp hua, not_not.mp hun, pbufs_nil] at hq
  omega

theorem tcpReceiveUnacked {ackno : U32} {q : List TcpSeg} (hn : n < 256) (hq : s.pcb.unacked = q)
    (hI : Counts n s.core) : (∀ s', Rudp.tcpReceiveUnacked ackno q s = .ok s' → Counts n s'.core) ∧
      ∀ F : Fault → Prop, Fails F (Rudp.tcpReceiveUnacked ackno q s) := by
  induction q generalizing s with
  | nil =>
    refine ⟨fun s' h => ?_, fun F => .ok _⟩
    cases h
    exact hI
  | cons next rest ih =>
    have hc : s.pcb.sndQueuelen = pbufs s.pcb.unsent + pbufs s.pcb.unacked := hI.count
    rw [hq, pbufs_cons] at hc
    have hc' : s.pcb.sndQueuelen = next.p.length + (pbufs s.pcb.unsent + pbufs rest) := by omega
    have hu {s₁ : St W} (h : tcpReceiveFree { s with pcb.unacked := rest } next = .ok s₁) :
        s₁.pcb.unacked = rest := by
      obtain ⟨m, -, hp⟩ := tcpReceiveFree_spec h
      rw [hp]
    simp only [Rudp.tcpReceiveUnacked]
    split
    · refine ⟨fun s' h => ?_, fun F =>
        .bind (fails_free (s := { s with pcb.unacked := rest }) hn hc' hI.limit) fun s₁ h₁ => ?_⟩
      · obtain ⟨s₁, h₁, h⟩ := Run.bind_eq_ok.mp h
        exact (ih (hu h₁) (free (s := { s with pcb.unacked := rest }) hn hc' hI.limit h₁)).1 s' h
      · exact (ih (hu h₁) (free (s := { s with pcb.unacked := rest }) hn hc' hI.limit h₁)).2 F
    · refine ⟨fun s' h => ?_, fun F => .ok _⟩
      cases h
      exact hI

theorem tcpReceiveUnsent {ackno : U32} {q : List TcpSeg} (hn : n < 256) (hq : s.pcb.unsent = q)
    (hI : Counts n s.core) : (∀ s', Rudp.tcpReceiveUnsent ackno q s = .ok s' → Counts n s'.core) ∧
      ∀ F : Fault → Prop, Fails F (Rudp.tcpReceiveUnsent ackno q s) := by
  induction q generalizing s with
  | nil =>
    refine ⟨fun s' h => ?_, fun F => .ok _⟩
    cases h
    exact hI
  | cons next rest ih =>
    have hc : s.pcb.sndQueuelen = pbufs s.pcb.unsent + pbufs s.pcb.unacked := hI.count
    rw [hq, pbufs_cons] at hc
    have hc' : s.pcb.sndQueuelen = next.p.length + (pbufs rest + pbufs s.pcb.unacked) := by omega
    have hu {s₁ : St W} {o : ℕ} (h : tcpReceiveFree { s with
        pcb.unsent := rest, pcb.unsentOversize := o } next = .ok s₁) : s₁.pcb.unsent = rest := by
      obtain ⟨m, -, hp⟩ := tcpReceiveFree_spec h
      rw [hp]
    have hfree {o : ℕ} {s₁ : St W} (h₁ : tcpReceiveFree { s with
        pcb.unsent := rest, pcb.unsentOversize := o } next = .ok s₁) : Counts n s₁.core :=
      free (s := { s with pcb.unsent := rest, pcb.unsentOversize := o }) hn hc' hI.limit h₁
    simp only [Rudp.tcpReceiveUnsent]
    split
    · refine ⟨fun s' h => ?_, fun F => .bind (fails_free (s := { s with
        pcb.unsent := rest, pcb.unsentOversize := _ }) hn hc' hI.limit) fun s₁ h₁ => ?_⟩
      · obtain ⟨s₁, h₁, h⟩ := Run.bind_eq_ok.mp h
        exact (ih (hu h₁) (hfree h₁)).1 s' h
      · exact (ih (hu h₁) (hfree h₁)).2 F
    · refine ⟨fun s' h => ?_, fun F => .ok _⟩
      cases h
      exact hI

/-- What does not touch the queues. -/
theorem of_pcb (hI : Counts n s.core) (hn : s'.pcb.sndQueuelen = s.pcb.sndQueuelen)
    (hu : s'.pcb.unsent = s.pcb.unsent) (ha : s'.pcb.unacked = s.pcb.unacked) :
    Counts n s'.core := by
  refine hI.congr hn ?_
  show pbufs s'.pcb.unsent + pbufs s'.pcb.unacked = pbufs s.pcb.unsent + pbufs s.pcb.unacked
  rw [hu, ha]

theorem tcpReceiveDupack (hI : Counts n s.core) (seg : InSegment) (edge : U32) :
    Counts n (Rudp.tcpReceiveDupack s seg edge).core := by
  have hrexmit {t : St W} (ht : Counts n t.core) : Counts n (tcpRexmitFast t).core := by
    unfold tcpRexmitFast
    split
    · exact ht.tcpRexmit.of_pcb rfl rfl rfl
    · exact ht
  unfold Rudp.tcpReceiveDupack
  dsimp only
  split
  · generalize hs₁ : (if u8 (s.pcb.dupacks + 1) > s.pcb.dupacks then
      ({ s with pcb.acked := 0, pcb.dupacks := s.pcb.dupacks + 1 } : St W)
      else { s with pcb.acked := 0 }) = s₁
    have hI₁ : Counts n s₁.core := by
      rw [← hs₁]
      split <;> exact hI.of_pcb rfl rfl rfl
    split
    · refine hI₁.of_pcb ?_ ?_ ?_ <;> unfold cwndInflate <;> split <;> rfl
    split
    · exact hrexmit hI₁
    · exact hI₁
  · exact hI.of_pcb rfl rfl rfl

theorem tcpReceiveNewAck {ackno : U32} (hn : n < 256) (hI : Counts n s.core) :
    (∀ s', Rudp.tcpReceiveNewAck s ackno = .ok s' → Counts n s'.core) ∧
      ∀ F : Fault → Prop, Fails F (Rudp.tcpReceiveNewAck s ackno) := by
  have hc (p : Pcb) : (cwndAck p).sndQueuelen = p.sndQueuelen ∧ (cwndAck p).unsent = p.unsent ∧
      (cwndAck p).unacked = p.unacked := by
    unfold cwndAck cwndInflate
    dsimp only
    split_ifs <;> simp
  have hl {p : Pcb} {q : List TcpSeg} (hq : p.unacked = q)
      (hp : p.sndQueuelen = s.pcb.sndQueuelen ∧ p.unsent = s.pcb.unsent ∧
        p.unacked = s.pcb.unacked) :
      (∀ s', Rudp.tcpReceiveUnacked ackno q { s with pcb := cwndAck p } = .ok s' →
        Counts n s'.core) ∧
      ∀ F : Fault → Prop,
        Fails F (Rudp.tcpReceiveUnacked ackno q { s with pcb := cwndAck p }) := by
    obtain ⟨e1, e2, e3⟩ := hc p
    have hI' : Counts n ({ s with pcb := cwndAck p } : St W).core :=
      hI.of_pcb (e1.trans hp.1) (e2.trans hp.2.1) (e3.trans hp.2.2)
    exact tcpReceiveUnacked hn (e3.trans hq) hI'
  unfold Rudp.tcpReceiveNewAck
  dsimp only
  refine ⟨fun s' h => ?_, fun F => .bind ((hl ?_ ?_).2 F) fun _ _ => .ok _⟩
  · obtain ⟨s₁, h₁, h⟩ := Run.bind_eq_ok.mp h
    cases h
    refine ((hl ?_ ?_).1 s₁ h₁).of_pcb rfl rfl rfl
    · rfl
    · dsimp only
      split <;> simp
  · rfl
  · dsimp only
    split <;> simp

/-- The ACK of a segment, which fails none of the assertions. -/
theorem tcpReceiveAck {seg : InSegment} (hn : n < 256) (hI : Counts n s.core) :
    (∀ s', Rudp.tcpReceiveAck s seg = .ok s' → Counts n s'.core) ∧
      ∀ F : Fault → Prop, Fails F (Rudp.tcpReceiveAck s seg) := by
  have hw : Counts n ({ s with pcb := tcpReceiveWindow s.pcb seg } : St W).core := by
    unfold tcpReceiveWindow
    split <;> exact hI.of_pcb rfl rfl rfl
  have hack {edge : U32} : (∀ s', tcpReceiveAckno { s with pcb := tcpReceiveWindow s.pcb seg } seg
      edge = .ok s' → Counts n s'.core) ∧ ∀ F : Fault → Prop,
        Fails F (tcpReceiveAckno { s with pcb := tcpReceiveWindow s.pcb seg } seg edge) := by
    unfold tcpReceiveAckno
    split
    · refine ⟨fun s' h => ?_, fun F => .ok _⟩
      cases h
      exact hw.tcpReceiveDupack seg edge
    split
    · exact hw.tcpReceiveNewAck hn
    · refine ⟨fun s' h => ?_, fun F => .ok _⟩
      cases h
      rw [core_tcpSendEmptyAck]
      exact hw
  refine ⟨fun s' h => ?_, fun F => ?_⟩
  · obtain ⟨s₁, h₁, h⟩ := Run.bind_eq_ok.mp h
    obtain ⟨s₂, h₂, h⟩ := Run.bind_eq_ok.mp h
    cases h
    have hI₂ := (tcpReceiveUnsent hn rfl (hack.1 s₁ h₁)).1 s₂ h₂
    unfold tcpReceiveRtt
    split
    · exact hI₂.of_pcb rfl rfl rfl
    · exact hI₂
  · refine .bind (hack.2 F) fun s₁ h₁ => ?_
    exact .bind ((tcpReceiveUnsent hn rfl (hack.1 s₁ h₁)).2 F) fun _ _ => .ok _

/-- `tcp_receive`. -/
theorem tcpReceive {seg : InSegment} (h : Rudp.tcpReceive s seg = .ok s') (hn : n < 256)
    (hI : Counts n s.core) : Counts n s'.core := by
  obtain ⟨_, -, h⟩ := Run.bind_eq_ok.mp h
  obtain ⟨s₁, h₁, h⟩ := Run.bind_eq_ok.mp h
  refine of_sndView ?_ (sndView_tcpReceiveData h)
  split at h₁
  · exact (hI.tcpReceiveAck hn).1 s₁ h₁
  · cases h₁
    exact hI

end Counts

/-! ## Runs -/

/-- How many FINs can be queued in the state. The second one belongs to a `tcp_close` in
    `CLOSE_WAIT` behind one in the accept callback. -/
def TcpState.fins : TcpState → ℕ
  | .SYN_SENT | .SYN_RCVD | .ESTABLISHED => 0
  | .FIN_WAIT_1 | .CLOSE_WAIT => 1
  | _ => 2

theorem TcpState.fins_le (st : TcpState) : st.fins ≤ 2 := by cases st <;> decide

/-- A FIN leads to a state with room for it. -/
theorem fins_closeState {st st' : TcpState} (h : closeState st = some st') :
    st'.fins = st.fins + 1 := by
  unfold closeState at h
  split at h <;> cases h <;> rfl

/-- The limit on `snd_queuelen` in a state. -/
def Pcb.queueLimit (pcb : Pcb) : ℕ := TCP_SND_QUEUELEN + pcb.state.fins

theorem Pcb.queueLimit_lt (pcb : Pcb) : pcb.queueLimit < 255 := by
  have h := pcb.state.fins_le
  have e : TCP_SND_QUEUELEN = 40 := rfl
  unfold Pcb.queueLimit
  omega

/-- What holds of the sending side while the pcb is on the active list. -/
structure AcctInv (s : St W) : Prop where
  flight : Flight s.core
  bare : SegInv Bare s.core
  counts : s.list = .active → Counts s.pcb.queueLimit s.core

/-- Where the accept callback leaves a pcb that it does not take off the list. -/
def Accepted (s : St W) : Prop :=
  s.list = .active → s.pcb.state = .ESTABLISHED ∨ s.pcb.state = .FIN_WAIT_1

theorem Accepted.of_view (hI : Accepted s) (hv : s'.rcvView = s.rcvView) : Accepted s' := by
  intro h
  have e : s'.pcb.state = s.pcb.state := congrArg RcvView.state hv
  rw [e]
  exact hI ((congrArg (fun v => v.list) hv).symm.trans h)

theorem keptApi_accepted : KeptApi NoConnect (Accepted (W := W)) where
  frame {s s'} hI hq _ hl _ h := by
    have e : s'.pcb.state = s.pcb.state := (congrArg Pcb.state hq :)
    rw [e]
    exact hI (hl h)
  unpark hI := hI
  callback _ hI := hI
  ackNow hI := hI
  rst hI := hI.of_view (rcvView_tcpRst _ _ _ _)
  connect hP := hP.elim
  write _ hw hI := by
    have h := hI.of_view (rcvView_tcpWrite hw)
    split <;> exact h
  recved _ _ hp hI := by
    obtain ⟨aw, rfl⟩ := tcpUpdateRcvAnnWnd_ok hp
    exact hI
  fin {s s' a st err} _ _ hst hw hI := by
    have h := hI.of_view (rcvView_tcpSendFin hw)
    split
    · intro hl
      have hl : s.list = .active :=
        (congrArg (fun v => v.list) (rcvView_tcpSendFin hw)).symm.trans hl
      rcases hI hl with e | e <;> rw [e] at hst <;> cases hst
      exact .inr rfl
    · exact h
  output hr hI := hI.of_view (rcvView_tcpOutput hr)
  purge hl _ h := absurd h hl
  timeWait _ hl _ _ _ _ _ h := absurd h hl
  closed hl _ _ _ _ h := absurd h hl
  clear hl _ _ h := absurd h hl

namespace AcctInv

/-- What `tcp_process` does behind `tcp_receive`. -/
theorem tcpProcessAfter {st : TcpState} (seg : InSegment)
    (hst : s.pcb.state = st ∨ (st = .ESTABLISHED ∧ s.pcb.state = .CLOSE_WAIT))
    (hI : s.list = .active → Counts (TCP_SND_QUEUELEN + st.fins) s.core)
    (hl : (Rudp.tcpProcessAfter st seg s).list = .active) :
    Counts (Rudp.tcpProcessAfter st seg s).pcb.queueLimit (Rudp.tcpProcessAfter st seg s).core := by
  have hkeep (h : s.list = .active) : Counts s.pcb.queueLimit s.core := by
    refine (hI h).mono ?_
    unfold Pcb.queueLimit
    rcases hst with e | ⟨rfl, e⟩ <;> rw [e]
    simp [TcpState.fins]
  have hto {t : St W} (ht : t.core.toSndView = s.core.toSndView) (h : st.fins ≤ t.pcb.state.fins)
      (hl : s.list = .active) : Counts t.pcb.queueLimit t.core :=
    ((hI hl).mono (Nat.add_le_add_left h _)).of_sndView ht
  revert hl
  unfold Rudp.tcpProcessAfter
  dsimp only
  split
  · split
    · exact hto rfl (Nat.zero_le _)
    · exact hkeep
  · split
    · exact hto rfl le_rfl
    · exact hkeep
  · split
    · split
      · exact nofun
      · exact hto rfl (Nat.le_succ 1)
    · split
      · exact hto rfl (Nat.le_succ 1)
      · exact hkeep
  · split
    · exact nofun
    · exact hkeep
  · split
    · exact nofun
    · exact hkeep
  · split <;> exact hkeep
  · exact hkeep

/-- What `tcp_process` does behind `tcp_receive` for a pcb that was accepted. -/
theorem tcpProcessAcceptAfter {st : TcpState} (hst : st.fins ≤ 1)
    (hs : s.pcb.state = st ∨ (st = .ESTABLISHED ∧ s.pcb.state = .CLOSE_WAIT))
    (hI : Counts (TCP_SND_QUEUELEN + st.fins) s.core) :
    Counts (Rudp.tcpProcessAcceptAfter s).pcb.queueLimit (Rudp.tcpProcessAcceptAfter s).core := by
  have hto {t : St W} (ht : t.core.toSndView = s.core.toSndView)
      (h : st.fins ≤ t.pcb.state.fins) : Counts t.pcb.queueLimit t.core :=
    (hI.mono (Nat.add_le_add_left h _)).of_sndView ht
  unfold Rudp.tcpProcessAcceptAfter
  dsimp only
  split
  · exact hto rfl hst
  · refine hto rfl ?_
    show st.fins ≤ s.pcb.state.fins
    rcases hs with e | ⟨rfl, e⟩ <;> rw [e]
    exact Nat.zero_le _

/-- `tcp_receive` and what `tcp_process` does behind it. -/
theorem processReceive {seg : InSegment} {after : St W → St W}
    (hafter : ∀ t : St W, t.list = s.list → t.pcb.state = s.pcb.state ∨
        (s.pcb.state = .ESTABLISHED ∧ t.pcb.state = .CLOSE_WAIT) →
      (t.list = .active → Counts s.pcb.queueLimit t.core) → (after t).list = .active →
      Counts (after t).pcb.queueLimit (after t).core)
    (hr : tcpProcessReceive s seg after = .ok s')
    (hI : s.list = .active → Counts s.pcb.queueLimit s.core) (hl : s'.list = .active) :
    Counts s'.pcb.queueLimit s'.core := by
  obtain ⟨s₁, h₁, h⟩ := Run.bind_eq_ok.mp hr
  cases h
  have hlist : s₁.list = s.list := congrArg CtlView.list (ctlView_tcpReceive h₁)
  refine (hafter s₁ hlist (state_tcpReceive h₁) (fun h => ?_) hl).congr rfl rfl
  have hlt := s.pcb.queueLimit_lt
  exact (hI (hlist ▸ h)).tcpReceive h₁ (by omega)

theorem output {err : Err} (hr : tcpOutput s = .ok (err, s')) (hI : AcctInv s)
    (hl : s'.list = .active) : Counts s'.pcb.queueLimit s'.core := by
  have hv := rcvView_tcpOutput hr
  have e : s'.pcb.state = s.pcb.state := congrArg RcvView.state hv
  unfold Pcb.queueLimit
  rw [e]
  exact (hI.counts ((congrArg (fun v => v.list) hv).symm.trans hl)).tcpOutput hr hI.flight

end AcctInv

/-- Every operation keeps the counters. -/
theorem preserved_acctInv : Preserved NoConnect (fun _ _ => True) (AcctInv (W := W)) where
  frame {s s'} hI hc hl := by
    refine ⟨hc ▸ hI.flight, hc ▸ hI.bare, fun h => ?_⟩
    have e : s'.pcb.state = s.pcb.state := congrArg Core.state hc
    unfold Pcb.queueLimit
    rw [hc, e]
    exact hI.counts (hl h)
  callback ho hI := ⟨preserved_flight.callback ho hI.flight,
    (preserved_segInv segRule_bare).callback ho hI.bare, fun h => (hI.counts h).congr rfl rfl⟩
  connect hP := hP.elim
  write {s s' arg copy more err} hP hw hI := by
    refine ⟨preserved_flight.write hP hw hI.flight,
      (preserved_segInv segRule_bare).write hP hw hI.bare, ?_⟩
    have hv := rcvView_tcpWrite hw
    have e : s'.pcb.state = s.pcb.state := congrArg RcvView.state hv
    have hc (h : s'.list = .active) : Counts s'.pcb.queueLimit s'.core := by
      unfold Pcb.queueLimit
      rw [e]
      exact (hI.counts ((congrArg (fun v => v.list) hv).symm.trans h)).tcpWrite hw
        (Nat.le_add_right _ _)
    split
    · exact fun h => (hc h).congr rfl rfl
    · exact hc
  recved hP hw hI := ⟨preserved_flight.recved hP hw hI.flight,
    (preserved_segInv segRule_bare).recved hP hw hI.bare, fun h => (hI.counts h).congr rfl rfl⟩
  fin {s s' a st err} hP ha hst hw hI := by
    refine ⟨preserved_flight.fin hP ha hst hw hI.flight,
      (preserved_segInv segRule_bare).fin hP ha hst hw hI.bare, ?_⟩
    have hv := rcvView_tcpSendFin hw
    have e : s'.pcb.state = s.pcb.state := congrArg RcvView.state hv
    have hc (h : s'.list = .active) :=
      (hI.counts ((congrArg (fun v => v.list) hv).symm.trans h)).tcpSendFin hw s.pcb.queueLimit_lt
    split
    · intro h
      refine ((hc h).1.mono ?_).of_pcb rfl rfl rfl
      unfold Pcb.queueLimit
      rw [fins_closeState hst]
      exact le_rfl
    · next hne =>
      intro h
      unfold Pcb.queueLimit
      rw [e]
      exact (hc h).2 hne
  output hr hI := ⟨preserved_flight.output hr hI.flight,
    (preserved_segInv segRule_bare).output hr hI.bare, hI.output hr⟩
  rexmitRto {s s'} hr hI := by
    refine ⟨preserved_flight.rexmitRto hr hI.flight,
      (preserved_segInv segRule_bare).rexmitRto hr hI.bare, fun h => ?_⟩
    have hv := rcvView_tcpRexmitRto hr
    have e : s'.pcb.state = s.pcb.state := congrArg RcvView.state hv
    unfold Pcb.queueLimit
    rw [e]
    exact (hI.counts ((congrArg (fun v => v.list) hv).symm.trans h)).tcpRexmitRto hr hI.flight
  probe {s} hI := by
    refine ⟨preserved_flight.probe hI.flight, (preserved_segInv segRule_bare).probe hI.bare,
      fun h => ?_⟩
    have hv := rcvView_tcpZeroWindowProbe s
    have e : (tcpZeroWindowProbe s).2.pcb.state = s.pcb.state := congrArg RcvView.state hv
    obtain ⟨log, hc, -⟩ := probe_core s
    unfold Pcb.queueLimit
    rw [e, hc]
    exact (hI.counts ((congrArg (fun v => v.list) hv).symm.trans h)).congr rfl rfl
  rexmit {s} hst hI := by
    refine ⟨preserved_flight.rexmit hst hI.flight,
      (preserved_segInv segRule_bare).rexmit hst hI.bare, fun h => ?_⟩
    have hv := rcvView_tcpRexmit s
    have e : (Rudp.tcpRexmit s).pcb.state = s.pcb.state := congrArg RcvView.state hv
    unfold Pcb.queueLimit
    rw [e]
    exact (hI.counts ((congrArg (fun v => v.list) hv).symm.trans h)).tcpRexmit
  rcvWndFin {s} hI := by
    refine ⟨preserved_flight.rcvWndFin hI.flight, (preserved_segInv segRule_bare).rcvWndFin hI.bare, ?_⟩
    unfold rcvWndFin
    split
    · exact fun h => (hI.counts h).congr rfl rfl
    · exact hI.counts
  mss h0 h1 hI := ⟨preserved_flight.mss h0 h1 hI.flight,
    (preserved_segInv segRule_bare).mss h0 h1 hI.bare, fun h => (hI.counts h).congr rfl rfl⟩
  establish {s seg rseg rest} hst hu hq hack hI := by
    refine ⟨preserved_flight.establish hst hu hq hack hI.flight,
      (preserved_segInv segRule_bare).establish hst hu hq hack hI.bare, fun h => ?_⟩
    -- the SYN is the first segment of `unacked` and takes one pbuf
    have hsyn : rseg.tcphdr.flags.syn = true := by
      obtain ⟨-, -, h3⟩ := hI.flight.synSent hst
      have hu' : s.core.unacked = rseg :: rest := hu
      rw [hu'] at h3
      obtain ⟨syn, r, he, hf, -⟩ := h3.resolve_left (by simp)
      injection he with he
      rw [he]
      exact hf
    have hone : rseg.p.length = 1 := (hI.bare.segs rseg (List.mem_append_right _ (by
      show rseg ∈ s.pcb.unacked
      rw [hu]
      exact List.mem_cons_self)) hsyn).2.2
    have hc : s.pcb.sndQueuelen = pbufs s.pcb.unsent + pbufs s.pcb.unacked := (hI.counts h).count
    have hl : s.pcb.sndQueuelen ≤ s.pcb.queueLimit := (hI.counts h).limit
    rw [hu, pbufs_cons, hone] at hc
    have e : s.pcb.queueLimit = TCP_SND_QUEUELEN := by
      unfold Pcb.queueLimit
      rw [hst]
      rfl
    constructor
    · show s.pcb.sndQueuelen - 1 = pbufs s.pcb.unsent + pbufs rest
      omega
    · show s.pcb.sndQueuelen - 1 ≤ TCP_SND_QUEUELEN
      omega
  accept {s seg} hst hbet hI := by
    refine ⟨preserved_flight.accept hst hbet hI.flight,
      (preserved_segInv segRule_bare).accept hst hbet hI.bare, fun h => ?_⟩
    refine ((hI.counts h).mono ?_).of_pcb rfl rfl rfl
    unfold Pcb.queueLimit
    rw [hst]
    exact le_rfl
  receive {s s' seg} hs hQ hr hI := by
    refine ⟨preserved_flight.receive hs hQ hr hI.flight,
      (preserved_segInv segRule_bare).receive hs hQ hr hI.bare, fun h => ?_⟩
    exact AcctInv.processReceive (fun t _ hst hc => AcctInv.tcpProcessAfter seg hst hc) hr hI.counts h
  receiveAccept {app s s₁ s' seg} happ hst hI hack he hQ hr hI₁ := by
    refine ⟨preserved_flight.receiveAccept happ hst hI.flight hack he hQ hr hI₁.flight,
      (preserved_segInv segRule_bare).receiveAccept happ hst hI.bare hack he hQ hr hI₁.bare,
      fun h => ?_⟩
    have hacc : Accepted s₁ := keptApi_accepted.tcpEvent happ he fun _ => .inl rfl
    refine AcctInv.processReceive (fun t hl hs hc ha => ?_) hr hI₁.counts h
    have ht : t.list = .active := by
      unfold tcpProcessAcceptAfter at ha
      dsimp only at ha
      split at ha <;> exact ha
    refine AcctInv.tcpProcessAcceptAfter ?_ hs (hc ht)
    rcases hacc (hl ▸ ht) with e | e <;> rw [e] <;> decide
  purge hl hI := ⟨preserved_flight.purge hl hI.flight, (preserved_segInv segRule_bare).purge hl hI.bare,
    fun h => absurd h hl⟩
  timeWait hr hl hst hu ha ho hI := ⟨preserved_flight.timeWait hr hl hst hu ha ho hI.flight,
    (preserved_segInv segRule_bare).timeWait hr hl hst hu ha ho hI.bare, fun h => absurd h hl⟩
  closed hl hu ha ho hI := ⟨preserved_flight.closed hl hu ha ho hI.flight,
    (preserved_segInv segRule_bare).closed hl hu ha ho hI.bare, fun h => absurd h hl⟩
  clear hl hst hI := ⟨preserved_flight.clear hl hst hI.flight,
    (preserved_segInv segRule_bare).clear hl hst hI.bare, fun h => absurd h hl⟩
  ooseq hI := ⟨preserved_flight.ooseq hI.flight, (preserved_segInv segRule_bare).ooseq hI.bare,
    fun h => (hI.counts h).congr rfl rfl⟩

/-- It holds where a connection begins. -/
theorem Begun.acctInv (h : Begun s) : AcctInv s := by
  obtain ⟨t, err, ht, hr⟩ := h.opening
  refine ⟨h.flight, h.bare, fun _ => ?_⟩
  obtain ⟨seg, hu, -, -, hp, -⟩ := ht.unsent
  have hc : Counts TCP_SND_QUEUELEN t.core := by
    constructor
    · show t.pcb.sndQueuelen = pbufs t.pcb.unsent + pbufs t.pcb.unacked
      rw [ht.sndQueuelen, hu, ht.unacked, pbufs_cons, hp]
      rfl
    · show t.pcb.sndQueuelen ≤ _
      rw [ht.sndQueuelen]
      decide
  exact (hc.tcpOutput hr ht.flight).mono (Nat.le_add_right _ _)

/-! ### The assertions -/

/-- The assertions on `snd_queuelen` in `tcp_write`, `tcp_enqueue_flags`, `tcp_receive` and
    `tcp_process`. -/
def accountMessages : List String :=
  queueMessages ++ freeMessages ++
    ["tcp_enqueue_flags: invalid queue length", "pcb->snd_queuelen > 0"]

/-- None of them fails. -/
def NoAccount (f : Fault) : Prop := ∀ message ∈ accountMessages, f ≠ .assert message

theorem noAccount_glue {f : Fault} (h : f.Glue) : NoAccount f := by
  rintro message hm rfl
  have hm : message ∈ queueMessages ++ freeMessages ++
    ["tcp_enqueue_flags: invalid queue length", "pcb->snd_queuelen > 0"] := hm
  simp only [queueMessages, freeMessages, List.cons_append, List.nil_append, List.mem_cons,
    List.not_mem_nil, or_false] at hm
  rcases hm with rfl | rfl | rfl | rfl | rfl | rfl | rfl <;> simp [Fault.Glue] at h

theorem AcctInv.queued (hI : AcctInv s) (hl : s.list = .active) : s.pcb.Queued := by
  have hc : s.pcb.sndQueuelen = pbufs s.pcb.unsent + pbufs s.pcb.unacked := (hI.counts hl).count
  have hpos {q : List TcpSeg} (hq : ∀ x ∈ q, x ∈ s.core.segs) : pbufs q ≠ 0 ↔ q ≠ [] := by
    cases q with
    | nil => simp
    | cons x q =>
      have hne : 0 < x.p.length := List.length_pos_iff.mpr
        (hI.flight.placed.sized x (hq x List.mem_cons_self)).chain
      rw [pbufs_cons]
      exact iff_of_true (by omega) (List.cons_ne_nil x q)
  have h1 := hpos (q := s.pcb.unsent) fun x hx => List.mem_append_left _ hx
  have h2 := hpos (q := s.pcb.unacked) fun x hx => List.mem_append_right _ hx
  unfold Pcb.Queued
  rw [← h1, ← h2, hc]
  omega

/-- The counters keep the assertions, as long as the pcb is on the list. -/
theorem safe_acctInv : Safe NoAccount NoConnect (fun s _ => s.list = .active)
    (fun s _ => s.list = .active) (AcctInv (W := W)) where
  glue _ := noAccount_glue
  write arg copy more hl hI := by
    refine fails_tcpWrite ?_ ?_ (fun hn => absurd (hI.queued hl) hn) arg copy more
    · simp [sizeMessages, NoAccount, accountMessages, queueMessages, freeMessages]
    · simp [mssTooSmall, NoAccount, accountMessages, queueMessages, freeMessages]
  recved _ _ _ := by
    refine fails_tcpRecved (fun _ hg _ => noAccount_glue hg) ?_ ?_ _ _
    · simp [NoAccount, accountMessages, queueMessages, freeMessages]
    · simp [annWndTooBig, NoAccount, accountMessages, queueMessages, freeMessages]
  synSent hst _ h0 hI := absurd h0 (hI.flight.synSent hst).2.1
  establish hst hu hq hc _ hI := preserved_acctInv.establish hst hu hq hc.2.2 hI
  receive {s seg} hl hI := by
    refine fails_tcpReceive ?_ ?_ (fun _ hg _ => noAccount_glue hg) fun _ => ?_
    · simp [dataMessages, NoAccount, accountMessages, queueMessages, freeMessages]
    · simp [annWndTooBig, NoAccount, accountMessages, queueMessages, freeMessages]
    · exact ((hI.counts hl).tcpReceiveAck (s.pcb.queueLimit_lt.trans (by decide))).2 _

/-! ### The result -/

/-- `snd_queuelen` counts the pbufs on the queues, `snd_buf` is what the unacknowledged numbers leave
    of the send buffer, and none of the assertions on the two fails. -/
structure Accounted (app : App W) (s : St W) : Prop where
  queuelen : s.pcb.sndQueuelen =
    ((s.pcb.unsent ++ s.pcb.unacked).map fun seg => pbufClen seg.p).sum
  sndBuf : s.pcb.sndBuf + (s.pcb.sndLbb - s.pcb.lastack).toNat ≡ TCP_SND_BUF [MOD 65536]
  sndNxt : 0 ≤ dist s.pcb.sndNxt s.pcb.lastack ∧ dist s.pcb.sndNxt s.pcb.lastack ≤ TCP_SND_BUF + 1
  /-- `pcb->acked` is not truncated. -/
  acked : ∀ fails seg t, Receives app { s with fails := fails } seg t →
    ¬ tcpSeqLeq seg.ackno t.pcb.lastack →
    tcpSeqBetween seg.ackno (t.pcb.lastack + 1) t.pcb.sndNxt →
    u16 (seg.ackno - t.pcb.lastack).toNat = (seg.ackno - t.pcb.lastack).toNat
  /-- Everything is acknowledged. -/
  free : tcpSeqLeq s.pcb.sndLbb s.pcb.lastack → TCP_SND_BUF ≤ s.pcb.sndBuf
  /-- No callback that runs before `tcp_receive` has purged the queues. -/
  faults : AppFaults NoAccount NoConnect (fun t _ => t.list = .active) app →
    ∀ op : List Bool × Op, (∀ a, op.2 = .api a → NoConnect s.core a) →
    (∀ seg t, op.2 = .input seg → Receives app { s with fails := op.1 } seg t → t.list = .active) →
    ∀ message ∈ accountMessages, connStep app s op ≠ .error (.assert message)

/-- In every run, as long as the pcb is on the active list, the counters of the sending side are
    exact and the assertions on them hold. -/
theorem accounting {app : App W} {s₀ : St W} (happ : AppOk NoConnect app) (h₀ : Begun s₀)
    (hr : Run.Reach (connStep app) (Preserved.StepOk NoConnect (fun _ _ => True) app) s₀ s)
    (hl : s.list = .active) : Accounted app s := by
  have hk : Kept NoConnect _ _ app (AcctInv (W := W)) := preserved_acctInv.toKept
  have hI : AcctInv s := preserved_acctInv.reach happ h₀.acctInv hr
  have hbd := hI.flight.bounds
  have hlbb := hI.flight.lbb
  have hnxt := hI.flight.nxt
  have esnd := sndBuf_eq
  refine ⟨?_, ?_, ⟨hnxt.1, ?_⟩, ?_, ?_, ?_⟩
  · have hclen : (s.pcb.unsent ++ s.pcb.unacked).map (fun seg => pbufClen seg.p) =
        (s.pcb.unsent ++ s.pcb.unacked).map (·.p.length) :=
      List.map_congr_left fun seg hs =>
        (hI.counts hl).clen (s.pcb.queueLimit_lt.trans (by decide)) hs
    rw [hclen]
    show s.core.sndQueuelen = pbufs (s.pcb.unsent ++ s.pcb.unacked)
    rw [pbufs_append, (hI.counts hl).count]
    rfl
  · have hd : dist s.core.sndLbb s.core.lastack = (s.core.sndLbb - s.core.lastack).toInt := rfl
    rw [BitVec.toInt_eq_toNat_cond] at hd
    show s.core.sndBuf + (s.core.sndLbb - s.core.lastack).toNat ≡ TCP_SND_BUF [MOD 65536]
    unfold Nat.ModEq
    split at hd <;> omega
  · show dist s.core.sndNxt s.core.lastack ≤ TCP_SND_BUF + 1
    omega
  · intro fails seg t ht hn hb
    have hIt : AcctInv t := hk.receives happ ht
      (preserved_acctInv.frame hI rfl id)
    obtain ⟨h0, h1⟩ := hIt.flight.between hb hn
    have hd := u32_toNat_sub seg.ackno t.core.lastack h0.le
    have hbd := hIt.flight.bounds
    have hlt : (seg.ackno - t.core.lastack).toNat < 65536 := by omega
    exact Nat.mod_eq_of_lt hlt
  · intro hle
    have hle : dist s.core.sndLbb s.core.lastack ≤ 0 := hle
    show TCP_SND_BUF ≤ s.core.sndBuf
    omega
  · intro hf op hapi hop message hm he
    have hk' : Kept NoConnect (fun t _ => t.list = .active) (fun _ _ => True) app
        (AcctInv (W := W)) :=
      { hk with
        receive := fun hnum hs _ hr hI => hk.receive hnum hs trivial hr hI
        receiveAccept := fun happ hst hI hack he _ hr hI₁ =>
          hk.receiveAccept happ hst hI hack he trivial hr hI₁ }
    refine safe_acctInv.step hk' happ hf ?_ (fun _ _ _ _ => trivial) (fun _ _ => hl) hI _ he message
      hm rfl
    obtain ⟨fails, op⟩ := op
    cases op with
    | api a => exact hapi a rfl
    | input seg => exact fun t ht => hop seg t rfl ht
    | fasttmr => exact fun _ => trivial
    | slowtmr => exact fun _ => trivial
    | kill reset => trivial

/-- A byte is written, sent and acknowledged. -/
theorem accounting_acked : ∃ s : St Unit, Run.exec (connStep idleApp) connecting
      ([synAckOp TCP_WND] ++ writeOps [7] ++ [ackOp 1001 TCP_WND]) = .ok s ∧
    s.list = .active ∧ s.pcb.sndQueuelen = 0 ∧ s.pcb.sndBuf = TCP_SND_BUF ∧
    Accounted idleApp s := by
  refine ⟨_, rfl, rfl, rfl, rfl, accounting appOk_idleApp begun_connecting
    (.step (ackOp 1001 TCP_WND) (.step ([], .api .output) (.step ([], .api (.write [7] true false))
      (.step (synAckOp TCP_WND) .refl (fun _ _ => trivial) rfl) trivial rfl) trivial rfl)
      (fun _ _ => trivial) rfl) rfl⟩

end Rudp

import Rudp.Atomic
import Rudp.Faults
import Rudp.Flight

/-!
# The room behind the last segment

`tcp_write` asserts that the last segment of `unsent` is not longer than `mss_local`, which is
computed from `mss` and `snd_wnd_max`. The segments of the peer rewrite both while data is queued, and
a retransmission puts a segment back that was made for an older value.

Results:
* `tail_fits`: the assertion holds in every run in which no segment puts `mss_local` below the
  length of the tail, and no retransmission puts one behind it.
* `tail_fits_fails`: data is written in `SYN_SENT`, and the SYN-ACK announces a small window.
-/

namespace Rudp

variable {W : Type} {s s' : St W}

open Run (Fails)

/-! ## The last segment -/

/-- The last segment of `q`, its options and `oversize` more bytes fit into `mssLocal`. -/
def TailFits (mssLocal oversize : ℕ) (q : List TcpSeg) : Prop :=
  ∀ last ∈ q.getLast?, last.len + last.optlen + oversize ≤ mssLocal

theorem TailFits.nil {mssLocal oversize : ℕ} : TailFits mssLocal oversize [] := nofun

theorem tailFits_snoc {mssLocal oversize : ℕ} {q : List TcpSeg} {seg : TcpSeg} :
    TailFits mssLocal oversize (q ++ [seg]) ↔ seg.len + seg.optlen + oversize ≤ mssLocal := by
  unfold TailFits
  rw [List.getLast?_concat]
  simp

theorem TailFits.tail {mssLocal oversize : ℕ} {seg : TcpSeg} {rest : List TcpSeg}
    (h : TailFits mssLocal oversize (seg :: rest)) : TailFits mssLocal oversize rest := by
  rcases eq_nil_or_snoc rest with rfl | ⟨init, last, rfl⟩
  · exact .nil
  · exact tailFits_snoc.mpr (tailFits_snoc (q := seg :: init).mp h)

/-- Only the head changes, but for its length. -/
theorem TailFits.head {mssLocal oversize : ℕ} {seg seg' : TcpSeg} {rest : List TcpSeg}
    (h : TailFits mssLocal oversize (seg :: rest)) (hl : seg'.len = seg.len)
    (ho : seg'.optlen = seg.optlen) : TailFits mssLocal oversize (seg' :: rest) := by
  rcases eq_nil_or_snoc rest with rfl | ⟨init, last, rfl⟩
  · have h := tailFits_snoc (q := []).mp h
    exact tailFits_snoc (q := []).mpr (by omega)
  · exact tailFits_snoc (q := seg' :: init).mpr (tailFits_snoc (q := seg :: init).mp h)

/-- What the last segment and its room depend on. -/
def Pcb.room (pcb : Pcb) : ℕ × ℕ × ℕ × List TcpSeg :=
  (pcb.mss, pcb.sndWndMax, pcb.unsentOversize, pcb.unsent)

/-- The last segment of `unsent` fits, its spare room included. -/
structure RoomInv (pcb : Pcb) : Prop where
  mss : pcb.mss ≤ TCP_MSS
  tail : TailFits (mssLocalOf pcb) pcb.unsentOversize pcb.unsent

namespace RoomInv

variable {pcb pcb' : Pcb}

theorem of_tail {o : ℕ} {q : List TcpSeg} (h : RoomInv pcb)
    (hr : pcb'.room = (pcb.mss, pcb.sndWndMax, o, q)) (ht : TailFits (mssLocalOf pcb) o q) :
    RoomInv pcb' := by
  simp only [Pcb.room, Prod.mk.injEq] at hr
  obtain ⟨hm, hw, rfl, rfl⟩ := hr
  have e : mssLocalOf pcb' = mssLocalOf pcb := by
    unfold mssLocalOf
    rw [hm, hw]
  exact ⟨hm ▸ h.mss, e ▸ ht⟩

theorem congr (h : RoomInv pcb) (hr : pcb'.room = pcb.room) : RoomInv pcb' := h.of_tail hr h.tail

theorem lt (h : RoomInv pcb) : pcb.mss < 65536 := h.mss.trans_lt (by decide)

end RoomInv

theorem room_of_sndView (h : s'.sndView = s.sndView) : s'.pcb.room = s.pcb.room :=
  congrArg (fun v : SndView => (v.mss, v.sndWndMax, v.unsentOversize, v.unsent)) h

theorem room_of_core (h : s'.core = s.core) : s'.pcb.room = s.pcb.room :=
  room_of_sndView (congrArg Core.toSndView h)

/-! ## Transmissions and writes -/

theorem RoomInv.tcpOutput {err : Err} (h : Rudp.tcpOutput s = .ok (err, s')) (hI : RoomInv s.pcb) :
    RoomInv s'.pcb := by
  refine tcpOutput_rule (I := fun t => RoomInv t.pcb) ?_ ?_ ?_ ?_ h hI
  · intro t ht
    exact ht.congr (room_of_sndView (sndView_tcpSendEmptyAck t))
  · intro t t₁ seg seg' rest ht hq _ _ he
    obtain ⟨rfl, hc⟩ := core_tcpOutputSent rest he
    have htail := ht.tail
    rw [hq] at htail
    exact ht.of_tail
      (congrArg (fun c : Core => (c.mss, c.sndWndMax, c.unsentOversize, c.unsent)) hc) htail.tail
  · intro t t₁ seg seg' rest err ht hq _ _ he _
    obtain ⟨rfl, hc⟩ := core_tcpOutputFail rest he
    have htail := ht.tail
    rw [hq] at htail
    exact ht.of_tail
      (congrArg (fun c : Core => (c.mss, c.sndWndMax, c.unsentOversize, c.unsent)) hc)
      (htail.head rfl rfl)
  · intro t ht
    refine ht.of_tail rfl ?_
    show TailFits _ (if t.pcb.unsent = [] then 0 else t.pcb.unsentOversize) t.pcb.unsent
    split
    · next hu =>
      rw [hu]
      exact .nil
    · exact ht.tail

theorem RoomInv.tcpWrite {arg : List Byte} {copy more : Bool} {err : Err}
    (h : Rudp.tcpWrite s arg copy more = .ok (err, s')) (hI : RoomInv s.pcb) : RoomInv s'.pcb := by
  have hq := congrArg (fun p => (p.mss, p.sndWndMax)) (tcpWrite_queues h).1
  obtain ⟨hm, hw⟩ : s'.pcb.mss = s.pcb.mss ∧ s'.pcb.sndWndMax = s.pcb.sndWndMax :=
    Prod.mk.inj hq
  rcases tcpWrite_made hI.lt hI.tail h with ⟨-, t, init, old, new, queue, hmade⟩ | ⟨-, hun⟩
  · refine hI.of_tail (o := s'.pcb.unsentOversize) (q := init ++ new)
      (by rw [← hm, ← hw, ← hmade.unsent']; rfl) ?_
    rcases eq_nil_or_snoc new with rfl | ⟨new, last, rfl⟩
    · -- nothing is queued: there was nothing before
      rcases hmade.last with ⟨-, rfl, -⟩ | ⟨last, last', -, -, -, hs⟩
      · exact .nil
      · simpa using hs.length
    · rw [← List.append_assoc, tailFits_snoc, ← hmade.lastRoom, lastRoom_snoc]
      exact hmade.fits last (by simp)
  · rw [hun]
    exact hI.congr rfl

theorem RoomInv.tcpSendFin {err : Err} (h : Rudp.tcpSendFin s = .ok (err, s'))
    (hI : RoomInv s.pcb) : RoomInv s'.pcb := by
  have henq (h : tcpEnqueueFlags s { fin := true } = .ok (err, s')) : RoomInv s'.pcb := by
    obtain ⟨_, -, h⟩ := Run.bind_eq_ok.mp h
    dsimp only at h
    split at h
    · cases h
      exact hI.congr rfl
    split at h
    · cases h
      exact hI
    split at h
    · cases h
      exact hI.congr rfl
    split at h
    · next e =>
      cases h
      exact hI.congr ((congrArg (fun q => Pcb.room q) (tcpCreateSegment_spec e).1).trans rfl)
    · next seg s₁ e =>
      obtain ⟨_, -, h⟩ := Run.bind_eq_ok.mp h
      have hp : s₁.pcb = s.pcb := (tcpCreateSegment_spec e).1
      have hseg := (tcpCreateSegment_spec e).2 seg rfl
      cases h
      refine hI.of_tail (o := 0) (q := s.pcb.unsent ++ [seg]) ?_ ?_
      · show (s₁.pcb.mss, s₁.pcb.sndWndMax, 0, s₁.pcb.unsent ++ [seg]) = _
        rw [hp]
      · rw [tailFits_snoc, hseg]
        exact Nat.zero_le _
  unfold Rudp.tcpSendFin at h
  split at h
  · next last hl =>
    split at h
    · cases h
      obtain ⟨init, hu⟩ := List.getLast?_eq_some_iff.mp hl
      refine hI.of_tail rfl ?_
      have ht := hI.tail
      show TailFits _ s.pcb.unsentOversize (modifyLast TcpSeg.setFin s.pcb.unsent)
      rw [hu] at ht ⊢
      rw [modifyLast_append_singleton, tailFits_snoc]
      rw [tailFits_snoc] at ht
      exact ht
    · exact henq h
  · exact henq h

/-! ## Retransmissions -/

/-- The first unacknowledged segment fits, if `tcp_rexmit` puts it behind all of `unsent`. -/
def Pcb.HeadFits (pcb : Pcb) (mssLocal : ℕ) : Prop :=
  ∀ seg ∈ pcb.unacked.head?, (∀ cur ∈ pcb.unsent, tcpSeqLt cur.tcphdr.seqno seg.tcphdr.seqno) →
    seg.len + seg.optlen ≤ mssLocal

theorem insertSeg_last {seg : TcpSeg} {q : List TcpSeg}
    (h : ∀ cur ∈ q, tcpSeqLt cur.tcphdr.seqno seg.tcphdr.seqno) : insertSeg seg q = q ++ [seg] := by
  induction q with
  | nil => rfl
  | cons cur q ih =>
    rw [insertSeg, if_pos (h cur (by simp)), ih fun x hx => h x (by simp [hx])]
    rfl

theorem getLast_insertSeg {seg : TcpSeg} {q : List TcpSeg}
    (h : ¬ ∀ cur ∈ q, tcpSeqLt cur.tcphdr.seqno seg.tcphdr.seqno) :
    (insertSeg seg q).getLast? = q.getLast? := by
  induction q with
  | nil => exact absurd nofun h
  | cons cur q ih =>
    rw [insertSeg]
    split
    · next hlt =>
      have hq : ¬ ∀ x ∈ q, tcpSeqLt x.tcphdr.seqno seg.tcphdr.seqno := by
        intro hq
        exact h fun x hx => (List.mem_cons.mp hx).elim (fun e => e ▸ hlt) (hq x)
      have hne : q ≠ [] := by
        rintro rfl
        exact hq nofun
      have hne' : insertSeg seg q ≠ [] := by
        intro e
        have := (perm_insertSeg seg q).length_eq
        rw [e] at this
        simp at this
      obtain ⟨a, as, hq'⟩ := List.exists_cons_of_ne_nil hne
      obtain ⟨b, bs, hb⟩ := List.exists_cons_of_ne_nil hne'
      have ih := ih hq
      rw [hb] at ih ⊢
      rw [hq'] at ih ⊢
      rw [List.getLast?_cons_cons, List.getLast?_cons_cons]
      exact ih
    · rw [List.getLast?_cons_cons]

theorem RoomInv.tcpRexmit (hf : s.pcb.HeadFits (mssLocalOf s.pcb)) (hI : RoomInv s.pcb) :
    RoomInv (Rudp.tcpRexmit s).pcb := by
  unfold Rudp.tcpRexmit
  split
  · exact hI
  next seg rest hu =>
  refine hI.of_tail rfl ?_
  dsimp only
  split
  · next hlast =>
    rw [insertSeg_last hlast, tailFits_snoc]
    exact hf seg (by rw [hu]; rfl) hlast
  · next hlast =>
    unfold TailFits
    rw [getLast_insertSeg hlast]
    exact hI.tail

/-- The last unacknowledged segment fits, if `tcp_rexmit_rto` makes it the last of `unsent`. -/
def Pcb.LastFits (pcb : Pcb) : Prop :=
  pcb.unsent = [] → ∀ seg ∈ pcb.unacked.getLast?,
    seg.len + seg.optlen + seg.oversizeLeft ≤ mssLocalOf pcb

theorem RoomInv.tcpRexmitRto (hf : s.pcb.LastFits) (h : Rudp.tcpRexmitRto s = .ok s')
    (hI : RoomInv s.pcb) : RoomInv s'.pcb := by
  unfold Rudp.tcpRexmitRto at h
  split at h
  · cases h
    exact hI
  next seg hl =>
  obtain ⟨⟨err, s₁⟩, h₁, h⟩ := Run.bind_eq_ok.mp h
  cases h
  refine RoomInv.tcpOutput h₁ (hI.of_tail rfl ?_)
  show TailFits _ (if s.pcb.unsent = [] then seg.oversizeLeft else s.pcb.unsentOversize)
    (s.pcb.unacked ++ s.pcb.unsent)
  split
  · next hu =>
    intro last hlast
    rw [hu, List.append_nil, hl] at hlast
    cases hlast
    exact hf hu seg hl
  · next hu =>
    obtain ⟨init, last, e⟩ := (eq_nil_or_snoc s.pcb.unsent).resolve_left hu
    have ht := hI.tail
    rw [e] at ht ⊢
    rw [← List.append_assoc, tailFits_snoc]
    exact tailFits_snoc.mp ht

/-! ## Acknowledgments -/

/-- The segment is the third duplicate acknowledgment: `tcp_receive` calls `tcp_rexmit`
    (tcp_in.c:968-1001). -/
def Pcb.FastRexmits (pcb : Pcb) (seg : InSegment) : Prop :=
  seg.ackno = pcb.lastack ∧ seg.tcplen = 0 ∧ pcb.dupacks = 2 ∧ pcb.tfInfr = false ∧ pcb.rtime ≥ 0 ∧
    (tcpReceiveWindow pcb seg).sndWl2 + u32 (tcpReceiveWindow pcb seg).sndWnd =
      u32 pcb.sndWnd + pcb.sndWl2

/-- What an ACK may bring: its window leaves the last segment of `unsent` its room, and if the ACK
    is the third duplicate, also the segment that `tcp_rexmit` puts there. -/
structure AckRoom (s : St W) (seg : InSegment) : Prop where
  window : seg.flags.ack = true →
    TailFits (mssLocalOf (tcpReceiveWindow s.pcb seg)) s.pcb.unsentOversize s.pcb.unsent
  rexmit : seg.flags.ack = true → s.pcb.FastRexmits seg →
    s.pcb.HeadFits (mssLocalOf (tcpReceiveWindow s.pcb seg))

theorem room_tcpRexmit_congr {t : St W} (hr : t.pcb.room = s.pcb.room)
    (hu : t.pcb.unacked = s.pcb.unacked) : (tcpRexmit t).pcb.room = (tcpRexmit s).pcb.room := by
  simp only [Pcb.room, Prod.mk.injEq] at hr
  obtain ⟨hm, hw, ho, hun⟩ := hr
  unfold tcpRexmit
  rw [hu]
  split
  · simp only [Pcb.room, hm, hw, ho, hun]
  · simp only [Pcb.room, hm, hw, ho, hun]

/-- A duplicate ACK retransmits or leaves the queues alone. -/
theorem room_tcpReceiveDupack (s : St W) (seg : InSegment) (edge : U32) :
    (tcpReceiveDupack s seg edge).pcb.room = s.pcb.room ∨
      ((seg.ackno = s.pcb.lastack ∧ seg.tcplen = 0 ∧ s.pcb.dupacks = 2 ∧ s.pcb.tfInfr = false ∧
          s.pcb.rtime ≥ 0 ∧ s.pcb.sndWl2 + u32 s.pcb.sndWnd = edge) ∧
        (tcpReceiveDupack s seg edge).pcb.room = (tcpRexmit s).pcb.room) := by
  unfold tcpReceiveDupack
  dsimp only
  split
  · next hc =>
    obtain ⟨d, hs₁, hd⟩ : ∃ d, (if u8 (s.pcb.dupacks + 1) > s.pcb.dupacks then
        ({ s with pcb.acked := 0, pcb.dupacks := s.pcb.dupacks + 1 } : St W)
        else { s with pcb.acked := 0 }) = { s with pcb.acked := 0, pcb.dupacks := d } ∧
        (d = 3 → s.pcb.dupacks = 2) := by
      unfold u8
      split
      · exact ⟨_, rfl, by omega⟩
      · exact ⟨s.pcb.dupacks, rfl, by omega⟩
    rw [hs₁]
    dsimp only
    split
    · left
      unfold cwndInflate
      split <;> rfl
    split
    · next h3 =>
      unfold tcpRexmitFast
      split
      · next hf =>
        right
        refine ⟨⟨hc.2.2.2.symm, hc.1, hd h3, hf.2, hc.2.2.1, hc.2.1⟩, ?_⟩
        exact (room_tcpRexmit_congr rfl rfl : (tcpRexmit { s with
          pcb.acked := 0, pcb.dupacks := d }).pcb.room = (tcpRexmit s).pcb.room)
      · exact .inl rfl
    · exact .inl rfl
  · exact .inl rfl

theorem room_tcpReceiveFree {next : TcpSeg} (h : tcpReceiveFree s next = .ok s') :
    s'.pcb.room = s.pcb.room := by
  obtain ⟨_, -, h⟩ := Run.bind_eq_ok.mp h
  obtain ⟨_, -, h⟩ := Run.bind_eq_ok.mp h
  cases h
  rfl

theorem room_tcpReceiveUnacked {ackno : U32} {q : List TcpSeg}
    (h : tcpReceiveUnacked ackno q s = .ok s') : s'.pcb.room = s.pcb.room := by
  induction q generalizing s with
  | nil =>
    cases h
    rfl
  | cons next rest ih =>
    rw [tcpReceiveUnacked] at h
    split at h
    · obtain ⟨s₁, h₁, h⟩ := Run.bind_eq_ok.mp h
      exact (ih h).trans ((room_tcpReceiveFree h₁).trans rfl)
    · cases h
      rfl

theorem RoomInv.tcpReceiveUnsent {ackno : U32} {q : List TcpSeg} (hq : s.pcb.unsent = q)
    (h : Rudp.tcpReceiveUnsent ackno q s = .ok s') (hI : RoomInv s.pcb) : RoomInv s'.pcb := by
  induction q generalizing s with
  | nil =>
    cases h
    exact hI
  | cons next rest ih =>
    rw [Rudp.tcpReceiveUnsent] at h
    split at h
    · obtain ⟨s₁, h₁, h⟩ := Run.bind_eq_ok.mp h
      have hr := room_tcpReceiveFree h₁
      have hI₁ : RoomInv s₁.pcb := by
        refine hI.of_tail hr ?_
        have ht := hI.tail
        rw [hq] at ht
        dsimp only
        split
        · next hnil =>
          rw [hnil]
          exact .nil
        · exact ht.tail
      have hq₁ : s₁.pcb.unsent = rest := congrArg (fun r => r.2.2.2) hr
      exact ih hq₁ h hI₁
    · cases h
      exact hI

theorem RoomInv.tcpReceiveAck {seg : InSegment} (hf : AckRoom s seg) (hack : seg.flags.ack = true)
    (h : Rudp.tcpReceiveAck s seg = .ok s') (hI : RoomInv s.pcb) : RoomInv s'.pcb := by
  obtain ⟨s₁, h₁, h⟩ := Run.bind_eq_ok.mp h
  obtain ⟨s₂, h₂, h⟩ := Run.bind_eq_ok.mp h
  cases h
  have hw : (tcpReceiveWindow s.pcb seg).mss = s.pcb.mss ∧
      (tcpReceiveWindow s.pcb seg).unsentOversize = s.pcb.unsentOversize ∧
      (tcpReceiveWindow s.pcb seg).unsent = s.pcb.unsent ∧
      (tcpReceiveWindow s.pcb seg).unacked = s.pcb.unacked ∧
      (tcpReceiveWindow s.pcb seg).lastack = s.pcb.lastack ∧
      (tcpReceiveWindow s.pcb seg).dupacks = s.pcb.dupacks ∧
      (tcpReceiveWindow s.pcb seg).tfInfr = s.pcb.tfInfr ∧
      (tcpReceiveWindow s.pcb seg).rtime = s.pcb.rtime := by
    unfold tcpReceiveWindow
    split <;> simp
  obtain ⟨hm, ho, hu, ha, hl, hd, hi, ht⟩ := hw
  have hIw : RoomInv (tcpReceiveWindow s.pcb seg) := by
    refine ⟨hm ▸ hI.mss, ?_⟩
    rw [ho, hu]
    exact hf.window hack
  have hI₁ : RoomInv s₁.pcb := by
    unfold tcpReceiveAckno at h₁
    split at h₁
    · cases h₁
      rcases room_tcpReceiveDupack { s with pcb := tcpReceiveWindow s.pcb seg } seg
        (u32 s.pcb.sndWnd + s.pcb.sndWl2) with hr | ⟨⟨c1, c2, c3, c4, c5, c6⟩, hr⟩
      · exact hIw.congr hr
      · have hfast : s.pcb.FastRexmits seg :=
          ⟨c1.trans hl, c2, hd ▸ c3, hi ▸ c4, ht ▸ c5, c6⟩
        refine RoomInv.congr (RoomInv.tcpRexmit ?_ hIw) hr
        intro x hx hlast
        dsimp only at hx hlast
        rw [ha] at hx
        rw [hu] at hlast
        exact hf.rexmit hack hfast x hx hlast
    split at h₁
    · obtain ⟨s₃, h₃, h₁⟩ := Run.bind_eq_ok.mp h₁
      cases h₁
      refine hIw.congr ((room_tcpReceiveUnacked h₃).trans ?_)
      unfold cwndAck cwndInflate
      dsimp only
      split_ifs <;> rfl
    · cases h₁
      exact hIw.congr (room_of_sndView (sndView_tcpSendEmptyAck _))
  have hI₂ := hI₁.tcpReceiveUnsent rfl h₂
  refine hI₂.congr ?_
  unfold tcpReceiveRtt
  split <;> rfl

theorem RoomInv.purge {pcb : Pcb} (h : RoomInv pcb) : RoomInv (tcpPcbPurge pcb) := by
  unfold tcpPcbPurge
  split
  · exact h.of_tail rfl .nil
  · exact h

theorem RoomInv.after {state : TcpState} {seg : InSegment} (h : RoomInv s.pcb) :
    RoomInv (tcpProcessAfter state seg s).pcb := by
  have htw (t : St W) (ht : RoomInv t.pcb) : RoomInv (toTimeWait t).pcb := ht.purge.congr rfl
  unfold tcpProcessAfter
  dsimp only
  split
  · split <;> exact h.congr rfl
  · split <;> exact h.congr rfl
  · split
    · split
      · exact htw _ (h.congr rfl)
      · exact h.congr rfl
    · split <;> exact h.congr rfl
  · split
    · exact htw _ (h.congr rfl)
    · exact h
  · split
    · exact htw _ h
    · exact h
  · split <;> exact h.congr rfl
  · exact h

/-- `tcp_receive` and what `tcp_process` does behind it. -/
theorem RoomInv.processReceive {seg : InSegment} {after : St W → St W} (hf : AckRoom s seg)
    (hafter : ∀ t : St W, RoomInv t.pcb → RoomInv (after t).pcb)
    (h : tcpProcessReceive s seg after = .ok s') (hI : RoomInv s.pcb) : RoomInv s'.pcb := by
  obtain ⟨-, s₁, s₂, h₁, -, h₂, rfl⟩ := processReceive_parts h
  have hI₁ : RoomInv s₁.pcb := by
    rcases h₁ with ⟨hack, h₁⟩ | ⟨-, rfl⟩
    · exact hI.tcpReceiveAck hf hack h₁
    · exact hI
  exact hafter s₂ (hI₁.congr (room_of_sndView (sndView_tcpReceiveData h₂)))

/-! ## Runs -/

/-- What the options, the SYN-ACK and another copy of the SYN may bring. `s` has the new `mss`. -/
structure SynRoom (s : St W) (seg : InSegment) : Prop where
  mss : TailFits (mssLocalOf s.pcb) s.pcb.unsentOversize s.pcb.unsent
  synAck : s.pcb.state = .SYN_SENT → (∀ syn ∈ s.pcb.unacked.head?, SynAcks seg syn →
    TailFits (mssLocalOf { s.pcb with sndWndMax := seg.tcphdr.wnd }) s.pcb.unsentOversize
      s.pcb.unsent)
  rexmit : s.pcb.state = .SYN_RCVD → RepeatsSyn s.pcb seg → s.pcb.HeadFits (mssLocalOf s.pcb)

/-- When the slow timer expires, the segment it puts behind all others fits. -/
def TimerRoom (s : St W) : Tmr → Prop
  | .fast => True
  | .slow => s.pcb.Expires → s.pcb.LastFits

/-- The condition on one operation: the segment that arrives, or the timer that expires, leaves the
    last segment of `unsent` its room. -/
def RoomOk (app : App W) (s : St W) (op : List Bool × Op) : Prop :=
  Kept.StepOk NoConnect AckRoom TimerRoom app s op ∧ Kept.OptionsOk SynRoom app s op

theorem keptApi_roomInv : KeptApi NoConnect fun s : St W => RoomInv s.pcb where
  frame hI hq ht _ _ := hI.congr (room_of_core (core_of_quiet hq ht))
  unpark hI := hI.congr rfl
  callback _ hI := hI
  ackNow hI := hI.congr rfl
  rst {s seqno ackno} hI := hI.congr (room_of_sndView (sndView_tcpRst s seqno ackno))
  connect hP := hP.elim
  write {s s' arg copy more err} _ hw hI := by
    have hI' := hI.tcpWrite hw
    split <;> exact hI'
  recved _ _ hp hI := by
    obtain ⟨w, rfl⟩ := tcpUpdateRcvAnnWnd_ok hp
    exact hI.congr rfl
  fin _ _ _ hw hI := by
    have hI' := hI.tcpSendFin hw
    split
    · exact hI'.congr rfl
    · exact hI'
  output hr hI := hI.tcpOutput hr
  purge _ hI := hI.purge
  timeWait _ _ _ _ _ _ hI := hI.congr rfl
  closed _ _ _ _ hI := hI.congr rfl
  clear _ _ hI := hI.of_tail rfl .nil

theorem RoomInv.establish {seg : InSegment} {rseg : TcpSeg} {rest : List TcpSeg}
    (hst : s.pcb.state = .SYN_SENT) (hu : s.pcb.unacked = rseg :: rest) (hc : SynAcks seg rseg)
    (hO : SynRoom s seg) (hI : RoomInv s.pcb) : RoomInv (Rudp.establish s.pcb seg rest) :=
  ⟨hI.mss, hO.synAck hst rseg (by rw [hu]; rfl) hc⟩

theorem kept_roomInv {app : App W} :
    Kept NoConnect AckRoom TimerRoom app (fun s : St W => RoomInv s.pcb) SynRoom where
  toKeptApi := keptApi_roomInv
  reset hr hI := keptApi_roomInv.tcpInputRemove hr (hI.congr rfl)
  keepalive {s} hI := hI.congr (room_of_sndView (sndView_tcpKeepalive s))
  fasttmr _ _ hr hI := (RoomInv.tcpOutput hr (hI.congr rfl)).congr rfl
  probe {s n} _ _ hI := by
    obtain ⟨log, hc, -⟩ := probe_core { s with pcb.persistCnt := n }
    exact hI.congr (congrArg (fun c : Core => (c.mss, c.sndWndMax, c.unsentOversize, c.unsent)) hc)
  backoff _ _ _ hI := hI.congr rfl
  rtime _ hI := hI.congr rfl
  rto {s _ _ _} hR he _ _ hr hI := by
    refine RoomInv.tcpRexmitRto ?_ hr (hI.congr rfl)
    exact fun hu seg hs => hR he hu seg hs
  rexmit hst hs hO hI := hI.tcpRexmit (hO.rexmit hst hs)
  park _ hI := hI.congr rfl
  rcvWndFin {s} _ hI := by
    unfold rcvWndFin
    split <;> exact hI.congr rfl
  start hn hO hI := by
    refine ⟨?_, hO.mss⟩
    rcases hn with rfl | ⟨-, hn⟩
    · exact hI.mss
    · exact hn
  synSent happ hst hO hr hI := keptApi_roomInv.tcpProcessSynSent
    (fun hu _ hc hI => hI.establish hst hu hc hO) happ hr hI
  accept _ _ hI := hI.congr rfl
  receive _ _ hQ hr hI := hI.processReceive hQ (fun _ ht => ht.after) hr
  receiveAccept _ _ _ _ _ hQ hr hI := by
    refine RoomInv.processReceive hQ (fun t ht => ?_) hr hI
    unfold tcpProcessAcceptAfter
    dsimp only
    split <;> exact ht.congr rfl
  ooseq hI := hI.congr rfl

/-! ### The assertion -/

/-- The assertion on the last segment (tcp_out.c:420). -/
def mssTooSmall : Fault := .assert "mss_local is too small"

/-- The assertions of `tcp_write` on `snd_queuelen`. -/
def queueMessages : List String :=
  ["tcp_write: pbufs on queue => at least one queue non-empty",
    "tcp_write: no pbufs on queue => both queues empty", "tcp_write: valid queue length"]

/-- The assertions of `tcp_write` on the spare room. -/
def sizeMessages : List String :=
  ["unsent_oversize mismatch (pcb->unsent is NULL)",
    "unsent_oversize mismatch (pcb vs. last_unsent)", "inconsistend oversize vs. len",
    "oversize == 0", "last_unsent->oversize_left >= oversize_used"]

/-- `snd_queuelen` says whether something is queued. -/
def Pcb.Queued (pcb : Pcb) : Prop :=
  pcb.sndQueuelen ≠ 0 ↔ pcb.unacked ≠ [] ∨ pcb.unsent ≠ []

theorem fails_tcpWriteQueue {F : Fault → Prop} (h : F (.assert "oversize == 0")) (arg : List Byte)
    (copy more : Bool) (mssLocal fuel : ℕ) (s : St W) (pos oversize queuelen : ℕ)
    (queue : List TcpSeg) :
    Fails F (tcpWriteQueue arg copy more mssLocal fuel s pos oversize queuelen queue) := by
  induction fuel generalizing s pos oversize queuelen queue with
  | zero => exact .ok _
  | succ fuel ih =>
    rw [tcpWriteQueue]
    split
    · refine .bind ?_ fun x _ => ?_
      · unfold tcpWriteChain
        split
        · split <;> exact .ok _
        · refine .bind (Fails.lwipAssert fun _ => h) fun _ _ => ?_
          dsimp only
          split
          · exact .ok _
          · split <;> exact .ok _
      · split
        · exact .ok _
        · dsimp only
          split
          · exact .ok _
          · split
            · exact .ok _
            · exact ih _ _ _ _ _
    · exact .ok _

theorem fails_tcpWriteTail {F : Fault → Prop} (hsize : ∀ m ∈ sizeMessages, F (.assert m))
    {mssLocal : ℕ} (hroom : ¬ (∀ last ∈ s.pcb.unsent.getLast?, last.len + last.optlen ≤ mssLocal) →
      F mssTooSmall) (arg : List Byte) (copy more : Bool) :
    Fails F (tcpWriteTail s arg copy more mssLocal) := by
  unfold tcpWriteTail
  split
  · exact .bind (Fails.lwipAssert fun _ => hsize _ (by simp [sizeMessages])) fun _ _ => .ok _
  next last hl =>
  refine .bind (Fails.lwipAssert fun hn => hroom fun h => hn (h last hl)) fun _ _ => ?_
  refine .bind (Fails.lwipAssert fun _ => hsize _ (by simp [sizeMessages])) fun _ _ => ?_
  refine .bind (Fails.lwipAssert fun _ => hsize _ (by simp [sizeMessages])) fun _ _ => ?_
  dsimp only
  split
  · split
    · split <;> exact .ok _
    · split <;> exact .ok _
  · exact .ok _

/-- What `tcp_write` fails with: an assertion on the spare room, the one on the last segment when it
    is too long, or one on `snd_queuelen` when it is wrong. -/
theorem fails_tcpWrite {F : Fault → Prop} (hsize : ∀ m ∈ sizeMessages, F (.assert m))
    (hroom : ¬ (∀ last ∈ s.pcb.unsent.getLast?, last.len + last.optlen ≤ mssLocalOf s.pcb) →
      F mssTooSmall)
    (hqueue : ¬ s.pcb.Queued → ∀ m ∈ queueMessages, F (.assert m)) (arg : List Byte)
    (copy more : Bool) : Fails F (Rudp.tcpWrite s arg copy more) := by
  have hq {m : String} (hm : m ∈ queueMessages) (h : ¬ s.pcb.Queued) : F (.assert m) := hqueue h m hm
  refine .bind ?_ fun x hx => ?_
  · unfold tcpWriteChecks
    split_ifs with _ _ _ _ h0
    · exact .ok _
    · exact .ok _
    · exact .ok _
    · exact .ok _
    · refine .bind (Fails.lwipAssert fun hn => hq (by simp [queueMessages]) ?_) fun _ _ => .ok _
      exact fun h => hn (h.mp h0)
    · refine .bind (Fails.lwipAssert fun hn => hq (by simp [queueMessages]) ?_) fun _ _ => .ok _
      intro h
      have h := (not_congr h).mp h0
      tauto
  obtain ⟨err, s₁⟩ := x
  dsimp only
  split
  · exact .ok _
  next hok =>
  obtain rfl : s₁ = s := by
    rcases tcpWriteChecks_spec hx with ⟨herr, -⟩ | ⟨-, rfl, -, -⟩
    · exact absurd herr hok
    · rfl
  have hok : err = .ok := by simpa using hok
  refine .bind (fails_tcpWriteTail hsize hroom arg copy more) fun y hy => ?_
  obtain ⟨y, s₂⟩ := y
  have hs₂ : s₂.pcb.sndQueuelen = s₁.pcb.sndQueuelen ∧ s₂.pcb.unacked = s₁.pcb.unacked ∧
      (s₂.pcb.unsent = [] ↔ s₁.pcb.unsent = []) := by
    rcases tcpWriteTail_spec hy with ⟨-, e, -⟩ | ⟨init, last, bump, hu, e, -⟩
    · rw [e]
      exact ⟨rfl, rfl, Iff.rfl⟩
    · rw [e, hu]
      exact ⟨rfl, rfl, by simp⟩
  have hmem (t : St W) (ht : t.pcb = s₂.pcb) : Fails F (tcpWriteMemerr t) := by
    refine .bind (Fails.lwipAssert fun hn => hq (by simp [queueMessages]) fun h => hn ?_)
      fun _ _ => .ok _
    rw [ht, hs₂.1, hs₂.2.1]
    intro h0
    exact (h.mp h0).imp id (not_congr hs₂.2.2).mpr
  cases y with
  | none => exact hmem s₂ rfl
  | some t =>
    refine .bind (fails_tcpWriteQueue (hsize _ (by simp [sizeMessages])) _ _ _ _ _ _ _ _ _ _)
      fun z hz => ?_
    obtain ⟨z, s₃⟩ := z
    have hs₃ := tcpWriteQueue_pcb hz
    cases z with
    | none => exact hmem s₃ hs₃
    | some z =>
      obtain ⟨oversize, queuelen, queue⟩ := z
      refine .bind (Fails.lwipAssert fun _ => hsize _ (by simp [sizeMessages])) fun _ _ => ?_
      refine .bind (Fails.lwipAssert fun hn => hq (by simp [queueMessages]) fun h => hn ?_)
        fun _ _ => ?_
      · -- nothing is queued when nothing was and nothing is added
        intro h0
        dsimp only at h0 ⊢
        by_contra hc
        obtain ⟨hua, hun⟩ := not_or.mp hc
        have hua := not_not.mp hua
        obtain ⟨htail, rfl⟩ := List.append_eq_nil_iff.mp (not_not.mp hun)
        have hnil : s₃.pcb.unsent = [] := by
          rw [← List.length_eq_zero_iff] at htail ⊢
          rw [← htail]
          cases t.concatP with
          | none =>
            dsimp only
            split <;> simp only [length_modifyLast]
          | some q =>
            dsimp only
            rw [length_modifyLast]
            split <;> simp only [length_modifyLast]
        rw [hs₃] at hua hnil
        have hempty := hs₂.2.2.mp hnil
        have hzero : s₁.pcb.sndQueuelen = 0 := by
          by_contra hz
          rcases h.mp hz with h | h
          · exact h (hs₂.2.1 ▸ hua)
          · exact h hempty
        have ht : t.queuelen = 0 := by
          rcases tcpWriteTail_queuelen hy with ⟨-, ht⟩ | ⟨hc, -⟩
          · rw [ht, hzero]
          · rcases tcpWriteTail_spec hy with ⟨-, -, hz⟩ | ⟨init, last, bump, hu, -⟩
            · rw [(hz t rfl).2] at hc
              cases hc
            · rw [hempty] at hu
              simp at hu
        obtain ⟨new, hnew, hlen, -⟩ := tcpWriteQueue_counted (fun _ => by rw [ht]; decide) hz
        obtain rfl : [] = new := hnew
        exact h0 (hlen.trans ht)
      · split <;> exact .ok _

theorem safe_roomInv : Safe (· ≠ mssTooSmall) NoConnect AckRoom (fun _ _ => True)
    (fun s : St W => RoomInv s.pcb) SynRoom where
  glue e he := by
    rintro rfl
    simp [Fault.Glue, mssTooSmall] at he
  write arg copy more _ hI := by
    refine fails_tcpWrite (by simp [sizeMessages, mssTooSmall]) (fun hn => absurd ?_ hn)
      (fun _ => by simp [queueMessages, mssTooSmall]) arg copy more
    intro last hl
    have := hI.tail last hl
    omega
  recved _ _ _ := by
    refine fails_tcpRecved (fun e he _ => ?_) (by simp [mssTooSmall])
      (by simp [annWndTooBig, mssTooSmall]) _ _
    rintro rfl
    simp [Fault.Glue, mssTooSmall] at he
  synSent _ _ _ _ := by simp [mssTooSmall]
  establish hst hu _ hc hO hI := hI.establish hst hu hc hO
  receive _ _ := by
    refine fails_tcpReceive (by simp [dataMessages, mssTooSmall])
      (by simp [annWndTooBig, mssTooSmall]) (fun e he _ => ?_) fun _ =>
      fails_tcpReceiveAck (by simp [freeMessages, mssTooSmall]) _ _
    rintro rfl
    simp [Fault.Glue, mssTooSmall] at he

/-- The last segment fits: it is not longer than `mss_local`, the room behind it holds the spare
    bytes, so that phase 1 does not use up more than there is, and no operation fails the
    assertion. -/
structure RoomSound (ok : St W → List Bool × Op → Prop) (app : App W) (s : St W) : Prop where
  last : ∀ last ∈ s.pcb.unsent.getLast?, last.len + last.optlen ≤ mssLocalOf s.pcb ∧
    s.pcb.unsentOversize ≤ mssLocalOf s.pcb - (last.len + last.optlen) ∧
    ∀ len, min s.pcb.unsentOversize len ≤ mssLocalOf s.pcb - (last.len + last.optlen)
  step : ∀ op, ok s op → AppFaults (· ≠ mssTooSmall) NoConnect (fun _ _ => True) app →
    connStep app s op ≠ .error mssTooSmall

/-- In a run in which no segment and no timer takes the last segment of `unsent` its room, the room
    is there and the assertion holds. -/
theorem tail_fits {app : App W} {s₀ : St W} (happ : AppOk NoConnect app) (h₀ : Begun s₀)
    (hroom : TailFits (mssLocalOf s₀.pcb) s₀.pcb.unsentOversize s₀.pcb.unsent)
    (hr : Run.Reach (connStep app) (RoomOk app) s₀ s) : RoomSound (RoomOk app) app s := by
  have hI : RoomInv s.pcb := by
    refine hr.invariant (I := fun s => RoomInv s.pcb) ⟨h₀.flight.mss.2, hroom⟩ ?_
    intro s op s' hI hop he
    exact kept_roomInv.stepOptions happ hop.1 hop.2 he hI
  constructor
  · intro last hl
    have := hI.tail last hl
    exact ⟨by omega, by omega, fun len => by omega⟩
  · intro op hop hf he
    exact safe_roomInv.step kept_roomInv happ hf hop.1 hop.2 (fun _ _ => trivial) hI _ he rfl

/-! ### Two runs -/

/-- `tcp_write` of `n` bytes, which it copies. -/
def writeManyOp (n : ℕ) : List Bool × Op := ([], .api (.write (List.replicate n 7) true false))

/-- Nothing was written before the SYN-ACK with the small window, and `mss_local` is 10. -/
theorem tail_fits_connected : ∃ s : St Unit, Run.exec (connStep idleApp) connecting
      [synAckOp 20, writeManyOp 21] = .ok s ∧ mssLocalOf s.pcb = 10 ∧
    RoomSound (RoomOk idleApp) idleApp s := by
  refine ⟨_, rfl, rfl, tail_fits appOk_idleApp begun_connecting .nil
    (.step (writeManyOp 21) (.step (synAckOp 20) .refl ⟨fun t ht => ?_, fun g hg t ht => ?_⟩ rfl)
      ⟨trivial, nofun⟩ rfl)⟩
  · obtain ⟨s₁, h₁, -, s₂, rfl, ht⟩ := ht
    cases h₁
    rcases ht with ⟨hnum, -⟩ | ⟨hst, -⟩
    · exact absurd hnum (by decide)
    · exact absurd hst (by decide)
  · cases hg
    obtain ⟨s₁, h₁, -, -, rfl⟩ := ht
    cases h₁
    exact ⟨.nil, fun _ _ _ _ => .nil, nofun⟩

/-- 21 bytes are written in `SYN_SENT`. The SYN-ACK announces a window of 20, so `mss_local` is 10
    from then on, and the next `tcp_write` stops the process. -/
theorem tail_fits_fails : ∃ s : St Unit, Begun connecting ∧ AppOk NoConnect idleApp ∧
    Run.exec (connStep idleApp) connecting [writeManyOp 21, synAckOp 20] = .ok s ∧
    s.pcb.unsent.map (·.len) = [21] ∧ mssLocalOf s.pcb = 10 ∧
    connStep idleApp s (writeManyOp 1) = .error mssTooSmall ∧ ∀ ok, ¬ RoomSound ok idleApp s := by
  refine ⟨_, begun_connecting, appOk_idleApp, rfl, rfl, rfl, rfl, fun ok h => ?_⟩
  exact absurd (h.last _ rfl).1 (by decide)

end Rudp

import Rudp.Carry
import Rudp.Micro

/-!
# Nothing written is lost

What `tcp_write` has accepted stays on `unsent` or `unacked` until it is acknowledged, and so does the
FIN. Segments move between the queues, an RTO and the third duplicate ACK move them back, `tcp_output`
fails in the middle of a queue, and an ACK takes segments from the front of both queues. `Keeps` says
that segments only moved or grew.

An ACK that is half the sequence space old is taken for one that acknowledges unsent data
(`AckFresh` excludes it).

Results:
* `keeps_tcpOutput`, `keeps_tcpRexmit`, `keeps_tcpRexmitRto`: the functions that move segments lose
  none.
* `Complete.tcpWrite`, `Complete.tcpSendFin`: what is accepted is queued.
* `Complete.tcpReceiveAck`: an ACK takes only what it acknowledges.
* `preserved_lossless`: every operation keeps it.
* `nothing_lost`: where the bytes and the FIN are in every run.
-/

namespace Rudp

open Serial

variable {W : Type} {s s' : St W} {base : U32} {S : List Byte}

/-! ## Segments that move -/

/-- What `a` has is in `b`, at the same place. -/
structure TcpSeg.Stays (a b : TcpSeg) : Prop where
  seqno : b.tcphdr.seqno = a.tcphdr.seqno
  syn : b.tcphdr.flags.syn = a.tcphdr.flags.syn
  data : bytes a.p <+: bytes b.p
  fin : a.tcphdr.flags.fin = true → b.tcphdr.flags.fin = true

theorem TcpSeg.Stays.refl (seg : TcpSeg) : seg.Stays seg :=
  ⟨rfl, rfl, List.prefix_rfl, id⟩

theorem TcpSeg.Stays.trans {a b c : TcpSeg} (h : a.Stays b) (h' : b.Stays c) : a.Stays c where
  seqno := h'.seqno.trans h.seqno
  syn := h'.syn.trans h.syn
  data := h.data.trans h'.data
  fin hf := h'.fin (h.fin hf)

theorem TcpSeg.Resent.stays {a b : TcpSeg} (h : a.Resent b) : a.Stays b := by
  obtain ⟨e1, -, e3, e4, e5⟩ := h.hdr
  exact ⟨e3, e4, e1 ▸ List.prefix_rfl, fun hf => e5.trans hf⟩

/-- Every queued segment is still queued. -/
def Keeps (c c' : Core) : Prop := ∀ seg ∈ c.segs, ∃ seg' ∈ c'.segs, seg.Stays seg'

theorem Keeps.refl (c : Core) : Keeps c c := fun seg hs => ⟨seg, hs, .refl seg⟩

theorem Keeps.trans {c c₁ c' : Core} (h : Keeps c c₁) (h' : Keeps c₁ c') : Keeps c c' := by
  intro seg hs
  obtain ⟨seg₁, h₁, hr₁⟩ := h seg hs
  obtain ⟨seg', hs', hr'⟩ := h' seg₁ h₁
  exact ⟨seg', hs', hr₁.trans hr'⟩

theorem Keeps.of_perm {c c' : Core} (h : c'.segs.Perm c.segs) : Keeps c c' :=
  fun seg hs => ⟨seg, h.mem_iff.mpr hs, .refl seg⟩

theorem keeps_tcpRexmit (s : St W) : Keeps s.core (tcpRexmit s).core := by
  unfold tcpRexmit
  split
  · exact .refl _
  · next seg rest hq =>
    apply Keeps.of_perm
    show (insertSeg seg s.pcb.unsent ++ rest).Perm (s.pcb.unsent ++ s.pcb.unacked)
    rw [hq]
    exact ((perm_insertSeg seg s.pcb.unsent).append_right rest).trans List.perm_middle.symm

/-- A segment that is transmitted goes on `unacked`, as every queued segment occupies a sequence
    number. -/
theorem keeps_tcpOutput {err : Err} (h : tcpOutput s = .ok (err, s')) (hf : Flight s.core) :
    Keeps s.core s'.core := by
  have hI : Flight s'.core ∧ Keeps s.core s'.core := by
    refine tcpOutput_rule (I := fun t => Flight t.core ∧ Keeps s.core t.core) ?_ ?_ ?_ ?_ h
      ⟨hf, .refl _⟩
    · intro t ht
      rw [core_tcpSendEmptyAck]
      exact ht
    · intro t t₁ seg seg' rest ht hq _ _ he
      obtain ⟨rfl, hc⟩ := core_tcpOutputSent rest he
      have hsegs : t.core.segs = seg :: rest ++ t.pcb.unacked := by
        show t.pcb.unsent ++ t.pcb.unacked = _
        rw [hq]
      have hpos := (ht.1.placed.sized seg (by
        show seg ∈ t.core.segs
        rw [hsegs]
        exact List.mem_cons_self)).full
      rw [hc]
      refine ⟨ht.1.sent _ hq (seg.same_stamp _ _), ht.2.trans fun x hx => ?_⟩
      rw [hsegs] at hx
      unfold Core.segs
      dsimp only
      rw [if_pos hpos]
      have hp := perm_putUnacked ((seg.prepare t.pcb).stamp t.pcb) t.pcb.unacked
      rcases List.mem_cons.mp hx with rfl | hx
      · exact ⟨_, List.mem_append_right _ (hp.mem_iff.mpr List.mem_cons_self),
          (x.resent_stamp t.pcb t.pcb).stays⟩
      · refine ⟨x, ?_, .refl x⟩
        rcases List.mem_append.mp hx with hx | hx
        · exact List.mem_append_left _ hx
        · exact List.mem_append_right _ (hp.mem_iff.mpr (List.mem_cons_of_mem _ hx))
    · intro t t₁ seg seg' rest err ht hq _ _ he _
      obtain ⟨rfl, hc⟩ := core_tcpOutputFail rest he
      have hsegs : t.core.segs = seg :: rest ++ t.pcb.unacked := by
        show t.pcb.unsent ++ t.pcb.unacked = _
        rw [hq]
      rw [hc]
      refine ⟨ht.1.fail _ hq (seg.same_stamp _ _), ht.2.trans fun x hx => ?_⟩
      rw [hsegs] at hx
      rcases List.mem_cons.mp hx with rfl | hx
      · exact ⟨_, List.mem_cons_self, (x.resent_stamp t.pcb t.pcb).stays⟩
      · exact ⟨x, List.mem_cons_of_mem _ hx, .refl x⟩
    · intro t ht
      exact ⟨ht.1.congr rfl rfl rfl rfl rfl rfl rfl (.inl ⟨rfl, rfl⟩), ht.2⟩
  exact hI.2

theorem keeps_tcpRexmitRto (h : tcpRexmitRto s = .ok s') (hf : Flight s.core) :
    Keeps s.core s'.core := by
  unfold tcpRexmitRto at h
  split at h
  · cases h
    exact .refl _
  · obtain ⟨⟨err, s₁⟩, h₁, h⟩ := Run.bind_eq_ok.mp h
    cases h
    refine Keeps.trans (Keeps.of_perm ?_) (keeps_tcpOutput h₁ (hf.rto _))
    show (s.pcb.unacked ++ s.pcb.unsent ++ []).Perm (s.pcb.unsent ++ s.pcb.unacked)
    rw [List.append_nil]
    exact List.perm_append_comm

/-! ## What is queued -/

/-- A queued segment has a byte with the sequence number `x`. -/
def Core.Holds (c : Core) (x : U32) : Prop :=
  ∃ seg ∈ c.segs, seg.tcphdr.flags.syn = false ∧
    ∃ i < (bytes seg.p).length, seg.tcphdr.seqno + u32 i = x

/-- A FIN is queued. -/
def Core.HoldsFin (c : Core) : Prop := ∃ seg ∈ c.segs, seg.tcphdr.flags.fin = true

theorem Keeps.holds {c c' : Core} (h : Keeps c c') {x : U32} (hx : c.Holds x) : c'.Holds x := by
  obtain ⟨seg, hs, hsyn, i, hi, he⟩ := hx
  obtain ⟨seg', hs', hr⟩ := h seg hs
  exact ⟨seg', hs', hr.syn.trans hsyn, i, hi.trans_le hr.data.length_le, hr.seqno ▸ he⟩

theorem Keeps.holdsFin {c c' : Core} (h : Keeps c c') (hx : c.HoldsFin) : c'.HoldsFin := by
  obtain ⟨seg, hs, hf⟩ := hx
  obtain ⟨seg', hs', hr⟩ := h seg hs
  exact ⟨seg', hs', hr.fin hf⟩

/-- The bytes from `lastack` on are queued, and so is the FIN until it is acknowledged. -/
structure Complete (base : U32) (c : Core) : Prop where
  lbb : c.sndLbb = base + u32 (written c.log).length ∨
    c.sndLbb = base + u32 ((written c.log).length + 1)
  data : ∀ j < (written c.log).length, (written c.log).length < j + 536870912 →
    0 ≤ dist (base + u32 j) c.lastack → c.Holds (base + u32 j)
  fin : c.tfFin = true → 0 ≤ dist (base + u32 (written c.log).length) c.lastack → c.HoldsFin

/-- The ACK is not half the sequence space old. -/
def AckFresh (c : Core) (seg : InSegment) : Prop :=
  seg.flags.ack = true → -1073741824 < dist seg.ackno c.lastack

namespace Complete

variable {c c' : Core}

/-- Where the last bytes of the stream lie, seen from `lastack`. -/
theorem place (h : Complete base c) (hf : Flight c) {j : ℕ} (hj : j ≤ (written c.log).length)
    (hn : (written c.log).length < j + 536870912) : Near c.lastack (base + u32 j) := by
  obtain ⟨f, hle, hlbb⟩ : ∃ f ≤ 1, c.sndLbb = base + u32 ((written c.log).length + f) := by
    rcases h.lbb with e | e
    · exact ⟨0, by omega, e⟩
    · exact ⟨1, le_rfl, e⟩
  have h1 := hf.bounds
  have h2 := hf.lbb
  have hd : dist (base + u32 j) c.lastack =
      dist c.sndLbb c.lastack + (-((written c.log).length + f - j : ℕ) : ℤ) := by
    obtain ⟨n, hn'⟩ := Nat.exists_eq_add_of_le (show j ≤ (written c.log).length + f by omega)
    have h3 := dist_add_u32 (base + u32 j) c.lastack n
    have h4 : base + u32 j = c.sndLbb + BitVec.ofInt 32 (-(n : ℤ)) := by
      rw [hlbb, hn', u32_add, ← BitVec.add_assoc, BitVec.ofInt_neg, BitVec.ofInt_natCast]
      exact (add_neg_cancel_right _ _).symm
    rw [h4, dist_add_ofInt (by decide) _ _ _ (inHalf_32.mpr (by omega))]
    congr 1
    omega
  rw [Near, hd]
  omega

/-- The segments only moved. -/
theorem keeps (h : Complete base c) (hk : Keeps c c') (hlbb : c'.sndLbb = c.sndLbb)
    (hla : c'.lastack = c.lastack) (hfin : c'.tfFin = c.tfFin)
    (hw : written c'.log = written c.log) : Complete base c' where
  lbb := by rw [hw, hlbb]; exact h.lbb
  data j hj hn hd := by
    rw [hw] at hj hn
    rw [hla] at hd
    exact hk.holds (h.data j hj hn hd)
  fin hf hd := by
    rw [hw, hla] at hd
    exact hk.holdsFin (h.fin (hfin ▸ hf) hd)

end Complete

/-! ## Acknowledgments -/

/-- Where a byte of a queued segment lies, seen from `lastack`. -/
theorem Flight.dist_byte {c : Core} (hf : Flight c) {x : TcpSeg} (hx : x ∈ c.segs) {i : ℕ}
    (hi : i ≤ (bytes x.p).length) :
    dist (x.tcphdr.seqno + u32 i) c.lastack = x.pos c.lastack + i := by
  have h1 := hf.placed.high x hx
  have h2 := hf.bounds
  have hw := (hf.placed.sized x hx).whole
  rw [length_bytes, ← hw] at hi
  unfold TcpSeg.dataStop TcpSeg.pos at h1
  exact dist_add_u32 _ _ _ (by split_ifs at h1 <;> omega)

/-- A segment that an ACK takes ends at or before it. -/
theorem Flight.stop_le {c : Core} (hf : Flight c) {ackno : U32} (hd : Near c.lastack ackno)
    {x : TcpSeg} (hx : x ∈ c.segs) (hle : tcpSeqLeq x.endSeq ackno) :
    x.stop c.lastack ≤ dist ackno c.lastack := by
  rw [tcpSeqLeq_iff (hf.near_endSeq hx) hd, hf.dist_endSeq hx] at hle
  exact hle

/-- An ACK that takes unsent segments acknowledges nothing behind `snd_nxt`. -/
theorem Flight.near_ackno {c : Core} (hf : Flight c) {ackno a : U32}
    (hd : -1073741824 < dist ackno c.lastack) (hb : tcpSeqBetween ackno a c.sndNxt) :
    Near c.lastack ackno ∧ dist ackno c.lastack ≤ dist c.sndNxt c.lastack := by
  have h1 := hf.nxt
  have h2 := hf.bounds
  have h3 := dist_upper ackno c.lastack
  have hle : dist ackno c.sndNxt ≤ 0 := hb.2
  rw [dist_eq_sub (by decide) c.lastack (inHalf_32.mpr (by omega))] at hle
  exact ⟨⟨by omega, by omega⟩, by omega⟩

theorem mem_dropWhile_or {α : Type} (p : α → Bool) {l : List α} {x : α} (hx : x ∈ l) :
    x ∈ l.dropWhile p ∨ p x = true := by
  rw [← List.takeWhile_append_dropWhile (p := p) (l := l)] at hx
  rcases List.mem_append.mp hx with hx | hx
  · exact .inr (List.mem_takeWhile_imp hx)
  · exact .inl hx

/-- What is taken ends at `d` or before: the bytes behind it are still queued. -/
theorem Flight.holds_behind {c c' : Core} (hf : Flight c) {d : ℤ}
    (hq : ∀ x ∈ c.segs, x ∈ c'.segs ∨ x.stop c.lastack ≤ d) {y : U32} (hy : c.Holds y)
    (hd : d ≤ dist y c.lastack) : c'.Holds y := by
  obtain ⟨x, hx, hsyn, i, hi, rfl⟩ := hy
  rcases hq x hx with hx' | hstop
  · exact ⟨x, hx', hsyn, i, hi, rfl⟩
  · rw [hf.dist_byte hx hi.le] at hd
    have hw := (hf.placed.sized x hx).whole
    rw [length_bytes, ← hw] at hi
    have h1 := x.dataStop_le c.lastack
    unfold TcpSeg.dataStop at h1
    split_ifs at h1 <;> omega

theorem Carry.holdsFin_behind {c c' : Core} (hc : Carry base c) {d : ℤ}
    (hq : ∀ x ∈ c.segs, x ∈ c'.segs ∨ x.stop c.lastack ≤ d) (hy : c.HoldsFin)
    (hd : d ≤ dist (base + u32 (written c.log).length) c.lastack) : c'.HoldsFin := by
  obtain ⟨x, hx, hfin⟩ := hy
  rcases hq x hx with hx' | hstop
  · exact ⟨x, hx', hfin⟩
  · rcases hc.segs x hx with ⟨-, -, hf⟩ | ⟨hsyn, k, -, hl⟩
    · rw [hfin] at hf
      cases hf
    · have hend := (hl.fin hfin).2
      rw [← hend, u32_add, ← BitVec.add_assoc, ← hl.seqno, hc.flight.dist_byte hx le_rfl,
        length_bytes, ← (hc.flight.placed.sized x hx).whole] at hd
      unfold TcpSeg.stop TcpSeg.tcplen TcpFlags.finSyn at hstop
      rw [hfin, Bool.true_or, if_pos rfl] at hstop
      push_cast at hstop
      omega

/-- The part of `tcp_receive` under `flags & TCP_ACK`. -/
theorem Complete.tcpReceiveAck {seg : InSegment} (h : Complete base s.core)
    (hc : Carry base s.core) (hr : Rudp.tcpReceiveAck s seg = .ok s')
    (hd : -1073741824 < dist seg.ackno s.core.lastack) : Complete base s'.core := by
  obtain ⟨q, hq, he⟩ := tcpReceiveAck_spec hr
  have hf := hc.flight
  have hv := endView_tcpReceiveAck hr
  have hl : s'.core.sndLbb = s.core.sndLbb := congrArg EndView.sndLbb hv
  have hfin : s'.core.tfFin = s.core.tfFin := congrArg EndView.tfFin hv
  have hw : written s'.core.log = written s.core.log :=
    congrArg (fun v => written v.log) hv
  have hla : s'.core.lastack = q.lastack := congrArg AckedQueues.lastack he
  have hu : s'.core.unsent = unsentFrom seg.ackno s.core.sndNxt q.unsent :=
    congrArg AckedQueues.unsent he
  have ha : s'.core.unacked = q.unacked := congrArg AckedQueues.unacked he
  -- what the loop over `unsent` takes
  have hun (x : TcpSeg) (hx : x ∈ s.core.segs) (hx' : x ∈ q.unsent) :
      x ∈ s'.core.segs ∨ (x.stop s.core.lastack ≤ dist seg.ackno s.core.lastack ∧
        dist seg.ackno s.core.lastack ≤ dist s.core.sndNxt s.core.lastack) := by
    rcases mem_dropWhile_or
      (fun x : TcpSeg => decide (tcpSeqBetween seg.ackno x.endSeq s.core.sndNxt)) hx' with hm | hm
    · left
      apply List.mem_append_left
      rw [hu]
      exact hm
    · right
      have hb : tcpSeqBetween seg.ackno x.endSeq s.core.sndNxt := by simpa using hm
      obtain ⟨h1, h2⟩ := hf.near_ackno hd hb
      have hge := hb.1
      rw [tcpSeqGeq_iff h1 (hf.near_endSeq hx), hf.dist_endSeq hx] at hge
      exact ⟨hge, h2⟩
  -- `lastack` stays, and what is taken lies before it
  have hsame (hla' : s'.core.lastack = s.core.lastack)
      (hq : ∀ x ∈ s.core.segs, x ∈ s'.core.segs ∨ x.stop s.core.lastack ≤ 0) :
      Complete base s'.core := by
    refine ⟨by rw [hl, hw]; exact h.lbb, fun j hj hn hd => ?_, fun hn hd => ?_⟩
    · rw [hw] at hj hn
      rw [hla'] at hd
      exact hf.holds_behind hq (h.data j hj hn hd) hd
    · rw [hw, hla'] at hd
      exact hc.holdsFin_behind hq (h.fin (hfin ▸ hn) hd) hd
  cases hq with
  | old hle =>
    refine hsame hla fun x hx => ?_
    have hle : dist seg.ackno s.core.lastack ≤ 0 := hle
    rcases List.mem_append.mp hx with hm | hm
    · exact (hun x hx hm).imp_right fun h => by omega
    · exact .inl (List.mem_append_right _ (by rw [ha]; exact hm))
  | out hnle hnb =>
    refine hsame hla fun x hx => ?_
    rcases List.mem_append.mp hx with hm | hm
    · refine (hun x hx hm).imp_right fun h => absurd ?_ hnb
      have h0 : 0 < dist seg.ackno s.core.lastack := by
        unfold tcpSeqLeq at hnle
        exact not_le.mp hnle
      have h2 := hf.bounds
      have hna : Near s.core.lastack seg.ackno := ⟨by omega, by omega⟩
      have hone : dist (s.core.lastack + 1) s.core.lastack = 1 := by
        rw [dist_add_one _ _ (by rw [Serial.dist_self]; decide), Serial.dist_self, zero_add]
      show tcpSeqBetween seg.ackno (s.core.lastack + 1) s.core.sndNxt
      rw [tcpSeqBetween_iff hna ⟨by omega, by omega⟩ hf.near_nxt]
      omega
    · exact .inl (List.mem_append_right _ (by rw [ha]; exact hm))
  | rexmit g rest hack hg =>
    have hack : s.core.lastack = seg.ackno := hack
    have hg : s.core.unacked = g :: rest := hg
    refine hsame hla fun x hx => ?_
    have h0 : dist seg.ackno s.core.lastack = 0 := by rw [hack, Serial.dist_self]
    have hin : x ∈ insertSeg g s.core.unsent ∨ x ∈ rest := by
      have hp := perm_insertSeg g s.core.unsent
      rcases List.mem_append.mp hx with hm | hm
      · exact .inl (hp.mem_iff.mpr (List.mem_cons_of_mem _ hm))
      · rw [hg] at hm
        rcases List.mem_cons.mp hm with rfl | hm
        · exact .inl (hp.mem_iff.mpr List.mem_cons_self)
        · exact .inr hm
    rcases hin with hm | hm
    · exact (hun x hx hm).imp_right fun h => by omega
    · exact .inl (List.mem_append_right _ (by rw [ha]; exact hm))
  | new hnle hbet =>
    obtain ⟨h0, h1⟩ := hf.between hbet hnle
    have hbd := hf.bounds
    have hna : Near s.core.lastack seg.ackno := ⟨by omega, by omega⟩
    have hla : s'.core.lastack = seg.ackno := hla
    have hgone (x : TcpSeg) (hx : x ∈ s.core.segs) :
        x ∈ s'.core.segs ∨ x.stop s.core.lastack ≤ dist seg.ackno s.core.lastack := by
      rcases List.mem_append.mp hx with hm | hm
      · exact (hun x hx hm).imp_right And.left
      · rcases mem_dropWhile_or (fun x : TcpSeg => decide (tcpSeqLeq x.endSeq seg.ackno)) hm
          with hm | hm
        · left
          apply List.mem_append_right
          rw [ha]
          exact hm
        · exact .inr (hf.stop_le hna hx (by simpa using hm))
    have hy {y : U32} (hn : Near s.core.lastack y) (hd : 0 ≤ dist y s'.core.lastack) :
        dist seg.ackno s.core.lastack ≤ dist y s.core.lastack := by
      rw [hla, hn.dist hna] at hd
      omega
    refine ⟨by rw [hl, hw]; exact h.lbb, fun j hj hn hd => ?_, fun hn hd => ?_⟩
    · rw [hw] at hj hn
      have hd' := hy (h.place hf hj.le hn) hd
      exact hf.holds_behind hgone (h.data j hj hn (by omega)) hd'
    · rw [hw] at hd
      have hd' := hy (h.place hf le_rfl (by omega)) hd
      exact hc.holdsFin_behind hgone (h.fin (hfin ▸ hn) (by omega)) hd'

/-! ## Queueing -/

/-- What `tcp_write` extends keeps what it had. -/
theorem Extends.stays {last last' : TcpSeg} {ext : List Byte} (h : Extends last last' ext)
    (hp : last.p ≠ []) : last.Stays last' := by
  have hh : last'.tcphdr.seqno = last.tcphdr.seqno ∧
      last'.tcphdr.flags.syn = last.tcphdr.flags.syn ∧
      last'.tcphdr.flags.fin = last.tcphdr.flags.fin := by
    rcases h.hdr with e | e <;> rw [e] <;> exact ⟨rfl, rfl, rfl⟩
  refine ⟨hh.1, hh.2.1, ?_, fun hf => hh.2.2.trans hf⟩
  rw [h.data hp]
  exact List.prefix_append _ _

/-- The new segments have all bytes that they were made for. -/
theorem Segmented.holds {id : ConnectId} {copy : Bool} {m : ℕ} {seqno : U32} {data : List Byte}
    {q : List TcpSeg} (h : Segmented id copy m seqno data q) {i : ℕ} (hi : i < data.length) :
    ∃ x ∈ q, x.tcphdr.flags.syn = false ∧
      ∃ j < (bytes x.p).length, x.tcphdr.seqno + u32 j = seqno + u32 i := by
  induction q generalizing seqno data i with
  | nil =>
    rw [show data = [] from h] at hi
    cases hi
  | cons seg rest ih =>
    obtain ⟨-, h2, h3, -, h5, -, -, -, data', rfl, hrest⟩ := h
    by_cases hlt : i < (bytes seg.p).length
    · exact ⟨seg, List.mem_cons_self, (TcpFlags.syn_of_plain h3).1, i, hlt, by rw [h2]⟩
    · have hlen : seg.len = (bytes seg.p).length := by rw [h5, length_bytes]
      rw [List.length_append] at hi
      obtain ⟨x, hx, hsyn, j, hj, he⟩ := ih hrest (i := i - seg.len) (by omega)
      refine ⟨x, List.mem_cons_of_mem _ hx, hsyn, j, hj, ?_⟩
      rw [he, BitVec.add_assoc, ← u32_add]
      congr 2
      omega

/-- `tcp_write` changes no segment but the last unsent one, which it extends. -/
theorem keeps_tcpWrite {arg : List Byte} {copy more : Bool} {err : Err} (hf : Flight s.core)
    (hw : tcpWrite s arg copy more = .ok (err, s')) : Keeps s.core s'.core := by
  have hs := (tcpWrite_queues hw).sameConn
  have hunacked {x : TcpSeg} (hx : x ∈ s.pcb.unacked) : ∃ x' ∈ s'.core.segs, x.Stays x' :=
    ⟨x, List.mem_append_right _ (hs.unacked ▸ hx), .refl x⟩
  -- the last segment is replaced
  have hlast {init q : List TcpSeg} {last last' : TcpSeg} (e : s.pcb.unsent = init ++ [last])
      (e' : s'.pcb.unsent = init ++ last' :: q) (hst : last.Stays last') :
      Keeps s.core s'.core := by
    intro x hx
    rcases List.mem_append.mp hx with hm | hm
    · change x ∈ s.pcb.unsent at hm
      rw [e] at hm
      have hin (y : TcpSeg) (hy : y ∈ init ++ last' :: q) : y ∈ s'.core.segs :=
        List.mem_append_left _ (show y ∈ s'.pcb.unsent from e' ▸ hy)
      rcases List.mem_append.mp hm with hm | hm
      · exact ⟨x, hin x (List.mem_append_left _ hm), .refl x⟩
      · rw [List.mem_singleton.mp hm]
        exact ⟨last', hin last' (by simp), hst⟩
    · exact hunacked hm
  rcases tcpWrite_spec hf.mss.2 hw with ⟨-, -, -, -, hu⟩ | ⟨-, -, -, -, ext, queue, hwr⟩
  · rcases hu with e | ⟨init, last, bump, e, e', -⟩
    · intro x hx
      rcases List.mem_append.mp hx with hm | hm
      · exact ⟨x, List.mem_append_left _ (show x ∈ s'.pcb.unsent from e ▸ hm), .refl x⟩
      · exact hunacked hm
    · exact hlast e e' ⟨rfl, rfl, List.prefix_rfl, id⟩
  · rcases hwr.unsent with ⟨e, -, -⟩ | ⟨init, last, last', e, e', hext, -, -⟩
    · intro x hx
      rcases List.mem_append.mp hx with hm | hm
      · rw [show s.core.unsent = [] from e] at hm
        cases hm
      · exact hunacked hm
    · refine hlast e e' (hext.stays (hf.placed.sized last ?_).chain)
      exact List.mem_append_left _ (show last ∈ s.pcb.unsent by rw [e]; simp)

/-- `tcp_send_fin` sets a flag or queues one more segment. -/
theorem keeps_tcpSendFin {err : Err} (hw : tcpSendFin s = .ok (err, s')) :
    Keeps s.core s'.core := by
  have hs := (tcpSendFin_queues hw).sameConn
  intro x hx
  rcases List.mem_append.mp hx with hm | hm
  · change x ∈ s.pcb.unsent at hm
    have hin {y : TcpSeg} (hy : y ∈ s'.pcb.unsent) : y ∈ s'.core.segs := List.mem_append_left _ hy
    rcases tcpSendFin_spec hw with ⟨-, -, -, -, e⟩ | ⟨-, -, ⟨init, last, e, -, e', -⟩ | ⟨e', -⟩⟩
    · exact ⟨x, hin (e ▸ hm), .refl x⟩
    · rw [e] at hm
      rcases List.mem_append.mp hm with hm | hm
      · exact ⟨x, hin (e' ▸ List.mem_append_left _ hm), .refl x⟩
      · rw [List.mem_singleton.mp hm]
        exact ⟨last.setFin, hin (e' ▸ by simp), rfl, rfl, List.prefix_rfl, fun _ => rfl⟩
    · exact ⟨x, hin (e' ▸ List.mem_append_left _ hm), .refl x⟩
  · exact ⟨x, List.mem_append_right _ (hs.unacked ▸ hm), .refl x⟩

namespace Complete

/-- The argument of `tcp_write` is queued. -/
theorem tcpWrite {arg : List Byte} {copy more : Bool} {err : Err} (h : Complete base s.core)
    (hc : Carry base s.core) (hP : s.pcb.tfFin = false ∧ s.core.TailEnds)
    (hw : Rudp.tcpWrite s arg copy more = .ok (err, s'))
    (hc' : Carry base (if err = .ok then s'.emit (.wrote arg) else s').core) :
    Complete base (if err = .ok then s'.emit (.wrote arg) else s').core := by
  have hs := (tcpWrite_queues hw).sameConn
  have hk := keeps_tcpWrite hc.flight hw
  obtain ⟨hfin, htail⟩ := hP
  rcases tcpWrite_spec hc.flight.mss.2 hw with
    ⟨hne, h1, h2, -, -⟩ | ⟨rfl, hbuf, -, hcom, ext, queue, hwr⟩
  · rw [if_neg hne]
    exact h.keeps hk h2 hs.lastack h1 (by rw [hs.log])
  rw [if_pos rfl] at hc' ⊢
  have hce := core_emit (Out.silent_wrote arg) s'
  have hS : written (s'.emit (.wrote arg)).core.log = written s.core.log ++ arg := by
    rw [hce, written_append, written_wrote, hs.log]
  have hfin' : (s'.emit (.wrote arg)).core.tfFin = false := by
    rw [hce]
    exact hcom.tfFin.trans hfin
  have hholds {x : U32} (hx : s'.core.Holds x) : (s'.emit (.wrote arg)).core.Holds x := by
    rw [hce]
    exact hx
  have hlbb₀ : s.core.sndLbb = base + u32 (written s.core.log).length := hc.lbb hfin
  refine ⟨.inl (hc'.lbb hfin'), fun j hj hn hd => ?_, fun hf => ?_⟩
  · rw [hS, List.length_append] at hj hn
    rw [hce] at hd
    change 0 ≤ dist (base + u32 j) s'.core.lastack at hd
    rw [hs.lastack] at hd
    apply hholds
    by_cases hold : j < (written s.core.log).length
    · exact hk.holds (h.data j hold (by omega) hd)
    obtain ⟨i, rfl⟩ := Nat.exists_eq_add_of_le (not_lt.mp hold)
    rw [u32_add, ← BitVec.add_assoc, ← hlbb₀]
    obtain ⟨rest, hrest, hseg⟩ := hwr.data
    have hlen : arg.length = ext.length + rest.length := by rw [hrest, List.length_append]
    by_cases hext : i < ext.length
    · -- in the last segment, which is no SYN, as a SYN has no spare room
      rcases hwr.unsent with ⟨-, he, -⟩ | ⟨init, last, last', e, e', hx, -, hfill⟩
      · rw [he] at hext
        cases hext
      have hin : last ∈ s.core.segs :=
        List.mem_append_left _ (show last ∈ s.pcb.unsent by rw [e]; simp)
      have hsz := hc.flight.placed.sized last hin
      have hst := hx.stays hsz.chain
      have hsyn : last.tcphdr.flags.syn = false := by
        by_contra hsyn
        obtain ⟨g1, g2, -⟩ := hc.bare.segs last hin (by simpa using hsyn)
        have hnc : ¬ chains s.pcb arg.length := by
          rintro ⟨last₁, hl, -, -, hpos⟩
          rw [e, List.getLast?_concat] at hl
          obtain rfl := Option.mem_some_iff.mp hl
          omega
        have hspare := (hfill hnc).spare.1
        omega
      refine ⟨last', List.mem_append_left _ (show last' ∈ s'.pcb.unsent by rw [e']; simp),
        hst.syn.trans hsyn, last.len + i, ?_, ?_⟩
      · rw [hx.data hsz.chain, List.length_append, length_bytes, ← hsz.whole]
        omega
      · rw [hst.seqno, u32_add, ← BitVec.add_assoc,
          htail last (by rw [show s.core.unsent = init ++ [last] from e]; simp) hsyn]
    · obtain ⟨x, hx, hsyn, k, hk', he⟩ := hseg.holds (i := i - ext.length) (by omega)
      refine ⟨x, List.mem_append_left _ (show x ∈ s'.pcb.unsent from ?_), hsyn, k, hk', ?_⟩
      · rcases hwr.unsent with ⟨-, -, e'⟩ | ⟨init, last, last', -, e', -⟩
        · exact e' ▸ hx
        · rw [e']
          simp [hx]
      · rw [he, BitVec.add_assoc, ← u32_add]
        show s.pcb.sndLbb + _ = s.pcb.sndLbb + _
        congr 2
        omega
  · rw [hfin'] at hf
    cases hf

/-- The FIN is queued. -/
theorem tcpSendFin {st : TcpState} {err : Err} (h : Complete base s.core)
    (hc : Carry base s.core) (hfin : s.pcb.tfFin = false)
    (hw : Rudp.tcpSendFin s = .ok (err, s')) :
    Complete base (if err = .ok then { s' with pcb.state := st } else s').core := by
  have hs := (tcpSendFin_queues hw).sameConn
  have hk := keeps_tcpSendFin hw
  rcases tcpSendFin_spec hw with ⟨hne, h1, h2, -, -⟩ | ⟨rfl, -, hu⟩
  · rw [if_neg hne]
    exact h.keeps hk h2 hs.lastack h1 (by rw [hs.log])
  rw [if_pos rfl]
  have hlbb₀ : s.pcb.sndLbb = base + u32 (written s.core.log).length := hc.lbb hfin
  refine ⟨?_, fun j hj hn hd => ?_, fun _ _ => ?_⟩
  · show s'.core.sndLbb = _ ∨ s'.core.sndLbb = _
    rw [show written ({ s' with pcb.state := st } : St W).core.log = written s.core.log from
      congrArg written hs.log]
    rcases hu with ⟨-, -, -, -, -, e, -⟩ | ⟨-, e, -⟩
    · exact .inl (e.trans hlbb₀)
    · right
      rw [u32_add, ← BitVec.add_assoc, ← hlbb₀]
      exact e
  · change j < (written s'.core.log).length at hj
    change (written s'.core.log).length < _ at hn
    change 0 ≤ dist _ s'.core.lastack at hd
    rw [hs.log] at hj hn
    rw [hs.lastack] at hd
    exact hk.holds (h.data j hj hn hd)
  · show s'.core.HoldsFin
    rcases hu with ⟨init, last, -, -, e', -⟩ | ⟨e', -⟩
    · exact ⟨last.setFin, List.mem_append_left _ (show _ ∈ s'.pcb.unsent by rw [e']; simp), rfl⟩
    · exact ⟨s.pcb.flagSeg { fin := true },
        List.mem_append_left _ (show _ ∈ s'.pcb.unsent by rw [e']; simp), rfl⟩

/-- The ACK of the SYN takes the SYN. -/
theorem establish {seg : InSegment} {rseg : TcpSeg} {rest : List TcpSeg}
    (h : Complete base s.core) (hc : Carry base s.core) (hst : s.pcb.state = .SYN_SENT)
    (hq : s.pcb.unacked = rseg :: rest) (hack : seg.ackno = rseg.tcphdr.seqno + 1) :
    Complete base ({ s with pcb := Rudp.establish s.pcb seg rest } : St W).core := by
  have hf := hc.flight
  have hmem : rseg ∈ s.core.segs :=
    List.mem_append_right _ (show rseg ∈ s.pcb.unacked by rw [hq]; exact List.mem_cons_self)
  obtain ⟨hsyn, hpos⟩ : rseg.tcphdr.flags.syn = true ∧ rseg.pos s.core.lastack = 0 := by
    have h0 := (hf.synSent hst).2.2
    rw [show s.core.unacked = rseg :: rest from hq] at h0
    rcases h0 with h0 | ⟨syn, q, he, hsyn, hpos, -⟩
    · cases h0
    · obtain ⟨rfl, -⟩ := List.cons.inj he
      exact ⟨hsyn, hpos⟩
  obtain ⟨-, hbase, hnofin⟩ := (hc.segs rseg hmem).resolve_right (by
    rw [hsyn]
    rintro ⟨h0, -⟩
    cases h0)
  have hseq : rseg.tcphdr.seqno = s.core.lastack := by
    unfold TcpSeg.pos at hpos
    exact Serial.dist_eq_zero hpos
  have hkept (x : TcpSeg) (hx : x ∈ s.core.segs) (hne : x ≠ rseg) :
      x ∈ ({ s with pcb := Rudp.establish s.pcb seg rest } : St W).core.segs := by
    show x ∈ s.pcb.unsent ++ rest
    change x ∈ s.pcb.unsent ++ s.pcb.unacked at hx
    rw [hq] at hx
    simpa [hne] using hx
  -- seen from the old `lastack` the stream begins one behind it
  have hd' {y : U32} (hn : Near s.core.lastack y) (hd : 0 ≤ dist y seg.ackno) :
      0 ≤ dist y s.core.lastack := by
    have h1 : dist seg.ackno s.core.lastack = 1 := by
      rw [hack, hseq, dist_add_one _ _ (by rw [Serial.dist_self]; decide), Serial.dist_self,
        zero_add]
    rw [hn.dist ⟨by omega, by omega⟩] at hd
    omega
  refine ⟨h.lbb, fun j hj hn hd => ?_, fun hfin hd => ?_⟩
  · obtain ⟨x, hx, hxs, hi⟩ := h.data j hj hn (hd' (h.place hf hj.le hn) hd)
    refine ⟨x, hkept x hx ?_, hxs, hi⟩
    rintro rfl
    rw [hsyn] at hxs
    cases hxs
  · obtain ⟨x, hx, hxf⟩ := h.fin hfin (hd' (h.place hf le_rfl (by omega)) hd)
    refine ⟨x, hkept x hx ?_, hxf⟩
    rintro rfl
    rw [hnofin] at hxf
    cases hxf

end Complete

/-! ## The invariant -/

/-- On the active list nothing is lost. -/
structure Lossless (base : U32) (s : St W) : Prop where
  carry : Carry base s.core
  active : s.list = .active → s.pcb.state ≠ .TIME_WAIT ∧ Complete base s.core

namespace Lossless

/-- A step that keeps the queues, as seen by `Complete`. -/
theorem keeps (h : Lossless base s) (hc : Carry base s'.core)
    (hl : s'.list = .active → s.list = .active) (hst : s'.pcb.state = s.pcb.state)
    (hk : Keeps s.core s'.core) (hlbb : s'.core.sndLbb = s.core.sndLbb)
    (hla : s'.core.lastack = s.core.lastack) (hfin : s'.core.tfFin = s.core.tfFin)
    (hw : written s'.core.log = written s.core.log) : Lossless base s' where
  carry := hc
  active ha := by
    obtain ⟨h1, h2⟩ := h.active (hl ha)
    exact ⟨hst ▸ h1, h2.keeps hk hlbb hla hfin hw⟩

/-- The fields it speaks of. -/
theorem congr (h : Lossless base s) (hc : Carry base s'.core)
    (hl : s'.list = .active → s.list = .active) (hst : s'.pcb.state = s.pcb.state)
    (hq : s'.core.segs = s.core.segs) (hlbb : s'.core.sndLbb = s.core.sndLbb)
    (hla : s'.core.lastack = s.core.lastack) (hfin : s'.core.tfFin = s.core.tfFin)
    (hw : written s'.core.log = written s.core.log) : Lossless base s' :=
  h.keeps hc hl hst (.of_perm (hq ▸ .refl _)) hlbb hla hfin hw

/-- `tcp_receive` and what `tcp_process` does behind it. -/
theorem processReceive {seg : InSegment} {after : St W → St W} (h : Lossless base s)
    (hQ : AckFresh s.core seg) (hafter : ∀ t, Settles t.core (after t).core)
    (hstate : ∀ t, (after t).list = .active → t.list = .active ∧
      (t.pcb.state ≠ .TIME_WAIT → (after t).pcb.state ≠ .TIME_WAIT))
    (hr : tcpProcessReceive s seg after = .ok s') (hc : Carry base s'.core) : Lossless base s' := by
  refine ⟨hc, fun hl => ?_⟩
  have hls := active_tcpProcessReceive (fun t ht => (hstate t ht).1) hr hl
  obtain ⟨-, s₁, s₂, h₁, hrcv, h₂, rfl⟩ := processReceive_parts hr
  obtain ⟨hne, hco⟩ := h.active hls
  have hco₁ : Complete base s₁.core := by
    rcases h₁ with ⟨hack, h₁⟩ | ⟨-, rfl⟩
    · exact hco.tcpReceiveAck h.carry h₁ (hQ hack)
    · exact hco
  have hv : s₂.core.toSndView = s₁.core.toSndView := sndView_tcpReceiveData h₂
  have hne₂ : s₂.pcb.state ≠ .TIME_WAIT := by
    rcases state_tcpReceiveData h₂ with e | ⟨-, e⟩ <;> rw [e]
    · rw [show s₁.pcb.state = s.pcb.state from congrArg RcvView.state hrcv]
      exact hne
    · decide
  have hst := hafter s₂
  have hne' := (hstate s₂ hl).2 hne₂
  refine ⟨hne', ?_⟩
  rw [core_emit (by trivial)]
  have hlog : (after s₂).core.log = s₁.core.log := hst.log.trans (congrArg SndView.log hv)
  refine hco₁.keeps (.of_perm ?_) (hst.sndLbb.trans (congrArg SndView.sndLbb hv))
    (hst.lastack.trans (congrArg SndView.lastack hv)) (hst.tfFin.trans (congrArg SndView.tfFin hv)) ?_
  · show ((after s₂).core.unsent ++ (after s₂).core.unacked).Perm _
    rcases hst.queues with ⟨e1, e2⟩ | ⟨-, -, e⟩
    · rw [e1, e2, show s₂.core.unsent = s₁.core.unsent from congrArg SndView.unsent hv,
        show s₂.core.unacked = s₁.core.unacked from congrArg SndView.unacked hv]
      exact .refl _
    · exact absurd e hne'
  · rw [written_append, hlog, written_silent (by rintro arg ⟨⟩), List.append_nil]

end Lossless

/-- What follows `tcp_receive` leaves a pcb in `TIME_WAIT` only off the active list. -/
theorem timeWait_tcpProcessAfter {state : TcpState} {seg : InSegment}
    (hl : (tcpProcessAfter state seg s).list = .active) (hne : s.pcb.state ≠ .TIME_WAIT) :
    (tcpProcessAfter state seg s).pcb.state ≠ .TIME_WAIT := by
  revert hl hne
  unfold tcpProcessAfter toTimeWait tcpAckNow
  dsimp only
  split <;> (try split_ifs) <;> simp

theorem active_tcpProcessAcceptAfter (hl : (tcpProcessAcceptAfter s).list = .active) :
    s.list = .active ∧ (s.pcb.state ≠ .TIME_WAIT →
      (tcpProcessAcceptAfter s).pcb.state ≠ .TIME_WAIT) := by
  revert hl
  unfold tcpProcessAcceptAfter tcpAckNow
  dsimp only
  split <;> simp +contextual

/-- Every operation keeps what is not acknowledged. -/
theorem preserved_lossless : Preserved InOrder AckFresh fun s : St W => Lossless base s where
  frame {s s'} hI hc hl := hI.congr (hc ▸ hI.carry) hl
    (show s'.core.state = s.core.state by rw [hc]) (by rw [hc]) (by rw [hc]) (by rw [hc])
    (by rw [hc]) (by rw [hc])
  callback {s o} ho hI := by
    have hce := core_emit (Out.silent_of_isCallback ho) s
    refine hI.congr (preserved_carry.callback ho hI.carry) id rfl (by rw [hce]; rfl) (by rw [hce])
      (by rw [hce]) (by rw [hce]) ?_
    rw [hce, written_append, written_silent, List.append_nil]
    rintro arg rfl
    cases ho
  connect hP := hP.elim
  write {s s' arg copy more err} hP hw hI := by
    have hc := preserved_carry.write hP hw hI.carry
    refine ⟨hc, fun hl => ?_⟩
    obtain ⟨h1, h2⟩ := hI.active
      ((Micro.write (P := NoConnect) (Q := fun _ _ => True) trivial hw).active hl)
    refine ⟨?_, h2.tcpWrite hI.carry hP hw hc⟩
    have hst : s'.pcb.state = s.pcb.state := (tcpWrite_queues hw).sameConn.state
    rw [← hst] at h1
    split_ifs <;> exact h1
  recved hP hw hI := hI.congr (preserved_carry.recved hP hw hI.carry) id rfl rfl rfl rfl rfl rfl
  fin {s s' a st err} hP ha hst hw hI := by
    have hfin : s.pcb.tfFin = false := by
      have hne : closeState s.core.state ≠ none := by
        rw [show closeState s.core.state = some st from hst]
        simp
      rcases ha with rfl | ⟨rx, rfl⟩
      · exact (hP hne).1
      · exact (hP hne).1
    refine ⟨preserved_carry.fin hP ha hst hw hI.carry, fun hl => ?_⟩
    obtain ⟨h1, h2⟩ := hI.active ((Micro.fin (P := NoConnect) (Q := fun _ _ => True) (a := .close)
      trivial (.inl rfl) hst hw).active hl)
    refine ⟨?_, h2.tcpSendFin hI.carry hfin hw⟩
    have he : s'.pcb.state = s.pcb.state := (tcpSendFin_queues hw).sameConn.state
    split_ifs
    · revert hst
      show closeState s.pcb.state = some st → st ≠ .TIME_WAIT
      cases s.pcb.state <;> simp [closeState] <;> rintro rfl <;> simp
    · exact he ▸ h1
  output {s s' err} hr hI := by
    have hm := moves_tcpOutput hr
    have hv := rcvView_tcpOutput hr
    refine hI.keeps (preserved_carry.output hr hI.carry) (list_of_rcvView hv ▸ id)
      (congrArg RcvView.state hv :) (keeps_tcpOutput hr hI.carry.flight) hm.sndLbb
      (lastack_tcpOutput hr) hm.tfFin ?_
    rw [written_core, written_core]
    exact written_of_rcvView hv
  rexmitRto {s s'} hr hI := by
    have hm := moves_tcpRexmitRto hr
    have hv := rcvView_tcpRexmitRto hr
    refine hI.keeps (preserved_carry.rexmitRto hr hI.carry) (list_of_rcvView hv ▸ id)
      (congrArg RcvView.state hv :) (keeps_tcpRexmitRto hr hI.carry.flight) hm.sndLbb ?_ hm.tfFin ?_
    · unfold tcpRexmitRto at hr
      split at hr
      · cases hr
        rfl
      · obtain ⟨⟨err, s₁⟩, h₁, hr⟩ := Run.bind_eq_ok.mp hr
        cases hr
        exact (lastack_tcpOutput h₁).trans rfl
    · rw [written_core, written_core]
      exact written_of_rcvView hv
  probe {s} hI := by
    have hv := rcvView_tcpZeroWindowProbe s
    have hc := preserved_carry.probe hI.carry
    have hw : written (tcpZeroWindowProbe s).2.core.log = written s.core.log := by
      rw [written_core, written_core]
      exact written_of_rcvView hv
    obtain ⟨log, he, -⟩ := probe_core s
    exact hI.congr hc (list_of_rcvView hv ▸ id) (congrArg RcvView.state hv :) (by rw [he]; rfl)
      (by rw [he]) (by rw [he]) (by rw [he]) hw
  rexmit {s} hst hI := by
    have hm := moves_tcpRexmit s
    have hv := rcvView_tcpRexmit s
    refine hI.keeps (preserved_carry.rexmit hst hI.carry) (list_of_rcvView hv ▸ id)
      (congrArg RcvView.state hv :) (keeps_tcpRexmit s) hm.sndLbb ?_ hm.tfFin ?_
    · unfold tcpRexmit
      split <;> rfl
    · rw [written_core, written_core]
      exact written_of_rcvView hv
  rcvWndFin {s} hI := by
    have hc := preserved_carry.rcvWndFin hI.carry
    unfold Rudp.rcvWndFin at hc ⊢
    split
    · next h =>
      rw [if_pos h] at hc
      exact hI.congr hc id rfl rfl rfl rfl rfl rfl
    · exact hI
  mss h0 h1 hI := hI.congr (preserved_carry.mss h0 h1 hI.carry) id rfl rfl rfl rfl rfl rfl
  establish hst hq hlen hack hI := by
    refine ⟨preserved_carry.establish hst hq hlen hack hI.carry, fun hl => ?_⟩
    refine ⟨?_, (hI.active hl).2.establish hI.carry hst hq hack⟩
    show TcpState.ESTABLISHED ≠ _
    decide
  accept hst hbet hI := by
    refine ⟨preserved_carry.accept hst hbet hI.carry, fun hl => ?_⟩
    obtain ⟨h1, h2⟩ := (hI.active hl).2
    exact ⟨by show TcpState.ESTABLISHED ≠ _; decide, h1, h2, (hI.active hl).2.fin⟩
  receive hsyn hQ hr hI := hI.processReceive hQ (settles_tcpProcessAfter _ _)
    (fun _ hl => ⟨active_tcpProcessAfter hl, timeWait_tcpProcessAfter hl⟩) hr
    (preserved_carry.receive hsyn trivial hr hI.carry)
  receiveAccept {app s s₁ s' seg} happ hst h₀ hack h₁ hQ hr hI := by
    refine hI.processReceive hQ settles_tcpProcessAcceptAfter
      (fun _ hl => active_tcpProcessAcceptAfter hl) hr ?_
    exact hI.carry.processReceive settles_tcpProcessAcceptAfter hr
      (hI.carry.flight.processReceive settles_tcpProcessAcceptAfter hr)
      (hI.carry.bare.process segRule_bare settles_tcpProcessAcceptAfter hr)
  purge hl hI := by
    refine ⟨preserved_carry.purge hl hI.carry, fun h => absurd h hl⟩
  timeWait hr hl hst hu ha ho hI :=
    ⟨preserved_carry.timeWait hr hl hst hu ha ho hI.carry, fun h => absurd h hl⟩
  closed hl hu ha ho hI := ⟨preserved_carry.closed hl hu ha ho hI.carry, fun h => absurd h hl⟩
  clear hl hst hI := ⟨preserved_carry.clear hl hst hI.carry, fun h => absurd h hl⟩
  ooseq hI := hI.congr (preserved_carry.ooseq hI.carry) id rfl rfl rfl rfl rfl rfl

/-! ## Runs -/

/-- At first nothing is written. -/
theorem Opening.complete (h : Opening s) : Complete (s.pcb.lastack + 1) s.core := by
  have hlog : s.core.log = [] := by
    show s.trace.filter _ = []
    rw [h.trace]
    rfl
  refine ⟨.inl ?_, fun j hj => ?_, fun hf => ?_⟩
  · rw [hlog]
    show s.pcb.sndLbb = _ + u32 0
    rw [h.sndLbb]
    exact (add_zero _).symm
  · rw [hlog] at hj
    cases hj
  · rw [show s.core.tfFin = false from h.tfFin] at hf
    cases hf

theorem Begun.lossless (h : Begun s) : Lossless (s.pcb.lastack + 1) s := by
  refine ⟨h.carry, fun _ => ?_⟩
  obtain ⟨t, err, ht, hr⟩ := h.opening
  have hv := rcvView_tcpOutput hr
  have hm := moves_tcpOutput hr
  have hla : s.pcb.lastack = t.pcb.lastack := lastack_tcpOutput hr
  rw [hla]
  refine ⟨?_, ht.complete.keeps (keeps_tcpOutput hr ht.flight) hm.sndLbb hla hm.tfFin ?_⟩
  · rw [show s.pcb.state = t.pcb.state from congrArg RcvView.state hv]
    rcases ht.state with e | e <;> rw [e] <;> decide
  · rw [written_core, written_core]
    exact written_of_rcvView hv

/-- The `j`-th byte of the stream is queued, and its sequence number is that of its place. -/
def Core.HoldsByte (base : U32) (S : List Byte) (c : Core) (j : ℕ) : Prop :=
  ∃ seg ∈ c.segs, seg.tcphdr.flags.syn = false ∧ ∃ i < (bytes seg.p).length,
    seg.tcphdr.seqno + u32 i = base + u32 j ∧ (bytes seg.p)[i]? = S[j]?

/-- A FIN is queued behind the last byte of the stream. -/
def Core.HoldsEnd (base : U32) (S : List Byte) (c : Core) : Prop :=
  ∃ seg ∈ c.segs, seg.tcphdr.flags.fin = true ∧ seg.tcphdr.flags.syn = false ∧
    seg.tcphdr.seqno + u32 (bytes seg.p).length = base + u32 S.length

/-- What is queued under the number of a byte is this byte. -/
theorem Carry.holdsByte {c : Core} (h : Carry base c) {j : ℕ} (hj : j < (written c.log).length)
    (hn : (written c.log).length < j + 536870912) (hx : c.Holds (base + u32 j)) :
    c.HoldsByte base (written c.log) j := by
  obtain ⟨seg, hs, hsyn, i, hi, he⟩ := hx
  obtain ⟨-, k, hk, hl⟩ := (h.segs seg hs).resolve_left (by simp [hsyn])
  refine ⟨seg, hs, hsyn, i, hi, he, ?_⟩
  have hle := hl.slice.le
  have hsum : k + i = j := by
    rw [hl.seqno, BitVec.add_assoc, ← u32_add] at he
    have he := congrArg BitVec.toNat (add_left_cancel he)
    unfold u32 at he
    simp only [BitVec.toNat_ofNat] at he
    omega
  rw [hl.slice.getElem? hi, hsum]

/-- A FIN that is queued lies behind the last byte. -/
theorem Carry.holdsEnd {c : Core} (h : Carry base c) (hx : c.HoldsFin) :
    c.HoldsEnd base (written c.log) := by
  obtain ⟨seg, hs, hfin⟩ := hx
  obtain ⟨hsyn, k, -, hl⟩ := (h.segs seg hs).resolve_left (by simp [hfin])
  refine ⟨seg, hs, hfin, hsyn, ?_⟩
  rw [← (hl.fin hfin).2, u32_add, ← BitVec.add_assoc, hl.seqno]

/-- In every run in which data and FIN are queued in order and no ACK is half the sequence space old,
    a pcb on the active list has each of the last 2^29 bytes written that is not acknowledged on one of
    its queues, at its place, and the FIN behind the last byte, whatever arrives, expires or fails. -/
theorem nothing_lost {app : App W} {s₀ : St W} (happ : AppOk InOrder app) (h₀ : Begun s₀)
    (hr : Run.Reach (connStep app) (Preserved.StepOk InOrder AckFresh app) s₀ s)
    (hl : s.list = .active) :
    (∀ j < (written s.trace).length, (written s.trace).length < j + 536870912 →
      0 ≤ dist (s₀.pcb.lastack + 1 + u32 j) s.pcb.lastack →
        s.core.HoldsByte (s₀.pcb.lastack + 1) (written s.trace) j) ∧
    (s.pcb.tfFin = true →
      0 ≤ dist (s₀.pcb.lastack + 1 + u32 (written s.trace).length) s.pcb.lastack →
        s.core.HoldsEnd (s₀.pcb.lastack + 1) (written s.trace)) := by
  have hL := preserved_lossless.reach happ h₀.lossless hr
  obtain ⟨-, h⟩ := hL.active hl
  rw [← written_core]
  exact ⟨fun j hj hn hd => hL.carry.holdsByte hj hn (h.data j hj hn hd),
    fun hf hd => hL.carry.holdsEnd (h.fin hf hd)⟩

/-! ### A run -/

/-- In `SYN_SENT` nothing gets to `tcp_receive`. -/
theorem stepOk_synAck {wnd : ℕ} :
    Preserved.StepOk InOrder AckFresh idleApp connecting (synAckOp wnd) := by
  rintro t ⟨s₁, h₁, -, s₂, rfl, ⟨-, -, hsyn, -⟩ | ⟨hst, -⟩⟩
  · cases hsyn
  · cases h₁
    cases hst

/-- Two bytes are written and sent, and the pcb is closed. -/
theorem nothing_lost_closing : ∃ s : St Unit, Run.exec (connStep idleApp) connecting
    ([synAckOp TCP_WND] ++ writeOps [7, 8] ++ [([], .api .close)]) = .ok s ∧
      written s.trace = [7, 8] ∧ s.core.HoldsByte 1000 [7, 8] 1 ∧ s.core.HoldsEnd 1000 [7, 8] := by
  have hr : ∃ s : St Unit, Run.exec (connStep idleApp) connecting
      ([synAckOp TCP_WND] ++ writeOps [7, 8] ++ [([], .api .close)]) = .ok s ∧
      Run.Reach (connStep idleApp) (Preserved.StepOk InOrder AckFresh idleApp) connecting s ∧
      written s.trace = [7, 8] ∧ s.list = .active ∧ s.pcb.tfFin = true ∧
      s.pcb.lastack = 1000 := by
    exact ⟨_, rfl, .step ([], .api .close) (.step ([], .api .output)
      (.step ([], .api (.write [7, 8] true false)) (.step (synAckOp TCP_WND) .refl stepOk_synAck rfl)
        ⟨rfl, .of_nil rfl⟩ rfl) trivial rfl) (fun _ => ⟨rfl, .of_nil rfl⟩) rfl, rfl, rfl, rfl, rfl⟩
  obtain ⟨s, he, hr, hw, hl, hfin, hla⟩ := hr
  have h := nothing_lost appOk_idleApp begun_connecting hr hl
  rw [hw, hla] at h
  exact ⟨s, he, hw, h.1 1 (by decide) (by decide) (by decide), h.2 hfin (by decide)⟩

end Rudp

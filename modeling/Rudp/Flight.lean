import Rudp.Ack

/-!
# The sending side of a connection

`Flight` is the invariant of the sending side that every run keeps: the queued segments lie near
`lastack` (`Placed`), `snd_buf` is what `snd_lbb` leaves of `TCP_SND_BUF`, and `snd_nxt` is between
`lastack` and the sequence number behind everything queued.

Results:
* `preserved_flight`: every operation keeps it.
* `Opening.flight`: it holds when the SYN is queued.
-/

namespace Rudp

open Serial

variable {W : Type} {s s' : St W}

/-! ## The invariant -/

/-- The SYN is the first segment. -/
def SynFirst (r : U32) (q : List TcpSeg) : Prop :=
  ∃ syn rest, q = syn :: rest ∧ syn.tcphdr.flags.syn = true ∧ syn.pos r = 0 ∧
    ∀ x ∈ rest, 0 < x.pos r

theorem SynFirst.append {r : U32} {q q' : List TcpSeg} (h : SynFirst r q)
    (hq : ∀ x ∈ q', 0 < x.pos r) : SynFirst r (q ++ q') := by
  obtain ⟨syn, rest, rfl, hf, h0, hr⟩ := h
  refine ⟨syn, rest ++ q', rfl, hf, h0, fun x hx => ?_⟩
  rcases List.mem_append.mp hx with hx | hx
  · exact hr x hx
  · exact hq x hx

/-- The last segment is replaced. -/
theorem SynFirst.grow {r : U32} {init : List TcpSeg} {last last' : TcpSeg}
    (h : SynFirst r (init ++ [last])) (hseq : last'.tcphdr.seqno = last.tcphdr.seqno)
    (hsyn : last'.tcphdr.flags.syn = last.tcphdr.flags.syn) : SynFirst r (init ++ [last']) := by
  have hpos : last'.pos r = last.pos r := by
    unfold TcpSeg.pos
    rw [hseq]
  obtain ⟨syn, rest, he, hf, h0, hr⟩ := h
  cases init with
  | nil =>
    rw [List.nil_append] at he
    injection he with e1 e2
    subst e1 e2
    exact ⟨last', [], rfl, hsyn.trans hf, hpos.trans h0, fun x hx => by cases hx⟩
  | cons a u =>
    rw [List.cons_append] at he
    injection he with e1 e2
    subst e1 e2
    refine ⟨a, u ++ [last'], rfl, hf, h0, fun x hx => ?_⟩
    rcases List.mem_append.mp hx with hx | hx
    · exact hr x (List.mem_append_left _ hx)
    · obtain rfl := List.mem_singleton.mp hx
      rw [hpos]
      exact hr last (by simp)

/-- The sending side of a connection. -/
structure Flight (c : Core) : Prop where
  mss : 0 < c.mss ∧ c.mss ≤ TCP_MSS
  lbb : -1 ≤ dist c.sndLbb c.lastack ∧ dist c.sndLbb c.lastack + c.sndBuf = TCP_SND_BUF
  nxt : 0 ≤ dist c.sndNxt c.lastack ∧ dist c.sndNxt c.lastack ≤ dist c.sndLbb c.lastack + 1
  placed : Placed c.lastack (dist c.sndLbb c.lastack) c.unsent c.unacked
  early : c.state = .SYN_SENT ∨ c.state = .SYN_RCVD →
    1 ≤ dist c.sndLbb c.lastack ∧ ∀ x ∈ c.segs, 0 ≤ x.pos c.lastack
  /-- The SYN comes first. The queues are empty while the pcb is removed. -/
  synSent : c.state = .SYN_SENT → 1 ≤ dist c.sndNxt c.lastack ∧ c.sndQueuelen ≠ 0 ∧
    (c.unacked ++ c.unsent = [] ∨ SynFirst c.lastack (c.unacked ++ c.unsent))

namespace Flight

variable {c c' : Core}

/-- The fields it speaks of. -/
theorem congr (h : Flight c) (hm : c'.mss = c.mss) (hla : c'.lastack = c.lastack)
    (hn : c'.sndNxt = c.sndNxt) (hl : c'.sndLbb = c.sndLbb) (hb : c'.sndBuf = c.sndBuf)
    (hu : c'.unsent = c.unsent) (ha : c'.unacked = c.unacked)
    (hst : (c'.state = c.state ∧ c'.sndQueuelen = c.sndQueuelen) ∨
      (c'.state ≠ .SYN_SENT ∧ c'.state ≠ .SYN_RCVD)) : Flight c' where
  mss := hm ▸ h.mss
  lbb := by rw [hl, hla, hb]; exact h.lbb
  nxt := by rw [hn, hl, hla]; exact h.nxt
  placed := by rw [hl, hla, hu, ha]; exact h.placed
  early hs := by
    unfold Core.segs
    rw [hl, hla, hu, ha]
    rcases hst with e | e
    · exact h.early (e.1 ▸ hs)
    · exact absurd hs (by tauto)
  synSent hs := by
    rw [hn, hla, hu, ha]
    rcases hst with e | e
    · rw [e.2]
      exact h.synSent (e.1 ▸ hs)
    · exact absurd hs e.1

/-- The queues are thrown away. -/
theorem purge (h : Flight c) (hm : c'.mss = c.mss) (hla : c'.lastack = c.lastack)
    (hn : c'.sndNxt = c.sndNxt) (hl : c'.sndLbb = c.sndLbb) (hb : c'.sndBuf = c.sndBuf)
    (hu : c'.unsent = []) (ha : c'.unacked = [])
    (hst : (c'.state = c.state ∧ c'.sndQueuelen = c.sndQueuelen) ∨
      (c'.state ≠ .SYN_SENT ∧ c'.state ≠ .SYN_RCVD)) : Flight c' where
  mss := hm ▸ h.mss
  lbb := by rw [hl, hla, hb]; exact h.lbb
  nxt := by rw [hn, hl, hla]; exact h.nxt
  placed := by rw [hl, hla, hu, ha]; exact .nil h.placed.bound
  early hs := by
    unfold Core.segs
    rw [hl, hla, hu, ha]
    rcases hst with e | e
    · exact ⟨(h.early (e.1 ▸ hs)).1, fun x hx => by cases hx⟩
    · exact absurd hs (by tauto)
  synSent hs := by
    rw [hn, hla, hu, ha]
    rcases hst with e | e
    · rw [e.2]
      obtain ⟨h1, h2, -⟩ := h.synSent (e.1 ▸ hs)
      exact ⟨h1, h2, .inl rfl⟩
    · exact absurd hs e.1

/-- The numbers of the sending side are near `lastack`. -/
theorem bounds (h : Flight c) : dist c.sndLbb c.lastack ≤ 6432 ∧
    dist c.sndNxt c.lastack ≤ 6433 := by
  have h1 := h.placed.bound
  have h2 := h.nxt.2
  have e := sndBuf_eq
  omega

theorem near_nxt (h : Flight c) : Near c.lastack c.sndNxt := by
  have h1 := h.bounds
  have h2 := h.nxt
  exact ⟨by omega, by omega⟩

theorem near_lbb (h : Flight c) : Near c.lastack c.sndLbb := by
  have h1 := h.bounds
  have h2 := h.lbb
  exact ⟨by omega, by omega⟩

theorem near (h : Flight c) {x : TcpSeg} (hx : x ∈ c.segs) : Near c.lastack x.tcphdr.seqno :=
  h.placed.near hx

/-- The sequence number behind a queued segment. -/
theorem dist_endSeq (h : Flight c) {x : TcpSeg} (hx : x ∈ c.segs) :
    dist x.endSeq c.lastack = x.stop c.lastack := by
  have h1 := h.placed.stop hx
  have h2 := h.bounds
  unfold TcpSeg.stop TcpSeg.pos at *
  exact dist_add_u32 _ _ _ (by omega)

theorem near_endSeq (h : Flight c) {x : TcpSeg} (hx : x ∈ c.segs) : Near c.lastack x.endSeq := by
  have h1 := h.placed.stop hx
  have h2 := h.bounds
  have h3 := h.placed.low x hx
  have h4 := x.pos_le_stop c.lastack
  have e := slack_eq
  have e' := h.dist_endSeq hx
  exact ⟨by omega, by omega⟩

end Flight

/-! ## Transmissions -/

theorem TcpSeg.same_stamp (seg : TcpSeg) (pcb pcb' : Pcb) :
    seg.Same ((seg.prepare pcb).stamp pcb') :=
  ⟨rfl, rfl, rfl, rfl, rfl⟩

/-- `snd_nxt` behind the transmission of a segment. -/
def nxtBehind (sndNxt : U32) (seg : TcpSeg) : U32 :=
  if tcpSeqLt sndNxt seg.endSeq then seg.endSeq else sndNxt

/-- The head of `unsent` is transmitted. -/
theorem core_tcpOutputSent {s₁ : St W} {seg seg' : TcpSeg} (rest : List TcpSeg)
    (h : tcpOutputSegment s (seg.prepare s.pcb) = (.ok, seg', s₁)) :
    seg' = (seg.prepare s.pcb).stamp s.pcb ∧
      (tcpOutputSent s₁ seg' rest).core = { s.core with
        unsent := rest
        unacked := if seg.tcplen > 0 then putUnacked seg' s.pcb.unacked else s.pcb.unacked
        sndNxt := nxtBehind s.pcb.sndNxt seg'
        log := s₁.core.log } := by
  obtain ⟨rfl, sent, -, hp, -, -⟩ := tcpOutputSegment_eq h
  refine ⟨rfl, ?_⟩
  set seg' := (seg.prepare s.pcb).stamp s.pcb with hseg'
  have hl : seg'.tcplen = seg.tcplen := (seg.same_stamp s.pcb s.pcb).tcplen
  have hc : (tcpOutputSent s₁ seg' rest).core = { s₁.core with
        unsent := rest
        unacked := if seg'.tcplen > 0 then putUnacked seg' s₁.pcb.unacked else s₁.pcb.unacked
        sndNxt := nxtBehind s₁.pcb.sndNxt seg' } := by
    unfold tcpOutputSent nxtBehind TcpSeg.endSeq
    dsimp only
    split_ifs <;> rfl
  rw [hc, hl]
  simp only [St.core, St.sndView, hp]
  rfl

/-- The head of `unsent` is handed to `ip_output_if`, which fails. -/
theorem core_tcpOutputFail {s₁ : St W} {seg seg' : TcpSeg} {err : Err} (rest : List TcpSeg)
    (h : tcpOutputSegment s (seg.prepare s.pcb) = (err, seg', s₁)) :
    seg' = (seg.prepare s.pcb).stamp s.pcb ∧
      { s₁ with pcb.unsent := seg' :: rest, pcb.tfNagleMemErr := true }.core =
        { s.core with unsent := seg' :: rest, log := s₁.core.log } := by
  obtain ⟨rfl, sent, -, hp, -, -⟩ := tcpOutputSegment_eq h
  refine ⟨rfl, ?_⟩
  simp only [St.core, St.sndView, hp]
  rfl

namespace Flight

/-- `snd_nxt` moves forward, at most behind `snd_lbb`. -/
theorem nxtBehind {c : Core} (h : Flight c) {x : TcpSeg} (hx : x ∈ c.segs) :
    dist c.sndNxt c.lastack ≤ dist (nxtBehind c.sndNxt x) c.lastack ∧
      x.stop c.lastack ≤ dist (Rudp.nxtBehind c.sndNxt x) c.lastack ∧
      dist (Rudp.nxtBehind c.sndNxt x) c.lastack ≤ dist c.sndLbb c.lastack + 1 := by
  have h1 := h.placed.stop hx
  have h2 := h.nxt
  have h3 := h.dist_endSeq hx
  unfold Rudp.nxtBehind
  split
  · next hlt =>
    rw [tcpSeqLt_iff h.near_nxt (h.near_endSeq hx)] at hlt
    omega
  · next hge =>
    rw [tcpSeqLt_iff h.near_nxt (h.near_endSeq hx)] at hge
    omega

theorem nxtBehind_same (sndNxt : U32) {seg seg' : TcpSeg} (h : seg.Same seg') :
    Rudp.nxtBehind sndNxt seg' = Rudp.nxtBehind sndNxt seg := by
  unfold Rudp.nxtBehind TcpSeg.endSeq
  rw [h.seqno, h.tcplen]

theorem putUnacked_cons {seg syn : TcpSeg} {u : List TcpSeg} {r : U32} (h : syn.pos r = 0)
    (hp : 0 < seg.pos r) (hs : Near r syn.tcphdr.seqno) (hn : Near r seg.tcphdr.seqno) :
    ∃ u', putUnacked seg (syn :: u) = syn :: u' ∧ u'.Perm (seg :: u) := by
  have hlt : tcpSeqLt syn.tcphdr.seqno seg.tcphdr.seqno := by
    rw [tcpSeqLt_iff hs hn]
    unfold TcpSeg.pos at h hp
    omega
  unfold putUnacked
  split
  · next he => simp at he
  · split
    · refine ⟨insertSeg seg u, ?_, perm_insertSeg seg u⟩
      rw [insertSeg, if_pos hlt]
    · exact ⟨u ++ [seg], rfl, List.perm_append_singleton seg u⟩

theorem sent {c : Core} {seg seg' : TcpSeg} {rest : List TcpSeg} (log : List Out) (h : Flight c)
    (hq : c.unsent = seg :: rest) (hs : seg.Same seg') : Flight { c with
      unsent := rest
      unacked := if seg.tcplen > 0 then putUnacked seg' c.unacked else c.unacked
      sndNxt := Rudp.nxtBehind c.sndNxt seg'
      log := log } := by
  have hm : seg ∈ c.segs := by
    unfold Core.segs
    rw [hq]
    exact List.mem_cons_self
  obtain ⟨n1, n2, n3⟩ := h.nxtBehind hm
  rw [← nxtBehind_same _ hs] at n1 n2 n3
  have hpl := h.placed
  rw [hq] at hpl
  exact
    { mss := h.mss
      lbb := h.lbb
      nxt := ⟨h.nxt.1.trans n1, n3⟩
      placed := by
        show Placed _ _ rest (if seg.tcplen > 0 then putUnacked seg' c.unacked else c.unacked)
        split
        · exact (hpl.restamp hs).send
        · exact hpl.suffix (List.suffix_cons _ _) (List.suffix_refl _)
      early := by
        intro hst
        obtain ⟨h1, h2⟩ := h.early hst
        refine ⟨h1, fun x hx => ?_⟩
        unfold Core.segs at h2 hx
        rw [hq] at h2
        have hseg' : 0 ≤ seg'.pos c.lastack := by
          rw [hs.pos]
          exact h2 seg List.mem_cons_self
        have hu : ∀ x ∈ (if seg.tcplen > 0 then putUnacked seg' c.unacked else c.unacked),
            0 ≤ x.pos c.lastack := by
          intro x hx
          split at hx
          · rcases List.mem_cons.mp ((perm_putUnacked seg' c.unacked).subset hx) with rfl | hx
            · exact hseg'
            · exact h2 x (List.mem_append_right _ hx)
          · exact h2 x (List.mem_append_right _ hx)
        rcases List.mem_append.mp hx with hx | hx
        · exact h2 x (List.mem_append_left _ (List.mem_cons_of_mem _ hx))
        · exact hu x hx
      synSent := by
        intro hst
        obtain ⟨h1, h2, h3⟩ := h.synSent hst
        refine ⟨h1.trans n1, h2, .inr ?_⟩
        dsimp only
        rw [hq] at h3
        obtain ⟨syn, r, he, hf, hsyn, hr⟩ := h3.resolve_left (by simp)
        cases ha : c.unacked with
        | nil =>
          rw [ha, List.nil_append] at he
          injection he with e1 e2
          subst e1 e2
          have ht : seg.tcplen > 0 := by
            unfold TcpSeg.tcplen TcpFlags.finSyn
            rw [hf]
            simp
          rw [if_pos ht]
          exact ⟨seg', rest, rfl, hs.syn.trans hf, by rw [hs.pos]; exact hsyn, hr⟩
        | cons a u =>
          rw [ha, List.cons_append] at he
          injection he with e1 e2
          subst e1 e2
          have hma : a ∈ c.segs := by
            unfold Core.segs
            rw [ha]
            simp
          have hp : 0 < seg'.pos c.lastack := by
            rw [hs.pos]
            exact hr seg (by simp)
          have hn : Near c.lastack seg'.tcphdr.seqno := by
            rw [hs.seqno]
            exact h.near hm
          split
          · obtain ⟨u', hu', hperm⟩ := putUnacked_cons (u := u) hsyn hp (h.near hma) hn
            refine ⟨a, u' ++ rest, by rw [hu']; rfl, hf, hsyn, fun x hx => ?_⟩
            rcases List.mem_append.mp hx with hx | hx
            · rcases List.mem_cons.mp (hperm.subset hx) with rfl | hx
              · exact hp
              · exact hr x (by simp [hx])
            · exact hr x (by simp [hx])
          · refine ⟨a, u ++ rest, rfl, hf, hsyn, fun x hx => ?_⟩
            rcases List.mem_append.mp hx with hx | hx <;> exact hr x (by simp [hx]) }

theorem fail {c : Core} {seg seg' : TcpSeg} {rest : List TcpSeg} (log : List Out) (h : Flight c)
    (hq : c.unsent = seg :: rest) (hs : seg.Same seg') :
    Flight { c with unsent := seg' :: rest, log := log } := by
  have hpl := h.placed
  rw [hq] at hpl
  exact
    { mss := h.mss
      lbb := h.lbb
      nxt := h.nxt
      placed := hpl.restamp hs
      early := by
        intro hst
        obtain ⟨h1, h2⟩ := h.early hst
        unfold Core.segs at h2
        rw [hq] at h2
        refine ⟨h1, fun x hx => ?_⟩
        rcases List.mem_cons.mp hx with rfl | hx
        · rw [hs.pos]
          exact h2 seg List.mem_cons_self
        · exact h2 x (List.mem_cons_of_mem _ hx)
      synSent := by
        intro hst
        obtain ⟨h1, h2, h3⟩ := h.synSent hst
        refine ⟨h1, h2, .inr ?_⟩
        dsimp only
        rw [hq] at h3
        obtain ⟨syn, r, he, hf, hsyn, hr⟩ := h3.resolve_left (by simp)
        cases ha : c.unacked with
        | nil =>
          rw [ha, List.nil_append] at he
          injection he with e1 e2
          subst e1 e2
          exact ⟨seg', rest, rfl, hs.syn.trans hf, by rw [hs.pos]; exact hsyn, hr⟩
        | cons a u =>
          rw [ha, List.cons_append] at he
          injection he with e1 e2
          subst e1 e2
          refine ⟨a, u ++ seg' :: rest, rfl, hf, hsyn, fun x hx => ?_⟩
          rcases List.mem_append.mp hx with hx | hx
          · exact hr x (by simp [hx])
          · rcases List.mem_cons.mp hx with rfl | hx
            · rw [hs.pos]
              exact hr seg (by simp)
            · exact hr x (by simp [hx]) }

theorem tcpOutput {err : Err} (h : Rudp.tcpOutput s = .ok (err, s')) (hI : Flight s.core) :
    Flight s'.core := by
  refine tcpOutput_rule (I := fun t => Flight t.core) ?_ ?_ ?_ ?_ h hI
  · intro t ht
    rw [core_tcpSendEmptyAck]
    exact ht
  · intro t t₁ seg seg' rest ht hq _ _ he
    obtain ⟨rfl, hc⟩ := core_tcpOutputSent rest he
    rw [hc]
    exact ht.sent _ hq (seg.same_stamp _ _)
  · intro t t₁ seg seg' rest err ht hq _ _ he _
    obtain ⟨rfl, hc⟩ := core_tcpOutputFail rest he
    rw [hc]
    exact ht.fail _ hq (seg.same_stamp _ _)
  · intro t ht
    exact ht.congr rfl rfl rfl rfl rfl rfl rfl (.inl ⟨rfl, rfl⟩)

/-- All of `unacked` goes back in front of `unsent`. -/
theorem rto (hI : Flight c) (o : ℕ) : Flight { c with
    unsentOversize := o, unsent := c.unacked ++ c.unsent, unacked := [] } where
  mss := hI.mss
  lbb := hI.lbb
  nxt := hI.nxt
  placed := hI.placed.rto
  early hst := by
    obtain ⟨h1, h2⟩ := hI.early hst
    refine ⟨h1, fun x hx => h2 x ?_⟩
    have hx : x ∈ (c.unacked ++ c.unsent) ++ [] := hx
    rw [List.append_nil] at hx
    exact (List.perm_append_comm).subset hx
  synSent hst := by
    obtain ⟨h1, h2, h3⟩ := hI.synSent hst
    exact ⟨h1, h2, h3⟩

/-- `tcp_rexmit_rto`. -/
theorem tcpRexmitRto (h : Rudp.tcpRexmitRto s = .ok s') (hI : Flight s.core) : Flight s'.core := by
  unfold Rudp.tcpRexmitRto at h
  split at h
  · cases h
    exact hI
  · obtain ⟨⟨err, s₁⟩, h₁, h⟩ := Run.bind_eq_ok.mp h
    cases h
    exact tcpOutput h₁ (hI.rto _)

/-- `tcp_rexmit` for a copy of the SYN. -/
theorem tcpRexmit (hst : s.pcb.state = .SYN_RCVD) (hI : Flight s.core) :
    Flight (Rudp.tcpRexmit s).core := by
  unfold Rudp.tcpRexmit
  split
  · exact hI
  · next seg rest hu =>
    have hpl := hI.placed
    obtain ⟨h1, h2⟩ := hI.early (.inr hst)
    have hsub : insertSeg seg s.pcb.unsent ++ rest ⊆ s.core.segs := by
      intro x hx
      show x ∈ s.pcb.unsent ++ s.pcb.unacked
      rw [hu]
      rcases List.mem_append.mp hx with hx | hx
      · rcases List.mem_cons.mp ((perm_insertSeg seg _).subset hx) with rfl | hx
        · simp
        · simp [hx]
      · simp [hx]
    have hpos : 0 ≤ seg.pos s.pcb.lastack := h2 seg (by
      show seg ∈ s.pcb.unsent ++ s.pcb.unacked
      rw [hu]
      simp)
    have e := segMax_eq
    have hpl' : Placed s.pcb.lastack (dist s.pcb.sndLbb s.pcb.lastack) s.pcb.unsent (seg :: rest) :=
      hu ▸ hpl
    exact
      { mss := hI.mss
        lbb := hI.lbb
        nxt := hI.nxt
        placed := hpl'.rexmit (by omega)
        early := fun _ => ⟨h1, fun x hx => h2 x (hsub hx)⟩
        synSent := fun hs => by
          have hs : s.pcb.state = .SYN_SENT := hs
          rw [hst] at hs
          cases hs }

end Flight

/-! ## Queueing -/

/-- The places of the new segments of `tcp_write`. -/
theorem Segmented.placed {id : ConnectId} {copy : Bool} {m : ℕ} {seqno r : U32} {data : List Byte}
    {q : List TcpSeg} (h : Segmented id copy m seqno data q) (hm : 0 < m ∧ m ≤ TCP_MSS)
    (hd : dist seqno r + data.length < 2147483648) :
    ∀ x ∈ q, x.Sized ∧ dist seqno r ≤ x.pos r ∧
      x.dataStop r ≤ dist seqno r + data.length := by
  induction q generalizing seqno data with
  | nil => simp
  | cons seg rest ih =>
    obtain ⟨-, h2, h3, -, h5, h6, h7, -, data', rfl, hrest⟩ := h
    have hlen : (bytes seg.p).length = seg.len := by rw [h5, length_bytes]
    rw [List.length_append, hlen] at hd ⊢
    have hs : dist (seqno + u32 seg.len) r = dist seqno r + seg.len := dist_add_u32 _ _ _ (by omega)
    have e1 := segMax_eq
    have e2 : TCP_MSS = 536 := rfl
    intro x hx
    rcases List.mem_cons.mp hx with rfl | hx
    · have hsyn : x.tcphdr.flags.syn = false := by
        unfold TcpFlags.plain at h3
        simp only [Bool.and_eq_true, Bool.not_eq_true'] at h3
        exact h3.1.1
      have h7 := h7 hm.1
      refine ⟨⟨by omega, h5, ?_, ?_⟩, ?_, ?_⟩
      · rintro he
        rw [he] at h5
        simp only [totLen_nil] at h5
        omega
      · unfold TcpSeg.tcplen
        omega
      · rw [← h2]
        exact le_rfl
      · unfold TcpSeg.dataStop TcpSeg.pos
        rw [hsyn, h2]
        push_cast
        simp
    · obtain ⟨g1, g2, g3⟩ := ih hrest (by rw [hs]; push_cast at hd; omega) x hx
      rw [hs] at g2 g3
      push_cast
      exact ⟨g1, by omega, by omega⟩

theorem Extends.sized {last last' : TcpSeg} {ext : List Byte} (h : Extends last last' ext)
    (hl : last.Sized) (hlen : last.len + ext.length < segMax) : last'.Sized := by
  have e := segMax_eq
  have hlast := h.len (by omega)
  have hbytes := congrArg List.length (h.data hl.chain)
  rw [List.length_append, length_bytes, length_bytes, ← hl.whole, ← hlast] at hbytes
  have hfull := hl.full
  have hflags : last'.tcphdr.flags.finSyn = last.tcphdr.flags.finSyn := by
    rcases h.hdr with e | e <;> rw [e]
    rfl
  refine ⟨by omega, hbytes.symm, h.chain hl.chain, ?_⟩
  unfold TcpSeg.tcplen at *
  omega

theorem TcpSeg.Sized.setFin {seg : TcpSeg} (h : seg.Sized) : seg.setFin.Sized :=
  ⟨h.small, h.whole, h.chain, by simp [TcpSeg.tcplen, TcpSeg.setFin, TcpFlags.finSyn]⟩

theorem sized_flagSeg (pcb : Pcb) {flags : TcpFlags} (h : flags.fin || flags.syn) :
    (pcb.flagSeg flags).Sized := by
  refine ⟨show 0 < segMax by decide, rfl, by simp [Pcb.flagSeg, Pcb.newSeg], ?_⟩
  show 0 < 0 + flags.finSyn
  unfold TcpFlags.finSyn
  rw [if_pos h]
  decide

namespace Flight

/-- Data or a FIN is queued. -/
theorem queue {c c' : Core} (n : ℕ) (init : List TcpSeg) {queue : List TcpSeg} (h : Flight c)
    (hst : c'.state = c.state) (hm : c'.mss = c.mss) (hla : c'.lastack = c.lastack)
    (hn : c'.sndNxt = c.sndNxt) (ha : c'.unacked = c.unacked) (hb : n ≤ c.sndBuf)
    (hl' : c'.sndLbb = c.sndLbb + u32 n) (hb' : c'.sndBuf = c.sndBuf - n)
    (hu : (c.unsent = init ∧ c'.unsent = init ++ queue) ∨
      ∃ last last', c.unsent = init ++ [last] ∧ c'.unsent = init ++ last' :: queue ∧
        last'.tcphdr.seqno = last.tcphdr.seqno ∧
        last'.tcphdr.flags.syn = last.tcphdr.flags.syn ∧ last'.Sized ∧
        last'.len ≤ last.len + n)
    (hq : ∀ x ∈ queue, x.Sized ∧ dist c.sndLbb c.lastack ≤ x.pos c.lastack ∧
      x.dataStop c.lastack ≤ dist c.sndLbb c.lastack + n)
    (hlen : c.state = .SYN_SENT → c'.sndQueuelen ≠ 0 ∧ (c.unacked ++ c.unsent = [] → c'.unsent = [])) :
    Flight c' := by
  have hlbb : dist c'.sndLbb c'.lastack = dist c.sndLbb c.lastack + n := by
    rw [hla, hl']
    have h1 := h.lbb
    have h2 := h.bounds
    have e := sndBuf_eq
    exact dist_add_u32 _ _ _ (by omega)
  have hlow := h.lbb.1
  have hpos {last last' : TcpSeg} (he : last'.tcphdr.seqno = last.tcphdr.seqno) :
      last'.pos c.lastack = last.pos c.lastack := by
    unfold TcpSeg.pos
    rw [he]
  exact
    { mss := hm ▸ h.mss
      lbb := by
        rw [hlbb, hb']
        have := h.lbb
        omega
      nxt := by
        rw [hlbb, hn, hla]
        have := h.nxt
        omega
      placed := by
        have hlbb' := h.lbb
        rw [hlbb, hla, ha]
        have hpl := h.placed
        rcases hu with ⟨e1, e2⟩ | ⟨last, last', e1, e2, hseq, hsyn, hmax, hlast⟩
        · rw [e2]
          rw [e1] at hpl
          exact hpl.append (by omega) (by omega) fun x hx => by
            obtain ⟨g1, g2, g3⟩ := hq x hx
            exact ⟨g1, by omega, g3⟩
        · rw [e2, ← List.singleton_append, ← List.append_assoc]
          rw [e1] at hpl
          have hhigh := hpl.high last (by simp)
          refine (hpl.grow (dist c.sndLbb c.lastack + n) (by omega) (by omega) hseq hmax
            ?_).append le_rfl (by omega) fun x hx => ?_
          · unfold TcpSeg.dataStop at *
            rw [hpos hseq, hsyn]
            omega
          · obtain ⟨g1, g2, g3⟩ := hq x hx
            exact ⟨g1, by omega, g3⟩
      early := by
        intro hs
        rw [hst] at hs
        obtain ⟨h1, h2⟩ := h.early hs
        rw [hlbb, hla]
        refine ⟨by omega, fun x hx => ?_⟩
        unfold Core.segs at h2 hx
        rw [ha] at hx
        have hx' : x ∈ queue → 0 ≤ x.pos c.lastack := fun hx => by
          have := (hq x hx).2.1
          omega
        rcases List.mem_append.mp hx with hx | hx
        · rcases hu with ⟨e1, e2⟩ | ⟨last, last', e1, e2, hseq, -⟩
          · rw [e2] at hx
            rcases List.mem_append.mp hx with hx | hx
            · exact h2 x (by rw [e1]; simp [hx])
            · exact hx' hx
          · rw [e2] at hx
            rw [e1] at h2
            rcases List.mem_append.mp hx with hx | hx
            · exact h2 x (by simp [hx])
            · rcases List.mem_cons.mp hx with rfl | hx
              · rw [hpos hseq]
                exact h2 last (by simp)
              · exact hx' hx
        · exact h2 x (by simp [hx])
      synSent := by
        intro hs
        rw [hst] at hs
        obtain ⟨h1, -, h3⟩ := h.synSent hs
        obtain ⟨g1, g2⟩ := hlen hs
        have h1' := (h.early (.inl hs)).1
        rw [hn, hla, ha]
        refine ⟨h1, g1, ?_⟩
        rcases h3 with h3 | h3
        · left
          rw [g2 h3, List.append_nil]
          exact (List.append_eq_nil_iff.mp h3).1
        right
        have hq' : ∀ x ∈ queue, 0 < x.pos c.lastack := fun x hx => by
          have := (hq x hx).2.1
          omega
        rcases hu with ⟨e1, e2⟩ | ⟨last, last', e1, e2, hseq, hsyn, -⟩
        · rw [e2, ← List.append_assoc]
          rw [e1] at h3
          exact h3.append hq'
        · rw [e2, ← List.singleton_append, ← List.append_assoc, ← List.append_assoc]
          rw [e1, ← List.append_assoc] at h3
          exact (h3.grow hseq hsyn).append hq' }

/-- `tcp_write`. -/
theorem tcpWrite {arg : List Byte} {copy more : Bool} {err : Err}
    (hw : Rudp.tcpWrite s arg copy more = .ok (err, s')) (hI : Flight s.core) : Flight s'.core := by
  have hs := (tcpWrite_queues hw).sameConn
  have hql := fun hst => tcpWrite_queuelen hw (hI.synSent hst).2.1
  have hmax := segMax_eq
  have hmss : TCP_MSS = 536 := rfl
  have hbuf := hI.bounds
  have hlbb := hI.lbb
  have esnd := sndBuf_eq
  rcases tcpWrite_spec hI.mss.2 hw with ⟨-, -, e2, e3, e4⟩ |
    ⟨rfl, hlen, -, hcom, ext, queue, hwr⟩
  · have hq0 : ∀ x ∈ ([] : List TcpSeg), x.Sized ∧
        dist s.core.sndLbb s.core.lastack ≤ x.pos s.core.lastack ∧
        x.dataStop s.core.lastack ≤ dist s.core.sndLbb s.core.lastack + (0 : ℕ) := by simp
    rcases e4 with e4 | ⟨init, last, bump, e4, e5, -⟩
    · refine hI.queue 0 s.core.unsent hs.state hs.mss hs.lastack hs.sndNxt
        hs.unacked (Nat.zero_le _) (e2.trans (by simp [u32, St.core, St.sndView])) e3
        (.inl ⟨rfl, e4.trans (List.append_nil _).symm⟩) hq0 fun hst => ⟨(hql hst).1, fun hnil => ?_⟩
      exact e4.trans (List.append_eq_nil_iff.mp hnil).2
    · refine hI.queue 0 init hs.state hs.mss hs.lastack hs.sndNxt
        hs.unacked (Nat.zero_le _) (e2.trans (by simp [u32, St.core, St.sndView])) e3
        (.inr ⟨last, _, e4, e5, rfl, rfl, ?_, le_rfl⟩) hq0 fun hst => ⟨(hql hst).1, fun hnil => ?_⟩
      · obtain ⟨h1, h2, h3, h4⟩ := hI.placed.sized last (List.mem_append_left _ (by
          show last ∈ s.pcb.unsent
          rw [e4]
          simp))
        exact ⟨h1, h2, h3, h4⟩
      · exact absurd (e4.symm.trans (List.append_eq_nil_iff.mp hnil).2) (by simp)
  · obtain ⟨rest, harg, hseg⟩ := hwr.data
    have hargl : arg.length = ext.length + rest.length := by rw [harg, List.length_append]
    have hm : 0 < mssLocalOf s.pcb ∧ mssLocalOf s.pcb ≤ TCP_MSS :=
      ⟨mssLocalOf_pos hI.mss.1, mssLocalOf_le.trans hI.mss.2⟩
    have hlen' : arg.length ≤ s.core.sndBuf := hlen
    have hlext : dist (s.pcb.sndLbb + u32 ext.length) s.pcb.lastack =
        dist s.core.sndLbb s.core.lastack + ext.length :=
      dist_add_u32 _ _ _ (by
        show dist s.core.sndLbb s.core.lastack + _ < _
        omega)
    have hbuf' : s'.core.sndBuf = s.core.sndBuf - arg.length := by
      refine hcom.sndBuf.trans ?_
      show u16 (s.core.sndBuf + 65536 - arg.length) = _
      unfold u16
      omega
    have hq : ∀ x ∈ queue, x.Sized ∧
        dist s.core.sndLbb s.core.lastack ≤ x.pos s.core.lastack ∧
        x.dataStop s.core.lastack ≤ dist s.core.sndLbb s.core.lastack + arg.length := by
      intro x hx
      obtain ⟨g1, g2, g3⟩ := hseg.placed (r := s.core.lastack) hm
        (by
          show dist (s.pcb.sndLbb + u32 ext.length) s.pcb.lastack + _ < _
          omega) x hx
      have g2 : dist (s.pcb.sndLbb + u32 ext.length) s.pcb.lastack ≤ x.pos s.core.lastack := g2
      have g3 : x.dataStop s.core.lastack ≤
        dist (s.pcb.sndLbb + u32 ext.length) s.pcb.lastack + rest.length := g3
      exact ⟨g1, by omega, by omega⟩
    have hnil : s.core.state = .SYN_SENT → s'.core.sndQueuelen ≠ 0 ∧
        (s.core.unacked ++ s.core.unsent = [] → s'.core.unsent = []) := by
      intro hst
      refine ⟨(hql hst).1, fun hnil => ?_⟩
      obtain ⟨ha, hu⟩ := List.append_eq_nil_iff.mp hnil
      rcases (hql hst).2 rfl with h | h
      · exact absurd ha h
      · exact absurd hu h
    rcases hwr.unsent with ⟨e1, -, e2⟩ | ⟨init, last, last', e1, e2, hext, hfit, -⟩
    · exact hI.queue arg.length [] hs.state hs.mss hs.lastack hs.sndNxt
        hs.unacked hlen hcom.sndLbb hbuf' (.inl ⟨e1, e2⟩) hq hnil
    · have hel := hext.len (by omega)
      refine hI.queue arg.length init hs.state hs.mss hs.lastack hs.sndNxt
        hs.unacked hlen hcom.sndLbb hbuf' (.inr ⟨last, last', e1, e2, ?_, ?_,
          hext.sized (hI.placed.sized last (List.mem_append_left _ ?_)) (by omega), by omega⟩) hq hnil
      · rcases hext.hdr with e | e <;> rw [e]
        rfl
      · rcases hext.hdr with e | e <;> rw [e]
        rfl
      · show last ∈ s.pcb.unsent
        rw [e1]
        simp

/-- `tcp_send_fin`. -/
theorem tcpSendFin {err : Err} {st : TcpState} (hst : closeState s.pcb.state = some st)
    (hw : Rudp.tcpSendFin s = .ok (err, s')) (hI : Flight s.core) :
    Flight (if err = .ok then { s' with pcb.state := st } else s').core := by
  have hs := (tcpSendFin_queues hw).sameConn
  obtain ⟨hne, hst'⟩ := closeState_some hst
  have hsyn : s.core.state = .SYN_SENT → s'.core.sndQueuelen ≠ 0 ∧
      (s.core.unacked ++ s.core.unsent = [] → s'.core.unsent = []) := fun h => absurd h hne
  have hq0 : ∀ x ∈ ([] : List TcpSeg), x.Sized ∧
      dist s.core.sndLbb s.core.lastack ≤ x.pos s.core.lastack ∧
      x.dataStop s.core.lastack ≤ dist s.core.sndLbb s.core.lastack + (0 : ℕ) := by simp
  have hend (h : Flight s'.core) :
      Flight (if err = .ok then { s' with pcb.state := st } else s').core := by
    split
    · refine h.congr rfl rfl rfl rfl rfl rfl rfl (.inr ?_)
      rcases hst' with rfl | rfl <;> exact ⟨by simp [St.core], by simp [St.core]⟩
    · exact h
  refine hend ?_
  rcases tcpSendFin_spec hw with ⟨-, -, e2, e3, e4⟩ |
    ⟨-, -, ⟨init, last, e1, -, e2, e3, e4⟩ | ⟨e1, e2, e3, e4⟩⟩
  · exact hI.queue 0 s.core.unsent hs.state hs.mss hs.lastack hs.sndNxt
      hs.unacked (Nat.zero_le _) (e2.trans (by simp [u32, St.core, St.sndView])) e3
      (.inl ⟨rfl, e4.trans (List.append_nil _).symm⟩) hq0 hsyn
  · refine hI.queue 0 init hs.state hs.mss hs.lastack hs.sndNxt
      hs.unacked (Nat.zero_le _) (e3.trans (by simp [u32, St.core, St.sndView])) e4
      (.inr ⟨last, _, e1, e2, rfl, rfl, ?_, le_rfl⟩) hq0 hsyn
    exact (hI.placed.sized last (List.mem_append_left _ (by
      show last ∈ s.pcb.unsent
      rw [e1]
      simp))).setFin
  · refine hI.queue 1 s.core.unsent hs.state hs.mss hs.lastack hs.sndNxt
      hs.unacked e3 e2 e4 (.inl ⟨rfl, e1⟩) (fun x hx => ?_) hsyn
    obtain rfl := List.mem_singleton.mp hx
    refine ⟨sized_flagSeg _ rfl, le_rfl, ?_⟩
    show dist s.pcb.sndLbb s.pcb.lastack + ((0 : ℕ) : ℤ) + 0 ≤
      dist s.pcb.sndLbb s.pcb.lastack + ((1 : ℕ) : ℤ)
    push_cast
    omega

end Flight

/-! ## Acknowledgments -/

namespace Flight

/-- The ACK acknowledges a part of what was sent. -/
theorem between {c : Core} (h : Flight c) {ackno : U32}
    (hb : tcpSeqBetween ackno (c.lastack + 1) c.sndNxt) (hn : ¬ tcpSeqLeq ackno c.lastack) :
    0 < dist ackno c.lastack ∧ dist ackno c.lastack ≤ dist c.sndNxt c.lastack := by
  have h0 : 0 < dist ackno c.lastack := by
    unfold tcpSeqLeq at hn
    omega
  refine ⟨h0, ?_⟩
  obtain ⟨h1, h2⟩ := h.bounds
  have h3 := h.nxt.1
  have h4 := dist_upper ackno c.lastack
  have hle : dist ackno c.sndNxt ≤ 0 := hb.2
  rw [dist_eq_sub (by decide) c.lastack (inHalf_32.mpr (by omega))] at hle
  omega

/-- A segment that is not covered by an ACK ends behind it. -/
theorem stop_pos {c : Core} (h : Flight c) {ackno : U32} (h0 : 0 ≤ dist ackno c.lastack)
    (h1 : dist ackno c.lastack ≤ dist c.sndNxt c.lastack) {x : TcpSeg} (hx : x ∈ c.segs)
    (hn : ¬ tcpSeqLeq x.endSeq ackno) : 0 < x.stop ackno := by
  have hb := h.bounds
  have hna : Near c.lastack ackno := ⟨by omega, by omega⟩
  rw [tcpSeqLeq_iff (h.near_endSeq hx) hna, h.dist_endSeq hx] at hn
  rw [(h.placed.shiftPos hna hx).2.1]
  omega

theorem stop_pos_unsent {c : Core} (h : Flight c) {ackno : U32} (h0 : 0 ≤ dist ackno c.lastack)
    (h1 : dist ackno c.lastack ≤ dist c.sndNxt c.lastack) {x : TcpSeg} (hx : x ∈ c.segs)
    (hn : ¬ tcpSeqBetween ackno x.endSeq c.sndNxt) : 0 < x.stop ackno := by
  have hb := h.bounds
  have hna : Near c.lastack ackno := ⟨by omega, by omega⟩
  refine h.stop_pos h0 h1 hx fun hle => hn ?_
  rw [tcpSeqLeq_iff (h.near_endSeq hx) hna] at hle
  rw [tcpSeqBetween_iff hna (h.near_endSeq hx) h.near_nxt]
  exact ⟨hle, h1⟩

/-- The part of `tcp_receive` under `flags & TCP_ACK`. -/
theorem tcpReceiveAck {seg : InSegment} (hr : Rudp.tcpReceiveAck s seg = .ok s')
    (hst : s.pcb.state ≠ .SYN_SENT ∧ s.pcb.state ≠ .SYN_RCVD) (hI : Flight s.core) :
    Flight s'.core := by
  obtain ⟨q, hq, he⟩ := tcpReceiveAck_spec hr
  have hv := endView_tcpReceiveAck hr
  have hm : s'.core.mss = s.core.mss := congrArg EndView.mss hv
  have hn : s'.core.sndNxt = s.core.sndNxt := congrArg EndView.sndNxt hv
  have hl : s'.core.sndLbb = s.core.sndLbb := congrArg EndView.sndLbb hv
  have hst' : s'.core.state ≠ .SYN_SENT ∧ s'.core.state ≠ .SYN_RCVD := by
    have e : s'.core.state = s.pcb.state := congrArg RcvView.state (rcvView_tcpReceiveAck hr)
    rw [e]
    exact hst
  have hla : s'.core.lastack = q.lastack := congrArg AckedQueues.lastack he
  have hb : s'.core.sndBuf = q.sndBuf := congrArg AckedQueues.sndBuf he
  have hu : s'.core.unsent = unsentFrom seg.ackno s.core.sndNxt q.unsent :=
    congrArg AckedQueues.unsent he
  have ha : s'.core.unacked = q.unacked := congrArg AckedQueues.unacked he
  have hkeep (hla : s'.core.lastack = s.core.lastack) (hb : s'.core.sndBuf = s.core.sndBuf)
      (hp : Placed s.core.lastack (dist s.core.sndLbb s.core.lastack) s'.core.unsent
        s'.core.unacked) : Flight s'.core :=
    { mss := hm ▸ hI.mss
      lbb := by rw [hl, hla, hb]; exact hI.lbb
      nxt := by rw [hn, hl, hla]; exact hI.nxt
      placed := by rw [hl, hla]; exact hp
      early := fun h => absurd h (by tauto)
      synSent := fun h => absurd h hst'.1 }
  have hdrop (hu : s'.core.unsent = unsentFrom seg.ackno s.core.sndNxt s.core.unsent)
      (ha : s'.core.unacked = s.core.unacked) :
      Placed s.core.lastack (dist s.core.sndLbb s.core.lastack) s'.core.unsent
        s'.core.unacked := by
    rw [hu, ha]
    exact hI.placed.suffix (unsentFrom_suffix _ _ _) (List.suffix_refl _)
  cases hq with
  | old => exact hkeep hla hb (hdrop hu ha)
  | out => exact hkeep hla hb (hdrop hu ha)
  | rexmit g rest hack hg =>
    have hack : s.core.lastack = seg.ackno := hack
    have hg : s.core.unacked = g :: rest := hg
    have hu : s'.core.unsent = unsentFrom seg.ackno s.core.sndNxt (insertSeg g s.core.unsent) := hu
    have ha : s'.core.unacked = rest := ha
    refine hkeep hla hb ?_
    have hp := hI.placed
    rw [hg] at hp
    rw [hu, ha]
    refine hp.rexmit_drop (unsentFrom_suffix _ _ _) fun x hx => ?_
    have hxs : x ∈ s.core.segs := by
      have hx' := (unsentFrom_suffix _ _ _).subset (List.mem_of_mem_head? hx)
      show x ∈ s.core.unsent ++ s.core.unacked
      rw [hg]
      rcases List.mem_cons.mp ((perm_insertSeg g _).subset hx') with rfl | hx'
      · simp
      · simp [hx']
    rw [hack]
    refine hI.stop_pos_unsent ?_ ?_ hxs (unsentFrom_head hx)
    · rw [← hack, Serial.dist_self]
    · rw [← hack, Serial.dist_self]
      exact hI.nxt.1
  | new hnle hbet =>
    obtain ⟨h0, h1⟩ := hI.between hbet hnle
    have hnxt := hI.nxt
    have hbd := hI.bounds
    have hlbb := hI.lbb
    have esnd := sndBuf_eq
    have hla : s'.core.lastack = seg.ackno := hla
    have hna : Near s.core.lastack seg.ackno := ⟨by omega, by omega⟩
    have hb : s'.core.sndBuf =
      u16 (s.core.sndBuf + u16 (seg.ackno - s.core.lastack).toNat) := hb
    have hd := u32_toNat_sub seg.ackno s.core.lastack h0.le
    have hb' : (s'.core.sndBuf : ℤ) = s.core.sndBuf + dist seg.ackno s.core.lastack := by
      rw [hb]
      unfold u16
      omega
    have hu : s'.core.unsent = unsentFrom seg.ackno s.core.sndNxt s.core.unsent := hu
    have ha : s'.core.unacked = unackedFrom seg.ackno s.core.unacked := ha
    have hlbb' : dist s'.core.sndLbb s'.core.lastack =
        dist s.core.sndLbb s.core.lastack - dist seg.ackno s.core.lastack := by
      rw [hl, hla]
      exact hI.near_lbb.dist hna
    have hnxt' : dist s'.core.sndNxt s'.core.lastack =
        dist s.core.sndNxt s.core.lastack - dist seg.ackno s.core.lastack := by
      rw [hn, hla]
      exact hI.near_nxt.dist hna
    exact
      { mss := hm ▸ hI.mss
        lbb := by
          rw [hlbb']
          omega
        nxt := by
          rw [hlbb', hnxt']
          omega
        placed := by
          rw [hlbb', hla, hu, ha]
          refine hI.placed.ack h0.le (by omega) (unsentFrom_suffix _ _ _) (unackedFrom_suffix _ _)
            (fun x hx => ?_) (fun x hx => ?_)
          · exact hI.stop_pos_unsent h0.le h1 (List.mem_append_left _
              ((unsentFrom_suffix _ _ _).subset (List.mem_of_mem_head? hx))) (unsentFrom_head hx)
          · exact hI.stop_pos h0.le h1 (List.mem_append_right _
              ((unackedFrom_suffix _ _).subset (List.mem_of_mem_head? hx))) (unackedFrom_head hx)
        early := fun h => absurd h (by tauto)
        synSent := fun h => absurd h hst'.1 }

/-- `tcp_receive` and what `tcp_process` does behind it. -/
theorem processReceive {seg : InSegment} {after : St W → St W}
    (hafter : ∀ t, Settles t.core (after t).core) (hr : tcpProcessReceive s seg after = .ok s')
    (hI : Flight s.core) : Flight s'.core := by
  obtain ⟨hnum, s₁, s₂, h₁, hrcv, h₂, rfl⟩ := processReceive_parts hr
  have hst := TcpState.synchronized hnum
  have hI₁ : Flight s₁.core := by
    rcases h₁ with ⟨-, h₁⟩ | ⟨-, rfl⟩
    · exact hI.tcpReceiveAck h₁ hst
    · exact hI
  have hst₁ : s₁.pcb.state = s.pcb.state := congrArg RcvView.state hrcv
  have hv := sndView_tcpReceiveData h₂
  have hst₂ : s₂.core.state ≠ .SYN_SENT ∧ s₂.core.state ≠ .SYN_RCVD := by
    rcases state_tcpReceiveData h₂ with e | ⟨-, e⟩
    · rw [show s₂.core.state = s₁.pcb.state from e, hst₁]
      exact hst
    · rw [show s₂.core.state = .CLOSE_WAIT from e]
      simp
  have hI₂ : Flight s₂.core := hI₁.congr (congrArg SndView.mss hv) (congrArg SndView.lastack hv)
    (congrArg SndView.sndNxt hv) (congrArg SndView.sndLbb hv) (congrArg SndView.sndBuf hv)
    (congrArg SndView.unsent hv) (congrArg SndView.unacked hv) (.inr hst₂)
  have hs := hafter s₂
  have hst₃ : (after s₂).core.state ≠ .SYN_SENT ∧ (after s₂).core.state ≠ .SYN_RCVD := by
    rcases hs.state with e | e | e | e | e <;> rw [e] <;> simp [hst₂]
  have hI₃ : Flight (after s₂).core := by
    rcases hs.queues with ⟨e1, e2⟩ | ⟨e1, e2, -⟩
    · exact hI₂.congr hs.mss hs.lastack hs.sndNxt hs.sndLbb hs.sndBuf e1 e2 (.inr hst₃)
    · exact hI₂.purge hs.mss hs.lastack hs.sndNxt hs.sndLbb hs.sndBuf e1 e2 (.inr hst₃)
  exact hI₃.congr rfl rfl rfl rfl rfl rfl rfl (.inl ⟨rfl, rfl⟩)

/-- The handshake ends on the active side. -/
theorem establish {seg : InSegment} {rseg : TcpSeg} {rest : List TcpSeg}
    (hI : Flight s.core) (hst : s.pcb.state = .SYN_SENT) (hu : s.pcb.unacked = rseg :: rest)
    (hack : seg.ackno = rseg.tcphdr.seqno + 1) :
    Flight ({ s with pcb := Rudp.establish s.pcb seg rest } : St W).core := by
  have hu : s.core.unacked = rseg :: rest := hu
  obtain ⟨h1, -, h3⟩ := hI.synSent hst
  obtain ⟨h4, h5⟩ := hI.early (.inl hst)
  have hbd := hI.bounds
  have hlbb := hI.lbb
  have hnxt := hI.nxt
  have esnd := sndBuf_eq
  have e2 := slack_eq
  rw [hu] at h3
  obtain ⟨syn, r, he, hf, h0, hr⟩ := h3.resolve_left (by simp)
  rw [List.cons_append] at he
  injection he with he1 he2
  subst he1 he2
  have hd0 : dist rseg.tcphdr.seqno s.core.lastack = 0 := h0
  have hack : dist seg.ackno s.core.lastack = 1 := by
    rw [hack, dist_add_one _ _ (by omega), hd0, zero_add]
  have hna : Near s.core.lastack seg.ackno := ⟨by omega, by omega⟩
  have hp := hI.placed
  rw [hu] at hp
  have hp' := (hp.suffix (List.suffix_refl _) (List.suffix_cons _ _)).shift seg.ackno
    (by omega) (by omega) fun x hx => by
      rw [((hp.suffix (List.suffix_refl _) (List.suffix_cons _ _)).shiftPos hna hx).1]
      have hmem : x ∈ s.core.segs := by
        show x ∈ s.core.unsent ++ s.core.unacked
        rw [hu]
        rcases List.mem_append.mp hx with hx | hx <;> simp [hx]
      have := h5 x hmem
      omega
  have hlbb' : dist s.core.sndLbb seg.ackno = dist s.core.sndLbb s.core.lastack - 1 := by
    rw [hI.near_lbb.dist hna, hack]
  have hnxt' : dist s.core.sndNxt seg.ackno = dist s.core.sndNxt s.core.lastack - 1 := by
    rw [hI.near_nxt.dist hna, hack]
  have hb : (u16 (s.core.sndBuf + 1) : ℤ) = s.core.sndBuf + 1 := by
    unfold u16
    omega
  exact
    { mss := hI.mss
      lbb := by
        show -1 ≤ dist s.core.sndLbb seg.ackno ∧
          dist s.core.sndLbb seg.ackno + (u16 (s.core.sndBuf + 1) : ℤ) = TCP_SND_BUF
        rw [hlbb', hb]
        omega
      nxt := by
        show 0 ≤ dist s.core.sndNxt seg.ackno ∧
          dist s.core.sndNxt seg.ackno ≤ dist s.core.sndLbb seg.ackno + 1
        rw [hlbb', hnxt']
        omega
      placed := by
        show Placed seg.ackno (dist s.core.sndLbb seg.ackno) s.core.unsent rest
        rw [hlbb', ← hack]
        exact hp'
      early := fun h => by
        rcases h with h | h <;> cases h
      synSent := fun h => by cases h }

end Flight

/-! ## Runs -/

/-- Every operation keeps the sending side in order. -/
theorem preserved_flight : Preserved NoConnect (fun _ _ => True) fun s : St W => Flight s.core where
  frame hI hc _ := hc ▸ hI
  callback {s o} ho hI := by
    rw [core_emit (Out.silent_of_isCallback ho)]
    exact hI.congr rfl rfl rfl rfl rfl rfl rfl (.inl ⟨rfl, rfl⟩)
  connect hP := hP.elim
  write {s s' arg copy more err} _ hw hI := by
    have hI' := hI.tcpWrite hw
    split
    · rw [core_emit (Out.silent_wrote arg)]
      exact hI'.congr rfl rfl rfl rfl rfl rfl rfl (.inl ⟨rfl, rfl⟩)
    · exact hI'
  recved _ _ hI := hI.congr rfl rfl rfl rfl rfl rfl rfl (.inl ⟨rfl, rfl⟩)
  fin _ _ hst hw hI := hI.tcpSendFin hst hw
  output hr hI := hI.tcpOutput hr
  rexmitRto hr hI := hI.tcpRexmitRto hr
  probe {s} hI := by
    obtain ⟨log, hc, -⟩ := probe_core s
    rw [hc]
    exact hI.congr rfl rfl rfl rfl rfl rfl rfl (.inl ⟨rfl, rfl⟩)
  rexmit hst hI := hI.tcpRexmit hst
  rcvWndFin {s} hI := by
    unfold rcvWndFin
    split <;> exact hI.congr rfl rfl rfl rfl rfl rfl rfl (.inl ⟨rfl, rfl⟩)
  mss h0 h1 hI := { hI with mss := ⟨h0, h1⟩ }
  establish hst hu _ hack hI := hI.establish hst hu hack
  accept _ _ hI := hI.congr rfl rfl rfl rfl rfl rfl rfl (.inr ⟨by simp [St.core], by simp [St.core]⟩)
  receive _ _ hr hI := hI.processReceive (settles_tcpProcessAfter _ _) hr
  receiveAccept _ _ _ _ _ _ hr hI := hI.processReceive settles_tcpProcessAcceptAfter hr
  purge {s} _ hI := by
    unfold tcpPcbPurge
    split
    · exact hI.purge rfl rfl rfl rfl rfl rfl rfl (.inl ⟨rfl, rfl⟩)
    · exact hI
  timeWait _ _ _ _ _ _ hI := hI.congr rfl rfl rfl rfl rfl rfl rfl
    (.inr ⟨by simp [St.core], by simp [St.core]⟩)
  closed _ _ _ _ hI := hI.congr rfl rfl rfl rfl rfl rfl rfl
    (.inr ⟨by simp [St.core], by simp [St.core]⟩)
  clear _ _ hI := hI.purge rfl rfl rfl rfl rfl rfl rfl (.inl ⟨rfl, rfl⟩)
  ooseq hI := hI.congr rfl rfl rfl rfl rfl rfl rfl (.inl ⟨rfl, rfl⟩)

/-- It holds when the SYN is queued. -/
theorem Opening.flight (h : Opening s) : Flight s.core := by
  obtain ⟨seg, hu, hseq, hlen, hpb, -, -, hfl⟩ := h.unsent
  have hu : s.core.unsent = [seg] := hu
  have ha : s.core.unacked = [] := h.unacked
  have hpos : seg.pos s.core.lastack = 0 := by
    show dist seg.tcphdr.seqno s.pcb.lastack = 0
    rw [hseq, Serial.dist_self]
  have hlbb : dist s.core.sndLbb s.core.lastack = 1 := by
    show dist s.pcb.sndLbb s.pcb.lastack = 1
    rw [h.sndLbb, dist_add_one _ _ (by rw [Serial.dist_self]; decide), Serial.dist_self, zero_add]
  have hnxt : dist s.core.sndNxt s.core.lastack = if s.pcb.state = .SYN_SENT then 1 else 0 := by
    show dist s.pcb.sndNxt s.pcb.lastack = _
    rw [h.sndNxt]
    split
    · rw [dist_add_one _ _ (by rw [Serial.dist_self]; decide), Serial.dist_self, zero_add]
    · rw [add_zero, Serial.dist_self]
  have hb : s.core.sndBuf = TCP_SND_BUF - 1 := h.sndBuf
  have esnd := sndBuf_eq
  have e1 := slack_eq
  have e2 := segMax_eq
  have hsyn : seg.tcphdr.flags.syn = true := by rw [hfl]
  have hmem {x : TcpSeg} (hx : x ∈ s.core.segs) : x = seg := by
    unfold Core.segs at hx
    rw [hu, ha] at hx
    simpa using hx
  exact
    { mss := h.mss
      lbb := by
        rw [hlbb, hb]
        omega
      nxt := by
        rw [hnxt, hlbb]
        split <;> omega
      placed := by
        rw [hlbb, hu, ha]
        have hnil : Placed s.core.lastack 1 [] [] := .nil (by omega)
        show Placed s.core.lastack 1 ([] ++ [seg]) []
        refine hnil.append le_rfl (by omega) fun x hx => ?_
        obtain rfl := List.mem_singleton.mp hx
        refine ⟨⟨by omega, by rw [hlen, hpb]; rfl, by rw [hpb]; simp, ?_⟩, by omega, ?_⟩
        · unfold TcpSeg.tcplen TcpFlags.finSyn
          rw [hsyn]
          simp
        unfold TcpSeg.dataStop
        rw [hpos, hlen, hsyn]
        decide
      early := fun _ => ⟨hlbb.ge, fun x hx => by rw [hmem hx, hpos]⟩
      synSent := fun hst => by
        have hq : s.core.sndQueuelen = 1 := h.sndQueuelen
        have hst' : s.pcb.state = .SYN_SENT := hst
        refine ⟨by rw [hnxt, if_pos hst'], by rw [hq]; decide, .inr ?_⟩
        rw [hu, ha]
        exact ⟨seg, [], rfl, hsyn, hpos, fun x hx => by cases hx⟩ }

/-- The sending side is in order where a connection begins. -/
theorem Begun.flight (h : Begun s) : Flight s.core := by
  obtain ⟨t, err, ht, hr⟩ := h.opening
  exact ht.flight.tcpOutput hr

end Rudp

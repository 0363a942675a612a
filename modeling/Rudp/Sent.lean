import Rudp.Flight

/-!
# What was sent lies before `snd_nxt`

`tcp_output` moves `snd_nxt` behind each segment that it sends. `tcp_zero_window_probe` does not, so
a probe of a segment that was never sent leaves `snd_nxt` behind it.

Results:
* `sent_before_nxt`: in every run in which the persist timer only probes what was sent before,
  `snd_nxt` is behind everything that `ip_output_if` took, and no acknowledgment of it is taken for
  one out of sequence.
* `sent_before_nxt_fails`: the window of the peer closes before the data is sent.
-/

namespace Rudp

open Serial

variable {W : Type} {s s' : St W}

/-! ## The log -/

/-- The sequence numbers that a packet occupies. -/
def Packet.tcplen (packet : Packet) : ℕ := totLen packet.p + packet.tcphdr.flags.finSyn

/-- The sequence number behind what `ip_output_if` took. -/
def Out.sentEnd : Out → Option U32
  | .ipOutputIf packet true _ _ =>
    if 0 < packet.tcplen then some (packet.tcphdr.seqno + u32 packet.tcplen) else none
  | _ => none

/-- Those of a log, in the order of sending. Packets that `ip_output_if` did not take are left out. -/
def sentEnds (log : List Out) : List U32 := log.filterMap Out.sentEnd

theorem sentEnd_isCtl {o : Out} (h : o.isCtl = true) : o.sentEnd = none := by
  cases o with
  | ipOutputIf packet sent st id =>
    cases sent with
    | false => rfl
    | true =>
      simp only [Out.isCtl, Packet.isCtl, Bool.and_eq_true, decide_eq_true_eq,
        Bool.not_eq_true'] at h
      obtain ⟨⟨⟨⟨hp, -⟩, hf⟩, hs⟩, -⟩ := h
      have h0 : packet.tcplen = 0 := by
        unfold Packet.tcplen TcpFlags.finSyn
        rw [hp, hf, hs]
        rfl
      show (if 0 < packet.tcplen then some (packet.tcphdr.seqno + u32 packet.tcplen) else none) = none
      rw [h0]
      rfl
  | _ => rfl

theorem sentEnds_core (s : St W) : sentEnds s.core.log = sentEnds s.trace := by
  show sentEnds (s.trace.filter fun o => !o.isCtl) = _
  generalize s.trace = l
  induction l with
  | nil => rfl
  | cons o l ih =>
    rw [List.filter_cons]
    unfold sentEnds at *
    split
    · rw [List.filterMap_cons, List.filterMap_cons, ih]
    · next hc => rw [List.filterMap_cons, sentEnd_isCtl (by simpa using hc), ih]

theorem sentEnds_concat (log : List Out) (o : Out) :
    sentEnds (log ++ [o]) = sentEnds log ++ o.sentEnd.toList := by
  unfold sentEnds
  rw [List.filterMap_append]
  cases h : o.sentEnd <;> simp [h]

theorem sentEnds_emit {o : Out} (h : o.Silent) (log : List Out) :
    sentEnds (log ++ [o]) = sentEnds log := by
  have ho : o.sentEnd = none := by
    cases o with
    | ipOutputIf packet sent st id => exact h.elim
    | _ => rfl
  rw [sentEnds_concat, ho]
  exact List.append_nil _

theorem TcpSeg.Sized.sentEnd {seg : TcpSeg} (h : seg.Sized) (st : TcpState) (id : ConnectId) :
    (Out.ipOutputIf seg.packet true st id).sentEnd = some seg.endSeq := by
  have hl : seg.packet.tcplen = seg.tcplen := by
    show totLen seg.p + seg.tcphdr.flags.finSyn = _
    rw [← h.whole]
    rfl
  show (if 0 < seg.packet.tcplen then
    some (seg.packet.tcphdr.seqno + u32 seg.packet.tcplen) else none) = _
  rw [hl, if_pos h.full]
  rfl

/-! ## The invariant -/

/-- Where a sequence number lies, counted from `a` along everything sent. -/
def Core.place (a : U32) (c : Core) (q : U32) : ℤ := along a (sentEnds c.log ++ [q])

theorem Core.place_eq (a : U32) (c : Core) (q : U32) :
    c.place a q = along a (sentEnds c.log) + dist q ((sentEnds c.log).getLastD a) :=
  along_concat _ _ _

/-- An ACK of a receiver that got everything up to the place `p`: this much has been sent, and the
    ACK is not half the sequence space behind. -/
structure Core.Honest (a : U32) (c : Core) (ackno : U32) (p : ℤ) : Prop where
  ackno : ackno = a + BitVec.ofInt 32 p
  sent : ∃ pre, pre <+: sentEnds c.log ∧ p ≤ along a pre
  recent : c.place a c.lastack - 2147483648 < p

/-- The receiver has got no more than what lies before `n`, if there is such a limit. -/
def AcksUpTo (a : U32) (limit : Option ℤ) (c : Core) (seg : InSegment) : Prop :=
  ∀ n ∈ limit, seg.flags.ack = true → ∃ p ≤ n, c.Honest a seg.ackno p

/-- `snd_nxt` is behind everything sent, and `lastack` before what the receiver has got; `a` is where
    the connection begins. -/
structure SentBefore (a : U32) (limit : Option ℤ) (c : Core) : Prop where
  flight : Flight c
  near : 0 ≤ dist c.sndNxt ((sentEnds c.log).getLastD a) ∧
    dist c.sndNxt ((sentEnds c.log).getLastD a) ≤ 20000
  high : ∀ pre, pre <+: sentEnds c.log → along a pre ≤ c.place a c.sndNxt
  acked : ∀ n ∈ limit, c.place a c.lastack ≤ max 1 n
  early : c.state = .SYN_SENT → c.place a c.lastack ≤ 0

namespace SentBefore

variable {a : U32} {limit : Option ℤ} {c c' : Core}

theorem congr (h : SentBefore a limit c) (hf : Flight c') (hn : c'.sndNxt = c.sndNxt)
    (hla : c'.lastack = c.lastack) (hl : sentEnds c'.log = sentEnds c.log)
    (hst : c'.state = c.state ∨ c'.state ≠ .SYN_SENT) : SentBefore a limit c' := by
  have hp (q : U32) : c'.place a q = c.place a q := by
    unfold Core.place
    rw [hl]
  refine ⟨hf, by rw [hn, hl]; exact h.near, ?_, ?_, fun hs => ?_⟩
  · rw [hn, hl, hp]
    exact h.high
  · rw [hla, hp]
    exact h.acked
  · rw [hla, hp]
    exact h.early (hst.resolve_right (absurd hs) ▸ hs)

/-- What was sent last, seen from `lastack`. -/
theorem dist_last (h : SentBefore a limit c) :
    dist ((sentEnds c.log).getLastD a) c.lastack =
      dist c.sndNxt c.lastack - dist c.sndNxt ((sentEnds c.log).getLastD a) ∧
    Near c.lastack ((sentEnds c.log).getLastD a) := by
  have hb := h.flight.bounds
  have hnear := h.near
  have hn := h.flight.nxt
  have es := slack_eq
  generalize (sentEnds c.log).getLastD a = last at hnear
  have hneg : dist last c.sndNxt = -dist c.sndNxt last := dist_neg (by omega)
  have hneg' : dist c.lastack c.sndNxt = -dist c.sndNxt c.lastack := dist_neg (by omega)
  have hd : dist last c.lastack = dist last c.sndNxt - dist c.lastack c.sndNxt :=
    dist_eq_sub (by decide) _ (inHalf_32.mpr (by omega))
  exact ⟨by omega, by omega, by omega⟩

/-- The places of the numbers near `lastack`. -/
theorem place_near (h : SentBefore a limit c) {q : U32} (hq : Near c.lastack q) :
    c.place a q = c.place a c.lastack + dist q c.lastack := by
  obtain ⟨hd, hl⟩ := h.dist_last
  rw [Core.place_eq, Core.place_eq, hq.dist hl, (near_self c.lastack).dist hl, Serial.dist_self]
  omega

/-- Something ending at `e` is sent, and `snd_nxt` is behind it. -/
theorem send (h : SentBefore a limit c) (hf : Flight c') {e : U32}
    (hl : sentEnds c'.log = sentEnds c.log ++ [e]) (hla : c'.lastack = c.lastack)
    (hst : c'.state = c.state)
    (he : -slack ≤ dist e c.lastack ∧ dist e c.lastack ≤ dist c'.sndNxt c.lastack)
    (hn : dist c.sndNxt c.lastack ≤ dist c'.sndNxt c.lastack) : SentBefore a limit c' := by
  have hb := hf.bounds.2
  have hn' := hf.nxt.1
  rw [hla] at hb hn'
  have es := slack_eq
  have ne : Near c.lastack e := ⟨by omega, by omega⟩
  have nn : Near c.lastack c'.sndNxt := ⟨by omega, by omega⟩
  have hd : dist c'.sndNxt e = dist c'.sndNxt c.lastack - dist e c.lastack := nn.dist ne
  have hlast : (sentEnds c'.log).getLastD a = e := by
    rw [hl]
    simp
  have hal : along a (sentEnds c'.log) = c.place a e := by
    rw [hl]
    rfl
  have hp {q : U32} (hq : Near c.lastack q) : c'.place a q = c.place a q := by
    rw [Core.place_eq, hlast, hal, h.place_near ne, h.place_near hq, hq.dist ne]
    omega
  refine ⟨hf, by rw [hlast]; omega, fun pre hpre => ?_, fun n hn => ?_, fun hs => ?_⟩
  · rw [hp nn, h.place_near nn]
    rw [hl] at hpre
    rcases List.prefix_concat_iff.mp hpre with rfl | hpre
    · rw [show along a (sentEnds c.log ++ [e]) = c.place a e from rfl, h.place_near ne]
      omega
    · have h1 := h.high pre hpre
      rw [h.place_near h.flight.near_nxt] at h1
      omega
  · rw [hla, hp (near_self _)]
    exact h.acked n hn
  · rw [hla, hp (near_self _)]
    exact h.early (hst ▸ hs)

/-- `tcp_output`. -/
theorem tcpOutput {err : Err} (hr : Rudp.tcpOutput s = .ok (err, s')) (hI : SentBefore a limit s.core) :
    SentBefore a limit s'.core := by
  refine tcpOutput_rule (I := fun t => SentBefore a limit t.core) ?_ ?_ ?_ ?_ hr hI
  · intro t ht
    rw [core_tcpSendEmptyAck]
    exact ht
  · intro t t₁ seg seg' rest ht hq _ _ he
    obtain ⟨rfl, hc⟩ := core_tcpOutputSent rest he
    have hsame := seg.same_stamp t.pcb t.pcb
    have hf := ht.flight.sent t₁.core.log hq hsame
    obtain ⟨-, sent, herr, -, htr, -⟩ := tcpOutputSegment_eq he
    have hsent : sent = true := by
      cases sent with
      | false => cases herr
      | true => rfl
    subst hsent
    have hm : seg ∈ t.core.segs := by
      show seg ∈ t.pcb.unsent ++ t.pcb.unacked
      rw [hq]
      simp
    have hsz := ht.flight.placed.sized seg hm
    have hends : sentEnds t₁.core.log = sentEnds t.core.log ++
        [((seg.prepare t.pcb).stamp t.pcb).endSeq] := by
      rw [sentEnds_core, sentEnds_core, htr, sentEnds_concat]
      unfold St.packet
      rw [TcpSeg.Sized.sentEnd (hsame.sized hsz)]
      rfl
    rw [hc]
    obtain ⟨n1, n2, n3⟩ := ht.flight.nxtBehind hm
    rw [← Flight.nxtBehind_same _ hsame] at n1 n2 n3
    have hstop : dist ((seg.prepare t.pcb).stamp t.pcb).endSeq t.core.lastack =
        seg.stop t.core.lastack := by
      rw [← ht.flight.dist_endSeq hm]
      unfold TcpSeg.endSeq
      rw [hsame.seqno, hsame.tcplen]
    refine ht.send hf hends rfl rfl ⟨?_, ?_⟩ n1
    · have h1 := ht.flight.placed.low seg hm
      have h2 := seg.pos_le_stop t.core.lastack
      omega
    · rw [hstop]
      exact n2
  · intro t t₁ seg seg' rest err ht hq _ _ he hne
    obtain ⟨rfl, hc⟩ := core_tcpOutputFail rest he
    have hf := ht.flight.fail t₁.core.log hq (seg.same_stamp t.pcb t.pcb)
    rw [hc]
    refine ht.congr hf rfl rfl ?_ (.inl rfl)
    obtain ⟨-, sent, herr, -, htr, -⟩ := tcpOutputSegment_eq he
    have hsent : sent = false := by
      cases sent with
      | false => rfl
      | true => exact absurd herr hne
    subst hsent
    show sentEnds t₁.core.log = _
    rw [sentEnds_core, sentEnds_core, htr, sentEnds_concat]
    exact List.append_nil _
  · intro t ht
    exact ht.congr (ht.flight.congr rfl rfl rfl rfl rfl rfl rfl (.inl ⟨rfl, rfl⟩)) rfl rfl rfl
      (.inl rfl)

/-- A probe of something sent before. -/
theorem probe (hI : SentBefore a limit s.core)
    (hc : ∀ seg ∈ s.pcb.unacked.head?.or s.pcb.unsent.head?,
      tcpSeqLeq (seg.tcphdr.seqno + 1) s.pcb.sndNxt) :
    SentBefore a limit (tcpZeroWindowProbe s).2.core := by
  have hf : Flight (tcpZeroWindowProbe s).2.core := preserved_flight.probe hI.flight
  obtain ⟨log, hcore, -⟩ := probe_core s
  rw [hcore] at hf ⊢
  have hlog : log = (tcpZeroWindowProbe s).2.core.log := by rw [hcore]
  rcases tcpZeroWindowProbe_cases s with ⟨-, ht⟩ | ⟨seg, hseg, sent, -, ht⟩
  · refine hI.congr hf rfl rfl ?_ (.inl rfl)
    show sentEnds log = _
    rw [hlog, sentEnds_core, sentEnds_core, ht]
  · have hends : sentEnds log = sentEnds s.core.log ++
        (if sent then [seg.tcphdr.seqno + 1] else []) := by
      rw [hlog, sentEnds_core, sentEnds_core, ht, sentEnds_concat]
      unfold St.packet Pcb.probePacket
      cases sent <;> split <;> rfl
    cases sent with
    | false => exact hI.congr hf rfl rfl (hends.trans (List.append_nil _)) (.inl rfl)
    | true =>
      have hm : seg ∈ s.core.segs := by
        show seg ∈ s.pcb.unsent ++ s.pcb.unacked
        rw [Option.or_eq_some_iff] at hseg
        rcases hseg with h | ⟨-, h⟩
        · exact List.mem_append_right _ (List.mem_of_mem_head? h)
        · exact List.mem_append_left _ (List.mem_of_mem_head? h)
      have hn := hI.flight.near hm
      have hd : dist (seg.tcphdr.seqno + 1) s.core.lastack =
          dist seg.tcphdr.seqno s.core.lastack + 1 := dist_add_one _ _ (by have := hn.2; omega)
      have hb := hI.flight.bounds
      have hlow := hI.flight.placed.low seg hm
      have hst := hI.flight.placed.stop hm
      have hpos := seg.pos_le_stop s.core.lastack
      have es := slack_eq
      have hle : tcpSeqLeq (seg.tcphdr.seqno + 1) s.core.sndNxt := hc seg hseg
      unfold TcpSeg.pos at hpos hlow
      rw [tcpSeqLeq_iff (r := s.core.lastack) ⟨by omega, by omega⟩ hI.flight.near_nxt] at hle
      refine hI.send hf hends rfl rfl ⟨?_, hle⟩ le_rfl
      show -slack ≤ dist (seg.tcphdr.seqno + 1) s.core.lastack
      omega

/-- Where an honest ACK lies. -/
theorem honest (h : SentBefore a limit c) {q : U32} {p : ℤ} (hp : c.Honest a q p) :
    dist q c.lastack = p - c.place a c.lastack ∧ p ≤ c.place a c.sndNxt := by
  obtain ⟨pre, hpre, hle⟩ := hp.sent
  have hhigh := h.high pre hpre
  have hrec := hp.recent
  have hbd := h.flight.bounds
  have hnx := h.place_near h.flight.near_nxt
  have hP : a + BitVec.ofInt 32 (c.place a c.lastack) = c.lastack := by
    unfold Core.place
    rw [add_along]
    simp
  have hq : q = c.lastack + BitVec.ofInt 32 (p - c.place a c.lastack) := by
    calc q = a + BitVec.ofInt 32 (c.place a c.lastack + (p - c.place a c.lastack)) := by
          rw [add_sub_cancel]
          exact hp.ackno
      _ = _ := by rw [BitVec.ofInt_add, ← add_assoc, hP]
  refine ⟨?_, by omega⟩
  have hd := dist_add_ofInt (by decide) c.lastack c.lastack (p - c.place a c.lastack)
    (by rw [Serial.dist_self]; exact inHalf_32.mpr (by omega))
  rw [Serial.dist_self, zero_add] at hd
  rw [← hd, ← hq]

/-- An honest ACK is not taken for one out of sequence. -/
theorem inSequence (h : SentBefore a limit c) {q : U32} {p : ℤ} (hp : c.Honest a q p) :
    tcpSeqLeq q c.lastack ∨ tcpSeqBetween q (c.lastack + 1) c.sndNxt := by
  obtain ⟨hd, hle⟩ := h.honest hp
  have hnx := h.place_near h.flight.near_nxt
  have hbd := h.flight.bounds
  by_cases h0 : dist q c.lastack ≤ 0
  · exact .inl h0
  · have h1 : dist (c.lastack + 1) c.lastack = 1 := by
      rw [dist_add_one _ _ (by rw [Serial.dist_self]; decide), Serial.dist_self, zero_add]
    refine .inr ?_
    rw [tcpSeqBetween_iff (r := c.lastack) ⟨by omega, by omega⟩ ⟨by omega, by omega⟩
      h.flight.near_nxt]
    omega

/-- The part of `tcp_receive` under `flags & TCP_ACK`. -/
theorem tcpReceiveAck {seg : InSegment} (hr : Rudp.tcpReceiveAck s seg = .ok s')
    (hst : s.pcb.state ≠ .SYN_SENT ∧ s.pcb.state ≠ .SYN_RCVD) (hack : seg.flags.ack = true)
    (hQ : AcksUpTo a limit s.core seg) (hI : SentBefore a limit s.core) :
    SentBefore a limit s'.core := by
  have hf := hI.flight.tcpReceiveAck hr hst
  have hv := endView_tcpReceiveAck hr
  have hn : s'.core.sndNxt = s.core.sndNxt := congrArg EndView.sndNxt hv
  have hl : s'.core.log = s.core.log := congrArg EndView.log hv
  have hs : s'.core.state = s.core.state := congrArg RcvView.state (rcvView_tcpReceiveAck hr)
  obtain ⟨q, hq, he⟩ := tcpReceiveAck_spec hr
  have hla : s'.core.lastack = q.lastack := congrArg AckedQueues.lastack he
  cases hq with
  | old => exact hI.congr hf hn hla (by rw [hl]) (.inl hs)
  | out => exact hI.congr hf hn hla (by rw [hl]) (.inl hs)
  | rexmit => exact hI.congr hf hn hla (by rw [hl]) (.inl hs)
  | new hnle hbet =>
    have hla : s'.core.lastack = seg.ackno := hla
    have hpl (x : U32) : s'.core.place a x = s.core.place a x := by
      unfold Core.place
      rw [hl]
    refine ⟨hf, by rw [hn, hl]; exact hI.near, ?_, fun n hlim => ?_, fun h => ?_⟩
    · rw [hn, hl, hpl]
      exact hI.high
    · obtain ⟨p, hpn, hp⟩ := hQ n hlim hack
      obtain ⟨h0, h1⟩ := hI.flight.between hbet hnle
      have hbd := hI.flight.bounds
      rw [hla, hpl, hI.place_near ⟨by omega, by omega⟩, (hI.honest hp).1]
      omega
    · rw [hs] at h
      exact absurd h hst.1

/-- `tcp_receive` and what `tcp_process` does behind it. -/
theorem processReceive {seg : InSegment} {after : St W → St W}
    (hafter : ∀ t, Settles t.core (after t).core) (hr : tcpProcessReceive s seg after = .ok s')
    (hQ : AcksUpTo a limit s.core seg) (hI : SentBefore a limit s.core) :
    SentBefore a limit s'.core := by
  have hf := hI.flight.processReceive hafter hr
  obtain ⟨hnum, s₁, s₂, h₁, hrcv, h₂, rfl⟩ := processReceive_parts hr
  have hst := TcpState.synchronized hnum
  have hI₁ : SentBefore a limit s₁.core := by
    rcases h₁ with ⟨hack, h₁⟩ | ⟨-, rfl⟩
    · exact hI.tcpReceiveAck h₁ hst hack hQ
    · exact hI
  have hv := sndView_tcpReceiveData h₂
  have hs := hafter s₂
  have hst₂ : s₂.pcb.state ≠ .SYN_SENT := by
    rcases state_tcpReceiveData h₂ with e | ⟨-, e⟩
    · rw [e, show s₁.pcb.state = s.pcb.state from congrArg RcvView.state hrcv]
      exact hst.1
    · rw [e]
      decide
  have hst₃ : (after s₂).core.state ≠ .SYN_SENT := by
    rcases hs.state with e | e | e | e | e <;> rw [e]
    · exact hst₂
    all_goals decide
  have ho : (Out.process seg s.pcb s₂.pcb (after s₂).pcb (after s₂).recvClosed).Silent := by
    trivial
  refine hI₁.congr hf (hs.sndNxt.trans (congrArg SndView.sndNxt hv))
    (hs.lastack.trans (congrArg SndView.lastack hv)) ?_ (.inr hst₃)
  rw [core_emit ho]
  exact (sentEnds_emit ho _).trans (congrArg sentEnds (hs.log.trans (congrArg SndView.log hv)))

/-- The handshake ends on the active side. -/
theorem establish {seg : InSegment} {rseg : TcpSeg} {rest : List TcpSeg}
    (hI : SentBefore a limit s.core) (hst : s.pcb.state = .SYN_SENT)
    (hu : s.pcb.unacked = rseg :: rest) (hack : seg.ackno = rseg.tcphdr.seqno + 1)
    (hf : Flight ({ s with pcb := Rudp.establish s.pcb seg rest } : St W).core) :
    SentBefore a limit ({ s with pcb := Rudp.establish s.pcb seg rest } : St W).core := by
  have hu : s.core.unacked = rseg :: rest := hu
  have hbd := hI.flight.bounds
  have es := slack_eq
  have hd : dist seg.ackno s.core.lastack = 1 := by
    obtain ⟨-, -, h3⟩ := hI.flight.synSent hst
    rw [hu] at h3
    obtain ⟨syn, r, he, -, h0, -⟩ := h3.resolve_left (by simp)
    rw [List.cons_append] at he
    injection he with he1 he2
    subst he1
    have h0 : dist rseg.tcphdr.seqno s.core.lastack = 0 := h0
    rw [hack, dist_add_one _ _ (by omega), h0, zero_add]
  have hp := hI.place_near (q := seg.ackno) ⟨by omega, by omega⟩
  refine ⟨hf, hI.near, hI.high, fun n _ => ?_, fun h => by cases h⟩
  have h0 := hI.early hst
  show s.core.place a seg.ackno ≤ max 1 n
  rw [hp, hd]
  omega

end SentBefore

/-! ## Runs -/

variable {a : U32} {limit : Option ℤ}

theorem preservedBase_sentBefore : PreservedBase NoConnect (AcksUpTo a limit)
    fun s : St W => SentBefore a limit s.core where
  frame hI hc _ := hc ▸ hI
  callback {s o} ho hI := by
    have hf := preserved_flight.callback ho hI.flight
    rw [core_emit (Out.silent_of_isCallback ho)] at hf ⊢
    exact hI.congr hf rfl rfl (sentEnds_emit (Out.silent_of_isCallback ho) _) (.inl rfl)
  connect hP := hP.elim
  write {s s' arg copy more err} hP hw hI := by
    have hf := preserved_flight.write hP hw hI.flight
    have hs := (tcpWrite_queues hw).sameConn
    split at hf
    · next he =>
      rw [if_pos he]
      refine hI.congr hf hs.sndNxt hs.lastack ?_ (.inl hs.state)
      rw [core_emit (Out.silent_wrote arg)]
      exact (sentEnds_emit (Out.silent_wrote arg) _).trans (congrArg sentEnds hs.log)
    · next he =>
      rw [if_neg he]
      exact hI.congr hf hs.sndNxt hs.lastack (congrArg sentEnds hs.log) (.inl hs.state)
  recved hP hw hI := hI.congr (preserved_flight.recved hP hw hI.flight) rfl rfl rfl (.inl rfl)
  fin {s s' a st err} hP ha hst hw hI := by
    have hf := preserved_flight.fin hP ha hst hw hI.flight
    have hs := (tcpSendFin_queues hw).sameConn
    split at hf
    · next he =>
      rw [if_pos he]
      refine hI.congr hf hs.sndNxt hs.lastack (congrArg sentEnds hs.log) (.inr ?_)
      show st ≠ .SYN_SENT
      rcases (closeState_some hst).2 with rfl | rfl <;> decide
    · next he =>
      rw [if_neg he]
      exact hI.congr hf hs.sndNxt hs.lastack (congrArg sentEnds hs.log) (.inl hs.state)
  output hr hI := hI.tcpOutput hr
  rexmit {s} hst hI := by
    have hf := preserved_flight.rexmit hst hI.flight
    unfold tcpRexmit at hf ⊢
    split at hf <;> exact hI.congr hf rfl rfl rfl (.inl rfl)
  rcvWndFin {s} hI := by
    have hc : ({ s with pcb := rcvWndFin s.pcb } : St W).core =
        { s.core with rcvWnd := (rcvWndFin s.pcb).rcvWnd } := by
      unfold rcvWndFin
      split <;> rfl
    have hf := preserved_flight.rcvWndFin hI.flight
    rw [hc] at hf ⊢
    exact hI.congr hf rfl rfl rfl (.inl rfl)
  mss h0 h1 hI := hI.congr (preserved_flight.mss h0 h1 hI.flight) rfl rfl rfl (.inl rfl)
  establish hst hu hq hack hI :=
    hI.establish hst hu hack (preserved_flight.establish hst hu hq hack hI.flight)
  accept hst hb hI := hI.congr (preserved_flight.accept hst hb hI.flight)
    rfl rfl rfl (.inr (by simp [St.core]))
  receive _ hQ hr hI := hI.processReceive (settles_tcpProcessAfter _ _) hr hQ
  receiveAccept _ _ _ _ _ hQ hr hI := hI.processReceive settles_tcpProcessAcceptAfter hr hQ
  purge {s} hl hI := by
    have hf := preserved_flight.purge hl hI.flight
    unfold tcpPcbPurge at hf ⊢
    split at hf
    · next hc =>
      rw [if_pos hc]
      exact hI.congr hf rfl rfl rfl (.inl rfl)
    · next hc =>
      rw [if_neg hc]
      exact hI
  timeWait hr hl h0 h1 h2 h3 hI :=
    hI.congr (preserved_flight.timeWait hr hl h0 h1 h2 h3 hI.flight) rfl rfl rfl
      (.inr (by simp [St.core]))
  closed hl h1 h2 h3 hI := hI.congr (preserved_flight.closed hl h1 h2 h3 hI.flight) rfl rfl rfl
    (.inr (by simp [St.core]))
  clear hl h hI := hI.congr (preserved_flight.clear hl h hI.flight) rfl rfl rfl (.inl rfl)
  ooseq hI := hI.congr (preserved_flight.ooseq hI.flight) rfl rfl rfl (.inl rfl)

/-- The persist timer probes something that was sent before: the first byte of the head of
    `unacked`, or of `unsent` when that is empty, lies before `snd_nxt`. -/
def ProbesSent (s : St W) : Tmr → Prop
  | .fast => True
  | .slow => s.pcb.Probes → ∀ seg ∈ s.pcb.unacked.head?.or s.pcb.unsent.head?,
      tcpSeqLeq (seg.tcphdr.seqno + 1) s.pcb.sndNxt

theorem kept_sentBefore {app : App W} : Kept NoConnect (fun s => AcksUpTo a limit s.core) ProbesSent
    app fun s => SentBefore a limit s.core :=
  preservedBase_sentBefore.toKept
    (fun {s s' rto ssthresh} _ _ hr hI => by
      unfold tcpRexmitRto at hr
      split at hr
      · cases hr
        exact hI
      · obtain ⟨⟨err, s₁⟩, h₁, h⟩ := Run.bind_eq_ok.mp hr
        cases h
        exact SentBefore.tcpOutput h₁ (hI.congr (hI.flight.rto _) rfl rfl rfl (.inl rfl)))
    (fun {s n} hR hp hI => SentBefore.probe (s := { s with pcb.persistCnt := n }) hI (hR hp))

/-- `tcp_output` leaves `lastack` alone. -/
theorem lastack_tcpOutput {err : Err} (h : tcpOutput s = .ok (err, s')) :
    s'.core.lastack = s.core.lastack := by
  refine tcpOutput_rule (I := fun t => t.core.lastack = s.core.lastack) ?_ ?_ ?_ ?_ h rfl
  · intro t ht
    rw [core_tcpSendEmptyAck]
    exact ht
  · intro t t₁ seg seg' rest ht _ _ _ he
    rw [(core_tcpOutputSent rest he).2]
    exact ht
  · intro t t₁ seg seg' rest err ht _ _ _ he _
    rw [(core_tcpOutputFail rest he).2]
    exact ht
  · exact fun ht => ht

theorem Begun.sentBefore (h : Begun s) : SentBefore s.pcb.lastack limit s.core := by
  obtain ⟨t, err, ht, hr⟩ := h.opening
  have hla : s.pcb.lastack = t.pcb.lastack := lastack_tcpOutput hr
  rw [hla]
  refine SentBefore.tcpOutput hr ?_
  have hf := ht.flight
  have hends : sentEnds t.core.log = [] := by
    rw [sentEnds_core, ht.trace]
    rfl
  have hnx : t.core.sndNxt = t.pcb.lastack + (if t.pcb.state = .SYN_SENT then 1 else 0) := ht.sndNxt
  have hd : 0 ≤ dist t.core.sndNxt t.pcb.lastack ∧ dist t.core.sndNxt t.pcb.lastack ≤ 1 := by
    rw [hnx]
    split
    · rw [dist_add_one _ _ (by rw [Serial.dist_self]; decide), Serial.dist_self]
      decide
    · rw [add_zero, Serial.dist_self]
      decide
  have hp (q : U32) : t.core.place t.pcb.lastack q = dist q t.pcb.lastack := by
    rw [Core.place_eq, hends]
    simp
  have hp0 : t.core.place t.pcb.lastack t.core.lastack = 0 := (hp _).trans (Serial.dist_self _)
  refine ⟨hf, ?_, fun pre hpre => ?_, fun n _ => ?_, fun _ => hp0.le⟩
  · rw [hends]
    exact ⟨hd.1, hd.2.trans (by decide)⟩
  · rw [hends, List.prefix_nil] at hpre
    rw [hpre, hp]
    exact hd.1
  · rw [hp0]
    omega

/-- In every run in which the persist timer only probes what was sent before, `snd_nxt` is behind
    everything sent, `lastack` not behind what a receiver has got, and no honest ACK is taken for one
    out of sequence. -/
theorem sent_before_nxt {app : App W} {s₀ : St W} (happ : AppOk NoConnect app) (h₀ : Begun s₀)
    (hr : Run.Reach (connStep app) (Kept.StepOk NoConnect (fun _ _ => True) ProbesSent app) s₀ s) :
    (∀ pre, pre <+: sentEnds s.trace →
      along s₀.pcb.lastack pre ≤ s.core.place s₀.pcb.lastack s.pcb.sndNxt) ∧
    (∀ n, Run.Reach (connStep app) (Kept.StepOk NoConnect
        (fun s => AcksUpTo s₀.pcb.lastack (some n) s.core) ProbesSent app) s₀ s →
      s.core.place s₀.pcb.lastack s.pcb.lastack ≤ max 1 n) ∧
    ∀ fails seg t p, Receives app { s with fails := fails } seg t →
      t.core.Honest s₀.pcb.lastack seg.ackno p →
      p ≤ t.core.place s₀.pcb.lastack t.pcb.sndNxt ∧
      (t.core.place s₀.pcb.lastack t.pcb.lastack ≤ p →
        tcpSeqBetween seg.ackno t.pcb.lastack t.pcb.sndNxt) ∧
      (tcpSeqLeq seg.ackno t.pcb.lastack ∨
        tcpSeqBetween seg.ackno (t.pcb.lastack + 1) t.pcb.sndNxt) := by
  have hr' : Run.Reach (connStep app) (Kept.StepOk NoConnect
      (fun s => AcksUpTo s₀.pcb.lastack none s.core) ProbesSent app) s₀ s := by
    refine hr.mono fun s op hop => ?_
    obtain ⟨fails, op⟩ := op
    cases op with
    | input seg => exact fun _ _ n hn => by cases hn
    | _ => exact hop
  have hI : SentBefore s₀.pcb.lastack none s.core :=
    kept_sentBefore.reach happ h₀.sentBefore hr'
  refine ⟨fun pre hpre => hI.high pre (by rw [sentEnds_core]; exact hpre), fun n hn => ?_,
    fun fails seg t p ht hp => ?_⟩
  · exact (kept_sentBefore.reach happ h₀.sentBefore hn).acked n rfl
  · have hIt : SentBefore s₀.pcb.lastack none t.core := kept_sentBefore.receives happ ht hI
    obtain ⟨hd, hle⟩ := hIt.honest hp
    refine ⟨hle, fun h0 => ?_, hIt.inSequence hp⟩
    have hbd := hIt.flight.bounds
    have hnx := hIt.place_near hIt.flight.near_nxt
    have hla : t.core.place s₀.pcb.lastack t.core.lastack ≤ p := h0
    show tcpSeqBetween seg.ackno t.core.lastack t.core.sndNxt
    rw [tcpSeqBetween_iff (r := t.core.lastack) ⟨by omega, by omega⟩ (near_self _)
      hIt.flight.near_nxt, Serial.dist_self]
    omega

/-! ### Two runs -/

/-- An ACK of the server, which has sent no data. -/
def ackOp (ackno : U32) (wnd : ℕ) : List Bool × Op :=
  ([], .input { tcphdr := serverHdr 1 ackno { ack := true } wnd, p := [], bound := noData_bound })

/-- The application writes some bytes and has them sent. -/
def writeOps (arg : List Byte) : List (List Bool × Op) :=
  [([], .api (.write arg true false)), ([], .api .output)]

/-- The window closes behind the byte, the persist timer probes with it, and the server gets it. -/
theorem sent_before_nxt_probe : ∃ s : St Unit, ∃ seg t, Run.exec (connStep idleApp) connecting
    ([synAckOp TCP_WND] ++ writeOps [7] ++
      [ackOp 1000 0, ([], .slowtmr), ([], .slowtmr), ([], .slowtmr)]) = .ok s ∧
    sentEnds s.trace = [1000, 1001, 1001] ∧
    (∀ pre, pre <+: sentEnds s.trace → along 999 pre ≤ s.core.place 999 s.pcb.sndNxt) ∧
    s.core.place 999 s.pcb.lastack ≤ max 1 1 ∧
    ackOp 1001 0 = ([], .input seg) ∧ Receives idleApp s seg t ∧
    (tcpSeqLeq seg.ackno t.pcb.lastack ∨
      tcpSeqBetween seg.ackno (t.pcb.lastack + 1) t.pcb.sndNxt) := by
  have hs := sent_before_nxt appOk_idleApp begun_connecting
    (.step ([], .slowtmr) (.step ([], .slowtmr) (.step ([], .slowtmr) (.step (ackOp 1000 0)
      (.step ([], .api .output) (.step ([], .api (.write [7] true false))
        (.step (synAckOp TCP_WND) .refl (fun _ _ => trivial) rfl) trivial rfl) trivial rfl)
      (fun _ _ => trivial) rfl) (fun _ _ seg hseg => by cases hseg; decide) rfl)
      (fun _ _ seg hseg => by cases hseg; decide) rfl)
      (fun _ _ seg hseg => by cases hseg; decide) rfl)
  refine ⟨_, _, _, rfl, rfl, hs.1, hs.2.1 1
    (.step ([], .slowtmr) (.step ([], .slowtmr) (.step ([], .slowtmr) (.step (ackOp 1000 0)
      (.step ([], .api .output) (.step ([], .api (.write [7] true false))
        (.step (synAckOp TCP_WND) .refl ?_ rfl) trivial rfl) trivial rfl)
      ?_ rfl) (fun _ _ seg hseg => by cases hseg; decide) rfl)
      (fun _ _ seg hseg => by cases hseg; decide) rfl)
      (fun _ _ seg hseg => by cases hseg; decide) rfl),
    rfl, ⟨_, rfl, rfl, _, rfl, .inl ⟨by decide, by decide, rfl, rfl⟩⟩,
    (hs.2.2 [] _ _ 2 ⟨_, rfl, rfl, _, rfl, .inl ⟨by decide, by decide, rfl, rfl⟩⟩
      ⟨rfl, ⟨_, List.prefix_rfl, by decide⟩, by decide⟩).2.2⟩
  · rintro t ⟨s₁, h₁, -, s₂, rfl, ht⟩
    cases h₁
    rcases ht with ⟨-, -, h, -⟩ | ⟨h, -⟩ <;> cases h
  · rintro t ⟨s₁, h₁, -, s₂, rfl, ht⟩
    cases h₁
    rcases ht with ⟨-, -, -, rfl⟩ | ⟨h, -⟩
    · rintro n ⟨⟩ -
      exact ⟨1, le_rfl, rfl, ⟨_, List.prefix_rfl, by decide⟩, by decide⟩
    · cases h

/-- The window closes before the byte is sent, and the persist timer sends it. -/
theorem sent_before_nxt_fails : ∃ s : St Unit, ∃ seg t, Begun connecting ∧ AppOk NoConnect idleApp ∧
    Run.exec (connStep idleApp) connecting ([synAckOp TCP_WND, ackOp 1000 0] ++ writeOps [7] ++
      [([], .slowtmr), ([], .slowtmr), ([], .slowtmr)]) = .ok s ∧
    sentEnds s.trace = [1000, 1001] ∧ s.pcb.sndNxt = 1000 ∧
    ¬ (∀ pre, pre <+: sentEnds s.trace → along 999 pre ≤ s.core.place 999 s.pcb.sndNxt) ∧
    ackOp 1001 0 = ([], .input seg) ∧ Receives idleApp s seg t ∧ t.core.Honest 999 seg.ackno 2 ∧
    ¬ (tcpSeqLeq seg.ackno t.pcb.lastack ∨
      tcpSeqBetween seg.ackno (t.pcb.lastack + 1) t.pcb.sndNxt) := by
  refine ⟨_, _, _, begun_connecting, appOk_idleApp, rfl, rfl, rfl, fun h => ?_, rfl,
    ⟨_, rfl, rfl, _, rfl, .inl ⟨by decide, by decide, rfl, rfl⟩⟩, ⟨rfl, ⟨_, List.prefix_rfl, ?_⟩, ?_⟩, ?_⟩
  · exact absurd (h _ List.prefix_rfl) (by decide)
  all_goals decide

end Rudp

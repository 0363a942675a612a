import Rudp.Segs
import Rudp.Sent
import Rudp.Lib.Slice

/-!
# Integrity of the sent stream

The application writes the stream `written`, call by call. Each packet that is handed to
`ip_output_if`, for the first time, by a retransmission or by a probe, carries what the stream holds
at its sequence number.

This needs that `tcp_write` and `tcp_send_fin` find the end of the stream at the end of `unsent`
(`InOrder`): a fast retransmission can leave an older segment there.

Results:
* `Carry.tcpWrite`, `Carry.tcpSendFin`: what queueing keeps.
* `preserved_carry`: every operation keeps it.
* `sender_integrity`: what the packets of a run carry.
-/

namespace Rudp

open Serial

variable {W : Type} {s s' : St W} {base : U32} {S : List Byte} {done : Bool}

/-! ## The stream -/

/-- The data that `tcp_write` has accepted. -/
def written (log : List Out) : List Byte :=
  log.flatMap fun
    | .wrote arg => arg
    | _ => []

@[simp] theorem written_append (l l' : List Out) : written (l ++ l') = written l ++ written l' := by
  simp [written]

@[simp] theorem written_wrote (arg : List Byte) : written [.wrote arg] = arg := by
  simp [written]

theorem written_filter {p : Out → Bool} (hp : ∀ arg, p (.wrote arg) = true) (log : List Out) :
    written (log.filter p) = written log := by
  induction log with
  | nil => rfl
  | cons o log ih =>
    by_cases ho : p o = true
    · rw [List.filter_cons_of_pos ho]
      exact congrArg (_ ++ ·) ih
    · rw [List.filter_cons_of_neg ho, ih]
      cases o with
      | wrote arg => exact absurd (hp arg) ho
      | _ => rfl

theorem written_core (s : St W) : written s.core.log = written s.trace :=
  written_filter (fun _ => rfl) s.trace

/-- Sending writes nothing. -/
theorem written_of_rcvView (h : s'.rcvView = s.rcvView) : written s'.trace = written s.trace := by
  rw [← written_filter (p := fun o => !o.isPacket) (fun _ => rfl) s'.trace,
    ← written_filter (p := fun o => !o.isPacket) (fun _ => rfl) s.trace]
  exact congrArg (fun v => written v.log) h

theorem written_silent {o : Out} (h : ∀ arg, o ≠ .wrote arg) : written [o] = [] := by
  cases o with
  | wrote arg => exact absurd rfl (h arg)
  | _ => rfl

/-! ## What lies where -/

/-- The data lie at index `k` of `S`, whose first byte has the sequence number `base`. A FIN lies at
    the end of `S`, and `done` says that nothing follows. -/
structure Lies (base : U32) (S : List Byte) (done : Bool) (k : ℕ) (seqno : U32) (data : List Byte)
    (fin : Bool) : Prop where
  seqno : seqno = base + u32 k
  slice : IsSlice S k data
  fin : fin = true → done = true ∧ k + data.length = S.length

/-- The stream grows until the FIN is queued. -/
theorem Lies.grow {k : ℕ} {seqno : U32} {data : List Byte} {fin : Bool}
    (h : Lies base S false k seqno data fin) (T : List Byte) :
    Lies base (S ++ T) false k seqno data fin where
  seqno := h.seqno
  slice := h.slice.mono T
  fin hf := absurd (h.fin hf).1 (by decide)

theorem Lies.close {k : ℕ} {seqno : U32} {data : List Byte} {fin : Bool}
    (h : Lies base S done k seqno data fin) : Lies base S true k seqno data fin where
  seqno := h.seqno
  slice := h.slice
  fin hf := ⟨rfl, (h.fin hf).2⟩

/-- The packet has the number in front of the stream: it is the SYN, without data, or the probe that
    `tcp_zero_window_probe` makes of a SYN that is not acknowledged. The probe has no SYN flag, and one
    byte that nobody wrote. -/
structure Packet.Opens (base : U32) (packet : Packet) : Prop where
  seqno : packet.tcphdr.seqno + 1 = base
  fin : packet.tcphdr.flags.fin = false
  data : (bytes packet.p).length = if packet.tcphdr.flags.syn then 0 else 1

/-- A packet that occupies sequence numbers is in front of the stream or carries a part of it. -/
def Packet.Carries (base : U32) (S : List Byte) (done : Bool) (packet : Packet) : Prop :=
  0 < packet.tcplen →
    packet.Opens base ∨ (packet.tcphdr.flags.syn = false ∧
      ∃ k, Lies base S done k packet.tcphdr.seqno (bytes packet.p) packet.tcphdr.flags.fin)

/-- A queued segment is the SYN or carries a part of the stream, not far from its end. -/
def TcpSeg.Carries (base : U32) (S : List Byte) (done : Bool) (seg : TcpSeg) : Prop :=
  (seg.tcphdr.flags.syn = true ∧ seg.tcphdr.seqno + 1 = base ∧ seg.tcphdr.flags.fin = false) ∨
    (seg.tcphdr.flags.syn = false ∧ ∃ k, S.length < k + 1073741824 ∧
      Lies base S done k seg.tcphdr.seqno (bytes seg.p) seg.tcphdr.flags.fin)


/-! ### Segments and packets -/

theorem Packet.Opens.tcplen {packet : Packet} (h : packet.Opens base) : packet.tcplen = 1 := by
  have hd := h.data
  rw [length_bytes] at hd
  unfold Packet.tcplen TcpFlags.finSyn
  rw [hd, h.fin]
  cases packet.tcphdr.flags.syn <;> rfl

theorem TcpSeg.Resent.hdr {a b : TcpSeg} (h : a.Resent b) :
    b.p = a.p ∧ b.len = a.len ∧ b.tcphdr.seqno = a.tcphdr.seqno ∧
      b.tcphdr.flags.syn = a.tcphdr.flags.syn ∧ b.tcphdr.flags.fin = a.tcphdr.flags.fin :=
  ⟨(congrArg TcpSeg.p h.1 :), (congrArg TcpSeg.len h.1 :),
    (congrArg (fun x => x.tcphdr.seqno) h.1 :), (congrArg (fun x => x.tcphdr.flags.syn) h.1 :),
    (congrArg (fun x => x.tcphdr.flags.fin) h.1 :)⟩

theorem TcpSeg.Carries.resent {a b : TcpSeg} (h : a.Carries base S done) (hr : a.Resent b) :
    b.Carries base S done := by
  obtain ⟨e1, -, e3, e4, e5⟩ := hr.hdr
  unfold TcpSeg.Carries
  rw [e1, e3, e4, e5]
  exact h

theorem TcpSeg.Carries.close {seg : TcpSeg} (h : seg.Carries base S done) :
    seg.Carries base S true := by
  apply h.imp id
  rintro ⟨hsyn, k, hk, hl⟩
  exact ⟨hsyn, k, hk, hl.close⟩

theorem Packet.Carries.close {packet : Packet} (h : packet.Carries base S done) :
    packet.Carries base S true := by
  intro hl
  apply (h hl).imp id
  rintro ⟨hsyn, k, hk⟩
  exact ⟨hsyn, k, hk.close⟩

theorem Packet.Carries.grow {packet : Packet} (h : packet.Carries base S false) (T : List Byte) :
    packet.Carries base (S ++ T) false := by
  intro hl
  apply (h hl).imp id
  rintro ⟨hsyn, k, hk⟩
  exact ⟨hsyn, k, hk.grow T⟩

/-- What the transmission of a segment carries. -/
theorem TcpSeg.Carries.packet {seg : TcpSeg} (h : seg.Carries base S done) (hs : seg.Sized)
    (hb : Bare seg) : seg.packet.Carries base S done := by
  intro _
  rcases h with ⟨hsyn, hseq, hfin⟩ | ⟨hsyn, k, -, hl⟩
  · left
    refine ⟨hseq, hfin, ?_⟩
    show (bytes seg.p).length = if seg.tcphdr.flags.syn then 0 else 1
    rw [hsyn, length_bytes, ← hs.whole]
    exact (hb hsyn).1
  · exact .inr ⟨hsyn, k, hl⟩

/-- What a probe carries. -/
theorem TcpSeg.Carries.probe {seg : TcpSeg} (h : seg.Carries base S done) (hs : seg.Sized)
    (pcb : Pcb) : (pcb.probePacket seg).Carries base S done := by
  intro _
  have hfull := hs.full
  have hlen : (bytes seg.p).length = seg.len := by rw [length_bytes, hs.whole]
  unfold Pcb.probePacket
  by_cases hc : seg.tcphdr.flags.fin = true ∧ seg.len = 0
  · rw [if_pos (by simpa using hc)]
    have hnil : bytes seg.p = [] := List.length_eq_zero_iff.mp (hlen.trans hc.2)
    rcases h with ⟨-, -, hfin⟩ | ⟨-, k, -, hl⟩
    · rw [hc.1] at hfin
      cases hfin
    · right
      refine ⟨rfl, k, hl.seqno, ?_, fun _ => ?_⟩
      · have := hl.slice
        rw [hnil] at this
        exact this
      · have := hl.fin hc.1
        rw [hnil] at this
        exact this
  · rw [if_neg (by simpa using hc)]
    rcases h with ⟨hsyn, hseq, hfin⟩ | ⟨hsyn, k, -, hl⟩
    · exact .inl ⟨hseq, rfl, rfl⟩
    · right
      refine ⟨rfl, k, hl.seqno, ?_, fun hf => by cases hf⟩
      have hpos : bytes seg.p ≠ [] := by
        intro he
        rw [he] at hlen
        refine hc ⟨?_, hlen.symm⟩
        unfold TcpSeg.tcplen TcpFlags.finSyn at hfull
        rw [← hlen, hsyn] at hfull
        by_contra hf
        simp [hf] at hfull
      have h1 := hl.slice.take 1
      obtain ⟨b, l, he⟩ := List.exists_cons_of_ne_nil hpos
      rw [he] at h1 ⊢
      exact h1

/-! ## The invariant -/

/-- The last unsent segment ends at `snd_lbb`. -/
def Core.TailEnds (c : Core) : Prop :=
  ∀ last ∈ c.unsent.getLast?, last.tcphdr.flags.syn = false →
    last.tcphdr.seqno + u32 last.len = c.sndLbb

/-- With nothing unsent any data may be written. -/
theorem Core.TailEnds.of_nil {c : Core} (h : c.unsent = []) : c.TailEnds := by
  intro last hl
  rw [h] at hl
  cases hl

theorem Core.TailEnds.of_getLast? {c : Core} {last : TcpSeg} (h : c.unsent.getLast? = some last)
    (he : last.tcphdr.seqno + u32 last.len = c.sndLbb) : c.TailEnds := by
  intro last' hl _
  rw [h] at hl
  cases hl
  exact he

/-- Data and FIN are queued at the end of the stream, and nothing is queued behind the FIN. -/
def InOrder (c : Core) : Api → Prop
  | .connect .. => False
  | .write .. => c.tfFin = false ∧ c.TailEnds
  | .close | .shutdown _ true => closeState c.state ≠ none → c.tfFin = false ∧ c.TailEnds
  | _ => True

/-- Every queued segment and every packet carries its part of the stream. -/
structure Carry (base : U32) (c : Core) : Prop where
  flight : Flight c
  bare : SegInv Bare c
  lbb : c.tfFin = false → c.sndLbb = base + u32 (written c.log).length
  segs : ∀ seg ∈ c.segs, seg.Carries base (written c.log) c.tfFin
  log : ∀ packet sent st id, Out.ipOutputIf packet sent st id ∈ c.log →
    packet.Carries base (written c.log) c.tfFin

/-- A segment that ends at `snd_lbb` ends at the end of the stream. -/
theorem Lies.stop {k : ℕ} {seqno : U32} {data : List Byte} {fin : Bool}
    (h : Lies base S done k seqno data fin) (hk : S.length < k + 1073741824)
    (he : seqno + u32 data.length = base + u32 S.length) : k + data.length = S.length := by
  have hle := h.slice.le
  rw [h.seqno, BitVec.add_assoc, ← u32_add] at he
  have he := congrArg BitVec.toNat (add_left_cancel he)
  unfold u32 at he
  simp only [BitVec.toNat_ofNat] at he
  omega

namespace Carry

variable {c c' : Core}

/-- A segment of the queue lies not far from the end of the stream. -/
theorem near (hf : Flight c) {k : ℕ} {x : TcpSeg} (hx : x ∈ c.segs)
    (hl : c.sndLbb = base + u32 S.length) (hs : x.tcphdr.seqno = base + u32 k) (hle : k ≤ S.length)
    (hk : S.length < k + 2147483648) : S.length < k + 1073741824 := by
  have h1 := hf.near_lbb.dist (hf.near hx)
  have h2 := hf.bounds
  have h3 := hf.placed.low x hx
  have e := slack_eq
  have h4 : dist c.sndLbb x.tcphdr.seqno = (S.length - k : ℕ) := by
    rw [hl, hs, show S.length = k + (S.length - k) by omega, u32_add, ← BitVec.add_assoc,
      dist_add_u32 _ _ _ (by rw [Serial.dist_self]; omega), Serial.dist_self, zero_add]
    congr 1
    omega
  unfold TcpSeg.pos at h3
  omega

/-- Segments moved or left, and were sent, and then nothing more was sent. -/
theorem step {c₁ : Core} (h : Carry base c) (hf : Flight c') (hb : SegInv Bare c')
    (hm : Moves c c₁) (hfin : c'.tfFin = c₁.tfFin) (hl : c'.sndLbb = c₁.sndLbb)
    (hq : ∀ seg ∈ c'.segs, seg ∈ c₁.segs) (hlog : ∀ o ∈ c'.log, o ∈ c₁.log ∨ o.Silent)
    (hw : written c'.log = written c.log) : Carry base c' where
  flight := hf
  bare := hb
  lbb hn := by
    rw [hw, hl, hm.sndLbb]
    rw [hfin, hm.tfFin] at hn
    exact h.lbb hn
  segs seg hs := by
    obtain ⟨seg₀, h₀, hr⟩ := hm.segs seg (hq seg hs)
    rw [hw, hfin, hm.tfFin]
    exact (h.segs seg₀ h₀).resent hr
  log packet sent st id ho := by
    rw [hw, hfin, hm.tfFin]
    rcases hlog _ ho with ho | ho
    · rcases hm.log _ ho with ho | ⟨seg, sent', ⟨seg₀, h₀, hr⟩, he⟩
      · exact h.log packet sent st id ho
      · injection he with he
        subst he
        have hs₀ := h.flight.placed.sized seg₀ h₀
        obtain ⟨e1, e2, -, e4, e5⟩ := hr.hdr
        refine ((h.segs seg₀ h₀).resent hr).packet ⟨e2 ▸ hs₀.small, ?_, e1 ▸ hs₀.chain, ?_⟩
          (segRule_bare.resent (h.bare.segs seg₀ h₀) hr)
        · rw [e1, e2]
          exact hs₀.whole
        · have := hs₀.full
          unfold TcpSeg.tcplen TcpFlags.finSyn at this ⊢
          rw [e2, e4, e5]
          exact this
    · exact ho.elim

theorem moves (h : Carry base c) (hf : Flight c') (hb : SegInv Bare c') (hm : Moves c c')
    (hw : written c'.log = written c.log) : Carry base c' :=
  h.step hf hb hm rfl rfl (fun _ hs => hs) (fun _ ho => .inl ho) hw

/-- The queues hold what they held, or less, and nothing was sent. -/
theorem congr (h : Carry base c) (hf : Flight c') (hb : SegInv Bare c')
    (hfin : c'.tfFin = c.tfFin) (hl : c'.sndLbb = c.sndLbb) (hq : ∀ seg ∈ c'.segs, seg ∈ c.segs)
    (hlog : ∀ o ∈ c'.log, o ∈ c.log ∨ o.Silent) (hw : written c'.log = written c.log) :
    Carry base c' :=
  h.step hf hb (.refl c) hfin hl hq hlog hw

theorem emit (h : Carry base s.core) {o : Out} (ho : o.Silent) (hw : ∀ arg, o ≠ .wrote arg)
    (hf : Flight (s.emit o).core) (hb : SegInv Bare (s.emit o).core) :
    Carry base (s.emit o).core := by
  have hc := core_emit ho s
  refine h.congr hf hb (by rw [hc]) (by rw [hc]) (fun seg hs => ?_) (fun x hx => ?_) ?_
  · rw [hc] at hs
    exact hs
  · rw [hc] at hx
    rcases List.mem_append.mp hx with hx | hx
    · exact .inl hx
    · rw [List.mem_singleton.mp hx]
      exact .inr ho
  · rw [hc, written_append, written_silent hw, List.append_nil]

end Carry

/-! ## Queueing -/

theorem TcpFlags.syn_of_plain {f : TcpFlags} (h : f.plain = true) : f.syn = false ∧ f.fin = false := by
  unfold TcpFlags.plain at h
  simp only [Bool.and_eq_true, Bool.not_eq_true'] at h
  exact ⟨h.1.1, h.1.2⟩

/-- The new segments of `tcp_write` carry what is behind index `k`. -/
theorem Segmented.lies {id : ConnectId} {copy : Bool} {m : ℕ} {seqno : U32} {data : List Byte}
    {q : List TcpSeg} {k : ℕ} (h : Segmented id copy m seqno data q) (hseq : seqno = base + u32 k)
    (hs : IsSlice S k data) : ∀ x ∈ q, x.tcphdr.flags.syn = false ∧
      ∃ j, k ≤ j ∧ j ≤ k + data.length ∧
        Lies base S false j x.tcphdr.seqno (bytes x.p) x.tcphdr.flags.fin := by
  induction q generalizing seqno data k with
  | nil => simp
  | cons seg rest ih =>
    obtain ⟨-, h2, h3, -, h5, -, -, -, data', rfl, hrest⟩ := h
    obtain ⟨hsyn, hfin⟩ := TcpFlags.syn_of_plain h3
    have hlen : (bytes seg.p).length = seg.len := by rw [h5, length_bytes]
    have h₁ := hs.take (bytes seg.p).length
    rw [List.take_left] at h₁
    have h₂ := hs.drop (m := (bytes seg.p).length) (by simp)
    rw [List.drop_left, hlen] at h₂
    intro x hx
    rcases List.mem_cons.mp hx with rfl | hx
    · refine ⟨hsyn, k, le_rfl, by omega, h2.trans hseq, h₁, fun hf => ?_⟩
      rw [hfin] at hf
      cases hf
    · obtain ⟨g1, j, g2, g3, g4⟩ := ih (k := k + seg.len) hrest
        (by rw [hseq, BitVec.add_assoc, ← u32_add]) (by exact_mod_cast h₂) x hx
      rw [List.length_append, hlen]
      exact ⟨g1, j, by omega, by omega, g4⟩

namespace Carry

/-- `tcp_write` puts its argument behind what was written before. -/
theorem tcpWrite {arg : List Byte} {copy more : Bool} {err : Err} (h : Carry base s.core)
    (hP : s.pcb.tfFin = false ∧ s.core.TailEnds)
    (hw : Rudp.tcpWrite s arg copy more = .ok (err, s'))
    (hf : Flight (if err = .ok then s'.emit (.wrote arg) else s').core)
    (hb : SegInv Bare (if err = .ok then s'.emit (.wrote arg) else s').core) :
    Carry base (if err = .ok then s'.emit (.wrote arg) else s').core := by
  have hs := (tcpWrite_queues hw).sameConn
  obtain ⟨hfin, htail⟩ := hP
  rcases tcpWrite_spec h.bare.mss hw with ⟨hne, h1, h2, -, hu⟩ | ⟨rfl, hbuf, -, hcom, ext, queue, hwr⟩
  · rw [if_neg hne] at hf hb ⊢
    have h1 : s'.core.tfFin = s.core.tfFin := h1
    refine ⟨hf, hb, fun hn => ?_, fun seg hm => ?_, fun packet sent st id ho => ?_⟩
    · rw [hs.log]
      exact h2.trans (h.lbb hfin)
    · rw [hs.log, h1]
      rcases List.mem_append.mp hm with hm | hm
      · rcases hu with e | ⟨init, last, bump, e, e', -⟩
        · exact h.segs seg (List.mem_append_left _ (show seg ∈ s.pcb.unsent from e ▸ hm))
        · have hin (x : TcpSeg) (hx : x ∈ init ++ [last]) : x ∈ s.core.segs :=
            List.mem_append_left _ (show x ∈ s.pcb.unsent from e ▸ hx)
          change seg ∈ s'.pcb.unsent at hm
          rw [e'] at hm
          rcases List.mem_append.mp hm with hm | hm
          · exact h.segs seg (hin seg (List.mem_append_left _ hm))
          · rw [List.mem_singleton.mp hm]
            exact h.segs last (hin last (by simp))
      · exact h.segs seg (List.mem_append_right _ (hs.unacked ▸ hm))
    · rw [hs.log, h1]
      rw [hs.log] at ho
      exact h.log packet sent st id ho
  · rw [if_pos rfl] at hf hb ⊢
    have hc := core_emit (Out.silent_wrote arg) s'
    have hlog : (s'.emit (.wrote arg)).core.log = s.core.log ++ [.wrote arg] := by
      rw [hc, ← hs.log]
    have hS : written (s'.emit (.wrote arg)).core.log = written s.core.log ++ arg := by
      rw [hlog]
      simp
    have hfin' : (s'.emit (.wrote arg)).core.tfFin = false := by
      rw [hc]
      exact hcom.tfFin.trans hfin
    have hlbb₀ : s.pcb.sndLbb = base + u32 (written s.core.log).length := h.lbb hfin
    have hlbb : (s'.emit (.wrote arg)).core.sndLbb =
        base + u32 (written s.core.log ++ arg).length := by
      rw [hc, List.length_append, u32_add, ← BitVec.add_assoc, ← hlbb₀]
      exact hcom.sndLbb
    have hsegs : (s'.emit (.wrote arg)).core.segs = s'.core.segs := by rw [hc]; rfl
    generalize (s'.emit (.wrote arg)).core = c at hf hb hlog hS hfin' hlbb hsegs ⊢
    have hla : arg.length ≤ 6433 := by
      have h1 : (s.core.sndBuf : ℤ) ≤ 6433 := by
        have h2 := h.flight.lbb
        have e := sndBuf_eq
        omega
      have h3 : arg.length ≤ s.core.sndBuf := hbuf
      omega
    generalize hSd : written s.core.log = S at hS hlbb hlbb₀
    -- a part of the stream on the new queues
    have hpart (x : TcpSeg) (hx : x ∈ c.segs) (hsyn : x.tcphdr.flags.syn = false) (k : ℕ)
        (hk : S.length < k + 1073741824)
        (hl : Lies base (S ++ arg) false k x.tcphdr.seqno (bytes x.p) x.tcphdr.flags.fin) :
        x.Carries base (S ++ arg) false := by
      have hle := hl.slice.le
      refine .inr ⟨hsyn, k, near hf hx hlbb hl.seqno (by omega) ?_, hl⟩
      rw [List.length_append]
      omega
    -- what was queued before
    have hold (x : TcpSeg) (hx : x ∈ c.segs) (hx₀ : x ∈ s.core.segs) :
        x.Carries base (S ++ arg) false := by
      have hx₀ := h.segs x hx₀
      rw [hSd, show s.core.tfFin = false from hfin] at hx₀
      rcases hx₀ with hx₀ | ⟨hsyn, k, hk, hl⟩
      · exact .inl hx₀
      · exact hpart x hx hsyn k hk (hl.grow arg)
    obtain ⟨rest, hrest, hseg⟩ := hwr.data
    -- the new segments
    have hnew (x : TcpSeg) (hx : x ∈ c.segs) (hq : x ∈ queue) : x.Carries base (S ++ arg) false := by
      have hsl : IsSlice (S ++ arg) (S.length + ext.length : ℕ) rest := by
        have := (IsSlice.snoc S arg).drop (m := ext.length) (by rw [hrest]; simp)
        rw [hrest, List.drop_left] at this
        rw [hrest]
        exact_mod_cast this
      obtain ⟨hsyn, j, hj, -, hl⟩ := hseg.lies (by
        rw [hlbb₀, BitVec.add_assoc, ← u32_add]) hsl x hq
      exact hpart x hx hsyn j (by omega) hl
    refine ⟨hf, hb, fun _ => by rw [hS]; exact hlbb, fun x hx => ?_, fun packet sent st id ho => ?_⟩
    · rw [hS, hfin']
      have hx' := hx
      rw [hsegs] at hx'
      rcases List.mem_append.mp hx' with hm | hm
      · change x ∈ s'.pcb.unsent at hm
        rcases hwr.unsent with ⟨-, -, e'⟩ | ⟨init, last, last', e, e', hext, -, hfill⟩
        · exact hnew x hx (e' ▸ hm)
        · have hin (y : TcpSeg) (hy : y ∈ init ++ [last]) : y ∈ s.core.segs :=
            List.mem_append_left _ (show y ∈ s.pcb.unsent from e ▸ hy)
          rw [e'] at hm
          rcases List.mem_append.mp hm with hm | hm
          · exact hold x hx (hin x (List.mem_append_left _ hm))
          rcases List.mem_cons.mp hm with rfl | hm
          · have hl := hin last (by simp)
            have hhdr : x.tcphdr.seqno = last.tcphdr.seqno ∧
                x.tcphdr.flags.syn = last.tcphdr.flags.syn ∧
                x.tcphdr.flags.fin = last.tcphdr.flags.fin := by
              rcases hext.hdr with e | e <;> rw [e] <;> exact ⟨rfl, rfl, rfl⟩
            have hcar := h.segs last hl
            rw [hSd, show s.core.tfFin = false from hfin] at hcar
            rcases hcar with ⟨h1, h2, h3⟩ | ⟨hsyn, k, hk, hl₀⟩
            · exact .inl ⟨hhdr.2.1.trans h1, hhdr.1 ▸ h2, hhdr.2.2.trans h3⟩
            · have hwhole := h.flight.placed.sized last hl
              have hend := hl₀.stop hk (by
                rw [← hlbb₀, length_bytes, ← hwhole.whole]
                exact htail last (by rw [show s.core.unsent = init ++ [last] from e]; simp) hsyn)
              refine hpart x hx (hhdr.2.1.trans hsyn) k hk ⟨hhdr.1.trans hl₀.seqno, ?_, fun hn => ?_⟩
              · rw [hext.data hwhole.chain]
                refine (hl₀.slice.mono arg).append ?_
                have := (IsSlice.snoc S arg).take ext.length
                rw [hrest, List.take_left] at this
                rw [hrest, ← hend] at *
                exact_mod_cast this
              · exact absurd (hl₀.fin (hhdr.2.2 ▸ hn)).1 (by decide)
          · exact hnew x hx hm
      · exact hold x hx (List.mem_append_right _ (hs.unacked ▸ hm))
    · rw [hS, hfin']
      rw [hlog] at ho
      rcases List.mem_append.mp ho with ho | ho
      · have := h.log packet sent st id ho
        rw [hSd, show s.core.tfFin = false from hfin] at this
        exact this.grow arg
      · cases List.mem_singleton.mp ho

end Carry

namespace Carry

/-- `tcp_send_fin` puts the FIN at the end of the stream. -/
theorem tcpSendFin {st : TcpState} {err : Err} (h : Carry base s.core)
    (hP : s.pcb.tfFin = false ∧ s.core.TailEnds) (hw : Rudp.tcpSendFin s = .ok (err, s'))
    (hf : Flight (if err = .ok then { s' with pcb.state := st } else s').core)
    (hb : SegInv Bare (if err = .ok then { s' with pcb.state := st } else s').core) :
    Carry base (if err = .ok then { s' with pcb.state := st } else s').core := by
  have hs := (tcpSendFin_queues hw).sameConn
  obtain ⟨hfin, htail⟩ := hP
  have hlbb₀ := h.lbb hfin
  rcases tcpSendFin_spec hw with ⟨hne, h1, h2, -, e⟩ | ⟨rfl, h1, hu⟩
  · rw [if_neg hne] at hf hb ⊢
    refine h.congr hf hb h1 h2 (fun seg hm => ?_) (fun o ho => .inl (hs.log ▸ ho)) (by rw [hs.log])
    rcases List.mem_append.mp hm with hm | hm
    · exact List.mem_append_left _ (show seg ∈ s.pcb.unsent from e ▸ hm)
    · exact List.mem_append_right _ (hs.unacked ▸ hm)
  · rw [if_pos rfl] at hf hb ⊢
    have hold (x : TcpSeg) (hx : x ∈ s.core.segs) : x.Carries base (written s.core.log) true :=
      (h.segs x hx).close
    refine ⟨hf, hb, fun hn => ?_, fun x hx => ?_, fun packet sent st' id ho => ?_⟩
    · change s'.pcb.tfFin = false at hn
      rw [h1] at hn
      cases hn
    · show x.Carries base (written s'.core.log) s'.pcb.tfFin
      rw [hs.log, h1]
      change x ∈ s'.pcb.unsent ++ s'.pcb.unacked at hx
      rcases List.mem_append.mp hx with hm | hm
      · rcases hu with ⟨init, last, e, hplain, e', -⟩ | ⟨e', -⟩
        · have hin (y : TcpSeg) (hy : y ∈ init ++ [last]) : y ∈ s.core.segs :=
            List.mem_append_left _ (show y ∈ s.pcb.unsent from e ▸ hy)
          rw [e'] at hm
          rcases List.mem_append.mp hm with hm | hm
          · exact hold x (hin x (List.mem_append_left _ hm))
          · obtain rfl := List.mem_singleton.mp hm
            have hl := hin last (by simp)
            obtain ⟨hsyn, -⟩ := TcpFlags.syn_of_plain hplain
            rcases hold last hl with ⟨h3, -⟩ | ⟨-, k, hk, hl₀⟩
            · rw [hsyn] at h3
              cases h3
            · refine .inr ⟨hsyn, k, hk, hl₀.seqno, hl₀.slice, fun _ => ⟨rfl, hl₀.stop hk ?_⟩⟩
              rw [← hlbb₀, length_bytes, ← (h.flight.placed.sized last hl).whole]
              exact htail last (by rw [show s.core.unsent = init ++ [last] from e]; simp) hsyn
        · rw [e'] at hm
          rcases List.mem_append.mp hm with hm | hm
          · exact hold x (List.mem_append_left _ hm)
          · obtain rfl := List.mem_singleton.mp hm
            exact .inr ⟨rfl, _, by omega, hlbb₀, .nil (by omega) le_rfl, fun _ => ⟨rfl, rfl⟩⟩
      · exact hold x (List.mem_append_right _ (hs.unacked ▸ hm))
    · show packet.Carries base (written s'.core.log) s'.pcb.tfFin
      rw [hs.log, h1]
      change Out.ipOutputIf packet sent st' id ∈ s'.core.log at ho
      rw [hs.log] at ho
      exact (h.log packet sent st' id ho).close

/-- `tcp_receive` and what `tcp_process` does behind it. -/
theorem processReceive {seg : InSegment} {after : St W → St W} (h : Carry base s.core)
    (hafter : ∀ t, Settles t.core (after t).core) (hr : tcpProcessReceive s seg after = .ok s')
    (hf : Flight s'.core) (hb : SegInv Bare s'.core) : Carry base s'.core := by
  obtain ⟨-, s₁, s₂, h₁, hrcv, h₂, rfl⟩ := processReceive_parts hr
  have hm : Moves s.core s₁.core := by
    rcases h₁ with ⟨-, h₁⟩ | ⟨-, rfl⟩
    · exact moves_tcpReceiveAck h₁
    · exact .refl _
  have hv : s₂.core.toSndView = s₁.core.toSndView := sndView_tcpReceiveData h₂
  have hst := hafter s₂
  have hsil : Out.Silent (.process seg s.pcb s₂.pcb (after s₂).pcb (after s₂).recvClosed) := by
    trivial
  have hc := core_emit hsil (after s₂)
  have hlog : (after s₂).core.log = s₁.core.log := hst.log.trans (congrArg SndView.log hv)
  refine h.step hf hb hm ?_ ?_ ?_ ?_ ?_ <;> rw [hc]
  · exact hst.tfFin.trans (congrArg SndView.tfFin hv)
  · exact hst.sndLbb.trans (congrArg SndView.sndLbb hv)
  · intro x hx
    change x ∈ (after s₂).core.unsent ++ (after s₂).core.unacked at hx
    rcases hst.queues with ⟨h1, h2⟩ | ⟨h1, h2, -⟩
    · rw [h1, h2, show s₂.core.unsent = s₁.core.unsent from congrArg SndView.unsent hv,
        show s₂.core.unacked = s₁.core.unacked from congrArg SndView.unacked hv] at hx
      exact hx
    · rw [h1, h2] at hx
      cases hx
  · intro x hx
    rcases List.mem_append.mp hx with hx | hx
    · exact .inl (hlog ▸ hx)
    · rw [List.mem_singleton.mp hx]
      exact .inr hsil
  · rw [written_append, hlog, written_silent (by rintro arg ⟨⟩), List.append_nil, written_core,
      written_core, written_of_rcvView hrcv]

end Carry

/-- Every operation keeps the packets and the queues true to the stream. -/
theorem preserved_carry :
    Preserved InOrder (fun _ _ => True) fun s : St W => Carry base s.core where
  frame hI hc _ := hc ▸ hI
  callback {s o} ho hI := by
    have hsil := Out.silent_of_isCallback ho
    refine hI.emit hsil ?_ (preserved_flight.callback ho hI.flight)
      ((preserved_segInv segRule_bare).callback ho hI.bare)
    rintro arg rfl
    cases ho
  connect hP := hP.elim
  write hP hw hI := hI.tcpWrite hP hw (preserved_flight.write trivial hw hI.flight)
    ((preserved_segInv segRule_bare).write trivial hw hI.bare)
  recved _ hw hI := ⟨preserved_flight.recved trivial hw hI.flight,
    (preserved_segInv segRule_bare).recved trivial hw hI.bare, hI.lbb, hI.segs, hI.log⟩
  fin {s s' a st err} hP ha hst hw hI := by
    have hP : s.core.tfFin = false ∧ s.core.TailEnds := by
      have hne : closeState s.core.state ≠ none := by
        rw [show closeState s.core.state = some st from hst]
        simp
      rcases ha with rfl | ⟨rx, rfl⟩
      · exact hP hne
      · exact hP hne
    exact hI.tcpSendFin hP hw (preserved_flight.fin (a := .close) trivial (.inl rfl) hst hw hI.flight)
      ((preserved_segInv segRule_bare).fin (a := .close) trivial (.inl rfl) hst hw hI.bare)
  output hr hI := hI.moves (preserved_flight.output hr hI.flight)
    ((preserved_segInv segRule_bare).output hr hI.bare) (moves_tcpOutput hr) (by
      rw [written_core, written_core]
      exact written_of_rcvView (rcvView_tcpOutput hr))
  rexmitRto hr hI := hI.moves (preserved_flight.rexmitRto hr hI.flight)
    ((preserved_segInv segRule_bare).rexmitRto hr hI.bare) (moves_tcpRexmitRto hr) (by
      rw [written_core, written_core]
      exact written_of_rcvView (rcvView_tcpRexmitRto hr))
  probe {s} hI := by
    have hf := preserved_flight.probe hI.flight
    have hb := (preserved_segInv segRule_bare).probe hI.bare
    have hw : written (tcpZeroWindowProbe s).2.core.log = written s.core.log := by
      rw [written_core, written_core]
      exact written_of_rcvView (rcvView_tcpZeroWindowProbe s)
    obtain ⟨log, hc, hlog⟩ := probe_core s
    rw [hc] at hf hb hw ⊢
    refine ⟨hf, hb, ?_, ?_, fun packet sent st id ho => ?_⟩
    · rw [hw]
      exact hI.lbb
    · rw [hw]
      exact hI.segs
    · rw [hw]
      rcases hlog _ ho with ho | ⟨seg, hseg, sent', he⟩
      · exact hI.log packet sent st id ho
      · injection he with he
        subst he
        exact (hI.segs seg hseg).probe (hI.flight.placed.sized seg hseg) s.pcb
  rexmit {s} hst hI := hI.moves (preserved_flight.rexmit hst hI.flight)
    ((preserved_segInv segRule_bare).rexmit hst hI.bare) (moves_tcpRexmit s) (by
      rw [written_core, written_core]
      exact written_of_rcvView (rcvView_tcpRexmit s))
  rcvWndFin {s} hI := by
    have hf := preserved_flight.rcvWndFin hI.flight
    have hb := (preserved_segInv segRule_bare).rcvWndFin hI.bare
    unfold rcvWndFin at hf hb ⊢
    split
    · next hc =>
      rw [if_pos hc] at hf hb
      exact ⟨hf, hb, hI.lbb, hI.segs, hI.log⟩
    · exact hI
  mss h0 h1 hI := ⟨preserved_flight.mss h0 h1 hI.flight,
    (preserved_segInv segRule_bare).mss h0 h1 hI.bare, hI.lbb, hI.segs, hI.log⟩
  establish {s _ _ rest} hst hq hlen hack hI := by
    refine hI.congr (preserved_flight.establish hst hq hlen hack hI.flight)
      ((preserved_segInv segRule_bare).establish hst hq hlen hack hI.bare) rfl rfl (fun x hx => ?_)
      (fun _ ho => .inl ho) rfl
    change x ∈ s.pcb.unsent ++ rest at hx
    show x ∈ s.pcb.unsent ++ s.pcb.unacked
    rw [hq]
    rcases List.mem_append.mp hx with hx | hx
    · exact List.mem_append_left _ hx
    · exact List.mem_append_right _ (List.mem_cons_of_mem _ hx)
  accept hst hbet hI := ⟨preserved_flight.accept hst hbet hI.flight,
    (preserved_segInv segRule_bare).accept hst hbet hI.bare, hI.lbb, hI.segs, hI.log⟩
  receive hsyn hQ hr hI := hI.processReceive (settles_tcpProcessAfter _ _) hr
    (preserved_flight.receive hsyn hQ hr hI.flight)
    ((preserved_segInv segRule_bare).receive hsyn hQ hr hI.bare)
  receiveAccept happ hst _ hack h₁ hQ hr hI := hI.processReceive settles_tcpProcessAcceptAfter hr
    (hI.flight.processReceive settles_tcpProcessAcceptAfter hr)
    (hI.bare.process segRule_bare settles_tcpProcessAcceptAfter hr)
  purge {s} hl hI := by
    have hf := preserved_flight.purge hl hI.flight
    have hb := (preserved_segInv segRule_bare).purge hl hI.bare
    unfold tcpPcbPurge at hf hb ⊢
    split
    · next hc =>
      rw [if_pos hc] at hf hb
      exact ⟨hf, hb, hI.lbb, fun _ h => (List.not_mem_nil h).elim, hI.log⟩
    · exact hI
  timeWait hr hl hst hu ha ho hI := ⟨preserved_flight.timeWait hr hl hst hu ha ho hI.flight,
    (preserved_segInv segRule_bare).timeWait hr hl hst hu ha ho hI.bare, hI.lbb, hI.segs, hI.log⟩
  closed hl hu ha ho hI := ⟨preserved_flight.closed hl hu ha ho hI.flight,
    (preserved_segInv segRule_bare).closed hl hu ha ho hI.bare, hI.lbb, hI.segs, hI.log⟩
  clear hl hst hI := ⟨preserved_flight.clear hl hst hI.flight,
    (preserved_segInv segRule_bare).clear hl hst hI.bare, hI.lbb,
    fun _ h => (List.not_mem_nil h).elim, hI.log⟩
  ooseq hI := ⟨preserved_flight.ooseq hI.flight,
    (preserved_segInv segRule_bare).ooseq hI.bare, hI.lbb, hI.segs, hI.log⟩

/-! ## Runs -/

/-- The SYN lies in front of the stream. -/
theorem Opening.carry (h : Opening s) : Carry (s.pcb.lastack + 1) s.core := by
  obtain ⟨seg, hu, hseq, hlen, hp, -, hover, hfl⟩ := h.unsent
  have hmem {x : TcpSeg} (hx : x ∈ s.core.segs) : x = seg := by
    change x ∈ s.pcb.unsent ++ s.pcb.unacked at hx
    rw [hu, h.unacked] at hx
    simpa using hx
  have hlog : s.core.log = [] := by
    show s.trace.filter _ = []
    rw [h.trace]
    rfl
  refine ⟨h.flight, ⟨h.mss.2, fun x hx _ => ?_⟩, fun _ => ?_, fun x hx => ?_, fun _ _ _ _ ho => ?_⟩
  · rw [hmem hx]
    exact ⟨hlen, hover, by rw [hp]; rfl⟩
  · rw [hlog]
    show s.pcb.sndLbb = _ + u32 0
    rw [h.sndLbb]
    exact (add_zero _).symm
  · rw [hmem hx]
    exact .inl ⟨by rw [hfl], by rw [hseq], by rw [hfl]⟩
  · rw [hlog] at ho
    cases ho

/-- It holds where a connection begins. -/
theorem Begun.carry (h : Begun s) : Carry (s.pcb.lastack + 1) s.core := by
  obtain ⟨t, err, ht, hr⟩ := h.opening
  have hla : s.pcb.lastack = t.pcb.lastack := lastack_tcpOutput hr
  rw [hla]
  exact preserved_carry.output hr ht.carry

/-- A packet without a sequence number. -/
theorem Packet.tcplen_isCtl {packet : Packet} {id : ConnectId} (h : packet.isCtl id = true) :
    packet.tcplen = 0 := by
  unfold Packet.isCtl at h
  simp only [Bool.and_eq_true, decide_eq_true_eq, Bool.not_eq_true'] at h
  obtain ⟨⟨⟨⟨h1, -⟩, h2⟩, h3⟩, -⟩ := h
  unfold Packet.tcplen TcpFlags.finSyn
  rw [h1, h2, h3]
  rfl

theorem Carry.packets (h : Carry base s.core) {packet : Packet} {sent : Bool} {st : TcpState}
    {id : ConnectId} (ho : Out.ipOutputIf packet sent st id ∈ s.trace) :
    packet.Carries base (written s.trace) s.pcb.tfFin := by
  by_cases hc : packet.isCtl id = true
  · intro hl
    rw [Packet.tcplen_isCtl hc] at hl
    cases hl
  · rw [← written_core]
    exact h.log packet sent st id (List.mem_filter.mpr ⟨ho, by simpa [Out.isCtl] using hc⟩)

/-- In every run in which data and FIN are queued in order, each packet that `ip_output_if` is handed,
    whatever arrives and whatever fails, is the SYN, or carries what the application wrote at its
    place in the stream, and FIN only at the end of all that is ever written. -/
theorem sender_integrity {app : App W} {s₀ : St W} (happ : AppOk InOrder app) (h₀ : Begun s₀)
    (hr : Run.Reach (connStep app) (Preserved.StepOk InOrder (fun _ _ => True) app) s₀ s) :
    ∀ packet sent st id, Out.ipOutputIf packet sent st id ∈ s.trace →
      packet.Carries (s₀.pcb.lastack + 1) (written s.trace) s.pcb.tfFin :=
  fun _ _ _ _ ho => (preserved_carry.reach happ h₀.carry hr).packets ho

/-! ### A run -/

theorem sender_integrity_connected : ∃ s : St Unit, Run.exec (connStep idleApp) connecting
    ([synAckOp TCP_WND] ++ writeOps [7]) = .ok s ∧ written s.trace = [7] ∧
      ∀ packet sent st id, Out.ipOutputIf packet sent st id ∈ s.trace →
        packet.Carries 1000 (written s.trace) s.pcb.tfFin := by
  refine ⟨_, rfl, rfl, sender_integrity appOk_idleApp begun_connecting
    (.step ([], .api .output) (.step ([], .api (.write [7] true false))
      (.step (synAckOp TCP_WND) .refl (fun _ _ => trivial) rfl) ⟨rfl, .of_nil rfl⟩ rfl)
      trivial rfl)⟩

end Rudp

import Rudp.Invariant

/-!
# The receive window

A segment that `tcp_receive` delivers or keeps lies in the window that it arrives in, and so does
all that waits on ooseq, where the code trims it. It does not trim in two places: a segment that is
not put behind the last one of a nonempty ooseq is stored as it is, and the in-sequence segment is
given the FIN of a segment it covers after it was trimmed. `WndSafe` says that neither happens.

Results:
* `WndSafe.tcpReceive`: what one call of `tcp_receive` delivers and stores.
* `WndSafe.no_overrun`: the two assertions on the window do not fail in it.
* `window_discipline`: every run whose steps are safe.
-/

namespace Rudp

open Serial

variable {W : Type}

/-! ## Sequence numbers in the window -/

/-- The sequence numbers of a segment. -/
def TcpSeg.numbers (c : TcpSeg) : Set U32 := { x | ∃ i < c.tcplen, x = c.tcphdr.seqno + u32 i }

/-- The window `[rcv_nxt, rcv_nxt + rcv_wnd)`. -/
def Pcb.window (pcb : Pcb) : Set U32 := { x | ∃ i < pcb.rcvWnd, x = pcb.rcvNxt + u32 i }

/-- A segment that starts at the reference point or behind it and ends in a window of `w`. -/
theorem numbers_window {c : TcpSeg} {r : U32} {w : ℕ} (h0 : 0 ≤ c.pos r)
    (hw : c.pos r + c.tcplen ≤ w) {x : U32} (hx : x ∈ c.numbers) : ∃ i < w, x = r + u32 i := by
  obtain ⟨i, hi, rfl⟩ := hx
  obtain ⟨k, hk⟩ := Int.eq_ofNat_of_zero_le h0
  have he : c.tcphdr.seqno = r + u32 k := by
    have hd : dist c.tcphdr.seqno r = k := hk
    have e := eq_add_dist c.tcphdr.seqno r
    rw [hd, BitVec.ofInt_natCast] at e
    exact e
  refine ⟨k + i, by omega, ?_⟩
  rw [he, u32_add, BitVec.add_assoc]

theorem numbers_cut {c : TcpSeg} {m : ℕ} (hm : m ≤ c.len) : (c.cut m).numbers ⊆ c.numbers := by
  rintro x ⟨i, hi, rfl⟩
  refine ⟨i, ?_, rfl⟩
  have e : (c.cut m).tcplen = m + c.tcphdr.flags.finSyn := rfl
  have e' : c.tcplen = c.len + c.tcphdr.flags.finSyn := rfl
  omega

/-- `c` holds bytes of the arriving segment, or of a segment that was on ooseq, at their own
    sequence numbers. -/
def StemsFrom (seg : InSegment) (ooseq : List TcpSeg) (c : TcpSeg) : Prop :=
  (∃ off m, c.tcphdr.seqno = seg.seqno + u32 off ∧ bytes c.p = ((bytes seg.p).drop off).take m) ∨
    ∃ d ∈ ooseq, ∃ m, c.tcphdr.seqno = d.tcphdr.seqno ∧ bytes c.p = (bytes d.p).take m

theorem StemsFrom.cut {seg : InSegment} {ooseq : List TcpSeg} {c c' : TcpSeg} {m : ℕ}
    (h : StemsFrom seg ooseq c) (hs : c'.tcphdr.seqno = c.tcphdr.seqno)
    (hb : bytes c'.p = (bytes c.p).take m) : StemsFrom seg ooseq c' := by
  rcases h with ⟨off, m', h₁, h₂⟩ | ⟨d, hd, m', h₁, h₂⟩
  · exact .inl ⟨off, min m m', hs.trans h₁, by rw [hb, h₂, List.take_take]⟩
  · exact .inr ⟨d, hd, min m m', hs.trans h₁, by rw [hb, h₂, List.take_take]⟩

/-- What one call of `tcp_receive` delivers and stores, it takes from the window of the state in
    which it is called: the segments `segs` are delivered one after the other, starting at
    `rcv_nxt`, and what ooseq holds is new in the window or was there before. -/
structure Disciplined (seg : InSegment) (s s' : St W) : Prop where
  delivered : ∃ segs, Took segs s s' ∧
    ∀ c ∈ segs, StemsFrom seg s.pcb.ooseq c ∧ c.numbers ⊆ s.pcb.window
  stored : ∀ c ∈ s'.pcb.ooseq, StemsFrom seg s.pcb.ooseq c ∧
    ∀ x ∈ c.numbers, x ∈ s.pcb.window ∨ ∃ d ∈ s.pcb.ooseq, x ∈ d.numbers

/-! ## The invariant -/

/-- The segment ends in a window of `w`. -/
def EndsBy (w : ℕ) (p : ℤ) (c : TcpSeg) : Prop := p + c.tcplen ≤ w

/-- The window is at most `TCP_WND`, and what waits on ooseq ends in it. Before the handshake is
    over nothing waits there. -/
structure WndInv (v : Core) : Prop where
  rcvWnd_le : v.rcvWnd ≤ TCP_WND
  chain : OosChain (EndsBy v.rcvWnd) v.rcvNxt (-1) v.ooseq
  early : v.state.num < TcpState.ESTABLISHED.num → v.ooseq = []

/-- Let `d` be how far ahead of `rcv_nxt` the segment starts. It is not exactly half the sequence
    space away where the comparisons fail; an in-sequence segment that fills the window does not
    meet a FIN on ooseq; and an out-of-sequence segment goes behind all others on ooseq, is discarded
    for one at the same place that holds no less, or ends in the window, with the FIN it gets. -/
structure Fits (v : Core) (seg : InSegment) : Prop where
  behind : ¬ (dist seg.seqno v.rcvNxt = -2147483648 ∧ seg.tcplen = 1)
  ahead : ¬ (dist seg.seqno v.rcvNxt = 2147483647 ∧ v.rcvWnd = 0)
  inseq : dist seg.seqno v.rcvNxt ≤ 0 → 0 < v.rcvWnd → anyFin v.ooseq = true →
    dist seg.seqno v.rcvNxt + totLen seg.p < v.rcvWnd
  outseq : 0 < dist seg.seqno v.rcvNxt → dist seg.seqno v.rcvNxt < v.rcvWnd →
    (v.ooseq ≠ [] ∧ ∀ c ∈ v.ooseq, c.pos v.rcvNxt < dist seg.seqno v.rcvNxt) ∨
      (∃ c ∈ v.ooseq, c.pos v.rcvNxt = dist seg.seqno v.rcvNxt ∧ totLen seg.p ≤ c.len) ∨
      dist seg.seqno v.rcvNxt + totLen seg.p +
        (if seg.flags.fin || seg.flags.syn || anyFin v.ooseq then 1 else 0) ≤ v.rcvWnd

/-- The condition on a segment that `tcp_receive` is called for: if it has data, SYN or FIN and is
    looked at, it fits. -/
def WndSafe (v : Core) (seg : InSegment) : Prop :=
  0 < seg.tcplen → v.state.num < TcpState.CLOSE_WAIT.num → Fits v seg

/-! ### The queue as `tcp_receive` changes it -/

/-- What is known of a segment that is `n` sequence numbers and `p` more ahead of `r`, which was
    `rcv_nxt` when `seg` arrived. -/
structure Within (r : U32) (w : ℕ) (seg : InSegment) (ooseq : List TcpSeg) (n : ℕ) (p : ℤ)
    (c : TcpSeg) : Prop where
  pos_eq : c.pos r = n + p
  end_le : n + p + c.tcplen ≤ w
  stems : StemsFrom seg ooseq c
  old : 0 ≤ n + p ∨ ∃ d ∈ ooseq, c.numbers ⊆ d.numbers

section Within

variable {r : U32} {w n : ℕ} {seg : InSegment} {ooseq : List TcpSeg}

theorem within_cutClosed : CutClosed (Within r w seg ooseq n) := by
  intro p c m h hf h0 hm
  have ht : (c.cut m).tcplen ≤ c.tcplen := by
    have e : (c.cut m).tcplen = m + c.tcphdr.flags.finSyn := rfl
    have e' : c.tcplen = c.len + c.tcphdr.flags.finSyn := rfl
    omega
  have he := h.end_le
  refine ⟨h.pos_eq, by omega, h.stems.cut (m := m) rfl (bytes_pbufRealloc c.p m), ?_⟩
  rcases h.old with h' | ⟨d, hd, h'⟩
  · exact .inl h'
  · exact .inr ⟨d, hd, (numbers_cut hm).trans h'⟩

theorem within_shifts : Shifts (Within r w seg ooseq) := by
  intro n t p c h
  refine ⟨?_, ?_, h.stems, ?_⟩
  · rw [h.pos_eq]
    push_cast
    ring
  · have := h.end_le
    push_cast
    omega
  · rcases h.old with h' | h'
    · exact .inl (by push_cast; omega)
    · exact .inr h'

theorem Within.subset_window {p : ℤ} {c : TcpSeg} (h : Within r w seg ooseq n p c)
    (h0 : 0 ≤ n + p) {x : U32} (hx : x ∈ c.numbers) : ∃ i < w, x = r + u32 i :=
  numbers_window (by rw [h.pos_eq]; exact h0) (by rw [h.pos_eq]; exact h.end_le) hx

theorem OosChain.imp {Q Q' : ℤ → TcpSeg → Prop} {lo : ℤ} {q : List TcpSeg}
    (hQ : ∀ c ∈ q, Q (c.pos r) c → Q' (c.pos r) c) (h : OosChain Q r lo q) :
    OosChain Q' r lo q := by
  induction q generalizing lo with
  | nil => trivial
  | cons c q ih =>
    obtain ⟨h1, h2, h3, h4⟩ := h
    exact ⟨h1, ⟨h2.pos_le, h2.wf, hQ c List.mem_cons_self h2.holds⟩, h3,
      ih (fun d hd => hQ d (List.mem_cons_of_mem _ hd)) h4⟩

/-- What waits on ooseq when the segment arrives. -/
theorem OosChain.within {lo : ℤ} {q : List TcpSeg} (h : OosChain (EndsBy w) r lo q) :
    OosChain (Within r w seg q 0) r lo q := by
  refine h.imp fun c hc hw => ⟨by push_cast; ring, ?_, ?_, .inr ⟨c, hc, subset_rfl⟩⟩
  · have : c.pos r + c.tcplen ≤ w := hw
    push_cast
    omega
  · exact .inr ⟨c, hc, _, rfl, (List.take_length).symm⟩

theorem OosChain.endsBy {r' : U32} {lo : ℤ} {q : List TcpSeg} {w' : ℕ} (hw : w' + n = w)
    (h : OosChain (Within r w seg ooseq n) r' lo q) : OosChain (EndsBy w') r' lo q := by
  refine h.imp fun c _ hc => ?_
  have := hc.end_le
  show c.pos r' + c.tcplen ≤ w'
  omega

end Within

/-! ## `tcp_receive` -/

section Receive

variable {v : Core} {s s' : St W} {seg : InSegment} {c : TcpSeg}

/-- A segment that starts exactly half the sequence space away overlaps `rcv_nxt` for the code only
    if it occupies one sequence number. -/
theorem overlap_half {r a : U32} {n : ℕ} (h : dist a r = -2147483648) (hn1 : n ≠ 1) (hn0 : 0 < n)
    (hn : n ≤ 65536) : ¬ tcpSeqBetween r (a + 1) (a + u32 n - 1) := by
  rintro ⟨-, h₂⟩
  have h₁ : dist (a + u32 n - 1) a = n - 1 := by
    rw [dist_sub_one _ _ (by rw [dist_add_u32 _ _ _ (by simp; omega), dist_self]; omega),
      dist_add_u32 _ _ _ (by simp; omega), dist_self, zero_add]
  have h₃ : dist a (a + u32 n - 1) = -(n - 1) := by rw [dist_neg (by omega), h₁]
  have he : r = a + BitVec.ofInt 32 2147483648 := by
    have e := eq_add_dist a r
    rw [h] at e
    rw [e, BitVec.add_assoc]
    exact (BitVec.add_zero r).symm
  have hd := dist_add_ofInt (by decide : 0 < 32) a (a + u32 n - 1) 2147483648
    (inHalf_32.mpr (by omega))
  unfold tcpSeqLeq at h₂
  rw [he, hd, h₃] at h₂
  omega

/-- The segment behind the trimming of its first edge, when it then starts in the window: it is the
    arriving segment, `off` bytes shorter if it reached into the window from the left. -/
structure FirstEdge (pcb : Pcb) (seg : InSegment) (c : TcpSeg) (off : ℕ) : Prop where
  rcvWnd_pos : 0 < pcb.rcvWnd
  wf : c.Wf
  flags : c.tcphdr.flags = seg.flags
  seqno : c.tcphdr.seqno = seg.seqno + u32 off
  data : bytes c.p = (bytes seg.p).drop off
  len : (c.len : ℤ) + off = totLen seg.p
  pos : c.pos pcb.rcvNxt = dist seg.seqno pcb.rcvNxt + off
  pos_nonneg : 0 ≤ c.pos pcb.rcvNxt
  pos_lt : c.pos pcb.rcvNxt < pcb.rcvWnd
  front : off = 0 ∨ c.pos pcb.rcvNxt = 0

theorem Fits.firstEdge {pcb : Pcb} (hf : Fits v seg) (hn : v.rcvNxt = pcb.rcvNxt)
    (hw : v.rcvWnd = pcb.rcvWnd) (hwl : pcb.rcvWnd ≤ TCP_WND) (hl : 0 < seg.tcplen)
    (h : tcpReceiveFirstEdge pcb.rcvNxt seg = .ok c) (hin : inWindow pcb c.tcphdr.seqno) :
    ∃ off, FirstEdge pcb seg c off := by
  have hwl' : pcb.rcvWnd ≤ 65535 := hwl.trans (by decide)
  have hb := seg.bound
  have htl : seg.tcplen = seg.inseg.tcplen := rfl
  have htl' := seg.inseg.tcplen_le
  have hlen : seg.inseg.len = totLen seg.p := rfl
  have hu := dist_upper seg.seqno pcb.rcvNxt
  have hd : seg.inseg.pos pcb.rcvNxt = dist seg.seqno pcb.rcvNxt := rfl
  have hbe := hf.behind
  have hah := hf.ahead
  rw [hn] at hbe hah
  rw [hw] at hah
  unfold tcpReceiveFirstEdge at h
  split at h
  · next ho =>
    have hlow : -2147483648 < dist seg.seqno pcb.rcvNxt := by
      by_contra hle
      have hlo := dist_lower seg.seqno pcb.rcvNxt
      have he : dist seg.seqno pcb.rcvNxt = -2147483648 := by omega
      exact overlap_half he (fun h1 => hbe ⟨he, h1⟩) hl (by omega) ho
    obtain ⟨o1, o2⟩ := (overlap_iff hlow hl (by omega)).mp ho
    obtain ⟨e1, e2, e3, e4⟩ := trimFront_spec hlen (by omega) (by omega) (by omega) (by omega) h
    have hc : c.tcphdr.seqno = pcb.rcvNxt := by rw [e1]
    have hc0 := pos_eq_zero hc
    have hw0 := ((inWindow_iff hwl' (.inl (by rw [hc, dist_self]; omega))).mp hin).2
    rw [hc, dist_self] at hw0
    have hflags : c.tcphdr.flags = seg.flags := by rw [e1]; rfl
    have hct : c.tcplen = c.len + seg.flags.finSyn := by rw [← hflags]; rfl
    have hst : seg.tcplen = totLen seg.p + seg.flags.finSyn := rfl
    refine ⟨(-seg.inseg.pos pcb.rcvNxt).toNat, by omega, ⟨e3, by omega, by omega⟩, hflags, ?_, e4,
      by omega, by omega, by omega, by omega, .inr hc0⟩
    rw [hc]
    have e := eq_add_dist pcb.rcvNxt seg.seqno
    rw [dist_neg hlow, ← hd, show -seg.inseg.pos pcb.rcvNxt =
      (((-seg.inseg.pos pcb.rcvNxt).toNat : ℕ) : ℤ) by omega, BitVec.ofInt_natCast] at e
    exact e
  · cases h
    obtain ⟨i1, i2⟩ := (inWindow_iff hwl' (by
      by_contra hx
      have hx' : dist seg.seqno pcb.rcvNxt = 2147483647 ∧ pcb.rcvWnd = 0 := by
        have : dist seg.inseg.tcphdr.seqno pcb.rcvNxt = dist seg.seqno pcb.rcvNxt := rfl
        omega
      exact hah hx')).mp hin
    exact ⟨0, by omega, ⟨hlen, by omega, by omega⟩, rfl, by simp [u32]; rfl, by simp; rfl,
      by simp [hlen], by simp [hd], i1, i2, .inl rfl⟩

/-- What is left of the in-sequence segment ends in the window. -/
theorem merged_tcplen {r : U32} {w : ℕ} {q q' : List TcpSeg} {c₁ c' : TcpSeg}
    (hfin : anyFin q = true → c.len < w) (ht : TrimmedTo w c c₁) (hm : Merged r c₁ q c' q') :
    c'.tcplen ≤ w := by
  have h₁ : c₁.tcplen ≤ w := by
    rcases ht with ⟨rfl, hle⟩ | ⟨m, -, rfl, hle, -⟩
    · exact hle
    · exact hle.le
  cases hm with
  | same => exact h₁
  | fin d hd hdf _ hf hs =>
    have hlt := hfin (List.any_eq_true.mpr ⟨d, hd, hdf⟩)
    have e : c₁.setFin.tcplen = c₁.len + 1 := rfl
    rcases ht with ⟨rfl, -⟩ | ⟨m, hm, rfl, hle, -⟩
    · omega
    · rw [TcpSeg.tcplen_eq, hf, hs] at hle
      rw [cut_len] at e hle
      simp at hle
      omega
  | cut m hm hf hs =>
    have e : (c₁.cut m).tcplen = m + c₁.tcphdr.flags.finSyn := rfl
    have e' : c₁.tcplen = c₁.len + c₁.tcphdr.flags.finSyn := rfl
    omega

theorem merged_pos {r : U32} {w : ℕ} {q q' : List TcpSeg} {c₁ c' : TcpSeg}
    (ht : TrimmedTo w c c₁) (hm : Merged r c₁ q c' q') : c'.tcphdr.seqno = c.tcphdr.seqno := by
  have h₁ : c₁.tcphdr.seqno = c.tcphdr.seqno := by
    rcases ht with ⟨rfl, -⟩ | ⟨m, -, rfl, -, -⟩ <;> rfl
  cases hm <;> exact h₁

/-- A segment in the window comes from the one that arrived. -/
theorem FirstEdge.stems {pcb : Pcb} {off : ℕ} {ooseq : List TcpSeg} (h : FirstEdge pcb seg c off) :
    StemsFrom seg ooseq c :=
  .inl ⟨off, _, h.seqno, by rw [← h.data, List.take_length]⟩

theorem FirstEdge.within_inseq {pcb : Pcb} {off : ℕ} {c₁ c' : TcpSeg} {q' : List TcpSeg}
    (h : FirstEdge pcb seg c off) (hc : c.tcphdr.seqno = pcb.rcvNxt)
    (hfin : anyFin pcb.ooseq = true → c.len < pcb.rcvWnd) (ht : TrimmedTo pcb.rcvWnd c c₁)
    (hm : Merged pcb.rcvNxt c₁ pcb.ooseq c' q') :
    Within pcb.rcvNxt pcb.rcvWnd seg pcb.ooseq 0 0 c' := by
  have hs := merged_pos ht hm
  obtain ⟨m, hb⟩ := bytes_merged ht hm
  have hle := merged_tcplen hfin ht hm
  exact ⟨pos_eq_zero (hs.trans hc), by push_cast; omega, h.stems.cut hs hb, .inl (by simp)⟩

/-- An out-of-sequence segment that ends in the window, on ooseq. -/
theorem FirstEdge.within_outseq {pcb : Pcb} {off : ℕ} {c' : TcpSeg} {m : ℕ}
    (h : FirstEdge pcb seg c off) (hs : c'.tcphdr.seqno = c.tcphdr.seqno)
    (hb : bytes c'.p = (bytes c.p).take m) (hw : c.pos pcb.rcvNxt + c'.tcplen ≤ pcb.rcvWnd) :
    Within pcb.rcvNxt pcb.rcvWnd seg pcb.ooseq 0 (c.pos pcb.rcvNxt) c' := by
  have hp : c'.pos pcb.rcvNxt = c.pos pcb.rcvNxt := by
    unfold TcpSeg.pos
    rw [hs]
  have := h.pos_nonneg
  exact ⟨by rw [hp]; push_cast; ring, by push_cast; omega, h.stems.cut hs hb,
    .inl (by push_cast; omega)⟩

/-- The position behind `n` sequence numbers of a segment. -/
theorem dist_end {r : U32} {n : ℕ} (h1 : c.pos r ≤ 65535) (hn : n ≤ 65536) :
    dist (c.tcphdr.seqno + u32 n) r = c.pos r + n :=
  dist_add_u32 _ _ _ (by unfold TcpSeg.pos at h1; omega)

/-- The test behind the last segment of ooseq: the segment ends in the window. -/
theorem end_le_of_not_gt {r : U32} {w : ℕ} (h0 : 0 ≤ c.pos r) (hw : c.pos r < w ∧ w ≤ 65535)
    (hl : c.tcplen ≤ 65508)
    (h : ¬ tcpSeqGt (u32 (u16 c.tcplen) + c.tcphdr.seqno) (r + u32 w)) :
    c.pos r + c.tcplen ≤ w := by
  rw [u16_of_lt (by omega), BitVec.add_comm] at h
  have h₁ := dist_end (c := c) (r := r) (n := c.tcplen) (by omega) (by omega)
  have h₂ : dist (r + u32 w) r = w := by
    rw [dist_add_u32 _ _ _ (by rw [dist_self]; omega), dist_self, zero_add]
  rw [tcpSeqGt_iff (r := r) ⟨by omega, by omega⟩ ⟨by omega, by omega⟩, h₁, h₂] at h
  omega

/-- What `Fits` says of a segment for which the walk over ooseq finds a place in front of `rest`. -/
theorem Fits.inserted {pre rest : List TcpSeg} (hf : Fits v seg) (hw : dist seg.seqno v.rcvNxt < v.rcvWnd)
    (hq : OosChain (EndsBy v.rcvWnd) v.rcvNxt (-1) v.ooseq) (hs : c.tcphdr.seqno = seg.seqno)
    (hl : c.len = totLen seg.p) (h0 : 0 < c.pos v.rcvNxt) (he : v.ooseq = pre ++ rest)
    (hne : rest = [] → v.ooseq = []) (hi : InsertedAt v.rcvNxt c pre rest) :
    c.pos v.rcvNxt + totLen seg.p +
      (if seg.flags.fin || seg.flags.syn || anyFin v.ooseq then 1 else 0) ≤ v.rcvWnd := by
  have hp : dist seg.seqno v.rcvNxt = c.pos v.rcvNxt := by
    unfold TcpSeg.pos
    rw [hs]
  obtain ⟨i1, i2, i3, i4⟩ := hi
  have ho := hf.outseq
  rw [hp] at ho hw
  rcases ho h0 hw with ⟨hn, hb⟩ | ⟨d, hd, hdp, hdl⟩ | hle
  · cases rest with
    | nil => exact absurd (hne rfl) hn
    | cons d rest =>
      have h1 := hb d (by simp [he])
      have h2 := i3 d (by simp)
      omega
  · rw [he] at hd
    rcases List.mem_append.mp hd with hd | hd
    · have := i1 d hd
      omega
    · cases rest with
      | nil => cases hd
      | cons e rest =>
        rcases List.mem_cons.mp hd with rfl | hd
        · have := i4 d (by simp) hdp
          omega
        · -- the entries behind the first are further on
          rw [he] at hq
          have h1 := (hq.drop.tail.forall d hd).2
          have h2 := i3 e (by simp)
          omega
  · exact hle

theorem InSeq.within {r : U32} {w n : ℕ} {ooseq segs : List TcpSeg}
    (h : InSeq (Within r w seg ooseq) n segs) :
    ∀ c ∈ segs, StemsFrom seg ooseq c ∧ ∀ x ∈ c.numbers, ∃ i < w, x = r + u32 i := by
  induction segs generalizing n with
  | nil => simp
  | cons d segs ih =>
    obtain ⟨-, hd, hs⟩ := h
    intro c hc
    rcases List.mem_cons.mp hc with rfl | hc
    · exact ⟨hd.stems, fun x hx => hd.subset_window (by omega) hx⟩
    · exact ih hs c hc

/-- A queue of segments that stem from the window or from ooseq is a disciplined one. -/
theorem OosChain.stored {pcb : Pcb} {r' : U32} {n : ℕ} {lo : ℤ} {q : List TcpSeg}
    (h : OosChain (Within pcb.rcvNxt pcb.rcvWnd seg pcb.ooseq n) r' lo q) :
    ∀ c ∈ q, StemsFrom seg pcb.ooseq c ∧
      ∀ x ∈ c.numbers, x ∈ pcb.window ∨ ∃ d ∈ pcb.ooseq, x ∈ d.numbers := by
  intro c hc
  have hw := (h.forall c hc).1.holds
  refine ⟨hw.stems, fun x hx => ?_⟩
  rcases hw.old with h0 | ⟨d, hd, hsub⟩
  · exact .inl (hw.subset_window h0 hx)
  · exact .inr ⟨d, hd, hsub hx⟩

theorem WndInv.of_rcvView (hv : s'.rcvView = s.rcvView) (h : WndInv s.core) : WndInv s'.core where
  rcvWnd_le := (congrArg (RcvView.rcvWnd · ≤ TCP_WND) hv).mpr h.rcvWnd_le
  chain := by
    have h' : OosChain (EndsBy s.rcvView.rcvWnd) s.rcvView.rcvNxt (-1) s.rcvView.ooseq := h.chain
    rw [← hv] at h'
    exact h'
  early := by
    have h' : s.rcvView.state.num < TcpState.ESTABLISHED.num → s.rcvView.ooseq = [] := h.early
    rw [← hv] at h'
    exact h'

theorem Disciplined.of_rcvView (hI : WndInv s.core) (hv : s'.rcvView = s.rcvView) :
    Disciplined seg s s' where
  delivered := ⟨[], (Took.nil s).congr hv, by simp⟩
  stored := by
    rw [show s'.pcb.ooseq = s.pcb.ooseq from congrArg RcvView.ooseq hv]
    exact OosChain.stored (n := 0) hI.chain.within

/-- An in-sequence segment that meets a FIN on ooseq does not fill the window. -/
theorem Fits.inseq_lt {off : ℕ} (hf : Fits s.core seg) (he : FirstEdge s.pcb seg c off)
    (hc : c.tcphdr.seqno = s.pcb.rcvNxt) : anyFin s.pcb.ooseq = true → c.len < s.pcb.rcvWnd := by
  intro hany
  have hp := he.pos
  have hlen := he.len
  rw [pos_eq_zero hc] at hp
  have hlt := hf.inseq (by show dist seg.seqno s.pcb.rcvNxt ≤ 0; omega) he.rcvWnd_pos hany
  change dist seg.seqno s.pcb.rcvNxt + _ < (s.pcb.rcvWnd : ℤ) at hlt
  omega

/-- An out-of-sequence segment. -/
theorem Fits.outseq_disciplined {off : ℕ} {q' : List TcpSeg} (hI : WndInv s.core)
    (hf : Fits s.core seg) (he : FirstEdge s.pcb seg c off) (hc : c.tcphdr.seqno ≠ s.pcb.rcvNxt)
    (hq : oosInsert s.pcb.rcvNxt s.pcb.rcvWnd c s.pcb.ooseq = some (.ok q')) :
    OosChain (Within s.pcb.rcvNxt s.pcb.rcvWnd seg s.pcb.ooseq 0) s.pcb.rcvNxt (-1) q' := by
  have hwl : s.pcb.rcvWnd ≤ 65535 := hI.rcvWnd_le.trans (by decide)
  have hpos : c.pos s.pcb.rcvNxt ≠ 0 := fun h => hc (dist_eq_zero h)
  have h0 := he.pos_nonneg
  have hlt := he.pos_lt
  obtain rfl : off = 0 := he.front.resolve_right hpos
  have hs : c.tcphdr.seqno = seg.seqno := by
    rw [he.seqno]
    exact BitVec.add_zero _
  have hl : c.len = totLen seg.p := by
    have := he.len
    push_cast at this
    omega
  have hd : dist seg.seqno s.pcb.rcvNxt = c.pos s.pcb.rcvNxt := by
    unfold TcpSeg.pos
    rw [hs]
  have hb := seg.bound
  have htl : c.tcplen = totLen seg.p + seg.flags.finSyn := by
    show c.len + c.tcphdr.flags.finSyn = _
    rw [he.flags, hl]
  have hfs : seg.flags.finSyn = if seg.flags.fin || seg.flags.syn then 1 else 0 := rfl
  have hct := c.tcplen_le
  refine oosInsert_chain within_cutClosed le_rfl hI.chain.within he.wf (by omega) h0 hlt hwl ?_ ?_ ?_
    hq
  · intro pre rest hpre hne hi
    have hle := hf.inserted (by rw [show s.core.rcvNxt = s.pcb.rcvNxt from rfl, hd]; exact hlt)
      hI.chain hs hl (by show 0 < c.pos s.pcb.rcvNxt; omega) hpre hne hi
    change c.pos s.pcb.rcvNxt + _ + _ ≤ (s.pcb.rcvWnd : ℤ) at hle
    refine ⟨he.within_outseq rfl (List.take_length).symm ?_, fun hcf ⟨d, hdr, hdf, _⟩ => ?_⟩
    · rw [htl, hfs]
      split_ifs at hle ⊢ <;> simp_all <;> omega
    · have hany : anyFin s.pcb.ooseq = true :=
        List.any_eq_true.mpr ⟨d, by rw [show s.pcb.ooseq = _ from hpre]; simp [hdr], hdf⟩
      rw [show s.core.ooseq = s.pcb.ooseq from rfl, hany, Bool.or_true, if_pos rfl] at hle
      refine he.within_outseq (show c.setFin.tcphdr.seqno = _ from rfl) (List.take_length).symm ?_
      rw [show c.setFin.tcplen = c.len + 1 from rfl, hl]
      push_cast
      omega
  · intro hgt
    refine he.within_outseq rfl (List.take_length).symm ?_
    exact end_le_of_not_gt (by omega) (by omega) (by omega) hgt
  · intro hseq hle
    refine he.within_outseq rfl (bytes_pbufRealloc c.p _) ?_
    have hct := (windowCut s.pcb.rcvNxt s.pcb.rcvWnd c).tcplen_le
    rw [u16_of_lt (by omega)] at hseq
    have h₁ := dist_end (c := c) (r := s.pcb.rcvNxt)
      (n := (windowCut s.pcb.rcvNxt s.pcb.rcvWnd c).tcplen) (by omega) (by omega)
    rw [hseq, dist_add_u32 _ _ _ (by rw [Serial.dist_self]; omega), Serial.dist_self] at h₁
    omega

/-- One call of `tcp_receive` keeps the invariant, and to the window. -/
theorem WndSafe.tcpReceiveData (hI : WndInv s.core) (hf : WndSafe s.core seg)
    (hest : TcpState.ESTABLISHED.num ≤ s.pcb.state.num)
    (hsyn : seg.flags.syn = true → s.pcb.ooseq = []) (h : Rudp.tcpReceiveData s seg = .ok s') :
    WndInv s'.core ∧ Disciplined seg s s' := by
  have hwl : s.pcb.rcvWnd ≤ 65535 := hI.rcvWnd_le.trans (by decide)
  rcases tcpReceiveData_cases h with hv | ⟨hl, hst, c, s₁, hc, hv, hin, hd⟩
  · exact ⟨hI.of_rcvView hv, .of_rcvView hI hv⟩
  have hfit := hf hl hst
  obtain ⟨off, he⟩ := hfit.firstEdge rfl rfl hI.rcvWnd_le hl hc hin
  rcases hd with ⟨hc0, hd⟩ | ⟨hc0, q', hq', hv'⟩
  · have e1 : s₁.pcb.rcvNxt = s.pcb.rcvNxt := congrArg RcvView.rcvNxt hv
    have e2 : s₁.pcb.rcvWnd = s.pcb.rcvWnd := congrArg RcvView.rcvWnd hv
    have e3 : s₁.pcb.ooseq = s.pcb.ooseq := congrArg RcvView.ooseq hv
    have hlen := he.len
    have hb := seg.bound
    have hfin := hfit.inseq_lt he hc0
    obtain ⟨c', segs, -, -, t⟩ := tcpReceiveInseq_took
      (Q := Within s.pcb.rcvNxt s.pcb.rcvWnd seg s.pcb.ooseq) (n := 0) within_shifts
      (by rw [e2]; exact hwl) (by rw [e2]; exact he.rcvWnd_pos)
      (by rw [e1, e3]; exact hI.chain.within) he.wf (by omega) (by rw [e1]; exact hc0)
      (by rw [he.flags, e3]; exact hsyn)
      (fun c₁ c' q' ht hm => he.within_inseq hc0 hfin (by rwa [e2] at ht) (by rwa [e1, e3] at hm))
      hd
    have hk := t.toTook.congr_left hv
    have hn := hk.rcvWnd
    refine ⟨⟨?_, t.chain.endsBy (by rw [Nat.zero_add]; exact hn), fun hlt => ?_⟩,
      ⟨_, hk, t.inSeq.within⟩, t.chain.stored⟩
    · show s'.pcb.rcvWnd ≤ TCP_WND
      have := hI.rcvWnd_le
      change s.pcb.rcvWnd ≤ TCP_WND at this
      omega
    · exfalso
      change s'.pcb.state.num < _ at hlt
      rcases hk.state with e | ⟨-, e, -⟩
      · rw [e] at hlt
        omega
      · rw [e] at hlt
        exact absurd hlt (by decide)
  · have hch := hfit.outseq_disciplined hI he hc0 hq'
    have e1 : s'.pcb.rcvNxt = s.pcb.rcvNxt := congrArg RcvView.rcvNxt hv'
    have e2 : s'.pcb.rcvWnd = s.pcb.rcvWnd := congrArg RcvView.rcvWnd hv'
    have e3 : s'.pcb.ooseq = q' := congrArg RcvView.ooseq hv'
    have e4 : s'.pcb.state = s.pcb.state := congrArg RcvView.state hv'
    refine ⟨⟨?_, ?_, fun hlt => ?_⟩, ?_, ?_⟩
    · show s'.pcb.rcvWnd ≤ TCP_WND
      rw [e2]
      exact hI.rcvWnd_le
    · show OosChain (EndsBy s'.pcb.rcvWnd) s'.pcb.rcvNxt (-1) s'.pcb.ooseq
      rw [e1, e2, e3]
      exact hch.endsBy (Nat.add_zero _)
    · exfalso
      change s'.pcb.state.num < _ at hlt
      rw [e4] at hlt
      omega
    · refine ⟨[], ⟨?_, ?_, ?_, ?_, ?_, .inl e4⟩, by simp⟩
      · simp [e1, u32]
      · simp [e2]
      · simp [hv', RcvView.data]
      · simp [show s'.recvData = s.recvData from congrArg RcvView.recvData hv']
      · simp [show s'.recvGotFin = s.recvGotFin from congrArg RcvView.recvGotFin hv']
    · rw [e3]
      exact hch.stored

theorem WndSafe.congr {v v' : Core} (hn : v'.rcvNxt = v.rcvNxt) (hw : v'.rcvWnd = v.rcvWnd)
    (hq : v'.ooseq = v.ooseq) (hst : v'.state = v.state) (h : WndSafe v seg) : WndSafe v' seg := by
  intro hl hlt
  rw [hst] at hlt
  obtain ⟨h1, h2, h3, h4⟩ := h hl hlt
  refine ⟨?_, ?_, ?_, ?_⟩
  · rwa [hn]
  · rwa [hn, hw]
  · rwa [hn, hw, hq]
  · rwa [hn, hw, hq]

theorem WndSafe.tcpReceive (hI : WndInv s.core) (hf : WndSafe s.core seg)
    (hsyn : seg.flags.syn = true → s.pcb.ooseq = []) (h : Rudp.tcpReceive s seg = .ok s') :
    WndInv s'.core ∧ Disciplined seg s s' := by
  obtain ⟨hnum, s₁, -, hv, h⟩ := tcpReceive_parts h
  have e1 : s₁.pcb.rcvNxt = s.pcb.rcvNxt := congrArg RcvView.rcvNxt hv
  have e2 : s₁.pcb.rcvWnd = s.pcb.rcvWnd := congrArg RcvView.rcvWnd hv
  have e3 : s₁.pcb.ooseq = s.pcb.ooseq := congrArg RcvView.ooseq hv
  have e4 : s₁.pcb.state = s.pcb.state := congrArg RcvView.state hv
  have hf₁ : WndSafe s₁.core seg := WndSafe.congr (v := s.core) e1 e2 e3 e4 hf
  obtain ⟨k1, ⟨segs, k2, k3⟩, k4⟩ := WndSafe.tcpReceiveData (hI.of_rcvView hv) hf₁
    (by rw [e4]; exact hnum) (by rw [e3]; exact hsyn) h
  have ew : s₁.pcb.window = s.pcb.window := by
    unfold Pcb.window
    rw [e1, e2]
  rw [e3, ew] at k3 k4
  exact ⟨k1, ⟨segs, k2.congr_left hv, k3⟩, k4⟩

/-! ### The assertions -/

/-- One of the two assertions that the window holds what is taken from it has failed. -/
def Overrun (e : Fault) : Prop :=
  e = .assert "tcp_receive: tcplen > rcv_wnd\n" ∨ e = .assert "tcp_receive: ooseq tcplen > rcv_wnd\n"

theorem lwipAssert_error {message : String} {p : Prop} [Decidable p] {e : Fault}
    (h : lwipAssert message p = .error e) : e = .assert message ∧ ¬ p := by
  unfold lwipAssert at h
  split_ifs at h with hp
  cases h
  exact ⟨rfl, hp⟩

theorem tcpReceiveFree_no_overrun {d : TcpSeg} {e : Fault} (h : tcpReceiveFree s d = .error e) :
    ¬ Overrun e := by
  rcases Run.bind_eq_error.mp h with h | ⟨_, -, h⟩
  · simp [(lwipAssert_error h).1, Overrun]
  · rcases Run.bind_eq_error.mp h with h | ⟨_, -, h⟩
    · simp [(lwipAssert_error h).1, Overrun]
    · cases h

theorem tcpReceiveUnacked_no_overrun {ackno : U32} {q : List TcpSeg} {e : Fault}
    (h : tcpReceiveUnacked ackno q s = .error e) : ¬ Overrun e := by
  induction q generalizing s with
  | nil => cases h
  | cons d q ih =>
    rw [tcpReceiveUnacked] at h
    split at h
    · rcases Run.bind_eq_error.mp h with h | ⟨_, -, h⟩
      · exact tcpReceiveFree_no_overrun h
      · exact ih h
    · cases h

theorem tcpReceiveUnsent_no_overrun {ackno : U32} {q : List TcpSeg} {e : Fault}
    (h : tcpReceiveUnsent ackno q s = .error e) : ¬ Overrun e := by
  induction q generalizing s with
  | nil => cases h
  | cons d q ih =>
    rw [tcpReceiveUnsent] at h
    split at h
    · rcases Run.bind_eq_error.mp h with h | ⟨_, -, h⟩
      · exact tcpReceiveFree_no_overrun h
      · exact ih h
    · cases h

theorem tcpReceiveAck_no_overrun {e : Fault} (h : tcpReceiveAck s seg = .error e) :
    ¬ Overrun e := by
  rcases Run.bind_eq_error.mp h with h | ⟨_, -, h⟩
  · unfold tcpReceiveAckno at h
    split at h
    · cases h
    · split at h
      · rcases Run.bind_eq_error.mp h with h | ⟨_, -, h⟩
        · exact tcpReceiveUnacked_no_overrun h
        · cases h
      · cases h
  · rcases Run.bind_eq_error.mp h with h | ⟨_, -, h⟩
    · exact tcpReceiveUnsent_no_overrun h
    · cases h

theorem tcpReceiveTake_no_overrun {message : String} {n : ℕ} {e : Fault} (hn : n ≤ s.pcb.rcvWnd)
    (h : tcpReceiveTake s message c n = .error e) : ¬ Overrun e := by
  rcases Run.bind_eq_error.mp h with h | ⟨_, -, h⟩
  · exact absurd hn (lwipAssert_error h).2
  · rcases Run.bind_eq_error.mp h with h | ⟨_, -, h⟩
    · unfold tcpUpdateRcvAnnWnd at h
      dsimp only at h
      split at h
      · cases h
      · split at h
        · cases h
        · rcases Run.bind_eq_error.mp h with h | ⟨_, -, h⟩
          · simp [(lwipAssert_error h).1, Overrun]
          · cases h
    · cases h

/-- What waits on ooseq fits the window when its turn comes. -/
theorem tcpReceiveDequeue_no_overrun {q : List TcpSeg} {e : Fault} (hw : s.pcb.rcvWnd ≤ 65535)
    (hq : OosChain (EndsBy s.pcb.rcvWnd) s.pcb.rcvNxt (-1) q)
    (h : tcpReceiveDequeue q s = .error e) : ¬ Overrun e := by
  induction q generalizing s with
  | nil => cases h
  | cons d q ih =>
    rw [tcpReceiveDequeue] at h
    split at h
    · next heq =>
      have hd : d.pos s.pcb.rcvNxt + d.tcplen ≤ s.pcb.rcvWnd := hq.2.1.holds
      rw [pos_eq_zero heq] at hd
      rcases Run.bind_eq_error.mp h with h | ⟨s₁, h₁, h⟩
      · exact tcpReceiveTake_no_overrun (by omega) h
      · have t := tcpReceiveTake_took heq h₁
        have hn := t.rcvNxt
        have hwn := t.rcvWnd
        simp only [seqLen_cons, seqLen_nil, Nat.add_zero] at hn hwn
        have hch := hq.2.2.2.advance (P := EndsBy s₁.pcb.rcvWnd) (t := d.tcplen) (by omega)
          (fun p c hc => by
            have : p + c.tcplen ≤ s.pcb.rcvWnd := hc
            show p - d.tcplen + c.tcplen ≤ s₁.pcb.rcvWnd
            omega) (by rw [pos_eq_zero heq]; omega)
        have hle := d.tcplen_le
        rw [← hn, pos_eq_zero heq] at hch
        exact ih (by show s₁.pcb.rcvWnd ≤ 65535; omega) (by exact hch.mono (by omega)) h
    · cases h

theorem mergeOoseq_no_overrun {q : List TcpSeg} {e : Fault} (h : mergeOoseq c q = .error e) :
    ¬ Overrun e := by
  unfold mergeOoseq at h
  split at h
  · cases h
  · split at h
    · cases h
    · rcases Run.bind_eq_error.mp h with h | ⟨_, -, h⟩
      · unfold mergeTrim at h
        split at h
        · rcases Run.bind_eq_error.mp h with h | ⟨_, -, h⟩
          · simp [(lwipAssert_error h).1, Overrun]
          · cases h
        · cases h
      · cases h

theorem tcpReceiveFirstEdge_no_overrun {r : U32} {e : Fault}
    (h : tcpReceiveFirstEdge r seg = .error e) : ¬ Overrun e := by
  unfold tcpReceiveFirstEdge at h
  split at h
  · rcases Run.bind_eq_error.mp h with h | ⟨_, -, h⟩
    · simp [(lwipAssert_error h).1, Overrun]
    · rcases Run.bind_eq_error.mp h with h | ⟨_, -, h⟩
      · simp [(lwipAssert_error h).1, Overrun]
      · cases h
  · cases h

theorem oosAppend_no_overrun {r : U32} {w : ℕ} {d : TcpSeg} {e : Fault}
    (h : oosAppend r w c d = some (.error e)) : ¬ Overrun e := by
  unfold oosAppend at h
  dsimp only at h
  split_ifs at h
  · rcases Run.bind_eq_error.mp (Option.some.inj h) with h | ⟨_, -, h⟩
    · simp [(lwipAssert_error h).1, Overrun]
    · cases h
  · cases h

theorem map_some_error {x : Option (Except Fault (List TcpSeg))} {f : List TcpSeg → List TcpSeg}
    {e : Fault} (h : (x.map fun q => f <$> q) = some (.error e)) : x = some (.error e) := by
  obtain ⟨y, rfl, h⟩ := Option.map_eq_some_iff.mp h
  cases y with
  | error e' =>
    cases h
    rfl
  | ok q => cases h

theorem oosWalk_no_overrun {r : U32} {w : ℕ} {prev : TcpSeg} {q : List TcpSeg} {e : Fault}
    (h : oosWalk r w c prev q = some (.error e)) : ¬ Overrun e := by
  induction q generalizing prev with
  | nil => cases h
  | cons d q ih =>
    simp only [oosWalk] at h
    split_ifs at h
    · cases h
    · cases h
    · exact oosAppend_no_overrun (map_some_error h)
    · exact ih (map_some_error h)

theorem tcpReceiveOutseq_no_overrun {e : Fault} (h : tcpReceiveOutseq s c = .error e) :
    ¬ Overrun e := by
  unfold tcpReceiveOutseq at h
  dsimp only at h
  split at h
  · cases h
  · next queue hq =>
    split at h
    · cases h
    · rcases Run.bind_eq_error.mp h with rfl | ⟨_, -, h⟩
      · unfold oosInsert at hq
        split at hq
        · cases hq
        · dsimp only at hq
          split_ifs at hq
          · cases hq
          · cases hq
          · exact oosAppend_no_overrun hq
          · exact oosWalk_no_overrun hq
      · cases h

theorem tcpReceiveInseq_no_overrun {off : ℕ} {s₁ : St W} {e : Fault} (hI : WndInv s.core)
    (hf : Fits s.core seg) (hv : s₁.rcvView = s.rcvView) (he : FirstEdge s.pcb seg c off)
    (hc : c.tcphdr.seqno = s.pcb.rcvNxt) (hsyn : seg.flags.syn = true → s.pcb.ooseq = [])
    (h : tcpReceiveInseq s₁ c = .error e) : ¬ Overrun e := by
  have hwl : s.pcb.rcvWnd ≤ 65535 := hI.rcvWnd_le.trans (by decide)
  have e1 : s₁.pcb.rcvNxt = s.pcb.rcvNxt := congrArg RcvView.rcvNxt hv
  have e2 : s₁.pcb.rcvWnd = s.pcb.rcvWnd := congrArg RcvView.rcvWnd hv
  have e3 : s₁.pcb.ooseq = s.pcb.ooseq := congrArg RcvView.ooseq hv
  have hlen := he.len
  have hb := seg.bound
  have htl := c.tcplen_le
  unfold tcpReceiveInseq at h
  rw [e1, e2, e3] at h
  rcases Run.bind_eq_error.mp h with h | ⟨c₁, h₁, h⟩
  · unfold tcpReceiveTrimWnd at h
    split at h
    · rcases Run.bind_eq_error.mp h with h | ⟨_, -, h⟩
      · simp [(lwipAssert_error h).1, Overrun]
      · cases h
    · cases h
  have ht := trimWnd_spec (by omega) he.rcvWnd_pos h₁
  rcases Run.bind_eq_error.mp h with h | ⟨⟨c', q'⟩, h₂, h⟩
  · exact mergeOoseq_no_overrun h
  have hc₁ : c₁.tcphdr.seqno = c.tcphdr.seqno ∧ c₁.tcphdr.flags.syn = c.tcphdr.flags.syn ∧
      c₁.len ≤ 65507 := by
    rcases ht with ⟨rfl, -⟩ | ⟨m, hm, rfl, -, -⟩
    · exact ⟨rfl, rfl, by omega⟩
    · exact ⟨rfl, rfl, by rw [cut_len]; omega⟩
  obtain ⟨g1, g2, g3⟩ := hc₁
  have hc₁t := c₁.tcplen_le
  obtain ⟨k1, k2, -⟩ := mergeOoseq_spec hI.chain le_rfl (pos_eq_zero (g1.trans hc)) (by omega)
    (by rw [g2, he.flags]; exact hsyn) h₂
  have hle := merged_tcplen (hf.inseq_lt he hc) ht k2
  dsimp only at h
  rw [u16_of_lt (by omega)] at h
  rcases Run.bind_eq_error.mp h with h | ⟨s₂, h₃, h⟩
  · exact tcpReceiveTake_no_overrun (by show c'.tcplen ≤ s₁.pcb.rcvWnd; omega) h
  have t := tcpReceiveTake_took (by
    show c'.tcphdr.seqno = s₁.pcb.rcvNxt
    rw [merged_pos ht k2, hc, e1]) h₃
  have hn := t.rcvNxt
  have hwn := t.rcvWnd
  simp only [seqLen_cons, seqLen_nil, Nat.add_zero] at hn hwn
  change s₂.pcb.rcvNxt = s₁.pcb.rcvNxt + u32 c'.tcplen at hn
  change s₂.pcb.rcvWnd + c'.tcplen = s₁.pcb.rcvWnd at hwn
  rcases Run.bind_eq_error.mp h with h | ⟨s₃, -, h⟩
  · refine tcpReceiveDequeue_no_overrun (by omega) ?_ h
    have hch := k1.advance (P := EndsBy s₂.pcb.rcvWnd) (t := c'.tcplen) (by omega)
      (fun p d hd => by
        have : p + d.tcplen ≤ s.pcb.rcvWnd := hd
        show p - c'.tcplen + d.tcplen ≤ s₂.pcb.rcvWnd
        omega) (by omega)
    rw [hn, e1]
    exact hch.mono (by omega)
  · cases h

/-- In no state that keeps the invariant does a safe segment make one of the two assertions fail. -/
theorem WndSafe.no_overrun {e : Fault} (hI : WndInv s.core) (hf : WndSafe s.core seg)
    (hsyn : seg.flags.syn = true → s.pcb.ooseq = []) (h : Rudp.tcpReceive s seg = .error e) :
    ¬ Overrun e := by
  rcases Run.bind_eq_error.mp h with h | ⟨_, -, h⟩
  · simp [(lwipAssert_error h).1, Overrun]
  rcases Run.bind_eq_error.mp h with h | ⟨s₁, h₁, h⟩
  · split at h
    · exact tcpReceiveAck_no_overrun h
    · cases h
  have hv : s₁.rcvView = s.rcvView := by
    split at h₁
    · exact rcvView_tcpReceiveAck h₁
    · cases h₁; rfl
  have e1 : s₁.pcb.rcvNxt = s.pcb.rcvNxt := congrArg RcvView.rcvNxt hv
  have e2 : s₁.pcb.rcvWnd = s.pcb.rcvWnd := congrArg RcvView.rcvWnd hv
  have e3 : s₁.pcb.ooseq = s.pcb.ooseq := congrArg RcvView.ooseq hv
  have e4 : s₁.pcb.state = s.pcb.state := congrArg RcvView.state hv
  have hI₁ := hI.of_rcvView hv
  have hf₁ : WndSafe s₁.core seg := WndSafe.congr (v := s.core) e1 e2 e3 e4 hf
  unfold Rudp.tcpReceiveData at h
  split at h
  · next hc =>
    rcases Run.bind_eq_error.mp h with h | ⟨c, hc₁, h⟩
    · exact tcpReceiveFirstEdge_no_overrun h
    have hd := rcvView_tcpReceiveDup s₁ seg
    generalize tcpReceiveDup s₁ seg = s₂ at h hd
    have d1 : s₂.pcb.rcvNxt = s₁.pcb.rcvNxt := congrArg RcvView.rcvNxt hd
    have d2 : s₂.pcb.rcvWnd = s₁.pcb.rcvWnd := congrArg RcvView.rcvWnd hd
    have ew : inWindow s₂.pcb c.tcphdr.seqno ↔ inWindow s₁.pcb c.tcphdr.seqno := by
      unfold inWindow
      rw [d1, d2]
    unfold tcpReceiveSegment at h
    split at h
    · next hin =>
      have hfit := hf₁ hc.1 hc.2
      obtain ⟨off, he⟩ := hfit.firstEdge rfl rfl hI₁.rcvWnd_le hc.1 hc₁ (ew.mp hin)
      split at h
      · next heq =>
        exact tcpReceiveInseq_no_overrun hI₁ hfit hd he (by rw [← heq, d1])
          (by rw [e3]; exact hsyn) h
      · exact tcpReceiveOutseq_no_overrun h
    · cases h
  · split at h <;> cases h

end Receive

/-! ## Runs -/

section Runs

variable {s s' : St W} {seg : InSegment} {app : App W}

/-- `tcp_recved` does not overflow `rcv_wnd`, or the window that is left still holds what waits on
    ooseq. -/
def WndCall (v : Core) : Api → Prop
  | .recved len => v.rcvWnd + len < 65536 ∨
      ∀ c ∈ v.ooseq, c.pos v.rcvNxt + c.tcplen ≤ v.rcvWnd + len - 65536
  | _ => True

theorem WndInv.congr {v v' : Core} (h : WndInv v) (hw : v'.rcvWnd = v.rcvWnd)
    (hn : v'.rcvNxt = v.rcvNxt) (hq : v'.ooseq = v.ooseq)
    (hs : v'.state.num < TcpState.ESTABLISHED.num → v.state.num < TcpState.ESTABLISHED.num) :
    WndInv v' where
  rcvWnd_le := by rw [hw]; exact h.rcvWnd_le
  chain := by rw [hw, hn, hq]; exact h.chain
  early hlt := by rw [hq]; exact h.early (hs hlt)

/-- Nothing waits on ooseq. -/
theorem WndInv.of_nil {v : Core} (hw : v.rcvWnd ≤ TCP_WND) (hq : v.ooseq = []) : WndInv v where
  rcvWnd_le := hw
  chain := by rw [hq]; trivial
  early _ := hq

/-- The window moves to `w`, and what waits on ooseq still ends in it. -/
theorem WndInv.setWnd {v v' : Core} (h : WndInv v) (hw : v'.rcvWnd ≤ TCP_WND)
    (hn : v'.rcvNxt = v.rcvNxt) (hq : v'.ooseq = v.ooseq) (hs : v'.state = v.state)
    (hle : v.rcvWnd ≤ v'.rcvWnd ∨ ∀ c ∈ v.ooseq, c.pos v.rcvNxt + c.tcplen ≤ v'.rcvWnd) :
    WndInv v' where
  rcvWnd_le := hw
  chain := by
    rw [hn, hq]
    refine h.chain.imp fun c hc hw' => ?_
    have h₁ : c.pos v.rcvNxt + c.tcplen ≤ v.rcvWnd := hw'
    show c.pos v.rcvNxt + c.tcplen ≤ v'.rcvWnd
    rcases hle with hle | hle
    · omega
    · exact hle c hc
  early hlt := by
    rw [hq]
    rw [hs] at hlt
    exact h.early hlt

theorem WndInv.recved {len : Fin 65536} {w : ℕ} (hP : WndCall s.core (.recved len))
    (hw : rcvWndRecved s.pcb len = .ok w) (h : WndInv s.core) :
    WndInv { s with pcb.rcvWnd := w }.core := by
  have hle := h.rcvWnd_le
  change s.pcb.rcvWnd ≤ TCP_WND at hle
  have hT : TCP_WND = 5360 := rfl
  have hmod : u16 (s.pcb.rcvWnd + len) = s.pcb.rcvWnd + len ∨
      (u16 (s.pcb.rcvWnd + len) + 65536 = s.pcb.rcvWnd + len ∧ 65536 ≤ s.pcb.rcvWnd + len) := by
    unfold u16
    omega
  unfold rcvWndRecved at hw
  dsimp only at hw
  refine h.setWnd ?_ rfl rfl rfl ?_
  · show w ≤ TCP_WND
    split_ifs at hw with h1 h2 h3 <;> cases hw
    · exact le_rfl
    · exact le_rfl
    · omega
  · split_ifs at hw with h1 h2 h3 <;> cases hw
    · exact .inl hle
    · exact .inl hle
    · rcases hmod with he | ⟨he, hge⟩
      · left
        show s.pcb.rcvWnd ≤ u16 (s.pcb.rcvWnd + len)
        omega
      · right
        intro c hc
        have := hP.resolve_left (by show ¬ s.pcb.rcvWnd + len < 65536; omega) c hc
        change c.pos s.pcb.rcvNxt + c.tcplen ≤ (s.pcb.rcvWnd : ℤ) + len - 65536 at this
        show c.pos s.pcb.rcvNxt + c.tcplen ≤ (u16 (s.pcb.rcvWnd + len) : ℤ)
        omega

theorem WndInv.rcvWndFin (h : WndInv s.core) :
    WndInv { s with pcb := Rudp.rcvWndFin s.pcb }.core := by
  have hle := h.rcvWnd_le
  change s.pcb.rcvWnd ≤ TCP_WND at hle
  have hT : TCP_WND = 5360 := rfl
  unfold Rudp.rcvWndFin
  split
  · next hne =>
    rw [u16_of_lt (by omega)]
    refine h.setWnd ?_ rfl rfl rfl (.inl ?_)
    · show s.pcb.rcvWnd + 1 ≤ TCP_WND
      omega
    · show s.pcb.rcvWnd ≤ s.pcb.rcvWnd + 1
      omega
  · exact h

/-- The purge empties ooseq, or is none. -/
theorem WndInv.purge (h : WndInv s.core) : WndInv { s with pcb := tcpPcbPurge s.pcb }.core := by
  unfold tcpPcbPurge
  split
  · exact .of_nil h.rcvWnd_le rfl
  · exact h

theorem WndInv.after {state : TcpState} (h : WndInv s.core) :
    WndInv (tcpProcessAfter state seg s).core := by
  have hset {t : St W} {st : TcpState} (ht : WndInv t.core) (hst : 4 ≤ st.num) :
      WndInv { t with pcb.state := st }.core :=
    ht.congr rfl rfl rfl (fun hlt => absurd hlt (not_lt.mpr hst))
  have htw {t : St W} (ht : WndInv t.core) : WndInv (toTimeWait t).core :=
    hset (t := { t with pcb := tcpPcbPurge t.pcb }) ht.purge (by decide)
  have hack : WndInv (tcpAckNow s).core := h
  unfold tcpProcessAfter
  dsimp only
  split <;> try split_ifs
  all_goals first
  | exact h
  | exact hset hack (by decide)
  | exact hset h (by decide)
  | exact htw hack

theorem WndInv.process {after : St W → St W} (hI : WndInv s.core) (hf : WndSafe s.core seg)
    (hsyn : seg.flags.syn = true → s.pcb.ooseq = [])
    (hafter : ∀ t : St W, WndInv t.core → WndInv (after t).core)
    (h : tcpProcessReceive s seg after = .ok s') : WndInv s'.core := by
  obtain ⟨s₁, h₁, h⟩ := Run.bind_eq_ok.mp h
  cases h
  have h₂ := hafter s₁ (hf.tcpReceive hI hsyn h₁).1
  exact h₂.congr rfl rfl rfl id

theorem tcpConnectSyn_ok {newPort : ℕ} {iss : U32} {err : Err}
    (h : tcpConnectSyn s newPort iss = .ok (err, s')) :
    s.pcb.state = .CLOSED ∧ s'.pcb.ooseq = s.pcb.ooseq ∧
      (s'.pcb.rcvWnd = s.pcb.rcvWnd ∧ s'.pcb.rcvNxt = s.pcb.rcvNxt ∨ s'.pcb.rcvWnd = TCP_WND) := by
  obtain ⟨_, ha, h⟩ := Run.bind_eq_ok.mp h
  refine ⟨lwipAssert_ok ha, ?_⟩
  generalize (if s.pcb.localPort = 0 then newPort else s.pcb.localPort) = port at h
  dsimp only at h
  split at h
  · cases h
    exact ⟨rfl, .inl ⟨rfl, rfl⟩⟩
  · obtain ⟨⟨err', s₁⟩, h₁, h⟩ := Run.bind_eq_ok.mp h
    have hv := rcvView_tcpEnqueueFlags h₁
    have e1 : s₁.pcb.ooseq = s.pcb.ooseq := congrArg RcvView.ooseq hv
    have e2 : s₁.pcb.rcvWnd = TCP_WND := congrArg RcvView.rcvWnd hv
    dsimp only at h
    split at h <;> cases h <;> exact ⟨e1, .inr e2⟩

/-- Nothing gets on ooseq but a segment. -/
theorem preserved_ooseq_nil {P : Core → Api → Prop} :
    Preserved P (fun _ _ => False) fun s : St W => s.pcb.ooseq = [] where
  frame hI he _ := (congrArg Core.ooseq he).trans hI
  callback _ hI := hI
  connect _ hr hI := (tcpConnectSyn_ok hr).2.1.trans hI
  write _ hr hI := by
    have h₁ := (congrArg RcvView.ooseq (rcvView_tcpWrite hr)).trans hI
    split <;> exact h₁
  recved _ _ hI := hI
  fin _ _ _ hr hI := by
    have h₁ := (congrArg RcvView.ooseq (rcvView_tcpSendFin hr)).trans hI
    split <;> exact h₁
  output hr hI := (congrArg RcvView.ooseq (rcvView_tcpOutput hr)).trans hI
  rexmitRto hr hI := (congrArg RcvView.ooseq (rcvView_tcpRexmitRto hr)).trans hI
  probe {s} hI := (congrArg RcvView.ooseq (rcvView_tcpZeroWindowProbe s)).trans hI
  rexmit {s} _ hI := (congrArg RcvView.ooseq (rcvView_tcpRexmit s)).trans hI
  rcvWndFin {s} hI := by
    unfold Rudp.rcvWndFin
    split <;> exact hI
  mss _ _ hI := hI
  establish _ _ _ _ hI := hI
  accept _ _ hI := hI
  receive _ hQ _ _ := hQ.elim
  receiveAccept _ _ _ _ _ hQ _ _ := hQ.elim
  purge {s} _ hI := by
    unfold tcpPcbPurge
    split
    · rfl
    · exact hI
  timeWait _ _ _ _ _ hq _ := hq
  closed _ _ _ hq _ := hq
  clear _ _ _ := rfl
  ooseq _ := rfl

theorem preserved_wndInv : Preserved WndCall WndSafe fun s : St W => WndInv s.core where
  frame hI he _ := he ▸ hI
  callback _ hI := hI.congr rfl rfl rfl id
  connect {s s' _ _ _} _ hr hI := by
    obtain ⟨h1, h2, h3⟩ := tcpConnectSyn_ok hr
    have hq : s.pcb.ooseq = [] := hI.early (by show s.pcb.state.num < _; rw [h1]; decide)
    refine .of_nil ?_ (h2.trans hq)
    show s'.pcb.rcvWnd ≤ TCP_WND
    rcases h3 with ⟨h3, -⟩ | h3
    · rw [h3]
      exact hI.rcvWnd_le
    · exact h3.le
  write _ hr hI := by
    have h₁ := hI.of_rcvView (rcvView_tcpWrite hr)
    split
    · exact h₁.congr rfl rfl rfl id
    · exact h₁
  recved hP hw hI := hI.recved hP hw
  fin {s s' _ st _} _ _ hst hr hI := by
    have h₁ := hI.of_rcvView (rcvView_tcpSendFin hr)
    split
    · refine h₁.congr rfl rfl rfl (fun hlt => absurd hlt (not_lt.mpr ?_))
      show 4 ≤ st.num
      unfold closeState at hst
      split at hst <;> cases hst <;> decide
    · exact h₁
  output hr hI := hI.of_rcvView (rcvView_tcpOutput hr)
  rexmitRto hr hI := hI.of_rcvView (rcvView_tcpRexmitRto hr)
  probe {s} hI := hI.of_rcvView (rcvView_tcpZeroWindowProbe s)
  rexmit {s} _ hI := hI.of_rcvView (rcvView_tcpRexmit s)
  rcvWndFin hI := hI.rcvWndFin
  mss _ _ hI := hI.congr rfl rfl rfl id
  establish {s _ _ _} hs _ _ _ hI :=
    .of_nil hI.rcvWnd_le (hI.early (by show s.pcb.state.num < _; rw [hs]; decide))
  accept _ _ hI := hI.congr rfl rfl rfl (fun hlt => absurd hlt (not_lt.mpr (le_refl 4)))
  receive hsyn hQ hr hI := hI.process hQ (fun h => absurd h (by simp [hsyn])) (fun _ h => h.after) hr
  receiveAccept {app s s₁ s' seg} happ hs hI _ he hQ hr hI₁ := by
    have hq : s.pcb.ooseq = [] := hI.early (by show s.pcb.state.num < _; rw [hs]; decide)
    have hq₁ := preserved_ooseq_nil.toKeptApi.tcpEvent (s := { s with pcb.state := .ESTABLISHED }) happ he hq
    refine hI₁.process hQ (fun _ => hq₁) (fun t ht => ?_) hr
    unfold tcpProcessAcceptAfter
    dsimp only
    split
    · exact ht.congr rfl rfl rfl (fun hlt => absurd hlt (by simp [St.core, TcpState.num]))
    · exact ht.congr rfl rfl rfl id
  purge _ hI := hI.purge
  timeWait _ _ _ _ _ hq hI := .of_nil hI.rcvWnd_le hq
  closed _ _ _ hq hI := .of_nil hI.rcvWnd_le hq
  clear _ _ hI := .of_nil hI.rcvWnd_le rfl
  ooseq hI := .of_nil hI.rcvWnd_le rfl

theorem kept_wndInv : Kept WndCall (fun s => WndSafe s.core) (fun _ _ => True) app
    (fun s : St W => WndInv s.core) :=
  preserved_wndInv.toKept

/-- A SYN only reaches `tcp_receive` while ooseq is empty. -/
theorem WndInv.syn_ooseq {t : St W} (happ : AppOk WndCall app) (hI : WndInv s.core)
    (ht : Receives app s seg t) : seg.flags.syn = true → t.pcb.ooseq = [] := by
  intro hsyn
  obtain ⟨s₁, h₁, -, s₂, rfl, ht⟩ := ht
  have hp : Kept _ _ _ app (fun s : St W => WndInv s.core) := kept_wndInv
  have hI₁ : WndInv s₁.core := hp.toSteps.tcpInputRefused happ h₁ (hI.congr rfl rfl rfl id)
  have hI₂ := hp.toSteps.tcpProcessStart (s := { s₁ with inputPcb := true }) seg trivial
    (hI₁.congr rfl rfl rfl id)
  rcases ht with ⟨-, -, h, -⟩ | ⟨hs, -, -, ht⟩
  · rw [hsyn] at h
    cases h
  · have hq := hI₂.early (by
      show (tcpProcessStart { s₁ with inputPcb := true } seg).pcb.state.num < _
      rw [hs]
      decide)
    exact preserved_ooseq_nil.toKeptApi.tcpEvent (s := { tcpProcessStart { s₁ with inputPcb := true } seg with
      pcb.state := .ESTABLISHED }) happ ht hq

/-- In every run whose steps are safe, ooseq ends in the window at all times, and a safe segment
    that reaches `tcp_receive` is delivered and stored in the window, without an overrun. -/
theorem window_discipline {s₀ : St W} (happ : AppOk WndCall app) (h₀ : Fresh s₀)
    (hr : Run.Reach (connStep app) (Preserved.StepOk WndCall WndSafe app) s₀ s) :
    (s.pcb.rcvWnd ≤ TCP_WND ∧
      ∀ c ∈ s.pcb.ooseq, c.pos s.pcb.rcvNxt + c.tcplen ≤ s.pcb.rcvWnd) ∧
    ∀ fails seg t, Receives app { s with fails := fails } seg t → WndSafe t.core seg →
      (∀ e, tcpReceive t seg = .error e → ¬ Overrun e) ∧
        ∀ t', tcpReceive t seg = .ok t' → Disciplined seg t t' := by
  have hp : Kept _ _ _ app (fun s : St W => WndInv s.core) := kept_wndInv
  have hfresh : WndInv s₀.core := by
    refine hp.fresh (fun s hs => ?_) (fun {s s' err} seg localPort serverId hs hr => ?_) h₀
    · obtain ⟨⟨prio, iss, ticks, port, hpcb⟩, -⟩ := hs
      exact .of_nil (by show s.pcb.rcvWnd ≤ _; rw [hpcb]; exact le_rfl)
        (by show s.pcb.ooseq = _; rw [hpcb]; rfl)
    · obtain ⟨⟨prio, iss, ticks, port, hpcb⟩, -⟩ := hs
      refine WndInv.of_rcvView (rcvView_tcpEnqueueFlags hr) (.of_nil ?_ ?_)
      · show s.pcb.rcvWnd ≤ _
        rw [hpcb]
        exact le_rfl
      · show s.pcb.ooseq = _
        rw [hpcb]
        rfl
  have hI : WndInv s.core := preserved_wndInv.reach happ hfresh hr
  refine ⟨⟨hI.rcvWnd_le, fun c hc => (hI.chain.forall c hc).1.holds⟩, fun fails seg t ht hQ => ?_⟩
  have hI' : WndInv ({ s with fails := fails } : St W).core := hI
  have hIt := hp.receives happ ht hI'
  have hsyn := hI'.syn_ooseq happ ht
  exact ⟨fun e he => hQ.no_overrun hIt hsyn he, fun t' he => (hQ.tcpReceive hIt hsyn he).2⟩

end Runs

/-! ### Two runs -/

/-- Three bytes and the FIN behind them, three bytes early. -/
def earlyFin : InSegment where
  tcphdr := serverHdr 4 1000 { ack := true, fin := true } TCP_WND
  p := [{ payload := [7, 7, 7] }]
  bound := threeBytes_bound

/-- What is missing in front of them. -/
def missingBytes : InSegment where
  tcphdr := serverHdr 1 1000 { ack := true } TCP_WND
  p := [{ payload := [7, 7, 7] }]
  bound := threeBytes_bound

theorem receives_established (hs : s.pcb.state = .ESTABLISHED) (href : s.pcb.refusedData = none)
    (hrst : seg.flags.rst = false) (hsyn : seg.flags.syn = false) :
    Receives app s seg (tcpProcessStart { s.resetRecv with inputPcb := true } seg) := by
  have hst : (tcpProcessStart { s.resetRecv with inputPcb := true } seg).pcb.state = .ESTABLISHED := by
    unfold tcpProcessStart
    split <;> exact hs
  refine ⟨s.resetRecv, if_neg (not_not.mpr href), hrst, _, rfl, .inl ⟨?_, ?_, hsyn, rfl⟩⟩
  · rw [hst]
  · rw [hst]
    decide

/-- The segments arrive in the wrong order: one is stored, and delivered behind the other. -/
theorem window_discipline_reordered : ∃ s t t' : St Unit, Run.exec (connStep idleApp) client
    [connectOp, synAckOp TCP_WND, ([], .input earlyFin)] = .ok s ∧
      s.pcb.ooseq = [earlyFin.inseg] ∧ s.pcb.rcvWnd ≤ TCP_WND ∧
      (∀ c ∈ s.pcb.ooseq, c.pos s.pcb.rcvNxt + c.tcplen ≤ s.pcb.rcvWnd) ∧
      Receives idleApp { s with fails := [] } missingBytes t ∧
      tcpReceive t missingBytes = .ok t' ∧ t'.pcb.rcvNxt = 8 ∧ Disciplined missingBytes t t' := by
  have hd := window_discipline appOk_idleApp fresh_client
    (.step ([], .input earlyFin) (.step (synAckOp TCP_WND) (.step connectOp .refl trivial rfl)
      (fun t ht => ?_) rfl) (fun t ht => ?_) rfl)
  · refine ⟨_, _, _, rfl, rfl, hd.1.1, hd.1.2, receives_established rfl rfl rfl rfl, rfl, rfl,
      (hd.2 [] missingBytes _ (receives_established rfl rfl rfl rfl) fun _ _ => ?_).2 _ rfl⟩
    exact ⟨by decide, by decide, fun _ _ _ => by decide, fun h => absurd h (by decide)⟩
  · -- in SYN_SENT `tcp_receive` is not called
    obtain ⟨s₁, h₁, -, s₂, rfl, ht⟩ := ht
    cases h₁
    rcases ht with ⟨h, -⟩ | ⟨h, -⟩
    · exact absurd h (by decide)
    · cases h
  · obtain ⟨s₁, h₁, -, s₂, rfl, ht⟩ := ht
    cases h₁
    rcases ht with ⟨-, -, -, rfl⟩ | ⟨h, -⟩
    · intro _ _
      exact ⟨by decide, by decide, fun h => absurd h (by decide), fun _ _ => .inr (.inr (by decide))⟩
    · cases h

/-- The last byte of the window, with FIN. -/
def lastByteFin : List Bool × Op :=
  ([], .input { tcphdr := serverHdr 5360 1000 { ack := true, fin := true } TCP_WND,
                p := [{ payload := [7] }], bound := oneByte_bound })

/-- The last byte of the window arrives with a FIN before the rest. It is stored as it is, and the
    FIN lies outside the window. -/
theorem window_discipline_fails : ∃ s : St Unit, AppOk WndCall idleApp ∧ Fresh client ∧
    Run.exec (connStep idleApp) client [connectOp, synAckOp TCP_WND, lastByteFin] = .ok s ∧
      ∃ c ∈ s.pcb.ooseq, s.pcb.rcvWnd < c.pos s.pcb.rcvNxt + c.tcplen :=
  ⟨_, appOk_idleApp, fresh_client, rfl, _, List.mem_cons_self, by decide⟩

end Rudp

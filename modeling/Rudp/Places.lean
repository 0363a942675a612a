import Rudp.Opening
import Rudp.Queue

/-!
# Where the queued segments lie

Sequence numbers on the sending side are compared modulo `2^32`, so every statement about the order
of the queues needs bounds on how far their segments can lie from `lastack`. The queues can get out
of order: an RTO puts `unacked` in front of a segment of `unsent` that was retransmitted fast, and
that segment may then be acknowledged and stay behind. But it cannot stay behind far, because the
segments in front of it leave with the next ACKs. `Placed` says this.

Results:
* `Placed.send`, `Placed.rto`, `Placed.rexmit`, `Placed.drop`: what the functions that move segments
  keep.
-/

namespace Rudp

open Serial

/-! ## Positions -/

/-- The position behind a segment, seen from `r`. -/
def TcpSeg.stop (r : U32) (seg : TcpSeg) : ℤ := seg.pos r + seg.tcplen

/-- The position behind the data of a segment, or behind its SYN. -/
def TcpSeg.dataStop (r : U32) (seg : TcpSeg) : ℤ :=
  seg.pos r + seg.len + (if seg.tcphdr.flags.syn then 1 else 0)

/-- The same data at the same place: `tcp_output` changes other fields of a segment. -/
structure TcpSeg.Same (seg seg' : TcpSeg) : Prop where
  seqno : seg'.tcphdr.seqno = seg.tcphdr.seqno
  len : seg'.len = seg.len
  p : seg'.p = seg.p
  syn : seg'.tcphdr.flags.syn = seg.tcphdr.flags.syn
  fin : seg'.tcphdr.flags.fin = seg.tcphdr.flags.fin

theorem TcpSeg.Same.tcplen {seg seg' : TcpSeg} (h : seg.Same seg') : seg'.tcplen = seg.tcplen := by
  unfold TcpSeg.tcplen TcpFlags.finSyn
  rw [h.len, h.syn, h.fin]

theorem TcpSeg.Same.pos {seg seg' : TcpSeg} (h : seg.Same seg') (r : U32) :
    seg'.pos r = seg.pos r := by
  unfold TcpSeg.pos
  rw [h.seqno]

theorem TcpSeg.Same.stop {seg seg' : TcpSeg} (h : seg.Same seg') (r : U32) :
    seg'.stop r = seg.stop r := by
  unfold TcpSeg.stop
  rw [h.pos, h.tcplen]

theorem TcpSeg.Same.dataStop {seg seg' : TcpSeg} (h : seg.Same seg') (r : U32) :
    seg'.dataStop r = seg.dataStop r := by
  unfold TcpSeg.dataStop
  rw [h.pos, h.len, h.syn]

theorem TcpSeg.pos_le_stop (r : U32) (seg : TcpSeg) : seg.pos r ≤ seg.stop r := by
  unfold TcpSeg.stop
  omega

/-- A FIN is one more than the data. -/
theorem TcpSeg.stop_le (r : U32) (seg : TcpSeg) : seg.stop r ≤ seg.dataStop r + 1 := by
  unfold TcpSeg.stop TcpSeg.dataStop TcpSeg.tcplen TcpFlags.finSyn
  split_ifs <;> grind

theorem TcpSeg.dataStop_le (r : U32) (seg : TcpSeg) : seg.dataStop r ≤ seg.stop r := by
  unfold TcpSeg.stop TcpSeg.dataStop TcpSeg.tcplen TcpFlags.finSyn
  split_ifs <;> grind

/-- No segment has more sequence numbers: `tcp_write` demands that the last segment has at most
    `TCP_MSS` bytes before it adds at most `snd_buf` more. -/
def segMax : ℕ := TCP_MSS + TCP_SND_BUF + 2

/-- How far a segment may lie before `lastack`, or before the end of a segment in front of it. -/
def slack : ℕ := segMax + TCP_SND_BUF + 1

/-- The segment is of one piece and carries something. -/
structure TcpSeg.Sized (seg : TcpSeg) : Prop where
  small : seg.len < segMax
  whole : seg.len = totLen seg.p
  chain : seg.p ≠ []
  full : 0 < seg.tcplen

theorem TcpSeg.Same.sized {seg seg' : TcpSeg} (h : seg.Same seg') (hs : seg.Sized) : seg'.Sized where
  small := h.len ▸ hs.small
  whole := by rw [h.len, h.p]; exact hs.whole
  chain := h.p ▸ hs.chain
  full := h.tcplen ▸ hs.full

theorem segMax_eq : segMax = 6970 := rfl

theorem slack_eq : slack = 13403 := rfl

theorem sndBuf_eq : TCP_SND_BUF = 6432 := rfl

/-- The places of the queued segments, seen from `lastack`; `lbb` is that of `snd_lbb`. -/
structure Placed (r : U32) (lbb : ℤ) (unsent unacked : List TcpSeg) : Prop where
  bound : lbb ≤ TCP_SND_BUF
  sized : ∀ x ∈ unsent ++ unacked, x.Sized
  low : ∀ x ∈ unsent ++ unacked, -slack ≤ x.pos r
  high : ∀ x ∈ unsent ++ unacked, x.dataStop r ≤ lbb
  sorted : unacked.Pairwise fun x y : TcpSeg => x.pos r ≤ y.pos r
  order : unsent.Pairwise fun h x : TcpSeg => h.stop r ≤ x.pos r + slack
  cross : ∀ h ∈ unacked, ∀ x ∈ unsent, h.stop r ≤ x.pos r + slack

variable {r : U32} {lbb : ℤ} {unsent unacked rest : List TcpSeg} {seg seg' : TcpSeg}

theorem Placed.tcplen (h : Placed r lbb unsent unacked) {x : TcpSeg} (hx : x ∈ unsent ++ unacked) :
    x.tcplen ≤ segMax :=
  x.tcplen_le.trans (h.sized x hx).small

theorem Placed.stop (h : Placed r lbb unsent unacked) {x : TcpSeg} (hx : x ∈ unsent ++ unacked) :
    x.stop r ≤ lbb + 1 := by
  have h1 := h.high x hx
  have h2 := x.stop_le r
  omega

theorem Placed.near (h : Placed r lbb unsent unacked) {x : TcpSeg} (hx : x ∈ unsent ++ unacked) :
    Near r x.tcphdr.seqno := by
  have h1 := h.low x hx
  have h2 := h.stop hx
  have h3 := x.pos_le_stop r
  have h4 := h.bound
  have e1 := slack_eq
  have e2 := sndBuf_eq
  unfold TcpSeg.pos at h1 h3
  constructor <;> omega

theorem Placed.nil (hb : lbb ≤ TCP_SND_BUF) : Placed r lbb [] [] where
  bound := hb
  sized x hx := by cases hx
  low x hx := by cases hx
  high x hx := by cases hx
  sorted := .nil
  order := .nil
  cross h hh := by cases hh

/-- Segments leave from the front of the queues. -/
theorem Placed.suffix {unsent' unacked' : List TcpSeg} (h : Placed r lbb unsent unacked)
    (hs : unsent' <:+ unsent) (ha : unacked' <:+ unacked) : Placed r lbb unsent' unacked' where
  bound := h.bound
  sized x hx := h.sized x ((hs.sublist.append ha.sublist).subset hx)
  low x hx := h.low x ((hs.sublist.append ha.sublist).subset hx)
  high x hx := h.high x ((hs.sublist.append ha.sublist).subset hx)
  sorted := h.sorted.sublist ha.sublist
  order := h.order.sublist hs.sublist
  cross y hy x hx := h.cross y (ha.subset hy) x (hs.subset hx)

/-! ## Moves -/

theorem stop_le_of_pos_lt (hl : seg.tcplen ≤ segMax) {x : TcpSeg} (hp : seg.pos r ≤ x.pos r) :
    seg.stop r ≤ x.pos r + slack := by
  have e1 := segMax_eq
  have e2 := slack_eq
  unfold TcpSeg.stop
  omega

theorem insertSeg_order (hl : ∀ x ∈ unsent, x.tcplen ≤ segMax)
    (hn : ∀ x ∈ unsent, Near r x.tcphdr.seqno) (hs : Near r seg.tcphdr.seqno)
    (ho : unsent.Pairwise fun h x : TcpSeg => h.stop r ≤ x.pos r + slack)
    (hc : ∀ x ∈ unsent, seg.stop r ≤ x.pos r + slack) :
    (insertSeg seg unsent).Pairwise fun h x : TcpSeg => h.stop r ≤ x.pos r + slack := by
  induction unsent with
  | nil => exact List.pairwise_singleton _ _
  | cons cur rest ih =>
    obtain ⟨ho₁, ho₂⟩ := List.pairwise_cons.mp ho
    have hrec := ih (fun x hx => hl x (List.mem_cons_of_mem _ hx))
      (fun x hx => hn x (List.mem_cons_of_mem _ hx)) ho₂ (fun x hx => hc x (List.mem_cons_of_mem _ hx))
    unfold insertSeg
    split
    · next hlt =>
      rw [tcpSeqLt_iff (hn cur List.mem_cons_self) hs] at hlt
      refine List.pairwise_cons.mpr ⟨fun x hx => ?_, hrec⟩
      rcases List.mem_cons.mp ((perm_insertSeg seg rest).subset hx) with rfl | hx
      · exact stop_le_of_pos_lt (hl cur List.mem_cons_self) hlt.le
      · exact ho₁ x hx
    · exact List.pairwise_cons.mpr ⟨hc, ho⟩

theorem insertSeg_sorted (hn : ∀ x ∈ unacked, Near r x.tcphdr.seqno) (hs : Near r seg.tcphdr.seqno)
    (ho : unacked.Pairwise fun x y : TcpSeg => x.pos r ≤ y.pos r) :
    (insertSeg seg unacked).Pairwise fun x y : TcpSeg => x.pos r ≤ y.pos r := by
  induction unacked with
  | nil => exact List.pairwise_singleton _ _
  | cons cur rest ih =>
    obtain ⟨ho₁, ho₂⟩ := List.pairwise_cons.mp ho
    have hrec := ih (fun x hx => hn x (List.mem_cons_of_mem _ hx)) ho₂
    unfold insertSeg
    split
    · next hlt =>
      rw [tcpSeqLt_iff (hn cur List.mem_cons_self) hs] at hlt
      refine List.pairwise_cons.mpr ⟨fun x hx => ?_, hrec⟩
      rcases List.mem_cons.mp ((perm_insertSeg seg rest).subset hx) with rfl | hx
      · exact hlt.le
      · exact ho₁ x hx
    · next hge =>
      rw [tcpSeqLt_iff (hn cur List.mem_cons_self) hs] at hge
      refine List.pairwise_cons.mpr ⟨fun x hx => ?_, ho⟩
      have hcur : seg.pos r ≤ cur.pos r := by
        unfold TcpSeg.pos
        omega
      rcases List.mem_cons.mp hx with rfl | hx
      · exact hcur
      · exact hcur.trans (ho₁ x hx)

theorem putUnacked_sorted (hn : ∀ x ∈ unacked, Near r x.tcphdr.seqno)
    (hs : Near r seg.tcphdr.seqno) (ho : unacked.Pairwise fun x y : TcpSeg => x.pos r ≤ y.pos r) :
    (putUnacked seg unacked).Pairwise fun x y : TcpSeg => x.pos r ≤ y.pos r := by
  unfold putUnacked
  split
  · exact List.pairwise_singleton _ _
  · next useg hu =>
    obtain ⟨init, rfl⟩ := List.getLast?_eq_some_iff.mp hu
    split
    · exact insertSeg_sorted hn hs ho
    · next hge =>
      rw [tcpSeqLt_iff hs (hn useg (by simp))] at hge
      have hlast : useg.pos r ≤ seg.pos r := by
        unfold TcpSeg.pos
        omega
      refine List.pairwise_append.mpr ⟨ho, List.pairwise_singleton _ _, fun x hx y hy => ?_⟩
      obtain rfl := List.mem_singleton.mp hy
      rcases List.mem_append.mp hx with hx | hx
      · exact ((List.pairwise_append.mp ho).2.2 x hx useg (List.mem_singleton_self _)).trans hlast
      · obtain rfl := List.mem_singleton.mp hx
        exact hlast

/-- The head of `unsent` is replaced by a segment with the same numbers. -/
theorem Placed.restamp (h : Placed r lbb (seg :: rest) unacked) (hs : seg.Same seg') :
    Placed r lbb (seg' :: rest) unacked := by
  have hm {p : TcpSeg → Prop} (hp : p seg → p seg') (ha : ∀ x ∈ seg :: rest ++ unacked, p x) :
      ∀ x ∈ seg' :: rest ++ unacked, p x := by
    intro x hx
    rcases List.mem_cons.mp hx with rfl | hx
    · exact hp (ha seg List.mem_cons_self)
    · exact ha x (List.mem_cons_of_mem _ hx)
  obtain ⟨ho₁, ho₂⟩ := List.pairwise_cons.mp h.order
  exact
    { bound := h.bound
      sized := hm hs.sized h.sized
      low := hm (fun hp => by rw [hs.pos]; exact hp) h.low
      high := hm (fun hp => by rw [hs.dataStop]; exact hp) h.high
      sorted := h.sorted
      order := List.pairwise_cons.mpr ⟨fun x hx => by rw [hs.stop]; exact ho₁ x hx, ho₂⟩
      cross := fun y hy x hx => by
        rcases List.mem_cons.mp hx with rfl | hx
        · rw [hs.pos]
          exact h.cross y hy seg List.mem_cons_self
        · exact h.cross y hy x (List.mem_cons_of_mem _ hx) }

/-- The head of `unsent` is transmitted. -/
theorem Placed.send (h : Placed r lbb (seg :: rest) unacked) :
    Placed r lbb rest (putUnacked seg unacked) := by
  obtain ⟨ho₁, ho₂⟩ := List.pairwise_cons.mp h.order
  have hsub : rest ++ putUnacked seg unacked ⊆ seg :: rest ++ unacked := by
    intro x hx
    rcases List.mem_append.mp hx with hx | hx
    · exact List.mem_cons_of_mem _ (List.mem_append_left _ hx)
    · rcases List.mem_cons.mp ((perm_putUnacked seg unacked).subset hx) with rfl | hx
      · exact List.mem_cons_self
      · exact List.mem_cons_of_mem _ (List.mem_append_right _ hx)
  exact
    { bound := h.bound
      sized := fun x hx => h.sized x (hsub hx)
      low := fun x hx => h.low x (hsub hx)
      high := fun x hx => h.high x (hsub hx)
      sorted := putUnacked_sorted
        (fun x hx => h.near (List.mem_cons_of_mem _ (List.mem_append_right _ hx)))
        (h.near List.mem_cons_self) h.sorted
      order := ho₂
      cross := fun y hy x hx => by
        rcases List.mem_cons.mp ((perm_putUnacked seg unacked).subset hy) with rfl | hy
        · exact ho₁ x hx
        · exact h.cross y hy x (List.mem_cons_of_mem _ hx) }

/-- `tcp_rexmit_rto` puts `unacked` in front of `unsent`. -/
theorem Placed.rto (h : Placed r lbb unsent unacked) : Placed r lbb (unacked ++ unsent) [] := by
  have hsub : unacked ++ unsent ++ [] ⊆ unsent ++ unacked := by
    rw [List.append_nil]
    exact (List.perm_append_comm).subset
  exact
    { bound := h.bound
      sized := fun x hx => h.sized x (hsub hx)
      low := fun x hx => h.low x (hsub hx)
      high := fun x hx => h.high x (hsub hx)
      sorted := .nil
      order := by
        refine List.pairwise_append.mpr ⟨?_, h.order, h.cross⟩
        refine h.sorted.imp_of_mem fun {x y} hx hy hxy => ?_
        exact stop_le_of_pos_lt (h.tcplen (List.mem_append_right _ hx)) hxy
      cross := fun y hy => by cases hy }

/-- `tcp_rexmit` puts a segment that is not long acknowledged back on `unsent`. -/
theorem Placed.rexmit (h : Placed r lbb unsent (seg :: rest)) (hp : -segMax < seg.pos r) :
    Placed r lbb (insertSeg seg unsent) rest := by
  have hsub : insertSeg seg unsent ++ rest ⊆ unsent ++ seg :: rest := by
    intro x hx
    rcases List.mem_append.mp hx with hx | hx
    · rcases List.mem_cons.mp ((perm_insertSeg seg unsent).subset hx) with rfl | hx
      · exact List.mem_append_right _ List.mem_cons_self
      · exact List.mem_append_left _ hx
    · exact List.mem_append_right _ (List.mem_cons_of_mem _ hx)
  have e1 := segMax_eq
  have e2 := slack_eq
  have e3 := sndBuf_eq
  exact
    { bound := h.bound
      sized := fun x hx => h.sized x (hsub hx)
      low := fun x hx => h.low x (hsub hx)
      high := fun x hx => h.high x (hsub hx)
      sorted := (List.pairwise_cons.mp h.sorted).2
      order := insertSeg_order (fun x hx => h.tcplen (List.mem_append_left _ hx))
        (fun x hx => h.near (List.mem_append_left _ hx))
        (h.near (List.mem_append_right _ List.mem_cons_self)) h.order
        (fun x hx => h.cross seg List.mem_cons_self x hx)
      cross := fun y hy x hx => by
        rcases List.mem_cons.mp ((perm_insertSeg seg unsent).subset hx) with rfl | hx
        · have h1 := h.stop (List.mem_append_right _ (List.mem_cons_of_mem _ hy))
          have h2 := h.bound
          omega
        · exact h.cross y (List.mem_cons_of_mem _ hy) x hx }

/-- In front of a segment that is not long acknowledged any other may stand. -/
theorem Placed.stop_le (h : Placed r lbb unsent unacked) {x y : TcpSeg} (hy : y ∈ unsent ++ unacked)
    (hx : -segMax < x.pos r) : y.stop r ≤ x.pos r + slack := by
  have h1 := h.stop hy
  have h2 := h.bound
  have e1 := segMax_eq
  have e2 := slack_eq
  have e3 := sndBuf_eq
  omega

theorem pos_of_stop_pos (hl : seg.tcplen ≤ segMax) (h : 0 < seg.stop r) : -segMax < seg.pos r := by
  unfold TcpSeg.stop at h
  omega

/-- A segment that is long acknowledged does not stay on `unsent` behind the ACK that made
    `tcp_rexmit` put it there. -/
theorem suffix_of_insertSeg {q : List TcpSeg} (hn : ∀ x ∈ unsent, Near r x.tcphdr.seqno)
    (hl : ∀ x ∈ unsent, x.tcplen ≤ segMax) (hs : Near r seg.tcphdr.seqno)
    (hsl : seg.tcplen ≤ segMax) (hold : seg.pos r ≤ -segMax) (hq : q <:+ insertSeg seg unsent)
    (hf : ∀ x ∈ q.head?, 0 < x.stop r) : q <:+ unsent := by
  have hstale {x : TcpSeg} (hx : x.tcplen ≤ segMax) (hp : x.pos r ≤ -segMax) : ¬ 0 < x.stop r := by
    intro h
    have := pos_of_stop_pos hx h
    omega
  induction unsent with
  | nil =>
    rcases List.suffix_cons_iff.mp hq with rfl | hq
    · exact absurd (hf seg rfl) (hstale hsl hold)
    · exact hq
  | cons cur rest ih =>
    unfold insertSeg at hq
    split at hq
    · next hlt =>
      rw [tcpSeqLt_iff (hn cur List.mem_cons_self) hs] at hlt
      rcases List.suffix_cons_iff.mp hq with rfl | hq
      · refine absurd (hf cur rfl) (hstale (hl cur List.mem_cons_self) ?_)
        unfold TcpSeg.pos at hold ⊢
        omega
      · exact (ih (fun x hx => hn x (List.mem_cons_of_mem _ hx))
          (fun x hx => hl x (List.mem_cons_of_mem _ hx)) hq).trans (List.suffix_cons _ _)
    · rcases List.suffix_cons_iff.mp hq with rfl | hq
      · exact absurd (hf seg rfl) (hstale hsl hold)
      · exact hq

/-- A fast retransmission, and what the ACK behind it takes from `unsent`. -/
theorem Placed.rexmit_drop {unsent' : List TcpSeg} (h : Placed r lbb unsent (seg :: rest))
    (hs : unsent' <:+ insertSeg seg unsent) (hf : ∀ x ∈ unsent'.head?, 0 < x.stop r) :
    Placed r lbb unsent' rest := by
  by_cases hp : -segMax < seg.pos r
  · exact (h.rexmit hp).suffix hs (List.suffix_refl _)
  · have hm : seg ∈ unsent ++ seg :: rest := List.mem_append_right _ List.mem_cons_self
    refine h.suffix (suffix_of_insertSeg (fun x hx => h.near (List.mem_append_left _ hx))
      (fun x hx => h.tcplen (List.mem_append_left _ hx)) (h.near hm) (h.tcplen hm) (by omega) hs hf)
      (List.suffix_cons _ _)

/-- Positions seen from another reference point. -/
theorem Placed.shiftPos {r' : U32} (h : Placed r lbb unsent unacked) (hr' : Near r r') {x : TcpSeg}
    (hx : x ∈ unsent ++ unacked) : x.pos r' = x.pos r - dist r' r ∧
      x.stop r' = x.stop r - dist r' r ∧ x.dataStop r' = x.dataStop r - dist r' r := by
  have hp : x.pos r' = x.pos r - dist r' r := (h.near hx).dist hr'
  unfold TcpSeg.stop TcpSeg.dataStop
  rw [hp]
  refine ⟨rfl, ?_, ?_⟩ <;> ring

/-- The reference point moves to `r'`. -/
theorem Placed.shift (r' : U32) (h : Placed r lbb unsent unacked) (h0 : 0 ≤ dist r' r)
    (h1 : dist r' r ≤ lbb + 1) (hlow : ∀ x ∈ unsent ++ unacked, -slack ≤ x.pos r') :
    Placed r' (lbb - dist r' r) unsent unacked := by
  have hb := h.bound
  have e3 := sndBuf_eq
  have hr' : Near r r' := ⟨by omega, by omega⟩
  exact
    { bound := by omega
      sized := h.sized
      low := hlow
      high := by
        intro x hx
        rw [(h.shiftPos hr' hx).2.2]
        have := h.high x hx
        omega
      sorted := h.sorted.imp_of_mem fun {x y} hx hy hxy => by
        rw [(h.shiftPos hr' (List.mem_append_right _ hx)).1,
          (h.shiftPos hr' (List.mem_append_right _ hy)).1]
        omega
      order := h.order.imp_of_mem fun {x y} hx hy hxy => by
        rw [(h.shiftPos hr' (List.mem_append_left _ hx)).2.1,
          (h.shiftPos hr' (List.mem_append_left _ hy)).1]
        omega
      cross := fun y hy x hx => by
        rw [(h.shiftPos hr' (List.mem_append_right _ hy)).2.1,
          (h.shiftPos hr' (List.mem_append_left _ hx)).1]
        have := h.cross y hy x hx
        omega }

/-- `lastack` moves to `r'`, and the acknowledged segments leave from the front of the queues. -/
theorem Placed.ack {r' : U32} {unsent' unacked' : List TcpSeg} (h : Placed r lbb unsent unacked)
    (h0 : 0 ≤ dist r' r) (h1 : dist r' r ≤ lbb + 1) (hs : unsent' <:+ unsent)
    (ha : unacked' <:+ unacked) (hsf : ∀ x ∈ unsent'.head?, 0 < x.stop r')
    (haf : ∀ x ∈ unacked'.head?, 0 < x.stop r') :
    Placed r' (lbb - dist r' r) unsent' unacked' := by
  have hb := h.bound
  have e1 := segMax_eq
  have e2 := slack_eq
  have e3 := sndBuf_eq
  have hr' : Near r r' := ⟨by omega, by omega⟩
  have hk := h.suffix hs ha
  refine hk.shift r' h0 h1 fun x hx => ?_
  rcases List.mem_append.mp hx with hx | hx
  · cases hq : unsent' with
    | nil => rw [hq] at hx; cases hx
    | cons y q =>
      have hym : y ∈ unsent' := by rw [hq]; exact List.mem_cons_self
      have hy := hsf y (by rw [hq]; rfl)
      rw [hq] at hx
      rcases List.mem_cons.mp hx with rfl | hx'
      · have := pos_of_stop_pos (hk.tcplen (List.mem_append_left _ hym)) hy
        omega
      · have ho := hk.order
        rw [hq] at ho
        have := (List.pairwise_cons.mp ho).1 x hx'
        rw [(hk.shiftPos hr' (List.mem_append_left _ hym)).2.1] at hy
        rw [(hk.shiftPos hr' (List.mem_append_left _ (by rw [hq]; exact hx))).1]
        omega
  · cases hq : unacked' with
    | nil => rw [hq] at hx; cases hx
    | cons y q =>
      have hym : y ∈ unacked' := by rw [hq]; exact List.mem_cons_self
      have hy := pos_of_stop_pos (hk.tcplen (List.mem_append_right _ hym)) (haf y (by rw [hq]; rfl))
      rw [hq] at hx
      rcases List.mem_cons.mp hx with rfl | hx'
      · omega
      · have ho := hk.sorted
        rw [hq] at ho
        have := (List.pairwise_cons.mp ho).1 x hx'
        rw [(hk.shiftPos hr' (List.mem_append_right _ hym)).1] at hy
        rw [(hk.shiftPos hr' (List.mem_append_right _ (by rw [hq]; exact hx))).1]
        omega

/-- New segments are queued. -/
theorem Placed.append {lbb' : ℤ} {queue : List TcpSeg} (h : Placed r lbb unsent unacked)
    (hb : lbb ≤ lbb') (hb' : lbb' ≤ TCP_SND_BUF)
    (hq : ∀ x ∈ queue, x.Sized ∧ -1 ≤ x.pos r ∧ x.dataStop r ≤ lbb') :
    Placed r lbb' (unsent ++ queue) unacked := by
  have e1 := segMax_eq
  have e2 := slack_eq
  have e3 := sndBuf_eq
  have hm {x : TcpSeg} (hx : x ∈ unsent ++ queue ++ unacked) : x ∈ unsent ++ unacked ∨ x ∈ queue := by
    simp only [List.mem_append] at hx ⊢
    tauto
  have hhigh : ∀ x ∈ unsent ++ queue ++ unacked, x.dataStop r ≤ lbb' := by
    intro x hx
    rcases hm hx with hx | hx
    · have := h.high x hx
      omega
    · exact (hq x hx).2.2
  have hfresh {x y : TcpSeg} (hy : y ∈ unsent ++ queue ++ unacked) (hx : x ∈ queue) :
      y.stop r ≤ x.pos r + slack := by
    have h1 := hhigh y hy
    have h3 := y.stop_le r
    have h2 := (hq x hx).2.1
    omega
  exact
    { bound := hb'
      sized := fun x hx => (hm hx).elim (h.sized x) fun hx => (hq x hx).1
      low := fun x hx => (hm hx).elim (h.low x) fun hx => by
        have := (hq x hx).2.1
        omega
      high := hhigh
      sorted := h.sorted
      order := by
        refine List.pairwise_append.mpr ⟨h.order, ?_, fun y hy x hx =>
          hfresh (List.mem_append_left _ (List.mem_append_left _ hy)) hx⟩
        exact List.pairwise_iff_forall_sublist.mpr fun {y x} hs => hfresh
          (List.mem_append_left _ (List.mem_append_right _ (hs.subset List.mem_cons_self)))
          (hs.subset (List.mem_cons_of_mem _ List.mem_cons_self))
      cross := fun y hy x hx => by
        rcases List.mem_append.mp hx with hx | hx
        · exact h.cross y hy x hx
        · exact hfresh (List.mem_append_right _ hy) hx }

/-- The last segment of `unsent` grows. -/
theorem Placed.grow (lbb' : ℤ) {init : List TcpSeg} (h : Placed r lbb (init ++ [seg]) unacked)
    (hb : lbb ≤ lbb') (hb' : lbb' ≤ TCP_SND_BUF) (hseq : seg'.tcphdr.seqno = seg.tcphdr.seqno)
    (hl : seg'.Sized) (hstop : seg'.dataStop r ≤ lbb') :
    Placed r lbb' (init ++ [seg']) unacked := by
  have hpos : seg'.pos r = seg.pos r := by
    unfold TcpSeg.pos
    rw [hseq]
  have hm {p : TcpSeg → Prop} (hp : p seg') (ha : ∀ x ∈ init ++ [seg] ++ unacked, p x) :
      ∀ x ∈ init ++ [seg'] ++ unacked, p x := by
    intro x hx
    simp only [List.mem_append, List.mem_singleton] at hx ha
    rcases hx with (hx | rfl) | hx
    · exact ha x (.inl (.inl hx))
    · exact hp
    · exact ha x (.inr hx)
  obtain ⟨ho₁, -, ho₃⟩ := List.pairwise_append.mp h.order
  exact
    { bound := hb'
      sized := hm hl h.sized
      low := hm (by
        rw [hpos]
        exact h.low seg (by simp)) h.low
      high := hm hstop fun x hx => by
        have := h.high x hx
        omega
      sorted := h.sorted
      order := by
        refine List.pairwise_append.mpr ⟨ho₁, List.pairwise_singleton _ _, fun y hy x hx => ?_⟩
        obtain rfl := List.mem_singleton.mp hx
        rw [hpos]
        exact ho₃ y hy seg (List.mem_singleton_self _)
      cross := fun y hy x hx => by
        rcases List.mem_append.mp hx with hx | hx
        · exact h.cross y hy x (List.mem_append_left _ hx)
        · obtain rfl := List.mem_singleton.mp hx
          rw [hpos]
          exact h.cross y hy seg (List.mem_append_right _ (List.mem_singleton_self _)) }

end Rudp
